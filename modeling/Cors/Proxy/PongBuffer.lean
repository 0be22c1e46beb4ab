import Cors.Proxy.NeighborTable

/-! # The buffer of a PONG

The answer to a PING is built in a buffer of fixed size. The PING says how many neighbours it
wants, up to 255, and as many are written behind the header as there are besides the asker.
The buffer has room for 155 of them, and nothing bounds the table below that.
-/

namespace Cors

open ByteFormat

namespace SimpleNbmtr

/-! ## Where the loop ends -/

/-- How many neighbours the PING wants, as it is read from the buffer it was copied to. -/
def requested (s : SimpleNbmtr) (msg : Mem) (len : Nat) : UInt8 :=
  (s.buff.write 0 (msg.read 0 len)).get u8 nbnumPos

/-- The neighbours besides the asker. -/
def others (s : SimpleNbmtr) (peeraddr : SockaddrIn) : List Neighbor :=
  s.candidates peeraddr s.nl

/-- Every pointer in the list was allocated. -/
def Allocated (s : SimpleNbmtr) : Prop := ∀ p ∈ s.nl, p < s.table.fresh

theorem learnPeer_buff (s : SimpleNbmtr) (now : Int32) (peeraddr : SockaddrIn) :
    (s.learnPeer now peeraddr).buff = s.buff := by
  unfold learnPeer
  split <;> rfl

theorem pushFront_candidates {s : SimpleNbmtr} (allocated : Allocated s) (nb : Neighbor)
    (peeraddr : SockaddrIn) :
    (s.pushFront nb).candidates peeraddr s.nl = s.candidates peeraddr s.nl := by
  have same : s.nl.map (s.pushFront nb).deref = s.nl.map s.deref := by
    apply List.map_congr_left
    intro p member
    exact Registry.enter_heap_ne _ _ _ (Nat.ne_of_lt (allocated p member))
  rw [candidates, candidates, same]

theorem pushFront_allocated {s : SimpleNbmtr} (allocated : Allocated s) (nb : Neighbor) :
    Allocated (s.pushFront nb) := by
  intro p member
  have next : (s.pushFront nb).table.fresh = s.table.fresh + 1 := rfl
  rw [next]
  cases List.mem_cons.mp member with
  | inl new => omega
  | inr old => exact Nat.lt_succ_of_lt (allocated p old)

/-- A sender that is learned is the asker, so the others are the same. -/
theorem learnPeer_others {s : SimpleNbmtr} (allocated : Allocated s) (now : Int32)
    (peeraddr : SockaddrIn) :
    (s.learnPeer now peeraddr).others peeraddr = s.others peeraddr := by
  unfold learnPeer
  split
  · rfl
  · let nb := Neighbor.learned Neighbor.peer peeraddr.addr peeraddr.port now
    have own : (s.pushFront nb).deref s.table.fresh = nb := Registry.enter_heap_self _ _ _
    have grown : (s.pushFront nb).others peeraddr =
        (s.pushFront nb).candidates peeraddr s.nl := by
      change (s.pushFront nb).candidates peeraddr (s.table.fresh :: s.nl) = _
      rw [candidates, List.map_cons, own]
      exact List.filter_cons_of_neg (by simp [nb, Neighbor.learned, Neighbor.new])
    rw [grown, pushFront_candidates allocated, others]

theorem candidates_reverse (s : SimpleNbmtr) (peeraddr : SockaddrIn) (ps : List Nat) :
    (s.candidates peeraddr ps.reverse).length = (s.candidates peeraddr ps).length := by
  rw [candidates, candidates, List.map_reverse, List.filter_reverse, List.length_reverse]

theorem finalPos_eq {s : SimpleNbmtr} (allocated : Allocated s) (now : Int32) (msg : Mem)
    (len : Nat) (peeraddr : SockaddrIn) :
    s.finalPos now msg len peeraddr =
      pongHeaderLen +
        entryLen * min (s.requested msg len).toNat (s.others peeraddr).length := by
  have start : (0 : UInt8) ≤ s.requested msg len := UInt8.le_iff_toNat_le.mpr (Nat.zero_le _)
  have count := candidates_reverse (s.learnPeer now peeraddr) peeraddr
    (s.learnPeer now peeraddr).nl
  have same := learnPeer_others allocated now peeraddr
  rw [others, others] at same
  rw [same] at count
  unfold finalPos
  simp only [learnPeer_buff]
  change (provide _ peeraddr (s.requested msg len) _ 0 _ _).2.1 = _
  rw [provide_eq _ _ _ _ _ _ _ start]
  simp only [UInt8.toNat_zero, Nat.sub_zero, List.length_take, count, others]

theorem processProbePing_length (s : SimpleNbmtr) (now : Int32) (msg : Mem) (len : Nat)
    (peeraddr : SockaddrIn) :
    ∃ d, (s.processProbePing now msg len peeraddr).2 = [d] ∧
      d.bytes.length = s.finalPos now msg len peeraddr :=
  ⟨_, rfl, Mem.read_length _ _ _⟩

/-! ## What is written -/

theorem put_beyond (m : Mem) (f : ByteFormat α) (x : α) {pos i : Nat} (beyond : pos + f.width ≤ i) :
    m.put f pos x i = m i := by
  apply Mem.write_of_ge
  rwa [f.encode_length]

theorem pongHeader_beyond (ifvec : List NetInterface) (buff : Mem) {i : Nat}
    (beyond : pongHeaderLen ≤ i) : pongHeader ifvec buff i = buff i := by
  have further : 21 ≤ i := beyond
  unfold pongHeader
  dsimp only
  rw [put_beyond _ u16 _ (Nat.le_trans (by decide) further),
    put_beyond _ u32 _ (Nat.le_trans (by decide) further),
    put_beyond _ u8 _ (Nat.le_trans (by decide) further),
    put_beyond _ u8 _ (Nat.le_trans (by decide) further)]

/-- Nothing is written behind the copy of the PING and the last neighbour. -/
theorem processProbePing_beyond (s : SimpleNbmtr) (now : Int32) (msg : Mem) (len : Nat)
    (peeraddr : SockaddrIn) {i : Nat} (copied : len ≤ i)
    (beyond : s.finalPos now msg len peeraddr ≤ i) :
    (s.processProbePing now msg len peeraddr).1.buff i = s.buff i := by
  obtain ⟨d, sent, length⟩ := s.processProbePing_length now msg len peeraddr
  rw [processProbePing_spec] at sent ⊢
  obtain rfl := List.singleton_inj.mp sent
  rw [pong, Mem.read_length] at length
  rw [← length] at beyond
  have behind : pongHeaderLen ≤ i := Nat.le_trans (Nat.le_add_right _ _) beyond
  have counted : nbnumPos + u8.width ≤ i := Nat.le_trans (by decide) behind
  simp only [pongBuffer]
  rw [put_beyond _ u8 _ counted, Mem.write_of_ge _ _ (by rwa [entries_length]),
    pongHeader_beyond _ _ behind, Mem.write_of_ge _ _ (by rwa [Mem.read_length, Nat.zero_add]),
    learnPeer_buff]

/-! ## Reachable tables -/

/-- A table with no new object. -/
structure Shrunk (s s' : SimpleNbmtr) : Prop where
  fresh : s'.table.fresh = s.table.fresh
  subset : s'.nl ⊆ s.nl

theorem Shrunk.trans {s s' s'' : SimpleNbmtr} (first : Shrunk s s') (second : Shrunk s' s'') :
    Shrunk s s'' :=
  ⟨second.fresh.trans first.fresh, List.Subset.trans second.subset first.subset⟩

theorem Shrunk.allocated {s s' : SimpleNbmtr} (shrunk : Shrunk s s') (allocated : Allocated s) :
    Allocated s' := by
  intro p member
  rw [shrunk.fresh]
  exact allocated p (shrunk.subset member)

theorem learnPeer_allocated {s : SimpleNbmtr} (allocated : Allocated s) (now : Int32)
    (peeraddr : SockaddrIn) : Allocated (s.learnPeer now peeraddr) := by
  unfold learnPeer
  split
  · exact allocated
  · exact pushFront_allocated allocated _

theorem learnListed_allocated {s : SimpleNbmtr} (allocated : Allocated s) (now : Int32)
    (msg : Mem) (k pos : Nat) : Allocated (learnListed now msg k pos s) := by
  induction k generalizing pos s with
  | zero => exact allocated
  | succ k ih =>
      unfold learnListed
      split
      · exact ih allocated pos
      · exact ih (pushFront_allocated allocated _) (pos + entryLen)

theorem processProbePong_allocated {s : SimpleNbmtr} (allocated : Allocated s) (clock : Clock)
    (msg : Mem) (peeraddr : SockaddrIn) : Allocated (s.processProbePong clock msg peeraddr) := by
  unfold processProbePong
  split
  · exact allocated
  · split
    · exact allocated
    · rename_i p _
      have modified : Shrunk s (s.modify p (updated clock msg)) :=
        ⟨rfl, List.Subset.refl _⟩
      exact learnListed_allocated (modified.allocated allocated) _ _ _ _

theorem abate_inversion {t t' : SimpleNbmtr} {back : Nat} {now : Int32}
    (abated : t.abate back now = some t') :
    t' = t ∨ ∃ last q, t.nm.lookup (t.deref last).addr = some q ∧
      t.table.evict Neighbor.addr = some t'.table ∧
      t' = { t with table := { t.table with
        index := t.nm.erase (t.deref last).addr
        order := t.nl.dropLast } } := by
  unfold abate at abated
  split at abated
  · obtain ⟨table, evicted, rfl⟩ := Option.map_eq_some_iff.mp abated
    obtain ⟨last, q, -, stored, same⟩ := Registry.evict_cases evicted
    exact .inr ⟨last, q, stored, evicted, congrArg (fun table => { t with table }) same⟩
  · exact .inl (Option.some.inj abated).symm

theorem abate_shrunk {t t' : SimpleNbmtr} {back : Nat} {now : Int32}
    (abated : t.abate back now = some t') : Shrunk t t' := by
  obtain rfl | ⟨last, q, -, -, rfl⟩ := abate_inversion abated
  · exact ⟨rfl, List.Subset.refl _⟩
  · exact ⟨rfl, (List.dropLast_sublist _).subset⟩

theorem rotate_shrunk (s : SimpleNbmtr) : Shrunk s s.rotate := by
  refine ⟨rfl, fun p member => ?_⟩
  cases List.mem_append.mp member with
  | inl later => exact List.mem_of_mem_tail later
  | inr first => exact List.mem_of_mem_head? (Option.mem_toList.mp first)

theorem probe_shrunk {s s' : SimpleNbmtr} {clock : Clock} {sent : List Datagram}
    (run : s.probe clock = some (s', sent)) : Shrunk s s' := by
  cases split : s.nl with
  | nil =>
      have stuck : s.probe clock = none := by simp [probe, split]
      rw [stuck] at run
      cases run
  | cons head tail =>
      obtain ⟨t, sent', back, -, -, probed, effect⟩ := probe_cases split clock
      rw [probed] at run
      obtain ⟨t', abated, result⟩ := Option.map_eq_some_iff.mp run
      obtain ⟨rfl, -⟩ := Prod.mk.inj result
      have turned : Shrunk s t := by
        obtain ⟨d, -, -, table⟩ | ⟨-, d', d, -, -, -, table⟩ := effect
        · constructor
          · rw [table]
            rfl
          · rw [nl, table]
            exact List.Subset.refl _
        · constructor
          · rw [table]
            rfl
          · rw [nl, table]
            exact List.Subset.refl _
      exact (turned.trans (abate_shrunk abated)).trans t'.rotate_shrunk

theorem step_allocated {s s' : SimpleNbmtr} {e : Event} (allocated : Allocated s)
    (stepped : s.step e = some s') : Allocated s' := by
  cases e with
  | probe clock =>
      obtain ⟨outcome, run, rfl⟩ := Option.map_eq_some_iff.mp stepped
      exact (probe_shrunk run).allocated allocated
  | ping now msg len peeraddr =>
      obtain ⟨-, rfl⟩ := step_ping stepped
      exact learnPeer_allocated allocated now peeraddr
  | pong clock msg peeraddr =>
      obtain rfl := Option.some.inj stepped
      exact processProbePong_allocated allocated clock msg peeraddr

theorem loadTable_concat (ifvec : List NetInterface) (lines : List Neighbor) (nb : Neighbor) :
    loadTable ifvec (lines ++ [nb]) =
      if accepts ifvec nb then (loadTable ifvec lines).pushBack Neighbor.addr nb
      else loadTable ifvec lines :=
  List.foldl_append

theorem loadTable_neighbors (ifvec : List NetInterface) (lines : List Neighbor) :
    (loadTable ifvec lines).order.map (loadTable ifvec lines).heap =
        lines.filter (accepts ifvec) ∧
      ∀ p ∈ (loadTable ifvec lines).order, p < (loadTable ifvec lines).fresh := by
  induction lines using List.reverseRecOn with
  | nil => exact ⟨rfl, fun p member => absurd member List.not_mem_nil⟩
  | append_singleton lines nb ih =>
      obtain ⟨same, below⟩ := ih
      rw [loadTable_concat, List.filter_append]
      by_cases good : accepts ifvec nb = true
      · rw [if_pos good, List.filter_cons_of_pos good]
        constructor
        · have older : (loadTable ifvec lines).order.map
              ((loadTable ifvec lines).pushBack Neighbor.addr nb).heap =
              (loadTable ifvec lines).order.map (loadTable ifvec lines).heap := by
            apply List.map_congr_left
            intro p member
            exact Registry.enter_heap_ne _ _ _ (Nat.ne_of_lt (below p member))
          have newer : ((loadTable ifvec lines).pushBack Neighbor.addr nb).heap
              (loadTable ifvec lines).fresh = nb := Registry.enter_heap_self _ _ _
          change ((loadTable ifvec lines).order ++ [(loadTable ifvec lines).fresh]).map _ = _
          rw [List.map_append, older, same, List.map_singleton, newer]
          rfl
        · intro p member
          cases List.mem_append.mp member with
          | inl old => exact Nat.lt_succ_of_lt (below p old)
          | inr new => exact List.mem_singleton.mp new ▸ Nat.lt_succ_self _
      · rw [if_neg good, List.filter_cons_of_neg good, List.filter_nil, List.append_nil]
        exact ⟨same, below⟩

theorem load_cases {param : Param} {ifvec : List NetInterface} {lines : List Neighbor}
    {junk : Mem} {s : SimpleNbmtr} (loaded : load param ifvec lines junk = some s) :
    s.nl.map s.deref = lines.filter (accepts ifvec) ∧ Allocated s := by
  unfold load at loaded
  dsimp only at loaded
  split at loaded
  · cases loaded
  · obtain rfl := Option.some.inj loaded
    exact loadTable_neighbors ifvec lines

theorem attempt_allocated {s s' : SimpleNbmtr} {es : List Event} (allocated : Allocated s)
    (ran : Run.attempt step s es = some s') : Allocated s' :=
  Run.attempt_keeps (fun _ _ _ => step_allocated) allocated ran

/-! ## The room for neighbours -/

/-- The most neighbours for which there is room. -/
def pongRoom : Nat := (corsMaxMsgSize - pongHeaderLen) / entryLen

theorem fits_iff (count : Nat) :
    pongHeaderLen + entryLen * count ≤ corsMaxMsgSize ↔ count ≤ pongRoom := by
  have room : pongRoom = 155 := rfl
  rw [room, pongHeaderLen, entryLen, corsMaxMsgSize]
  omega

/-- In every state a run can reach a PONG fits its buffer just in case the PING wants no more
    neighbours than there is room for, or there are no more of them. -/
theorem pong_fits_iff {param : Param} {ifvec : List NetInterface} {lines : List Neighbor}
    {junk : Mem} {loaded s : SimpleNbmtr} (load_eq : load param ifvec lines junk = some loaded)
    {es : List Event} (ran : Run.attempt step loaded es = some s) (now : Int32) (msg : Mem)
    (len : Nat) (peeraddr : SockaddrIn) :
    (s.finalPos now msg len peeraddr ≤ corsMaxMsgSize ↔
        (s.requested msg len).toNat ≤ pongRoom ∨ (s.others peeraddr).length ≤ pongRoom) ∧
      (∃ d, (s.processProbePing now msg len peeraddr).2 = [d] ∧
        d.bytes.length = s.finalPos now msg len peeraddr) ∧
      ∀ i, len ≤ i → s.finalPos now msg len peeraddr ≤ i →
        (s.processProbePing now msg len peeraddr).1.buff i = s.buff i := by
  have allocated := attempt_allocated (load_cases load_eq).2 ran
  refine ⟨?_, s.processProbePing_length now msg len peeraddr, fun i copied beyond => ?_⟩
  · rw [finalPos_eq allocated, fits_iff]
    omega
  · exact s.processProbePing_beyond now msg len peeraddr copied beyond

/-! ## A crowd of neighbours -/

/-- A configuration with the neighbours 8.8.8.0, 8.8.8.1 and so on. -/
def crowd (count : Nat) : List Neighbor :=
  (List.range count).map fun i =>
    .learned Neighbor.peer (dotted 8 8 8 (UInt8.ofNat i)) 80 0

/-- A PING that wants as many neighbours as it can ask for. -/
def greedyPing : Mem :=
  Mem.padded ([PacketType.probePing.code] ++ List.replicate 8 0 ++ [255] ++ List.replicate 5 0)

/-- A PONG sent in the second zero, from an interface without mask and AS number. -/
def samplePong (seq : UInt8) (addr : UInt32) (nbs : List Neighbor) : Mem :=
  Mem.padded ([PacketType.probePong.code] ++ List.replicate 8 0 ++ [UInt8.ofNat nbs.length, seq] ++
    u32.encode addr ++ List.replicate 6 0 ++ nbs.flatMap entry)

theorem greedyPing_requested (s : SimpleNbmtr) : s.requested greedyPing pingHeaderLen = 255 :=
  Mem.receive_get s.buff greedyPing u8 (by decide)

theorem load_crowd {count : Nat} (accepted : (crowd count).filter (accepts []) = crowd count)
    (some_ : crowd count ≠ []) :
    ∃ loaded, load defaults [] (crowd count) (fun _ => 0) = some loaded ∧
      loaded.nl.map loaded.deref = crowd count ∧ Allocated loaded := by
  have nonempty : (loadTable [] (crowd count)).order ≠ [] := by
    intro nothing
    have same := (loadTable_neighbors [] (crowd count)).1
    rw [nothing, List.map_nil, accepted] at same
    exact some_ same.symm
  obtain ⟨loaded, load_eq⟩ : ∃ loaded, load defaults [] (crowd count) (fun _ => 0) = some loaded :=
    ⟨_, if_neg nonempty⟩
  obtain ⟨neighbors, allocated⟩ := load_cases load_eq
  exact ⟨loaded, load_eq, neighbors.trans accepted, allocated⟩

theorem crowd_finalPos {s : SimpleNbmtr} {count : Nat} (neighbors : s.nl.map s.deref = crowd count)
    (allocated : Allocated s) (now : Int32) {peeraddr : SockaddrIn}
    (stranger : (crowd count).filter (fun nb => nb.addr ≠ peeraddr.addr) = crowd count) :
    s.finalPos now greedyPing pingHeaderLen peeraddr =
      pongHeaderLen + entryLen * min 255 count := by
  rw [finalPos_eq allocated, greedyPing_requested, others, candidates, neighbors, stranger, crowd,
    List.length_map, List.length_range]
  rfl

/-- A proxy with one neighbour answers a PING that wants as many as it can ask for. -/
theorem pong_fits_single :
    loadedSingle.finalPos 0 greedyPing pingHeaderLen ⟨1, 1⟩ ≤ corsMaxMsgSize :=
  (pong_fits_iff load_single (Run.attempt_nil step loadedSingle) 0 greedyPing pingHeaderLen
    ⟨1, 1⟩).1.mpr (.inr (by decide))

/-- The configuration lists one neighbour more than there is room for, and a PING wants all
    of them. -/
theorem large_table_overruns :
    ¬ ∀ param ifvec lines junk loaded es s, load param ifvec lines junk = some loaded →
      Run.attempt step loaded es = some s → ∀ now msg len peeraddr, len ≤ corsMaxMsgSize →
        s.finalPos now msg len peeraddr ≤ corsMaxMsgSize := by
  intro always
  have accepted : (crowd (pongRoom + 1)).filter (accepts []) = crowd (pongRoom + 1) := by
    decide +kernel
  obtain ⟨loaded, load_eq, neighbors, allocated⟩ := load_crowd accepted (by decide)
  have fits := always _ _ _ _ _ [] _ load_eq (Run.attempt_nil step loaded) 0 greedyPing
    pingHeaderLen ⟨1, 1⟩ (by decide)
  rw [crowd_finalPos neighbors allocated 0 (by decide +kernel), fits_iff] at fits
  exact absurd fits (by decide)

end SimpleNbmtr

end Cors
