import Cors.Proxy.SimpleNbmtr

/-! # Consistency of the neighbour table

The map `nm` and the list `nl` of a table loaded from distinct addresses hold the same
objects, and every probe, PING and PONG keeps them so. The table is never empty, so no probe
gets stuck; oracles stay; and a probe rotates the list.
-/

namespace Cors

open ByteFormat

namespace SimpleNbmtr

/-- What every reachable table satisfies. -/
structure Sound (s : SimpleNbmtr) : Prop where
  consistent : s.table.Consistent Neighbor.addr
  nonempty : s.nl ≠ []

/-- The oracles of the first table are oracles of the second. -/
def OraclesKept (s s' : SimpleNbmtr) : Prop :=
  ∀ p ∈ s.nl, (s.deref p).type = Neighbor.oracle →
    p ∈ s'.nl ∧ (s'.deref p).type = Neighbor.oracle

/-- `nm` and `nl` hold the same objects, each once, and `nm` has them under their address. -/
structure SameObjects (s : SimpleNbmtr) : Prop where
  same : (s.nm.entries.map Sigma.snd).Perm s.nl
  once : s.nl.Nodup
  keyed : ∀ addr p, s.find addr = some p → (s.deref p).addr = addr

/-- The head of the list goes to its end; of the others at most the last one is gone. -/
def Rotated (s s' : SimpleNbmtr) : Prop :=
  ∃ head tail, s.nl = head :: tail ∧ (s'.nl = tail ++ [head] ∨ s'.nl = tail.dropLast ++ [head])

theorem Sound.sameObjects {s : SimpleNbmtr} (sound : s.Sound) : s.SameObjects where
  same := sound.consistent.perm
  once := sound.consistent.nodup
  keyed addr p found := (sound.consistent.listed addr p found).2

theorem Sound.find_own {s : SimpleNbmtr} (sound : s.Sound) {p : Nat} (member : p ∈ s.nl)
    {addr : UInt32} (own : (s.deref p).addr = addr) : s.find addr = some p :=
  own ▸ sound.consistent.keyed p member

theorem Sound.of_find {s : SimpleNbmtr} (sound : s.Sound) {addr : UInt32} {p : Nat}
    (found : s.find addr = some p) : p ∈ s.nl ∧ (s.deref p).addr = addr :=
  sound.consistent.listed addr p found

theorem OraclesKept.refl (s : SimpleNbmtr) : OraclesKept s s := fun _ member type => ⟨member, type⟩

theorem OraclesKept.trans {s t u : SimpleNbmtr} (first : OraclesKept s t)
    (second : OraclesKept t u) : OraclesKept s u := by
  intro p member type
  obtain ⟨member, type⟩ := first p member type
  exact second p member type

/-! ## Learning -/

theorem pushFront_sound {s : SimpleNbmtr} (sound : s.Sound) (nb : Neighbor)
    (novel : s.find nb.addr = none) : (s.pushFront nb).Sound where
  consistent := sound.consistent.pushFront novel
  nonempty := List.cons_ne_nil _ _

theorem pushFront_deref {s : SimpleNbmtr} (sound : s.Sound) (nb : Neighbor) {p : Nat}
    (member : p ∈ s.nl) : (s.pushFront nb).deref p = s.deref p :=
  Registry.enter_heap_ne _ _ _ (Nat.ne_of_lt (sound.consistent.allocated p member))

theorem pushFront_kept {s : SimpleNbmtr} (sound : s.Sound) (nb : Neighbor) :
    OraclesKept s (s.pushFront nb) := by
  intro p member type
  rw [pushFront_deref sound nb member]
  exact ⟨List.mem_cons_of_mem _ member, type⟩

theorem modify_sound {s : SimpleNbmtr} (sound : s.Sound) (p : Nat) {f : Neighbor → Neighbor}
    (sameAddr : ∀ nb, (f nb).addr = nb.addr) : (s.modify p f).Sound where
  consistent := sound.consistent.modify p sameAddr
  nonempty := sound.nonempty

theorem modify_kept (s : SimpleNbmtr) (p : Nat) {f : Neighbor → Neighbor}
    (sameType : ∀ nb, (f nb).type = nb.type) : OraclesKept s (s.modify p f) := by
  intro q member type
  exact ⟨member, (Registry.modify_spares _ p sameType q).trans type⟩

theorem learnPeer_sound {s : SimpleNbmtr} (sound : s.Sound) (now : Int32)
    (peeraddr : SockaddrIn) :
    (s.learnPeer now peeraddr).Sound ∧ OraclesKept s (s.learnPeer now peeraddr) := by
  rw [learnPeer]
  split
  · exact ⟨sound, .refl s⟩
  · rename_i novel
    exact ⟨pushFront_sound sound _ novel, pushFront_kept sound _⟩

theorem learnListed_sound {s : SimpleNbmtr} (sound : s.Sound) (now : Int32) (msg : Mem)
    (k pos : Nat) :
    (learnListed now msg k pos s).Sound ∧ OraclesKept s (learnListed now msg k pos s) := by
  induction k generalizing pos s with
  | zero => exact ⟨sound, .refl s⟩
  | succ k ih =>
      rw [learnListed]
      split
      · exact ih sound pos
      · rename_i novel
        obtain ⟨sound', kept⟩ := ih (pushFront_sound sound (listedAt now msg pos) novel)
          (pos + entryLen)
        exact ⟨sound', (pushFront_kept sound _).trans kept⟩

theorem learnListed_deref {s : SimpleNbmtr} (sound : s.Sound) (now : Int32) (msg : Mem)
    (k pos : Nat) {p : Nat} (member : p ∈ s.nl) :
    (learnListed now msg k pos s).deref p = s.deref p := by
  induction k generalizing pos s with
  | zero => rfl
  | succ k ih =>
      rw [learnListed]
      split
      · exact ih sound pos member
      · rename_i novel
        have sound' := pushFront_sound sound (listedAt now msg pos) novel
        rw [ih sound' _ (List.mem_cons_of_mem _ member), pushFront_deref sound _ member]

/-- At a known neighbour the loop makes no progress. -/
theorem learnListed_stuck (now : Int32) (msg : Mem) (k : Nat) {pos : Nat} {s : SimpleNbmtr}
    {p : Nat} (known : s.find (msg.get u32 (pos + 1)) = some p) :
    learnListed now msg k pos s = s := by
  induction k with
  | zero => rfl
  | succ k ih => simp only [learnListed, known, ih]

theorem processProbePong_refused {s : SimpleNbmtr} {msg : Mem} {peeraddr : SockaddrIn}
    (refused : s.pongFlag msg peeraddr ≠ 0) (clock : Clock) :
    s.processProbePong clock msg peeraddr = s := by
  rw [processProbePong, if_pos refused]

theorem processProbePong_eq {s : SimpleNbmtr} {msg : Mem} {peeraddr : SockaddrIn}
    (expected : s.pongFlag msg peeraddr = 0) (clock : Clock) :
    ∃ x, s.find peeraddr.addr = some x ∧ s.processProbePong clock msg peeraddr =
      learnListed clock.now msg (msg.get u8 nbnumPos).toNat pongHeaderLen
        (s.modify x (updated clock msg)) := by
  cases found : s.find peeraddr.addr with
  | none =>
      simp only [pongFlag, found] at expected
      split at expected <;> exact absurd expected (by decide)
  | some x =>
      refine ⟨x, rfl, ?_⟩
      simp only [processProbePong, expected, found, ne_eq, not_true, if_false]

theorem processProbePong_deref {s : SimpleNbmtr} (sound : s.Sound) {msg : Mem}
    {peeraddr : SockaddrIn} (expected : s.pongFlag msg peeraddr = 0) (clock : Clock) {x : Nat}
    (prober : s.find peeraddr.addr = some x) :
    (s.processProbePong clock msg peeraddr).deref x = updated clock msg (s.deref x) := by
  obtain ⟨x', prober', taken⟩ := processProbePong_eq expected clock
  obtain rfl := Option.some.inj (prober.symm.trans prober')
  have touched := modify_sound sound x (updated_addr clock msg)
  have member := (sound.of_find prober).1
  rw [taken, learnListed_deref touched _ _ _ _ member]
  exact Registry.modify_heap_self _ _ _

theorem processProbePong_sound {s : SimpleNbmtr} (sound : s.Sound) (clock : Clock) (msg : Mem)
    (peeraddr : SockaddrIn) :
    (s.processProbePong clock msg peeraddr).Sound ∧
      OraclesKept s (s.processProbePong clock msg peeraddr) := by
  rw [processProbePong]
  split
  · exact ⟨sound, .refl s⟩
  · split
    · exact ⟨sound, .refl s⟩
    · rename_i p _
      have touched := modify_sound sound p (updated_addr clock msg)
      obtain ⟨sound', kept⟩ := learnListed_sound touched clock.now msg
        (msg.get ByteFormat.u8 nbnumPos).toNat pongHeaderLen
      exact ⟨sound', (modify_kept s p (updated_type clock msg)).trans kept⟩

/-! ## Probing -/

/-- The PINGs of a probe from `s`, whose front is `head` and whose back is `back`, and
    the objects it leaves behind. -/
def ProbeEffect (s : SimpleNbmtr) (clock : Clock) (head back : Nat) (s' : SimpleNbmtr)
    (sent : List Datagram) : Prop :=
  (∃ d, sent = [d] ∧ IsPing d (s.deref head) ∧
      s'.table.heap = (s.table.modify head (probed clock.now)).heap) ∨
    (back ≠ head ∧ ∃ d' d, sent = [d', d] ∧ IsPing d' (s.deref back) ∧ IsPing d (s.deref head) ∧
      s'.table.heap = ((s.table.modify back pinged).modify head (probed clock.now)).heap)

/-- A probe gets through. The head moves to the end, and what is evicted from the
    back is no oracle. -/
theorem probe_spec {s : SimpleNbmtr} (sound : s.Sound) (clock : Clock) :
    ∃ s' sent head tail back, s.probe clock = some (s', sent) ∧ s'.Sound ∧
      s.nl = head :: tail ∧ s.nl.getLast? = some back ∧
      (s'.nl = tail ++ [head] ∨
        ((s.deref back).type ≠ Neighbor.oracle ∧ s'.nl = tail.dropLast ++ [head])) ∧
      ProbeEffect s clock head back s' sent := by
  obtain ⟨head, tail, split⟩ := List.exists_cons_of_ne_nil sound.nonempty
  obtain ⟨t, sent, back, last, -, run, cases⟩ := probe_cases split clock
  have atHead : head ∈ s.nl := by simp [split]
  have state : t.table.Consistent Neighbor.addr ∧ t.nl = s.nl ∧
      (∀ p, (t.deref p).type = (s.deref p).type) ∧ ProbeEffect s clock head back t sent := by
    rcases cases with ⟨d, one, ping, table⟩ | ⟨inTail, d', d, two, request, ping, table⟩
    · simp only [nl, deref, ProbeEffect, table]
      exact ⟨sound.consistent.modify head (probed_addr clock.now), rfl,
        Registry.modify_spares _ head (probed_type clock.now), .inl ⟨d, one, ping, trivial⟩⟩
    · have apart : back ≠ head := by
        rintro rfl
        have nodup : (back :: tail).Nodup := split.symm ▸ sound.consistent.nodup
        exact (List.nodup_cons.mp nodup).1 inTail
      rw [Registry.modify_heap_ne _ _ apart.symm] at ping
      simp only [nl, deref, ProbeEffect, table]
      refine ⟨(sound.consistent.modify back pinged_addr).modify head (probed_addr clock.now),
        rfl, fun p => ?_, .inr ⟨apart, d', d, two, request, ping, trivial⟩⟩
      exact (Registry.modify_spares _ head (probed_type clock.now) p).trans
        (Registry.modify_spares _ back pinged_type p)
  obtain ⟨ok, order, types, effect⟩ := state
  obtain ⟨t', abated, ok', heap, evicted⟩ := abate_cases ok (order ▸ last) clock.now
  have rotated : ∀ rest, t'.nl = head :: rest → t'.rotate.nl = rest ++ [head] := by
    intro rest before
    have moved : t'.rotate.nl = t'.nl.tail ++ t'.nl.head?.toList := rfl
    simp [moved, before]
  have turned : t'.rotate.nl = tail ++ [head] ∨
      ((s.deref back).type ≠ Neighbor.oracle ∧ t'.rotate.nl = tail.dropLast ++ [head]) := by
    cases evicted with
    | inl kept => exact .inl (rotated tail (by rw [kept, order, split]))
    | inr gone =>
        obtain ⟨type, more, dropped⟩ := gone
        rw [order, split] at more dropped
        cases tail with
        | nil => exact absurd more (Nat.lt_irrefl 1)
        | cons p rest => exact .inr ⟨types back ▸ type, rotated _ dropped⟩
  refine ⟨t'.rotate, sent, head, tail, back, by rw [run, abated]; rfl, ⟨ok'.rotate, ?_⟩, split,
    last, turned, ?_⟩
  · cases turned with
    | inl kept => simp [kept]
    | inr dropped => simp [dropped.2]
  · have same : t'.rotate.table.heap = t.table.heap := heap
    simpa only [ProbeEffect, same] using effect

theorem ProbeEffect.spares {s s' : SimpleNbmtr} {clock : Clock} {head back : Nat}
    {sent : List Datagram} (effect : ProbeEffect s clock head back s' sent) (p : Nat) :
    (s'.deref p).type = (s.deref p).type ∧ (s'.deref p).addr = (s.deref p).addr := by
  rcases effect with ⟨_, _, _, heap⟩ | ⟨_, _, _, _, _, _, heap⟩
  · simp only [deref, heap]
    exact ⟨Registry.modify_spares _ head (probed_type clock.now) p,
      Registry.modify_spares _ head (probed_addr clock.now) p⟩
  · simp only [deref, heap]
    exact ⟨(Registry.modify_spares _ head (probed_type clock.now) p).trans
        (Registry.modify_spares _ back pinged_type p),
      (Registry.modify_spares _ head (probed_addr clock.now) p).trans
        (Registry.modify_spares _ back pinged_addr p)⟩

theorem probe_sound {s : SimpleNbmtr} (sound : s.Sound) (clock : Clock) :
    ∃ s' sent, s.probe clock = some (s', sent) ∧ s'.Sound ∧ OraclesKept s s' ∧ Rotated s s' := by
  obtain ⟨s', sent, head, tail, back, run, sound', split, last, turned, effect⟩ :=
    probe_spec sound clock
  refine ⟨s', sent, run, sound', fun p member type => ⟨?_, ?_⟩, head, tail, split, ?_⟩
  · rw [split] at member last
    rcases turned with kept | ⟨notOracle, dropped⟩
    · rw [kept]
      simpa [or_comm] using member
    · rw [dropped]
      rcases List.mem_cons.mp member with rfl | inTail
      · exact List.mem_append_right _ (List.mem_singleton.mpr rfl)
      · have apart : p ≠ back := by
          rintro rfl
          exact notOracle type
        have final : tail.getLast? = some back := by
          rw [List.getLast?_cons] at last
          cases final : tail.getLast? with
          | none => simp [List.getLast?_eq_none_iff.mp final] at inTail
          | some q => simpa [final] using last
        rw [← List.dropLast_append_getLast? back final, List.mem_append,
          List.mem_singleton] at inTail
        exact List.mem_append_left _ (inTail.resolve_right apart)
  · exact (effect.spares p).1.trans type
  · exact turned.imp_right And.right

/-! ## Runs -/

theorem step_sound {s s' : SimpleNbmtr} (sound : s.Sound) {e : Event}
    (stepped : s.step e = some s') : s'.Sound ∧ OraclesKept s s' := by
  cases e with
  | probe clock =>
      obtain ⟨next, sent, run, sound', kept, -⟩ := probe_sound sound clock
      rw [step, run] at stepped
      obtain rfl := Option.some.inj stepped
      exact ⟨sound', kept⟩
  | ping now msg len peeraddr =>
      obtain ⟨-, rfl⟩ := step_ping stepped
      obtain ⟨sound', kept⟩ := learnPeer_sound sound now peeraddr
      exact ⟨⟨sound'.consistent, sound'.nonempty⟩, kept⟩
  | pong clock msg peeraddr =>
      obtain rfl := Option.some.inj stepped
      exact processProbePong_sound sound clock msg peeraddr

theorem attempt_sound {s s' : SimpleNbmtr} (sound : s.Sound) {es : List Event}
    (ran : Run.attempt step s es = some s') : s'.Sound :=
  Run.attempt_keeps (fun _ _ _ sound stepped => (step_sound sound stepped).1) sound ran

theorem attempt_kept {s s' : SimpleNbmtr} (sound : s.Sound) {es : List Event}
    (ran : Run.attempt step s es = some s') : OraclesKept s s' :=
  Run.attempt_of_relation (P := Sound) OraclesKept.refl (fun _ _ _ => .trans)
    (fun _ _ _ sound => step_sound sound) sound ran

theorem loadTable_consistent {ifvec : List NetInterface} {lines : List Neighbor}
    (distinct : ((lines.filter (accepts ifvec)).map Neighbor.addr).Nodup) :
    (loadTable ifvec lines).Consistent Neighbor.addr := by
  have loop : ∀ (lines : List Neighbor) (table : Registry UInt32 Neighbor),
      table.Consistent Neighbor.addr →
      (∀ nb ∈ lines.filter (accepts ifvec), table.index.lookup nb.addr = none) →
      ((lines.filter (accepts ifvec)).map Neighbor.addr).Nodup →
      Registry.Consistent Neighbor.addr (lines.foldl
        (fun table nb => if accepts ifvec nb then table.pushBack Neighbor.addr nb else table)
        table) := by
    intro lines
    induction lines with
    | nil => exact fun _ ok _ _ => ok
    | cons nb lines ih =>
        intro table ok absent distinct
        by_cases own : accepts ifvec nb
        · simp only [List.filter_cons, own, if_true, List.map_cons, List.nodup_cons,
            List.mem_map, not_exists, not_and, List.forall_mem_cons] at absent distinct
          simp only [List.foldl_cons, own, if_true]
          refine ih _ (ok.pushBack absent.1) (fun other member => ?_) distinct.2
          have apart : other.addr ≠ nb.addr := distinct.1 other member
          exact (Registry.enter_lookup_ne _ _ _ apart).trans (absent.2 other member)
        · simp only [List.filter_cons, own] at absent distinct
          simp only [List.foldl_cons, own]
          exact ih table ok absent distinct
  exact loop lines _ (Registry.empty_consistent _) (fun _ _ => rfl) distinct

theorem load_sound {param : Param} {ifvec : List NetInterface} {lines : List Neighbor} {junk : Mem}
    {s : SimpleNbmtr} (loaded : load param ifvec lines junk = some s)
    (distinct : ((lines.filter (accepts ifvec)).map Neighbor.addr).Nodup) : s.Sound := by
  rw [load] at loaded
  split at loaded
  · cases loaded
  · rename_i nonempty
    obtain rfl := Option.some.inj loaded
    exact ⟨loadTable_consistent distinct, nonempty⟩

/-- The proxy that is loaded from one line. -/
def loadedSingle : SimpleNbmtr where
  minsize := defaults.minsize
  maxsize := defaults.maxsize
  numperquery := defaults.numperquery
  abateInterval := defaults.abateInterval
  ifvec := []
  table := loadTable [] [.learned Neighbor.peer (dotted 8 8 8 8) 80 0]
  buff := fun _ => 0

theorem load_single :
    load defaults [] [.learned Neighbor.peer (dotted 8 8 8 8) 80 0] (fun _ => 0) =
      some loadedSingle := rfl

theorem loadedSingle_sound : loadedSingle.Sound := load_sound load_single (by decide)

end SimpleNbmtr

end Cors
