import Mathlib.Data.List.TakeWhile
import Cors.Proxy.Handshake

/-! # Neighbours passed on in a PONG

The responder writes the entries of its list one behind the other. The prober reads an
entry, and moves on to the next one only when it was novel, so it takes in the novel
neighbours up to the first known one. It keeps the AS number in network order.
-/

namespace Cors

open ByteFormat

namespace SimpleNbmtr

/-- What a PONG tells about a neighbour. -/
def description (nb : Neighbor) : Int8 × UInt32 × UInt16 × UInt32 × UInt16 :=
  (nb.type, nb.addr, nb.port, nb.mask, nb.asn)

/-- A PONG from `peeraddr` that lists `nbs` took `a` to `a'` without loss or distortion. -/
structure Exchanged (a a' : SimpleNbmtr) (peeraddr : SockaddrIn) (nbs : List Neighbor) : Prop where
  present : ∀ nb ∈ nbs, ∃ p ∈ a'.nl, a'.find nb.addr = some p
  added : ∀ nb ∈ nbs, a.find nb.addr = none →
    ∃ p, (a'.nl.filter fun q => (a'.deref q).addr = nb.addr) = [p] ∧
      description (a'.deref p) = description nb
  kept : ∀ p ∈ a.nl, (a.deref p).addr ≠ peeraddr.addr → p ∈ a'.nl ∧ a'.deref p = a.deref p

/-- The object the prober makes of an entry. -/
def received (now : Int32) (nb : Neighbor) : Neighbor :=
  .new nb.type nb.addr nb.port now nb.mask (htons nb.asn)

theorem received_addr (now : Int32) (nb : Neighbor) : (received now nb).addr = nb.addr := rfl

theorem description_received (now : Int32) (nb : Neighbor) :
    description (received now nb) = (nb.type, nb.addr, nb.port, nb.mask, htons nb.asn) := rfl

/-- The neighbours the prober gets to: the list up to the first one it knows. -/
def reached (s : SimpleNbmtr) (nbs : List Neighbor) : List Neighbor :=
  nbs.takeWhile fun nb => (s.find nb.addr).isNone

theorem novel_of_reached {s : SimpleNbmtr} {nbs : List Neighbor} {nb : Neighbor}
    (member : nb ∈ s.reached nbs) : s.find nb.addr = none := by
  have passes : (s.find nb.addr).isNone :=
    List.mem_takeWhile_imp (p := fun nb : Neighbor => (s.find nb.addr).isNone) member
  exact Option.isNone_iff_eq_none.mp passes

/-! ## Prefixes of a list -/

theorem takeWhile_congr {q q' : α → Bool} {xs : List α} (same : ∀ x ∈ xs, q x = q' x) :
    xs.takeWhile q = xs.takeWhile q' := by
  induction xs with
  | nil => rfl
  | cons x xs ih =>
      obtain ⟨first, others⟩ := List.forall_mem_cons.mp same
      rw [List.takeWhile_cons, List.takeWhile_cons, first, ih others]

/-- A prefix that is taken by a test contains everything that passes it just in case
    nothing that fails comes before something that passes. -/
theorem takeWhile_complete_iff {q : α → Bool} {xs : List α} (once : xs.Nodup) :
    (∀ x ∈ xs, q x → x ∈ xs.takeWhile q) ↔ xs.Pairwise fun x y => q y → q x := by
  induction xs with
  | nil => simp
  | cons x xs ih =>
      obtain ⟨fresh, once⟩ := List.nodup_cons.mp once
      rw [List.pairwise_cons, ← ih once]
      cases pass : q x with
      | true =>
          have shifted : ∀ y ∈ xs, y ∈ x :: xs.takeWhile q ↔ y ∈ xs.takeWhile q := by
            intro y member
            rw [List.mem_cons, or_iff_right]
            exact fun same => fresh (same ▸ member)
          rw [List.takeWhile_cons_of_pos pass, List.forall_mem_cons]
          constructor
          · intro all
            exact ⟨fun _ _ _ => rfl, fun y member ok => (shifted y member).mp (all.2 y member ok)⟩
          · intro all
            exact ⟨fun _ => List.mem_cons_self,
              fun y member ok => (shifted y member).mpr (all.2 y member ok)⟩
      | false =>
          rw [List.takeWhile_cons_of_neg (by simp [pass])]
          simp only [List.forall_mem_cons, List.not_mem_nil, pass, Bool.false_eq_true, imp_false,
            not_false_eq_true, true_and, iff_self_and]
          exact fun none y member ok => absurd ok (none y member)

/-! ## The loop of the prober -/

theorem find_pushFront_ne (s : SimpleNbmtr) (nb : Neighbor) {addr : UInt32}
    (apart : addr ≠ nb.addr) : (s.pushFront nb).find addr = s.find addr :=
  Registry.enter_lookup_ne _ _ _ apart

theorem listedAt_of_holds {msg : Mem} {pos : Nat} {nb : Neighbor}
    (stands : msg.Holds pos (entry nb)) (now : Int32) : listedAt now msg pos = received now nb := by
  simp only [entry, Mem.holds_append, List.length_append, encode_length, u32_width, u16_width,
    i8_width] at stands
  obtain ⟨⟨⟨⟨type, addr⟩, port⟩, mask⟩, asn⟩ := stands
  rw [listedAt, type.get, addr.get, port.get, mask.get, asn.get, received]

theorem learnListed_eq (now : Int32) {msg : Mem} {pos : Nat} (s : SimpleNbmtr)
    {nbs : List Neighbor} (stands : msg.Holds pos (nbs.flatMap entry))
    (distinct : (nbs.map Neighbor.addr).Nodup) :
    learnListed now msg nbs.length pos s =
      ((s.reached nbs).map (received now)).foldl pushFront s := by
  induction nbs generalizing pos s with
  | nil => rfl
  | cons nb nbs ih =>
      obtain ⟨first, others⟩ := Mem.holds_append.mp stands
      rw [entry_length] at others
      obtain ⟨fresh, distinct⟩ := List.nodup_cons.mp distinct
      have read := listedAt_of_holds first now
      have addr : msg.get u32 (pos + 1) = nb.addr := congrArg Neighbor.addr read
      cases known : s.find nb.addr with
      | some p =>
          rw [learnListed_stuck now msg _ (addr.symm ▸ known), reached,
            List.takeWhile_cons_of_neg (by simp [known])]
          rfl
      | none =>
          have same : (s.pushFront (received now nb)).reached nbs = s.reached nbs := by
            refine takeWhile_congr fun other member => ?_
            have apart : other.addr ≠ (received now nb).addr := fun same =>
              fresh (List.mem_map.mpr ⟨other, member, same⟩)
            rw [find_pushFront_ne s _ apart]
          rw [List.length_cons, learnListed, addr, known]
          simp only [read]
          rw [ih _ others distinct, same, reached, reached,
            List.takeWhile_cons_of_pos (by simp [known])]
          rfl

/-! ## Tables that grow -/

/-- `s'` is `s` with new objects for `nbs`. -/
structure Enlarged (s s' : SimpleNbmtr) (nbs : List Neighbor) : Prop where
  sound : s'.Sound
  kept : ∀ p ∈ s.nl, p ∈ s'.nl ∧ s'.deref p = s.deref p
  entered : ∀ nb ∈ nbs, ∃ p ∈ s'.nl, s'.deref p = nb
  onlyThese : ∀ p ∈ s'.nl, p ∈ s.nl ∨ s'.deref p ∈ nbs

theorem pushFronts_enlarged {s : SimpleNbmtr} (sound : s.Sound) {nbs : List Neighbor}
    (novel : ∀ nb ∈ nbs, s.find nb.addr = none) (distinct : (nbs.map Neighbor.addr).Nodup) :
    Enlarged s (nbs.foldl pushFront s) nbs := by
  induction nbs generalizing s with
  | nil => exact ⟨sound, fun p member => ⟨member, rfl⟩, by simp, fun p member => .inl member⟩
  | cons nb nbs ih =>
      obtain ⟨first, others⟩ := List.forall_mem_cons.mp novel
      obtain ⟨fresh, distinct⟩ := List.nodup_cons.mp distinct
      have novel' : ∀ other ∈ nbs, (s.pushFront nb).find other.addr = none := by
        intro other member
        have apart : other.addr ≠ nb.addr := fun same =>
          fresh (List.mem_map.mpr ⟨other, member, same⟩)
        exact (find_pushFront_ne s nb apart).trans (others other member)
      have rest := ih (pushFront_sound sound nb first) novel' distinct
      have new : s.table.fresh ∈ (s.pushFront nb).nl := List.mem_cons_self
      have object : (s.pushFront nb).deref s.table.fresh = nb := Registry.enter_heap_self _ _ _
      refine ⟨rest.sound, fun p member => ?_, ?_, fun p member => ?_⟩
      · obtain ⟨there, same⟩ := rest.kept p (List.mem_cons_of_mem _ member)
        exact ⟨there, same.trans (pushFront_deref sound nb member)⟩
      · refine List.forall_mem_cons.mpr ⟨?_, rest.entered⟩
        obtain ⟨there, same⟩ := rest.kept _ new
        exact ⟨_, there, same.trans object⟩
      · cases rest.onlyThese p member with
        | inl old =>
            rcases List.mem_cons.mp old with rfl | old
            · exact .inr (List.mem_cons.mpr (.inl ((rest.kept _ new).2.trans object)))
            · exact .inl old
        | inr other => exact .inr (List.mem_cons_of_mem _ other)

theorem Sound.filter_addr {s : SimpleNbmtr} (sound : s.Sound) {p : Nat} (member : p ∈ s.nl)
    {addr : UInt32} (own : (s.deref p).addr = addr) :
    (s.nl.filter fun q => (s.deref q).addr = addr) = [p] := by
  refine List.perm_singleton.mp ((List.perm_ext_iff_of_nodup ?_ (List.nodup_singleton p)).mpr ?_)
  · exact sound.consistent.nodup.filter _
  · intro q
    rw [List.mem_filter, List.mem_singleton, decide_eq_true_iff]
    constructor
    · rintro ⟨other, same⟩
      exact sound.consistent.eq_of_key other member (same.trans own.symm)
    · rintro rfl
      exact ⟨member, own⟩

theorem Sound.listed_distinct {s : SimpleNbmtr} (sound : s.Sound) (peeraddr : SockaddrIn)
    (n : UInt8) : ((s.listed peeraddr n).map Neighbor.addr).Nodup := by
  have all : ((s.nl.reverse.map s.deref).map Neighbor.addr).Nodup := by
    rw [List.map_map]
    refine List.Nodup.map_on (fun p one q other same => ?_) (List.nodup_reverse.mpr ?_)
    · exact sound.consistent.eq_of_key (List.mem_reverse.mp one) (List.mem_reverse.mp other) same
    · exact sound.consistent.nodup
  have some : List.Sublist (s.listed peeraddr n) (s.nl.reverse.map s.deref) :=
    (List.take_sublist _ _).trans List.filter_sublist
  exact all.sublist (some.map Neighbor.addr)

/-! ## The exchange -/

section
variable {a s' : SimpleNbmtr} {nbs : List Neighbor} {now : Int32} {x : Nat}
  {f : Neighbor → Neighbor}

theorem Enlarged.object_of_novel (sound : a.Sound) (sameAddr : ∀ nb, (f nb).addr = nb.addr)
    (grown : Enlarged (a.modify x f) s' ((a.reached nbs).map (received now)))
    (distinct : (nbs.map Neighbor.addr).Nodup) {nb : Neighbor} (member : nb ∈ nbs)
    (novel : a.find nb.addr = none) {p : Nat} (present : p ∈ s'.nl)
    (own : (s'.deref p).addr = nb.addr) :
    nb ∈ a.reached nbs ∧ s'.deref p = received now nb := by
  cases grown.onlyThese p present with
  | inl old =>
      have own' := (congrArg Neighbor.addr (grown.kept p old).2).symm.trans own
      have known := (modify_sound sound x sameAddr).find_own old own'
      exact absurd (novel.symm.trans known) (by simp)
  | inr new =>
      obtain ⟨nb', reached, same⟩ := List.mem_map.mp new
      have addr : nb'.addr = nb.addr := (congrArg Neighbor.addr same).trans own
      have listed : nb' ∈ nbs := List.takeWhile_subset _ reached
      obtain rfl := List.inj_on_of_nodup_map distinct listed member addr
      exact ⟨reached, same.symm⟩

/-- Taking in what is reached is a faithful exchange just in case all that is novel is
    reached and no AS number depends on the byte order. -/
theorem Enlarged.exchanged_iff (sound : a.Sound) {peeraddr : SockaddrIn}
    (prober : a.find peeraddr.addr = some x) (sameAddr : ∀ nb, (f nb).addr = nb.addr)
    (grown : Enlarged (a.modify x f) s' ((a.reached nbs).map (received now)))
    (distinct : (nbs.map Neighbor.addr).Nodup) :
    Exchanged a s' peeraddr nbs ↔
      (∀ nb ∈ nbs, a.find nb.addr = none → nb ∈ a.reached nbs) ∧
        ∀ nb ∈ nbs, a.find nb.addr = none → htons nb.asn = nb.asn := by
  constructor
  · intro exchanged
    refine ⟨fun nb member novel => ?_, fun nb member novel => ?_⟩
    · obtain ⟨p, present, found⟩ := exchanged.present nb member
      have own := (grown.sound.of_find found).2
      exact (grown.object_of_novel sound sameAddr distinct member novel present own).1
    · obtain ⟨p, only, same⟩ := exchanged.added nb member novel
      have filtered : p ∈ s'.nl.filter fun q => (s'.deref q).addr = nb.addr := by simp [only]
      obtain ⟨present, own⟩ := List.mem_filter.mp filtered
      have object := (grown.object_of_novel sound sameAddr distinct member novel present
        (of_decide_eq_true own)).2
      rw [object] at same
      exact congrArg (fun d => d.2.2.2.2) same
  · rintro ⟨complete, symmetric⟩
    have new : ∀ nb ∈ nbs, a.find nb.addr = none →
        ∃ p ∈ s'.nl, s'.deref p = received now nb := fun nb member novel =>
      grown.entered _ (List.mem_map_of_mem (complete nb member novel))
    refine ⟨fun nb member => ?_, fun nb member novel => ?_, fun p member other => ?_⟩
    · cases known : a.find nb.addr with
      | none =>
          obtain ⟨p, present, object⟩ := new nb member known
          have own : (s'.deref p).addr = nb.addr := by rw [object, received_addr]
          exact ⟨p, present, grown.sound.find_own present own⟩
      | some p =>
          obtain ⟨old, own⟩ := (modify_sound sound x sameAddr).of_find known
          obtain ⟨present, same⟩ := grown.kept p old
          exact ⟨p, present, grown.sound.find_own present (same ▸ own)⟩
    · obtain ⟨p, present, object⟩ := new nb member novel
      have own : (s'.deref p).addr = nb.addr := by rw [object, received_addr]
      refine ⟨p, grown.sound.filter_addr present own, ?_⟩
      rw [object, description_received, symmetric nb member novel]
      rfl
    · obtain ⟨present, same⟩ := grown.kept p member
      have apart : p ≠ x := by
        rintro rfl
        exact other (sound.of_find prober).2
      exact ⟨present, same.trans (Registry.modify_heap_ne _ _ apart)⟩

end

/-- The PONG that answers a PING holds the chosen neighbours behind the header, and
    their number. -/
theorem answer_lists {b : SimpleNbmtr} {ping pong : Bytes} (whole : ping.length = pingHeaderLen)
    {now : Int32} {rest : Mem} {peerA : SockaddrIn}
    (answered : (b.processProbePing now (rest.receive ping) ping.length peerA).2 =
      [⟨peerA, pong⟩]) (rest' : Mem) :
    let nbs := (b.learnPeer now peerA).listed peerA ((rest.receive ping).get u8 nbnumPos)
    pong.drop pongHeaderLen = nbs.flatMap entry ∧
      (rest'.receive pong).Holds pongHeaderLen (nbs.flatMap entry) ∧
      ((rest'.receive pong).get u8 nbnumPos).toNat = nbs.length := by
  let t := b.learnPeer now peerA
  let copy := t.buff.write 0 ((rest.receive ping).read 0 ping.length)
  intro nbs
  rw [processProbePing_eq b now _ (Nat.le_of_eq whole.symm) peerA] at answered
  obtain rfl : SimpleNbmtr.pong t.ifvec copy nbs = pong :=
    congrArg Datagram.bytes (List.head_eq_of_cons_eq answered)
  have few : nbs.length < 256 :=
    Nat.lt_of_le_of_lt (List.length_take_le _ _) (UInt8.toNat_lt _)
  have stands : (pongBuffer t.ifvec copy nbs).read pongHeaderLen (entryLen * nbs.length) =
      nbs.flatMap entry := by
    have written := Mem.read_write (pongHeader t.ifvec copy) pongHeaderLen (nbs.flatMap entry)
    have behind : nbnumPos + (u8.encode (UInt8.ofNat nbs.length)).length ≤ pongHeaderLen := by
      rw [encode_length]
      decide
    rw [entries_length] at written
    rw [pongBuffer, Mem.put, Mem.read_write_disjoint _ _ (.inr behind), written]
  refine ⟨?_, ?_, ?_⟩
  · rw [SimpleNbmtr.pong, Mem.read_add, Nat.zero_add, stands]
    exact List.drop_left' (Mem.read_length _ _ _)
  · rw [Mem.Holds, entries_length, SimpleNbmtr.pong, Mem.receive_read _ _ (Nat.le_refl _), stands]
  · rw [SimpleNbmtr.pong, Mem.receive_get _ _ _ (Nat.le_trans (by decide) (Nat.le_add_right _ _)),
      pongBuffer, Mem.get_put, UInt8.toNat_ofNat', Nat.mod_eq_of_lt few]

theorem exchanged_answer_iff {a b : SimpleNbmtr} (soundA : a.Sound) (soundB : b.Sound)
    {ping : Bytes} (whole : ping.length = pingHeaderLen) {now : Int32} (clock : Clock)
    {rest rest' : Mem} {peerA peerB : SockaddrIn} {pong : Bytes}
    (answered : (b.processProbePing now (rest.receive ping) ping.length peerA).2 =
      [⟨peerA, pong⟩])
    (expected : a.pongFlag (rest'.receive pong) peerB = 0) :
    let nbs := (b.learnPeer now peerA).listed peerA ((rest.receive ping).get u8 nbnumPos)
    Exchanged a (a.processProbePong clock (rest'.receive pong) peerB) peerB nbs ↔
      (nbs.Pairwise fun nb nb' => a.find nb'.addr = none → a.find nb.addr = none) ∧
        ∀ nb ∈ nbs, a.find nb.addr = none → htons nb.asn = nb.asn := by
  intro nbs
  have soundT := (learnPeer_sound soundB now peerA).1
  have distinct : (nbs.map Neighbor.addr).Nodup := soundT.listed_distinct peerA _
  obtain ⟨-, stands, count⟩ := answer_lists whole answered rest'
  obtain ⟨x, prober, taken⟩ := processProbePong_eq expected clock
  rw [taken, count, learnListed_eq _ _ stands distinct]
  have soundA' := modify_sound soundA x (updated_addr clock (rest'.receive pong))
  have novel : ∀ nb ∈ (a.reached nbs).map (received clock.now), a.find nb.addr = none := by
    intro nb member
    obtain ⟨nb', reached, rfl⟩ := List.mem_map.mp member
    exact (novel_of_reached reached : a.find nb'.addr = none)
  have distinct' : (((a.reached nbs).map (received clock.now)).map Neighbor.addr).Nodup := by
    rw [List.map_map]
    exact distinct.sublist ((List.takeWhile_sublist _).map _)
  have grown := pushFronts_enlarged soundA' novel distinct'
  refine (grown.exchanged_iff soundA prober (updated_addr clock _) distinct).trans
    (and_congr_left fun _ => ?_)
  have prefixes := takeWhile_complete_iff (q := fun nb => (a.find nb.addr).isNone)
    (List.Nodup.of_map _ distinct)
  simp only [Option.isNone_iff_eq_none] at prefixes
  exact prefixes

/-- The PING may ask for any number of neighbours, the tables may be any sound ones, and
    any memory may lie behind the datagrams. The neighbours the PONG lists are those the
    responder's loop chooses. -/
theorem exchange_iff {a b : SimpleNbmtr} (soundA : a.Sound) (soundB : b.Sound)
    {ping : Bytes} (whole : ping.length = pingHeaderLen) {now : Int32} (clock : Clock)
    {rest rest' : Mem} {peerA peerB : SockaddrIn} {pong : Bytes}
    (answered : (b.processProbePing now (rest.receive ping) ping.length peerA).2 =
      [⟨peerA, pong⟩])
    (expected : a.pongFlag (rest'.receive pong) peerB = 0) :
    ∃ nbs, nbs = (b.learnPeer now peerA).listed peerA ((rest.receive ping).get u8 nbnumPos) ∧
      pong.drop pongHeaderLen = nbs.flatMap entry ∧
      (Exchanged a (a.processProbePong clock (rest'.receive pong) peerB) peerB nbs ↔
        (nbs.Pairwise fun nb nb' => a.find nb'.addr = none → a.find nb.addr = none) ∧
          ∀ nb ∈ nbs, a.find nb.addr = none → htons nb.asn = nb.asn) :=
  ⟨_, rfl, (answer_lists whole answered rest').1,
    exchanged_answer_iff soundA soundB whole clock answered expected⟩

/-! ## A first PING between two proxies -/

/-- The proxy that is loaded from one line with the given AS number. -/
def listing (asn : UInt16) : SimpleNbmtr :=
  { loadedSingle with
    table := loadTable [] [.new Neighbor.peer (dotted 7 7 7 7) 80 0 0xFFFFFFFF asn] }

theorem listing_sound_one : (listing 1).Sound :=
  load_sound (rfl : load defaults [] [.new Neighbor.peer (dotted 7 7 7 7) 80 0 0xFFFFFFFF 1]
    (fun _ => 0) = some (listing 1)) (by decide)

theorem single_asks (b : SimpleNbmtr) :
    ∃ a ping pong, loadedSingle.probe ⟨⟨0, 0⟩, 0⟩ = some (a, [⟨⟨80, dotted 8 8 8 8⟩, ping⟩]) ∧
      a.Sound ∧ (∀ addr, addr ≠ dotted 8 8 8 8 → a.find addr = none) ∧
      ping.length = pingHeaderLen ∧
      (Mem.receive (fun _ => 0) ping).get u8 nbnumPos = 20 ∧
      (b.processProbePing 0 (Mem.receive (fun _ => 0) ping) ping.length
        ⟨80, dotted 9 9 9 9⟩).2 = [⟨⟨80, dotted 9 9 9 9⟩, pong⟩] ∧
      a.pongFlag (Mem.receive (fun _ => 0) pong) ⟨80, dotted 8 8 8 8⟩ = 0 := by
  obtain ⟨a, ⟨dst, ping⟩, run, sound, only, isPing, -⟩ :=
    probe_single loadedSingle_sound loadedSingle_nl ⟨⟨0, 0⟩, 0⟩
  obtain rfl : dst = ⟨80, dotted 8 8 8 8⟩ := isPing.dst
  have last : LastPing loadedSingle loadedSingle a 0 ⟨⟨80, dotted 8 8 8 8⟩, ping⟩ :=
    ⟨[], _, [], a, [], _, [], rfl, run, rfl, by decide, List.mem_cons_self, rfl, by simp⟩
  obtain ⟨-, -, stays, -⟩ := last.remains loadedSingle_sound
  have member : 0 ∈ a.nl := by simp [only]
  have unknown (addr : UInt32) (other : addr ≠ dotted 8 8 8 8) : a.find addr = none := by
    cases found : a.find addr with
    | none => rfl
    | some p =>
        obtain ⟨there, own⟩ := sound.of_find found
        obtain rfl : p = 0 := by simpa [only] using there
        exact absurd (own.symm.trans (stays member).1) other
  have asked : (loadedSingle.probe ⟨⟨0, 0⟩, 0⟩).map (fun r => r.2.map fun d =>
      (Mem.receive (fun _ => 0) d.bytes).get u8 nbnumPos) = some [20] := rfl
  rw [run] at asked
  obtain ⟨pong, answered, echo⟩ := ping_answered b 0 isPing (fun _ => 0) ⟨80, dotted 9 9 9 9⟩
  obtain ⟨seq, addr⟩ := echo fun _ => 0
  have accepted := (accepts_reply_iff loadedSingle_sound last ⟨⟨0, 0⟩, 0⟩ seq addr).mpr
    ⟨member, by decide⟩
  exact ⟨a, ping, pong, run, sound, unknown, isPing.length,
    (List.cons.inj (Option.some.inj asked)).1, answered, accepted.1⟩

/-- Neighbours whose AS numbers read the same in both byte orders, the first of them known. -/
def plainLines : List Neighbor :=
  [.new Neighbor.oracle (dotted 8 8 8 8) 80 0 0xFFFFFFFF 0,
    .new Neighbor.oracle (dotted 6 6 6 6) 81 0 0xFFFFFF00 257,
    .new Neighbor.peer (dotted 5 5 5 5) 82 0 0xFFFF0000 514]

def plainProxy : SimpleNbmtr := { loadedSingle with table := loadTable [] plainLines }

theorem plainProxy_sound : plainProxy.Sound :=
  load_sound (rfl : load defaults [] plainLines (fun _ => 0) = some plainProxy) (by decide)

theorem plain_neighbors_exchanged :
    ∃ a ping pong, loadedSingle.probe ⟨⟨0, 0⟩, 0⟩ = some (a, [⟨⟨80, dotted 8 8 8 8⟩, ping⟩]) ∧
      (plainProxy.processProbePing 0 (Mem.receive (fun _ => 0) ping) ping.length
        ⟨80, dotted 9 9 9 9⟩).2 = [⟨⟨80, dotted 9 9 9 9⟩, pong⟩] ∧
      Exchanged a (a.processProbePong ⟨⟨0, 0⟩, 0⟩ (Mem.receive (fun _ => 0) pong)
        ⟨80, dotted 8 8 8 8⟩) ⟨80, dotted 8 8 8 8⟩ plainLines.reverse := by
  obtain ⟨a, ping, pong, run, sound, unknown, whole, asked, answered, expected⟩ :=
    single_asks plainProxy
  obtain ⟨nbs, which, -, law⟩ :=
    exchange_iff sound plainProxy_sound whole ⟨⟨0, 0⟩, 0⟩ answered expected
  have list : (plainProxy.learnPeer 0 ⟨80, dotted 9 9 9 9⟩).listed ⟨80, dotted 9 9 9 9⟩ 20 =
    plainLines.reverse := rfl
  obtain rfl := which.trans (asked ▸ list)
  have five := unknown (dotted 5 5 5 5) (by decide)
  have six := unknown (dotted 6 6 6 6) (by decide)
  refine ⟨a, ping, pong, run, answered, law.mpr ⟨?_, ?_⟩⟩
  · simp [plainLines, Neighbor.new, five, six]
  · intro nb member _
    have plain : ∀ nb ∈ plainLines.reverse, htons nb.asn = nb.asn := by decide
    exact plain nb member

/-- A neighbour in AS 1 arrives as one in AS 256. -/
theorem listed_neighbor_distorted :
    ¬ ∀ (a b : SimpleNbmtr) ping now clock rest rest' peerA peerB pong, a.Sound → b.Sound →
      ping.length = pingHeaderLen →
      (b.processProbePing now (Mem.receive rest ping) ping.length peerA).2 = [⟨peerA, pong⟩] →
      a.pongFlag (Mem.receive rest' pong) peerB = 0 →
      Exchanged a (a.processProbePong clock (Mem.receive rest' pong) peerB) peerB
        ((b.learnPeer now peerA).listed peerA ((Mem.receive rest ping).get u8 nbnumPos)) := by
  intro always
  obtain ⟨a, ping, pong, -, sound, unknown, whole, asked, answered, expected⟩ :=
    single_asks (listing 1)
  have exchanged := always a (listing 1) ping 0 ⟨⟨0, 0⟩, 0⟩ _ _ _ _ pong sound listing_sound_one
    whole answered expected
  have list : ((listing 1).learnPeer 0 ⟨80, dotted 9 9 9 9⟩).listed ⟨80, dotted 9 9 9 9⟩ 20 =
    [.new Neighbor.peer (dotted 7 7 7 7) 80 0 0xFFFFFFFF 1] := rfl
  rw [asked, list] at exchanged
  have law := exchanged_answer_iff sound listing_sound_one whole ⟨⟨0, 0⟩, 0⟩ answered expected
  rw [asked, list] at law
  exact absurd ((law.mp exchanged).2 _ List.mem_cons_self (unknown _ (by decide))) (by decide)

end SimpleNbmtr

end Cors
