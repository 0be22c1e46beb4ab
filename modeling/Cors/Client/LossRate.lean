import Cors.Client.StatMpathManager

/-! # The loss rate from a report

The count of a report stands in four bytes in network order. The sender reads two of them, which
are the high half, and swaps four: what is left in its variable is always zero, so every report
counts as the loss of all packets.
-/

namespace Cors

open ByteFormat

namespace StatMpathManager

/-- Of every hundred packets that were sent, those that came in, rounded down. -/
def percent (r sent : UInt32) : Nat := 100 * r.toNat / sent.toNat

/-- The loss rate of a relay. -/
def lossOf (l : List RelayNode) (addr : UInt32) : Option UInt32 :=
  (l.find? fun node => node.relay.addr = addr).map RelayNode.lossrate

/-- What a report makes of a loss rate: the loss it reports, or the mean of the two. -/
def averaged (old : UInt32) (r sent : UInt32) : Nat :=
  if old = 0 then 100 - percent r sent else (old.toNat + (100 - percent r sent)) / 2

/-- The report of `r` packets out of `sent` is taken in for the relay and for no other. -/
structure Records (s s' : StatMpathManager) (addr r sent : UInt32) : Prop where
  loss : ∀ old, lossOf s.goodrelays addr = some old →
    ∃ new, lossOf s'.goodrelays addr = some new ∧ new.toNat = averaged old r sent
  range : ∀ old, lossOf s.goodrelays addr = some old → old ≤ 100 →
    ∃ new, lossOf s'.goodrelays addr = some new ∧ new ≤ 100
  counter : s'.sndMap.lookup addr = some 0
  otherLoss : (s'.goodrelays.filter fun node => node.relay.addr ≠ addr) =
    s.goodrelays.filter fun node => node.relay.addr ≠ addr
  otherCounters : ∀ a ≠ addr, s'.sndMap.lookup a = s.sndMap.lookup a

/-- The loss of all packets comes to the same. -/
def Unnoticed (old r sent : UInt32) : Prop :=
  old.toNat + 100 < UInt32.size ∧
    (percent r sent = 0 ∨ percent r sent = 1 ∧ old.toNat % 2 = 1)

instance (old r sent : UInt32) : Decidable (Unnoticed old r sent) :=
  inferInstanceAs (Decidable (_ ∧ _))

/-! ## The report -/

/-- Whatever the two bytes are, nothing is left of them. -/
theorem revPkt_eq (x : UInt16) : (ntohl x.toUInt32).toUInt16 = 0 := by
  have swapped := ntohl_htons (ntohs x)
  have back : htons (ntohs x) = x := ntohs_htons x
  rw [back] at swapped
  apply UInt16.toNat_inj.mp
  rw [UInt32.toNat_toUInt16, swapped]
  exact Nat.mul_mod_right 65536 _

theorem statMsg_relay (junk rest : Mem) (peeraddr : SockaddrIn) (count : UInt32)
    (curTime : Timeval) :
    (rest.receive (statMsg junk peeraddr count curTime)).get u32 Stat.addrPos = peeraddr.addr := by
  let sbuf := (junk.put u8 Stat.typePos PacketType.stat.code).put SockaddrIn.format Stat.portPos
    peeraddr
  have stands : sbuf.get u32 Stat.addrPos = peeraddr.addr := by
    have address : sbuf.get SockaddrIn.format Stat.portPos = peeraddr := Mem.get_put _ _ _ _
    rw [Mem.get_port_addr] at address
    exact congrArg SockaddrIn.addr address
  rw [statMsg, Mem.receive_get _ _ _ (by decide), Mem.get_put_disjoint _ _ _ _ (.inl (by decide)),
    Mem.get_put_disjoint _ _ _ _ (.inl (by decide))]
  exact stands

theorem processPathStatistics_statMsg {s : StatMpathManager} {peeraddr : SockaddrIn} {sent : UInt32}
    (counted : s.sndMap.lookup peeraddr.addr = some sent) (positive : 1 ≤ sent) (junk rest : Mem)
    (count : UInt32) (curTime : Timeval) :
    s.processPathStatistics (rest.receive (statMsg junk peeraddr count curTime)) =
      { s with
        goodrelays := recordLoss peeraddr.addr 100 s.goodrelays
        sndMap := s.sndMap.insert peeraddr.addr 0 } := by
  have any : sent > 0 := positive
  have nothing : (0 : UInt16).toUInt32 * 100 / sent = 0 := by
    apply UInt32.toNat_inj.mp
    rw [UInt32.toNat_div]
    exact Nat.zero_div _
  dsimp only [processPathStatistics]
  rw [statMsg_relay, counted]
  simp only [if_pos any, revPkt_eq, nothing]
  rfl

/-! ## Loss rates -/

theorem lossOf_recordLoss (addr loss : UInt32) (l : List RelayNode) :
    lossOf (recordLoss addr loss l) addr =
      (lossOf l addr).map fun old => if old = 0 then loss else (old + loss) / 2 := by
  induction l with
  | nil => rfl
  | cons node rest ih =>
      by_cases own : addr = node.relay.addr
      · simp [recordLoss, lossOf, ← own]
      · have other : ¬node.relay.addr = addr := Ne.symm own
        simp only [lossOf] at ih
        simp only [recordLoss, if_neg own, lossOf, List.find?_cons, other, decide_false, ih]

theorem recordLoss_others (addr loss : UInt32) (l : List RelayNode) :
    ((recordLoss addr loss l).filter fun node => node.relay.addr ≠ addr) =
      l.filter fun node => node.relay.addr ≠ addr := by
  induction l with
  | nil => rfl
  | cons node rest ih =>
      by_cases own : addr = node.relay.addr
      · simp [recordLoss, ← own]
      · simp only [recordLoss, if_neg own, List.filter_cons, ih]

theorem percent_le {r sent : UInt32} (bound : r ≤ sent) : percent r sent ≤ 100 := by
  apply Nat.div_le_of_le_mul
  rw [Nat.mul_comm sent.toNat]
  exact Nat.mul_le_mul_left 100 (UInt32.le_iff_toNat_le.mp bound)

/-- The loss of all packets is the right one just in case that goes unnoticed. -/
theorem full_loss_iff {r sent : UInt32} (bound : r ≤ sent) (old : UInt32) :
    (if old = 0 then (100 : UInt32) else (old + 100) / 2).toNat = averaged old r sent ↔
      Unnoticed old r sent := by
  have small := percent_le bound
  have limit : old.toNat < UInt32.size := old.toNat_lt
  simp only [averaged, Unnoticed, UInt32.size] at limit ⊢
  generalize percent r sent = p at small ⊢
  by_cases first : old = 0
  · rw [if_pos first, if_pos first, first]
    have hundred : (100 : UInt32).toNat = 100 := rfl
    have zero : (0 : UInt32).toNat = 0 := rfl
    rw [hundred, zero]
    omega
  · have positive : old.toNat ≠ 0 := fun zero => first (UInt32.toNat_inj.mp zero)
    have mean : ((old + 100) / 2).toNat = (old.toNat + 100) % 4294967296 / 2 := by
      rw [UInt32.toNat_div, UInt32.toNat_add]
      rfl
    rw [if_neg first, if_neg first, mean]
    omega

theorem full_loss_le {old : UInt32} (small : old ≤ 100) :
    (if old = 0 then (100 : UInt32) else (old + 100) / 2) ≤ 100 := by
  have bound : old.toNat ≤ 100 := UInt32.le_iff_toNat_le.mp small
  apply UInt32.le_iff_toNat_le.mpr
  split
  · exact Nat.le_refl _
  · rw [UInt32.toNat_div, UInt32.toNat_add]
    change (old.toNat + 100) % 4294967296 / 2 ≤ 100
    omega

/-- A report is taken in right just in case the relay is not in use any more, or it makes no
    difference that the count is read as zero. -/
theorem records_iff {s : StatMpathManager} {peeraddr : SockaddrIn} {r sent : UInt32}
    (counted : s.sndMap.lookup peeraddr.addr = some sent) (positive : 1 ≤ sent) (bound : r ≤ sent)
    (junk rest : Mem) (curTime : Timeval) :
    Records s (s.processPathStatistics (rest.receive (statMsg junk peeraddr r curTime)))
        peeraddr.addr r sent ↔
      ∀ old, lossOf s.goodrelays peeraddr.addr = some old → Unnoticed old r sent := by
  rw [processPathStatistics_statMsg counted positive]
  have becomes {old : UInt32} (listed : lossOf s.goodrelays peeraddr.addr = some old) :
      lossOf (recordLoss peeraddr.addr 100 s.goodrelays) peeraddr.addr =
        some (if old = 0 then 100 else (old + 100) / 2) := by
    rw [lossOf_recordLoss, listed, Option.map_some]
  constructor
  · intro records old listed
    obtain ⟨new, recorded, right⟩ := records.loss old listed
    obtain rfl := Option.some.inj ((becomes listed).symm.trans recorded)
    exact (full_loss_iff bound old).mp right
  · intro unnoticed
    exact {
      loss := fun old listed => ⟨_, becomes listed, (full_loss_iff bound old).mpr
        (unnoticed old listed)⟩
      range := fun old listed small => ⟨_, becomes listed, full_loss_le small⟩
      counter := AList.lookup_insert _
      otherLoss := recordLoss_others _ _ _
      otherCounters := fun a other => AList.lookup_insert_ne other }

/-- A sender that has counted what it sent over its two relays. -/
def twoRelays : StatMpathManager where
  statOn := 300
  statOff := 1000
  goodrelays :=
    [⟨{ zeroEndPoint with addr := 1, port := 1 }, 40, 41, 9⟩,
      ⟨{ zeroEndPoint with addr := 2, port := 2 }, 50, 5, 9⟩]
  badrelays := []
  sndMap := ((∅ : Table UInt32 UInt32).insert 1 200).insert 2 70
  revMap := ∅
  curChannel := 1
  bstat := false
  sendNum := 270

/-- Three packets of two hundred came through, and the average is rounded to the same. -/
theorem few_received_recorded :
    Records twoRelays (twoRelays.processPathStatistics
      (Mem.receive (fun _ => 0) (statMsg (fun _ => 0) ⟨1, 1⟩ 3 ⟨7, 0⟩))) 1 3 200 := by
  apply (records_iff rfl (by decide) (by decide) (fun _ => 0) (fun _ => 0) ⟨7, 0⟩).mpr
  intro old listed
  obtain rfl := Option.some.inj listed
  decide

/-- No packet was lost, and the relay is held to lose all. -/
theorem full_reception_is_loss :
    ¬ ∀ (s : StatMpathManager) peeraddr r sent junk rest curTime,
      s.sndMap.lookup (SockaddrIn.addr peeraddr) = some sent → 1 ≤ sent → r ≤ sent →
      Records s (s.processPathStatistics (Mem.receive rest (statMsg junk peeraddr r curTime)))
        peeraddr.addr r sent := by
  intro always
  have records := always twoRelays ⟨1, 1⟩ 200 200 (fun _ => 0) (fun _ => 0) ⟨0, 0⟩ rfl
    (by decide) (by decide)
  obtain ⟨new, recorded, right⟩ := records.loss 41 rfl
  have counted : twoRelays.sndMap.lookup 1 = some 200 := rfl
  rw [processPathStatistics_statMsg counted (by decide)] at recorded
  obtain rfl := Option.some.inj recorded
  exact absurd right (by decide)

end StatMpathManager

end Cors
