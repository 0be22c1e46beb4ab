import Mathlib.Algebra.BigOperators.Group.List.Basic
import Cors.Client.Selection
import Cors.Lib.Erasing
import Cors.Lib.Greedy

/-! # Which relays are sent over

A multipath manager keeps the good relays that the selector still lists and adds relays of
the list until bandwidth and number are as required. The loop that drops the others erases
as it goes, and the loop that adds stops as soon as there is enough. While the sum of the
bandwidths fits in 32 bits, the answer says exactly whether the requirement is met.
-/

namespace Cors

open SimpleRlysltr (addrs)

def nodeAddr (node : RelayNode) : UInt32 := node.relay.addr

/-! ## Adding relays -/

/-- The sum of the bandwidths, as it is computed. -/
def gainOf (l : List RelayNode) : UInt32 := l.foldl (fun gainBw node => gainBw + node.bandwidth) 0

/-- The sum as a number. -/
def bandwidthOf (l : List RelayNode) : Nat := (l.map fun node => node.bandwidth.toNat).sum

def satisfied (rq : Requirement) (goodrelays : List RelayNode) : Bool :=
  enough rq (gainOf goodrelays) goodrelays

/-- Bandwidth and number are as required. -/
def Met (rq : Requirement) (goodrelays : List RelayNode) : Prop :=
  rq.bandwidth.toNat ≤ bandwidthOf goodrelays ∧ rq.relaynum.toNat ≤ goodrelays.length

/-- The relays of the snapshot that can be added, once each. -/
def addable (badrelays goodrelays relaylist : List RelayNode) : List RelayNode :=
  firsts nodeAddr (addrs badrelays ++ addrs goodrelays) relaylist

theorem listed_iff (l : List RelayNode) (addr : UInt32) :
    listed l addr = true ↔ addr ∈ addrs l := by
  rw [listed, List.any_eq_true, addrs, List.mem_map]
  simp only [decide_eq_true_eq]

theorem gainOf_concat (l : List RelayNode) (node : RelayNode) :
    gainOf (l ++ [node]) = gainOf l + node.bandwidth :=
  List.foldl_append

theorem addRelays_eq (rq : Requirement) (badrelays goodrelays relaylist : List RelayNode) :
    addRelays rq badrelays goodrelays (gainOf goodrelays) relaylist =
      appendUntil (satisfied rq) goodrelays (addable badrelays goodrelays relaylist) := by
  induction relaylist generalizing goodrelays with
  | nil => rfl
  | cons it rest ih =>
      unfold addRelays addable firsts
      have present : (listed badrelays it.relay.addr || listed goodrelays it.relay.addr) = true ↔
          nodeAddr it ∈ addrs badrelays ++ addrs goodrelays := by
        rw [Bool.or_eq_true, listed_iff, listed_iff, List.mem_append]
        rfl
      by_cases old : nodeAddr it ∈ addrs badrelays ++ addrs goodrelays
      · rw [if_pos (present.mpr old), if_pos old]
        exact ih goodrelays
      · rw [if_neg (mt present.mp old), if_neg old]
        have later := ih (goodrelays ++ [it])
        have shifted : addable badrelays (goodrelays ++ [it]) rest =
            firsts nodeAddr (nodeAddr it :: (addrs badrelays ++ addrs goodrelays)) rest := by
          apply firsts_congr
          intro addr
          simp only [addrs, nodeAddr, List.map_append, List.map_cons, List.map_nil,
            List.mem_append, List.mem_cons, List.not_mem_nil, or_false]
          tauto
        rw [gainOf_concat, shifted] at later
        unfold appendUntil
        simp only [later, satisfied, gainOf_concat]

/-- What the managers do with the good relays that are kept. -/
def select (rq : Requirement) (badrelays kept relaylist : List RelayNode) :
    Bool × List RelayNode :=
  if satisfied rq kept then (true, kept) else addRelays rq badrelays kept (gainOf kept) relaylist

theorem select_extended (rq : Requirement) (badrelays kept relaylist : List RelayNode) :
    ∃ n, Extended (satisfied rq) kept (addable badrelays kept relaylist)
      (select rq badrelays kept relaylist) n := by
  unfold select
  by_cases met : satisfied rq kept = true
  · rw [if_pos met]
    refine ⟨0, Nat.zero_le _, (List.append_nil kept).symm, ?_, met.symm, ?_⟩
    · exact fun m before => absurd before (Nat.not_lt_zero m)
    · exact fun unmet => by cases unmet
  · rw [if_neg met, addRelays_eq]
    exact appendUntil_extended (satisfied rq) kept _ (Bool.eq_false_iff.mpr met)

section Extended
variable {enough : List RelayNode → Bool} {badrelays kept relaylist : List RelayNode}
  {result : Bool × List RelayNode} {n : Nat}

theorem Extended.mem (extended : Extended enough kept (addable badrelays kept relaylist) result n)
    {node : RelayNode} (good : node ∈ result.2) :
    node ∈ kept ∨ node ∈ addable badrelays kept relaylist := by
  rw [extended.extended, List.mem_append] at good
  exact good.imp id List.mem_of_mem_take

theorem Extended.nodup (extended : Extended enough kept (addable badrelays kept relaylist) result n)
    (distinct : (addrs kept).Nodup) : (addrs result.2).Nodup := by
  have added : (addrs ((addable badrelays kept relaylist).take n)).Nodup :=
    (firsts_nodup nodeAddr _ relaylist).sublist ((List.take_sublist n _).map nodeAddr)
  rw [extended.extended, addrs, List.map_append]
  refine List.nodup_append.mpr ⟨distinct, added, ?_⟩
  rintro addr old other new rfl
  obtain ⟨node, taken, rfl⟩ := List.mem_map.mp new
  have apart := firsts_notMem nodeAddr _ relaylist node (List.mem_of_mem_take taken)
  exact apart (List.mem_append_right _ old)

/-- When the answer is no, there is nothing left to add. -/
theorem Extended.all (extended : Extended enough kept (addable badrelays kept relaylist) result n)
    (unmet : result.1 = false) {node : RelayNode} (member : node ∈ relaylist) :
    nodeAddr node ∈ addrs badrelays ∨ nodeAddr node ∈ addrs result.2 := by
  have whole : result.2 = kept ++ addable badrelays kept relaylist := by
    rw [extended.extended, extended.exhausted unmet, List.take_length]
  rw [whole, addrs, addrs, List.map_append, List.mem_append]
  cases mem_firsts nodeAddr (addrs badrelays ++ addrs kept) member with
  | inr new => exact .inr (.inr new)
  | inl old =>
      cases List.mem_append.mp old with
      | inl bad => exact .inl bad
      | inr good => exact .inr (.inl good)

end Extended

/-! ## The sum of the bandwidths -/

theorem foldl_gain (l : List RelayNode) (gainBw : UInt32)
    (fits : gainBw.toNat + bandwidthOf l < 4294967296) :
    (l.foldl (fun gainBw node => gainBw + node.bandwidth) gainBw).toNat =
      gainBw.toNat + bandwidthOf l := by
  induction l generalizing gainBw with
  | nil => rfl
  | cons node rest ih =>
      rw [bandwidthOf, List.map_cons, List.sum_cons] at fits ⊢
      have next : (gainBw + node.bandwidth).toNat = gainBw.toNat + node.bandwidth.toNat := by
        rw [UInt32.toNat_add]
        exact Nat.mod_eq_of_lt (by omega)
      have rest_fits : (gainBw + node.bandwidth).toNat + bandwidthOf rest < 4294967296 := by
        rw [next, bandwidthOf]
        omega
      rw [List.foldl_cons, ih _ rest_fits, next, bandwidthOf, Nat.add_assoc]

theorem bandwidthOf_le {l : List RelayNode}
    (granted : ∀ node ∈ l, node.bandwidth.toNat ≤ 65535) : bandwidthOf l ≤ 65535 * l.length := by
  induction l with
  | nil => exact Nat.le_refl 0
  | cons node rest ih =>
      obtain ⟨first, others⟩ := List.forall_mem_cons.mp granted
      have later := ih others
      rw [bandwidthOf] at later ⊢
      rw [List.map_cons, List.sum_cons, List.length_cons]
      omega

/-- For lists as long as two requirements, the computed sum decides. -/
theorem satisfied_iff (rq : Requirement) {l : List RelayNode} (few : l.length ≤ 510)
    (granted : ∀ node ∈ l, node.bandwidth.toNat ≤ 65535) :
    satisfied rq l = true ↔ Met rq l := by
  have most := bandwidthOf_le granted
  have sum : (gainOf l).toNat = bandwidthOf l := by
    have folded := foldl_gain l 0
    rw [UInt32.toNat_zero, Nat.zero_add] at folded
    exact folded (by omega)
  rw [satisfied, enough, Bool.and_eq_true, decide_eq_true_eq, decide_eq_true_eq, ge_iff_le,
    UInt32.le_iff_toNat_le, sum]
  rfl

/-- Two lists that are as long as one requirement can ask for make up one that is short
    enough. -/
theorem satisfied_append_iff (rq : Requirement) {goodrelays relaylist kept new : List RelayNode}
    (old : kept.Sublist goodrelays) (fresh : new.Sublist relaylist)
    (few : goodrelays.length ≤ 255) (few_listed : relaylist.length ≤ 255)
    (granted : ∀ node ∈ goodrelays ++ relaylist, node.bandwidth.toNat ≤ 65535) :
    satisfied rq (kept ++ new) = true ↔ Met rq (kept ++ new) := by
  have parts : (kept ++ new).Sublist (goodrelays ++ relaylist) := old.append fresh
  apply satisfied_iff rq
  · have total := parts.length_le
    rw [@List.length_append _ goodrelays] at total
    exact Nat.le_trans total (by omega)
  · exact fun node member => granted node (parts.mem member)

/-! ## The simple manager -/

namespace SimpleMpathManager

/-- The good relays that are still listed. -/
def kept (s : SimpleMpathManager) (relaylist : List RelayNode) : List RelayNode :=
  s.goodrelays.filter fun good => listed relaylist good.relay.addr

/-- The loop that checks the good relays and erases those that are not listed, with the
    sum of the bandwidths of the others. -/
def recheck (s : SimpleMpathManager) (relaylist : List RelayNode) : List RelayNode × UInt32 :=
  eraseLoop (fun good => listed relaylist good.relay.addr)
    (fun gainBw good =>
      if listed relaylist good.relay.addr then gainBw + good.bandwidth else gainBw)
    0 s.goodrelays 0

theorem recheck_eq (s : SimpleMpathManager) (relaylist : List RelayNode) :
    s.recheck relaylist = (s.kept relaylist, gainOf (s.kept relaylist)) := by
  rw [recheck, eraseLoop_eq, kept, gainOf, List.foldl_filter]

/-- `get_requirement` with that loop. -/
def selectLoop (s : SimpleMpathManager) (relaylist : List RelayNode) (rq : Requirement) :
    Bool × SimpleMpathManager :=
  if relaylist.isEmpty then
    (false, s)
  else
    let (goodrelays, gainBw) := s.recheck relaylist
    if enough rq gainBw goodrelays then
      (true, { s with goodrelays })
    else
      let (met, goodrelays) := addRelays rq [] goodrelays gainBw relaylist
      (met, { s with goodrelays })

theorem selectLoop_eq (s : SimpleMpathManager) (relaylist : List RelayNode) (rq : Requirement) :
    s.selectLoop relaylist rq = s.getRequirement relaylist rq := by
  unfold selectLoop getRequirement
  rw [recheck_eq]
  rfl

theorem getRequirement_eq (s : SimpleMpathManager) {relaylist : List RelayNode}
    (some_listed : relaylist ≠ []) (rq : Requirement) :
    s.getRequirement relaylist rq =
      ((select rq [] (s.kept relaylist) relaylist).1,
        { s with goodrelays := (select rq [] (s.kept relaylist) relaylist).2 }) := by
  have some_left : ¬relaylist.isEmpty = true := fun empty => some_listed (List.isEmpty_iff.mp empty)
  unfold getRequirement select
  rw [if_neg some_left]
  dsimp only
  by_cases met : satisfied rq (s.kept relaylist) = true
  · rw [if_pos met]
    exact if_pos met
  · rw [if_neg met]
    exact if_neg met

theorem kept_listed (s : SimpleMpathManager) (relaylist : List RelayNode) :
    ∀ node ∈ s.kept relaylist, nodeAddr node ∈ addrs relaylist := by
  intro node member
  exact (listed_iff relaylist _).mp (List.mem_filter.mp member).2

/-- Selecting keeps the good relays that are still listed and adds as few as are enough, and
    its answer is whether the requirement is met. -/
theorem selection_exact (s : SimpleMpathManager) (relaylist : List RelayNode) (rq : Requirement)
    (some_listed : relaylist ≠ []) (distinct : (addrs s.goodrelays).Nodup)
    (few : s.goodrelays.length ≤ 255) (few_listed : relaylist.length ≤ 255)
    (granted : ∀ node ∈ s.goodrelays ++ relaylist, node.bandwidth.toNat ≤ 65535) :
    let kept := s.goodrelays.filter fun good => good.relay.addr ∈ addrs relaylist
    let new := firsts nodeAddr (addrs kept) relaylist
    let answer := (s.getRequirement relaylist rq).1
    let s' := (s.getRequirement relaylist rq).2
    (∃ n ≤ new.length, s' = { s with goodrelays := kept ++ new.take n } ∧
      ∀ m < n, ¬Met rq (kept ++ new.take m)) ∧
      (addrs s'.goodrelays).Nodup ∧ addrs s'.goodrelays ⊆ addrs relaylist ∧
      (answer = true ↔ Met rq s'.goodrelays) ∧
      (answer = false → addrs relaylist ⊆ addrs s'.goodrelays) ∧
      s.selectLoop relaylist rq = s.getRequirement relaylist rq := by
  intro kept new answer s'
  have same : s.kept relaylist = kept := by
    apply List.filter_congr
    intro good _
    exact Bool.eq_iff_iff.mpr ((listed_iff relaylist _).trans decide_eq_true_iff.symm)
  have listed_kept := s.kept_listed relaylist
  have chosen := s.getRequirement_eq some_listed rq
  rw [same] at listed_kept chosen
  obtain ⟨n, extended⟩ := select_extended rq [] kept relaylist
  have old : kept.Sublist s.goodrelays := List.filter_sublist
  have sublist : new.Sublist relaylist := firsts_sublist nodeAddr _ relaylist
  have decides : ∀ m, satisfied rq (kept ++ new.take m) = true ↔ Met rq (kept ++ new.take m) :=
    fun m => satisfied_append_iff rq old ((List.take_sublist m new).trans sublist) few few_listed
      granted
  have outcome : s'.goodrelays = (select rq [] kept relaylist).2 :=
    congrArg (fun outcome => outcome.2.goodrelays) chosen
  have verdict : answer = (select rq [] kept relaylist).1 :=
    congrArg Prod.fst chosen
  rw [outcome, verdict]
  refine ⟨⟨n, extended.bound, ?_, ?_⟩, ?_, ?_, ?_, ?_, s.selectLoop_eq relaylist rq⟩
  · have next : s' = { s with goodrelays := (select rq [] kept relaylist).2 } :=
      congrArg Prod.snd chosen
    rw [next, extended.extended]
    rfl
  · intro m before met
    have unmet := extended.least m before
    exact Bool.eq_false_iff.mp unmet ((decides m).mpr met)
  · exact extended.nodup (distinct.sublist (old.map nodeAddr))
  · intro addr member
    obtain ⟨node, good, rfl⟩ := List.mem_map.mp member
    cases extended.mem good with
    | inl old => exact listed_kept node old
    | inr new => exact List.mem_map_of_mem (sublist.mem new)
  · rw [extended.answer, extended.extended]
    exact decides n
  · intro unmet addr member
    obtain ⟨node, listed, rfl⟩ := List.mem_map.mp member
    exact (extended.all unmet listed).resolve_left List.not_mem_nil

/-- Of two good relays one is no longer listed, and another one is added in its place. -/
theorem selection_exact_replaced :
    let relay (addr : UInt32) : RelayNode := ⟨⟨0, 0, addr, 0⟩, 0, 0, 10⟩
    let s : SimpleMpathManager := ⟨0, [relay 1, relay 2]⟩
    let s' := (s.getRequirement [relay 3, relay 2, relay 3, relay 4] ⟨0, 20, 0, 2⟩).2
    addrs s'.goodrelays = [2, 3] ∧ Met ⟨0, 20, 0, 2⟩ s'.goodrelays := by
  intro relay s s'
  have chosen := selection_exact s [relay 3, relay 2, relay 3, relay 4] ⟨0, 20, 0, 2⟩ (by decide)
    (by decide) (by decide) (by decide) (by decide)
  exact ⟨by decide, chosen.2.2.2.1.mp (by decide)⟩

end SimpleMpathManager

end Cors
