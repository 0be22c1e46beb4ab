import Mathlib.Data.List.Sort
import Cors.Client.Dropping

/-! # The fastest relays

The list of relays in use is ordered by delay and bounded by the number of relays that are
required. An answered reservation is inserted before the first relay that is not faster, and
what is too much then is cut off. The loop that looks for the place, its two ways to insert
and the removal from the end come to just that, and taking a relay out keeps the order.
-/

namespace Cors

namespace SimpleRlysltr

/-- The order of the list. -/
def Precedes (a b : RelayNode) : Prop := a.delay ≤ b.delay

instance : DecidableRel Precedes := fun a b => inferInstanceAs (Decidable (a.delay ≤ b.delay))

instance : Std.Total Precedes := ⟨fun a b => UInt64.le_total a.delay b.delay⟩

instance : IsTrans RelayNode Precedes := ⟨fun _ _ _ => UInt64.le_trans⟩

/-- The fastest `limit` of the relays of an ordered list and a new one. -/
def fastest (limit : Nat) (node : RelayNode) (l : List RelayNode) : List RelayNode :=
  (l.orderedInsert Precedes node).take limit

/-- The list is ordered and bounded. -/
structure Ranked (s : SimpleRlysltr) : Prop where
  ordered : s.relaylist.Pairwise Precedes
  short : s.Short

/-! ## The place of a new relay -/

theorem not_precedes_iff (node it : RelayNode) :
    ¬Precedes node it ↔ it.delay < node.delay := UInt64.not_le

theorem insertIdx_of_slot {relaynum i pos : Nat} {node : RelayNode} {l : List RelayNode}
    (found : slot relaynum node.delay i l = some (i + pos)) :
    l.insertIdx pos node = l.orderedInsert Precedes node := by
  induction l generalizing i pos with
  | nil =>
      unfold slot at found
      split at found
      · have here : pos = 0 := by have := Option.some.inj found; omega
        rw [here]
        rfl
      · cases found
  | cons it rest ih =>
      unfold slot at found
      split at found
      · split at found
        · rename_i faster
          obtain ⟨after, -, -⟩ := slot_some found
          obtain ⟨later, rfl⟩ : ∃ later, pos = later + 1 := ⟨pos - 1, by omega⟩
          have moved : i + (later + 1) = i + 1 + later := by omega
          have behind : ¬Precedes node it := (not_precedes_iff node it).mpr faster
          rw [List.insertIdx_succ_cons, List.orderedInsert_cons, if_neg behind, ih (moved ▸ found)]
        · rename_i slower
          have here : pos = 0 := by have := Option.some.inj found; omega
          have before : Precedes node it := UInt64.not_lt.mp slower
          rw [here, List.insertIdx_zero, List.orderedInsert_cons, if_pos before]
      · cases found

/-- When none is found, the new relay is behind all that count. -/
theorem take_of_slot_none {relaynum i : Nat} {node : RelayNode} {l : List RelayNode}
    (found : slot relaynum node.delay i l = none) :
    (l.orderedInsert Precedes node).take (relaynum - i) = l.take (relaynum - i) := by
  induction l generalizing i with
  | nil =>
      unfold slot at found
      split at found
      · cases found
      · have full : relaynum - i = 0 := by omega
        rw [full, List.take_zero, List.take_zero]
  | cons it rest ih =>
      unfold slot at found
      split at found
      · split at found
        · rename_i early faster
          have behind : ¬Precedes node it := (not_precedes_iff node it).mpr faster
          have count : relaynum - i = (relaynum - (i + 1)) + 1 := by omega
          rw [List.orderedInsert_cons, if_neg behind, count, List.take_succ_cons,
            List.take_succ_cons, ih found]
        · cases found
      · have full : relaynum - i = 0 := by omega
        rw [full, List.take_zero, List.take_zero]

theorem trim_relaylist {s : SimpleRlysltr}
    (short : s.relaylist.length ≤ s.req.relaynum.toNat + 1) :
    s.trim.relaylist = s.relaylist.take s.req.relaynum.toNat := by
  unfold trim
  split
  · have last : s.relaylist.length - 1 = s.req.relaynum.toNat := by omega
    rw [← last]
    exact List.dropLast_eq_take
  · rename_i fits
    exact (List.take_of_length_le (Nat.le_of_not_lt fits)).symm

theorem insertNode_trim_fastest {s : SimpleRlysltr} (short : s.Short) (node : RelayNode) :
    (s.insertNode node).trim.relaylist =
      fastest s.req.relaynum.toNat node s.relaylist := by
  cases found : slot s.req.relaynum.toNat node.delay 0 s.relaylist with
  | none =>
      have behind := take_of_slot_none found
      rw [Nat.sub_zero] at behind
      rw [insertNode_trim_of_none short found, fastest, behind, List.take_of_length_le short]
  | some pos =>
      have inside := (slot_inside found).1
      have placed : s.relaylist.insertIdx pos node = s.relaylist.orderedInsert Precedes node := by
        apply insertIdx_of_slot (i := 0)
        rw [found, Nat.zero_add]
      have inserted : (s.insertNode node).relaylist = s.relaylist.insertIdx pos node := by
        simp only [insertNode, found]
      have same : (s.insertNode node).req = s.req := by
        simp only [insertNode, found]
      have longer : (s.insertNode node).relaylist.length ≤
          (s.insertNode node).req.relaynum.toNat + 1 := by
        rw [inserted, same, List.length_insertIdx_of_le_length inside]
        exact Nat.add_le_add_right short 1
      rw [trim_relaylist longer, inserted, same, placed, fastest]

/-! ## One step -/

theorem fastest_ordered (limit : Nat) (node : RelayNode) {l : List RelayNode}
    (ordered : l.Pairwise Precedes) : (fastest limit node l).Pairwise Precedes :=
  (List.Pairwise.orderedInsert node l ordered).sublist (List.take_sublist _ _)

theorem processBwReply_ranked {s : SimpleRlysltr} (ranked : Ranked s) (tmNow : Timeval)
    (lossrate : UInt32) (msg : Mem) (len : Nat) :
    Ranked (s.processBwReply tmNow lossrate msg len) := by
  refine ⟨?_, processBwReply_short ranked.short tmNow lossrate msg len⟩
  unfold processBwReply
  split
  · exact ranked.ordered
  · rw [insertNode_trim_fastest ranked.short]
    exact fastest_ordered _ _ ranked.ordered

theorem processFwReply_sublist (s : SimpleRlysltr) (tmNow : Timeval) (msg : Mem) (len : Nat) :
    (s.processFwReply tmNow msg len).1.relaylist.Sublist s.relaylist := by
  cases decoded : parse CorsProbe.deserialize msg len with
  | none =>
      simp only [processFwReply, decoded]
      exact List.Sublist.refl _
  | some probe =>
      rw [processFwReply_relaylist decoded, remove_relaylist]
      split
      · exact List.Sublist.refl _
      · split
        · exact List.Sublist.refl _
        · exact List.eraseIdx_sublist _ _

theorem step_ranked (s : SimpleRlysltr) (e : Event) (ranked : Ranked s) : Ranked (s.step e) := by
  cases quiet : e.isReply with
  | false =>
      obtain ⟨_, _, _, _, _, same⟩ := s.step_cases quiet
      rw [same]
      exact ⟨ranked.ordered, ranked.short⟩
  | true =>
      cases e with
      | fwReply tmNow msg len =>
          refine ⟨?_, processFwReply_short ranked.short tmNow msg len⟩
          exact ranked.ordered.sublist (s.processFwReply_sublist tmNow msg len)
      | bwReply tmNow lossrate msg len => exact processBwReply_ranked ranked tmNow lossrate msg len
      | _ => cases quiet

theorem step_req (s : SimpleRlysltr) (e : Event) : (s.step e).req = s.req := by
  cases quiet : e.isReply with
  | false =>
      obtain ⟨_, _, _, _, _, same⟩ := s.step_cases quiet
      rw [same]
  | true =>
      cases e with
      | fwReply tmNow msg len => exact (s.processFwReply_frame tmNow msg len).req
      | bwReply tmNow lossrate msg len =>
          exact (s.processBwReply_frame tmNow lossrate msg len).req
      | _ => cases quiet

/-! ## Runs -/

theorem final_req (s : SimpleRlysltr) (es : List Event) : (Run.final step s es).req = s.req :=
  Run.final_of_invariant (P := fun s' => s'.req = s.req) rfl
    (fun s' e same => (step_req s' e).trans same) es

theorem new_ranked (psk : Endpoints) (boot : List EndPoint) (req : Requirement) (now : Int32) :
    Ranked (new psk boot req now) :=
  ⟨.nil, Nat.zero_le _⟩

/-- In every state of a run the list is ordered and bounded, and a reservation that is
    answered makes it the fastest of its relays and the new one. -/
theorem relaylist_ranked (psk : Endpoints) (boot : List EndPoint) (req : Requirement)
    (now : Int32) (es : List Event) :
    let s := Run.final step (new psk boot req now) es
    s.relaylist.Pairwise Precedes ∧ s.relaylist.length ≤ req.relaynum.toNat ∧
      ∀ tmNow lossrate msg len,
        (parse CorsProbe.deserialize msg len = none →
          (s.processBwReply tmNow lossrate msg len).relaylist = s.relaylist) ∧
        ∀ probe, parse CorsProbe.deserialize msg len = some probe →
          (s.processBwReply tmNow lossrate msg len).relaylist =
            fastest req.relaynum.toNat (relayNode probe tmNow lossrate) s.relaylist := by
  intro s
  have ranked : Ranked s := Run.final_of_invariant (new_ranked psk boot req now) step_ranked es
  have same : s.req = req := final_req (new psk boot req now) es
  refine ⟨ranked.ordered, same ▸ ranked.short, fun tmNow lossrate msg len => ⟨?_, ?_⟩⟩
  · intro refused
    simp only [processBwReply, refused]
  · intro probe decoded
    simp only [processBwReply, decoded]
    rw [insertNode_trim_fastest ranked.short, same]

end SimpleRlysltr

end Cors
