import Mathlib.Data.List.InsertIdx
import Mathlib.Data.List.Perm.Basic
import Cors.Client.SimpleRlysltr

/-! # Selecting a relay once

A relay is looked up in the list when its probe is answered, and entered when its
reservation is. In between, and when a reply comes in twice, it may have been entered
already. The list holds every address once through a run just in case every reservation
that is answered finds its relay absent, is too slow for the list, or pushes out the
relay's own entry.
-/

namespace Cors

namespace SimpleRlysltr

def addrs (l : List RelayNode) : List UInt32 := l.map fun node => node.relay.addr

/-- No address is listed twice. -/
def Distinct (s : SimpleRlysltr) : Prop := (addrs s.relaylist).Nodup

/-- The first `relaynum` entries are all there and faster. -/
def AllFaster (s : SimpleRlysltr) (delay : UInt64) : Prop :=
  s.req.relaynum.toNat ≤ s.relaylist.length ∧
    ∀ node ∈ s.relaylist.take s.req.relaynum.toNat, node.delay < delay

/-- A reply to a reservation that lists no address twice: its relay is not listed, or is
    not entered, or is the last of a full list. All other events are fine. -/
def Selects (s : SimpleRlysltr) : Event → Prop
  | .bwReply tmNow lossrate msg len =>
      match parse CorsProbe.deserialize msg len with
      | none => True
      | some probe =>
          probe.relay.addr ∉ addrs s.relaylist ∨
            s.AllFaster (relayNode probe tmNow lossrate).delay ∨
            (s.req.relaynum.toNat ≤ s.relaylist.length ∧
              (addrs s.relaylist).getLast? = some probe.relay.addr)
  | _ => True

/-! ## Where an entry is inserted -/

theorem slot_none_iff {relaynum i : Nat} {delay : UInt64} {l : List RelayNode} :
    slot relaynum delay i l = none ↔
      relaynum ≤ i + l.length ∧ ∀ node ∈ l.take (relaynum - i), node.delay < delay := by
  induction l generalizing i with
  | nil =>
      unfold slot
      split <;> simp <;> omega
  | cons it rest ih =>
      unfold slot
      split
      · have count : relaynum - i = (relaynum - (i + 1)) + 1 := by omega
        have longer : relaynum ≤ i + 1 + rest.length ↔ relaynum ≤ i + (rest.length + 1) := by omega
        rw [count, List.take_succ_cons, List.forall_mem_cons, List.length_cons]
        by_cases faster : it.delay < delay
        · rw [if_pos faster, ih, longer]
          simp only [faster, true_and]
        · rw [if_neg faster]
          simp only [faster, false_and, and_false, reduceCtorEq]
      · have count : relaynum - i = 0 := by omega
        have long : relaynum ≤ i + (it :: rest).length := by omega
        simp only [count, long, List.take_zero, List.not_mem_nil, false_imp_iff, implies_true,
          and_self]

theorem slot_some {relaynum i pos : Nat} {delay : UInt64} {l : List RelayNode}
    (found : slot relaynum delay i l = some pos) :
    i ≤ pos ∧ pos ≤ i + l.length ∧ pos < relaynum := by
  induction l generalizing i with
  | nil =>
      unfold slot at found
      split at found
      · obtain rfl := Option.some.inj found
        exact ⟨Nat.le_refl _, Nat.le_refl _, by assumption⟩
      · cases found
  | cons it rest ih =>
      unfold slot at found
      split at found
      · split at found
        · obtain ⟨after, inside, early⟩ := ih found
          rw [List.length_cons]
          omega
        · obtain rfl := Option.some.inj found
          exact ⟨Nat.le_refl _, Nat.le_add_right _ _, by assumption⟩
      · cases found

theorem slot_inside {relaynum pos : Nat} {delay : UInt64} {l : List RelayNode}
    (found : slot relaynum delay 0 l = some pos) : pos ≤ l.length ∧ pos < relaynum := by
  obtain ⟨-, inside, early⟩ := slot_some found
  rw [Nat.zero_add] at inside
  exact ⟨inside, early⟩

theorem dropLast_insertIdx {l : List α} {pos : Nat} (inside : pos < l.length) (x : α) :
    (l.insertIdx pos x).dropLast = l.dropLast.insertIdx pos x := by
  induction l generalizing pos with
  | nil => cases inside
  | cons y ys ih =>
      cases pos with
      | zero => simp
      | succ pos =>
          have within : pos < ys.length := Nat.lt_of_succ_lt_succ inside
          have more : ys ≠ [] := List.ne_nil_of_length_pos (Nat.zero_lt_of_lt within)
          have longer : ys.insertIdx pos x ≠ [] := by
            apply List.ne_nil_of_length_pos
            rw [List.length_insertIdx_of_le_length (Nat.le_of_lt within)]
            exact Nat.succ_pos _
          rw [List.insertIdx_succ_cons, List.dropLast_cons_of_ne_nil longer,
            List.dropLast_cons_of_ne_nil more, List.insertIdx_succ_cons, ih within]

/-! ## One step -/

theorem insertNode_trim_relaylist (s : SimpleRlysltr) (node : RelayNode) {pos : Nat}
    (found : slot s.req.relaynum.toNat node.delay 0 s.relaylist = some pos) :
    (s.insertNode node).trim.relaylist =
      if s.req.relaynum.toNat ≤ s.relaylist.length then s.relaylist.dropLast.insertIdx pos node
      else s.relaylist.insertIdx pos node := by
  obtain ⟨inside, early⟩ := slot_inside found
  have longer := List.length_insertIdx_of_le_length inside node
  unfold insertNode trim
  simp only [found, longer]
  by_cases full : s.req.relaynum.toNat ≤ s.relaylist.length
  · have excess : s.relaylist.length + 1 > s.req.relaynum.toNat := by omega
    simp only [if_pos excess, if_pos full]
    exact dropLast_insertIdx (by omega) node
  · have fits : ¬ s.relaylist.length + 1 > s.req.relaynum.toNat := by omega
    simp only [if_neg fits, if_neg full]

theorem addrs_insertIdx {l : List RelayNode} {pos : Nat} (inside : pos ≤ l.length)
    (node : RelayNode) :
    (addrs (l.insertIdx pos node)).Nodup ↔ node.relay.addr ∉ addrs l ∧ (addrs l).Nodup := by
  have shuffled := (List.perm_insertIdx node l inside).map fun node => node.relay.addr
  exact shuffled.nodup_iff.trans List.nodup_cons

/-- Without its last element a list has an address no more if it was the last. -/
theorem notMem_dropLast_iff {l : List UInt32} (distinct : l.Nodup) (more : l ≠ []) (x : UInt32) :
    x ∉ l.dropLast ↔ x ∉ l ∨ l.getLast? = some x := by
  have split := List.dropLast_append_getLast more
  have last : l.getLast? = some (l.getLast more) := List.getLast?_eq_some_getLast more
  have apart : l.getLast more ∉ l.dropLast := by
    rw [← split] at distinct
    intro again
    exact (List.nodup_append.mp distinct).2.2 _ again _ List.mem_cons_self rfl
  rw [last, Option.some.injEq]
  constructor
  · intro absent
    by_cases own : l.getLast more = x
    · exact .inr own
    · refine .inl fun member => ?_
      rw [← split, List.mem_append, List.mem_singleton] at member
      cases member with
      | inl before => exact absent before
      | inr same => exact own same.symm
  · rintro (absent | rfl)
    · exact fun member => absent ((List.dropLast_sublist l).mem member)
    · exact apart

theorem slot_none_iff_allFaster (s : SimpleRlysltr) (delay : UInt64) :
    slot s.req.relaynum.toNat delay 0 s.relaylist = none ↔ s.AllFaster delay := by
  rw [slot_none_iff, AllFaster, Nat.zero_add, Nat.sub_zero]

theorem trim_distinct {s : SimpleRlysltr} (distinct : s.Distinct) : s.trim.Distinct := by
  unfold trim
  split
  · exact List.Nodup.sublist ((List.dropLast_sublist s.relaylist).map _) distinct
  · exact distinct

theorem insertNode_trim_distinct {s : SimpleRlysltr} (distinct : s.Distinct) (node : RelayNode) :
    (s.insertNode node).trim.Distinct ↔
      node.relay.addr ∉ addrs s.relaylist ∨ s.AllFaster node.delay ∨
        (s.req.relaynum.toNat ≤ s.relaylist.length ∧
          (addrs s.relaylist).getLast? = some node.relay.addr) := by
  cases found : slot s.req.relaynum.toNat node.delay 0 s.relaylist with
  | none =>
      have slow := (s.slot_none_iff_allFaster node.delay).mp found
      have kept : s.insertNode node = s := by simp only [insertNode, found]
      rw [kept]
      exact iff_of_true (trim_distinct distinct) (.inr (.inl slow))
  | some pos =>
      obtain ⟨inside, early⟩ := slot_inside found
      have entered : ¬ s.AllFaster node.delay := by
        rw [← slot_none_iff_allFaster, found]
        exact Option.some_ne_none pos
      rw [Distinct, insertNode_trim_relaylist s node found]
      by_cases full : s.req.relaynum.toNat ≤ s.relaylist.length
      · have more : addrs s.relaylist ≠ [] := by
          apply List.ne_nil_of_length_pos
          rw [addrs, List.length_map]
          omega
        have within : pos ≤ s.relaylist.dropLast.length := by
          rw [List.length_dropLast]
          omega
        have others : (addrs s.relaylist.dropLast).Nodup :=
          List.Nodup.sublist ((List.dropLast_sublist s.relaylist).map _) distinct
        have dropped : addrs s.relaylist.dropLast = (addrs s.relaylist).dropLast :=
          List.map_dropLast
        rw [if_pos full, addrs_insertIdx within, and_iff_left others, dropped,
          notMem_dropLast_iff distinct more]
        simp only [entered, full, true_and, false_or]
      · have whole : (addrs s.relaylist).Nodup := distinct
        rw [if_neg full, addrs_insertIdx inside, and_iff_left whole]
        simp only [entered, full, false_and, or_false]

theorem remove_distinct {s : SimpleRlysltr} (distinct : s.Distinct) (addr : UInt32) :
    (s.remove addr).Distinct := by
  unfold remove
  split
  · exact distinct
  · exact List.Nodup.sublist ((List.eraseIdx_sublist s.relaylist _).map _) distinct

theorem processFwReply_distinct {s : SimpleRlysltr} (distinct : s.Distinct) (tmNow : Timeval)
    (msg : Mem) (len : Nat) : (s.processFwReply tmNow msg len).1.Distinct := by
  unfold processFwReply
  split
  · exact distinct
  · dsimp only
    split
    · exact distinct
    · split
      · split <;> exact distinct
      · refine remove_distinct ?_ _
        exact distinct

theorem selects_of_quiet (s : SimpleRlysltr) {e : Event} (quiet : e.isReply = false) :
    s.Selects e := by
  cases e with
  | bwReply tmNow lossrate msg len => cases quiet
  | _ => trivial

theorem step_distinct (s : SimpleRlysltr) (e : Event) (distinct : s.Distinct) :
    (s.step e).Distinct ↔ s.Selects e := by
  cases quiet : e.isReply with
  | false =>
      obtain ⟨_, _, _, _, _, same⟩ := s.step_cases quiet
      refine iff_of_true ?_ (s.selects_of_quiet quiet)
      rw [same]
      exact distinct
  | true =>
      cases e with
      | fwReply tmNow msg len =>
          exact iff_of_true (processFwReply_distinct distinct tmNow msg len) trivial
      | bwReply tmNow lossrate msg len =>
          simp only [step, react, processBwReply, Selects]
          cases parse CorsProbe.deserialize msg len with
          | none => exact iff_of_true distinct trivial
          | some probe => exact insertNode_trim_distinct distinct _
      | _ => cases quiet

/-! ## Runs -/

theorem new_distinct (psk : Endpoints) (boot : List EndPoint) (req : Requirement) (now : Int32) :
    (new psk boot req now).Distinct :=
  List.nodup_nil

/-- From a fresh selector no address is listed twice in any state of a run just in case
    every step of the run selects. -/
theorem distinct_throughout_iff (psk : Endpoints) (boot : List EndPoint) (req : Requirement)
    (now : Int32) (es : List Event) :
    Run.Throughout step Distinct (new psk boot req now) es ↔
      ∀ visit ∈ Run.visits step (new psk boot req now) es, visit.1.Selects visit.2 :=
  Run.throughout_iff (new_distinct psk boot req now) step_distinct es

/-- Two relays are required, and the reply to one reservation comes in twice. -/
theorem duplicate_reply_selects_twice :
    ¬ ∀ psk boot req now es, Run.Throughout step Distinct (new psk boot req now) es := by
  intro always
  let psk : Endpoints := ⟨zeroEndPoint, zeroEndPoint⟩
  let relay : EndPoint := ⟨0, 1, 1, 0⟩
  let answered := { CorsProbe.new with type := .fwReply, relay }
  let reserved := { CorsProbe.new with type := .bwReply, relay }
  let fwReply : Event := .fwReply ⟨0, 0⟩ (Mem.padded answered.serialize) 54
  let bwReply : Event := .bwReply ⟨0, 0⟩ 0 (Mem.padded reserved.serialize) 54
  let es := [fwReply, bwReply, bwReply]
  have distinct := always psk [relay] ⟨0, 0, 0, 2⟩ 0 es es [] (List.append_nil es).symm
  have listed : addrs (Run.final step (new psk [relay] ⟨0, 0, 0, 2⟩ 0) es).relaylist = [1, 1] := by
    decide +kernel
  rw [Distinct, listed] at distinct
  exact absurd distinct (by decide)

end SimpleRlysltr

end Cors
