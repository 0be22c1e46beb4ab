import Mathlib.Data.List.Basic

/-! # Taking what is new until there is enough

The elements of a sequence whose keys have not been seen, each at its first occurrence, and
the loop that appends them one by one to a list until a test of the list holds. The loop
appends as few of them as are enough, and all of them if that is never so.
-/

namespace Cors

section Greedy
variable [DecidableEq κ] (key : α → κ)

/-- The first occurrences of the keys that have not been seen. -/
def firsts (seen : List κ) : List α → List α
  | [] => []
  | x :: xs => if key x ∈ seen then firsts seen xs else x :: firsts (key x :: seen) xs

theorem firsts_sublist (seen : List κ) (xs : List α) : (firsts key seen xs).Sublist xs := by
  induction xs generalizing seen with
  | nil => exact .slnil
  | cons x xs ih =>
      unfold firsts
      split
      · exact (ih seen).cons x
      · exact (ih (key x :: seen)).cons_cons x

theorem firsts_notMem (seen : List κ) (xs : List α) : ∀ x ∈ firsts key seen xs, key x ∉ seen := by
  induction xs generalizing seen with
  | nil => exact fun _ member => absurd member List.not_mem_nil
  | cons x xs ih =>
      intro y member
      unfold firsts at member
      split at member
      · exact ih seen y member
      · rename_i new
        cases List.mem_cons.mp member with
        | inl same => exact same ▸ new
        | inr later =>
            have apart := ih (key x :: seen) y later
            exact fun old => apart (List.mem_cons_of_mem _ old)

theorem firsts_nodup (seen : List κ) (xs : List α) : ((firsts key seen xs).map key).Nodup := by
  induction xs generalizing seen with
  | nil => exact List.nodup_nil
  | cons x xs ih =>
      unfold firsts
      split
      · exact ih seen
      · rw [List.map_cons, List.nodup_cons]
        refine ⟨fun again => ?_, ih (key x :: seen)⟩
        obtain ⟨y, later, same⟩ := List.mem_map.mp again
        exact firsts_notMem key (key x :: seen) xs y later (same ▸ List.mem_cons_self)

theorem mem_firsts (seen : List κ) {xs : List α} {x : α} (member : x ∈ xs) :
    key x ∈ seen ∨ key x ∈ (firsts key seen xs).map key := by
  induction xs generalizing seen with
  | nil => cases member
  | cons y xs ih =>
      unfold firsts
      split
      · rename_i old
        cases List.mem_cons.mp member with
        | inl same => exact .inl (same ▸ old)
        | inr later => exact ih seen later
      · rw [List.map_cons]
        cases List.mem_cons.mp member with
        | inl same => exact .inr (same ▸ List.mem_cons_self)
        | inr later =>
            cases ih (key y :: seen) later with
            | inr new => exact .inr (List.mem_cons_of_mem _ new)
            | inl old =>
                cases List.mem_cons.mp old with
                | inl same => exact .inr (same ▸ List.mem_cons_self)
                | inr before => exact .inl before

theorem firsts_congr {seen seen' : List κ} (same : ∀ k, k ∈ seen ↔ k ∈ seen') (xs : List α) :
    firsts key seen xs = firsts key seen' xs := by
  induction xs generalizing seen seen' with
  | nil => rfl
  | cons x xs ih =>
      have longer : ∀ k, k ∈ key x :: seen ↔ k ∈ key x :: seen' := by
        intro k
        rw [List.mem_cons, List.mem_cons, same k]
      simp only [firsts, same (key x), ih same, ih longer]

variable (enough : List α → Bool)

/-- Append elements until there is enough. -/
def appendUntil (taken : List α) : List α → Bool × List α
  | [] => (false, taken)
  | x :: xs =>
      if enough (taken ++ [x]) then (true, taken ++ [x]) else appendUntil (taken ++ [x]) xs

/-- A list that was extended by as few elements as are enough. -/
structure Extended (taken new : List α) (result : Bool × List α) (n : Nat) : Prop where
  bound : n ≤ new.length
  extended : result.2 = taken ++ new.take n
  least : ∀ m < n, enough (taken ++ new.take m) = false
  answer : result.1 = enough result.2
  exhausted : result.1 = false → n = new.length

theorem appendUntil_extended (taken new : List α) (short : enough taken = false) :
    ∃ n, Extended enough taken new (appendUntil enough taken new) n := by
  induction new generalizing taken with
  | nil =>
      refine ⟨0, Nat.le_refl 0, (List.append_nil taken).symm, ?_, short.symm, fun _ => rfl⟩
      exact fun m before => absurd before (Nat.not_lt_zero m)
  | cons x xs ih =>
      unfold appendUntil
      by_cases met : enough (taken ++ [x]) = true
      · rw [if_pos met]
        refine ⟨1, Nat.le_add_left 1 xs.length, rfl, ?_, met.symm, fun unmet => by cases unmet⟩
        intro m before
        obtain rfl := Nat.lt_one_iff.mp before
        rw [List.take_zero, List.append_nil]
        exact short
      · rw [if_neg met]
        obtain ⟨n, rest⟩ := ih (taken ++ [x]) (Bool.eq_false_iff.mpr met)
        have one_more : ∀ m, taken ++ (x :: xs).take (m + 1) = taken ++ [x] ++ xs.take m := by
          intro m
          rw [List.take_succ_cons, List.append_cons]
        refine ⟨n + 1, Nat.succ_le_succ rest.bound, ?_, ?_, rest.answer, ?_⟩
        · rw [one_more, rest.extended]
        · intro m before
          cases m with
          | zero =>
              rw [List.take_zero, List.append_nil]
              exact short
          | succ m =>
              rw [one_more]
              exact rest.least m (Nat.lt_of_succ_lt_succ before)
        · intro unmet
          rw [rest.exhausted unmet, List.length_cons]

end Greedy

end Cors
