import Mathlib.Data.List.Basic

/-! # Loops that erase as they go

A loop over a sequence that erases the element it stands at or steps past it, and keeps an
account of what it has seen. The position after an erasure is that of the next element. Such
a loop visits every element once and in order, and leaves those it keeps.
-/

namespace Cors

section Erasing
variable (keep : α → Bool) (note : β → α → β)

/-- The loop from position `i`, with the account `b` so far. -/
def eraseLoop (i : Nat) (xs : List α) (b : β) : List α × β :=
  if inside : i < xs.length then
    if keep xs[i] then
      eraseLoop (i + 1) xs (note b xs[i])
    else
      eraseLoop i (xs.eraseIdx i) (note b xs[i])
  else
    (xs, b)
termination_by xs.length - i
decreasing_by
  · omega
  · rw [List.length_eraseIdx_of_lt inside]
    omega

theorem eraseLoop_append (before xs : List α) (b : β) :
    eraseLoop keep note before.length (before ++ xs) b =
      (before ++ xs.filter keep, xs.foldl note b) := by
  induction xs generalizing before b with
  | nil =>
      unfold eraseLoop
      simp
  | cons x xs ih =>
      have inside : before.length < (before ++ x :: xs).length := by simp
      have here : (before ++ x :: xs)[before.length] = x := by simp
      unfold eraseLoop
      rw [dif_pos inside, here, List.foldl_cons]
      by_cases kept : keep x = true
      · rw [if_pos kept, List.filter_cons_of_pos kept, List.append_cons]
        have later := ih (before ++ [x]) (note b x)
        rw [List.length_append, List.length_singleton] at later
        rw [later, List.append_assoc, List.singleton_append]
      · have erased : (before ++ x :: xs).eraseIdx before.length = before ++ xs := by
          rw [List.eraseIdx_append_of_length_le (Nat.le_refl _), Nat.sub_self,
            List.eraseIdx_cons_zero]
        rw [if_neg kept, List.filter_cons_of_neg kept, erased]
        exact ih before (note b x)

/-- From the beginning, the loop filters the sequence and folds the account over it. -/
theorem eraseLoop_eq (xs : List α) (b : β) :
    eraseLoop keep note 0 xs b = (xs.filter keep, xs.foldl note b) :=
  eraseLoop_append keep note [] xs b

end Erasing

end Cors
