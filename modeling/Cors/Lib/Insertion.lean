import Mathlib.Data.List.Basic
import Mathlib.Order.Lattice

/-! # Insertion from the back

A list with ascending keys into which elements are put where they belong. The place is looked
for from the end, and an element whose key is there already is refused.
-/

namespace Cors

namespace Insertion

section Scan
variable [LinearOrder κ] (key : α → κ)

/-- The scan of a list that is given from its end. -/
def scan (x : α) : List α → Option (List α)
  | [] => some [x]
  | y :: ys =>
      if key y ≤ key x then
        if key y < key x then some (x :: y :: ys) else none
      else
        (scan x ys).map (y :: ·)

def insert (x : α) (ys : List α) : Option (List α) := (scan key x ys.reverse).map List.reverse

def Ascending (ys : List α) : Prop := ys.Pairwise fun y z => key y < key z

variable {key} {x : α} {ys zs : List α}

theorem scan_some (found : scan key x ys = some zs) :
    ∃ r l, ys = r ++ l ∧ zs = r ++ x :: l ∧ (∀ y ∈ r, key x < key y) ∧
      ∀ y ∈ l.head?, key y < key x := by
  induction ys generalizing zs with
  | nil =>
      obtain rfl := Option.some.inj found
      exact ⟨[], [], rfl, rfl, List.forall_mem_nil _, fun _ none => by cases none⟩
  | cons y ys ih =>
      rw [scan] at found
      by_cases low : key y ≤ key x
      · rw [if_pos low] at found
        by_cases less : key y < key x
        · rw [if_pos less] at found
          obtain rfl := Option.some.inj found
          refine ⟨[], y :: ys, rfl, rfl, List.forall_mem_nil _, fun z first => ?_⟩
          obtain rfl := Option.some.inj first
          exact less
        · rw [if_neg less] at found
          cases found
      · rw [if_neg low] at found
        obtain ⟨rest, later, rfl⟩ := Option.map_eq_some_iff.mp found
        obtain ⟨r, l, rfl, rfl, greater, first⟩ := ih later
        exact ⟨y :: r, l, rfl, rfl, List.forall_mem_cons.mpr ⟨lt_of_not_ge low, greater⟩, first⟩

theorem scan_none (refused : scan key x ys = none) : ∃ y ∈ ys, key y = key x := by
  induction ys with
  | nil => cases refused
  | cons y ys ih =>
      rw [scan] at refused
      by_cases low : key y ≤ key x
      · rw [if_pos low] at refused
        by_cases less : key y < key x
        · rw [if_pos less] at refused
          cases refused
        · exact ⟨y, List.mem_cons_self, le_antisymm low (not_lt.mp less)⟩
      · rw [if_neg low] at refused
        obtain ⟨z, member, same⟩ := ih (Option.map_eq_none_iff.mp refused)
        exact ⟨z, List.mem_cons_of_mem y member, same⟩

theorem insert_none (refused : insert key x ys = none) : ∃ y ∈ ys, key y = key x := by
  obtain ⟨y, member, same⟩ := scan_none (Option.map_eq_none_iff.mp refused)
  exact ⟨y, List.mem_reverse.mp member, same⟩

theorem perm_insert (inserted : insert key x ys = some zs) : zs.Perm (x :: ys) := by
  obtain ⟨found, scanned, rfl⟩ := Option.map_eq_some_iff.mp inserted
  obtain ⟨r, l, split, rfl, -, -⟩ := scan_some scanned
  calc (r ++ x :: l).reverse
    List.Perm _ (r ++ x :: l) := List.reverse_perm _
    List.Perm _ (x :: (r ++ l)) := List.perm_middle
    List.Perm _ (x :: ys) := by
      rw [← split]
      exact (List.reverse_perm ys).cons x

/-- The element is put between those with smaller keys and those with greater ones. -/
theorem insert_some (ascending : Ascending key ys) (inserted : insert key x ys = some zs) :
    ∃ l r, ys = l ++ r ∧ zs = l ++ x :: r ∧ (∀ y ∈ l, key y < key x) ∧ ∀ y ∈ r, key x < key y := by
  obtain ⟨found, scanned, rfl⟩ := Option.map_eq_some_iff.mp inserted
  obtain ⟨r, l, split, rfl, greater, first⟩ := scan_some scanned
  have whole : ys = l.reverse ++ r.reverse := by
    rw [← List.reverse_append, ← split, List.reverse_reverse]
  refine ⟨l.reverse, r.reverse, whole, ?_, ?_, fun y member =>
    greater y (List.mem_reverse.mp member)⟩
  · rw [List.reverse_append, List.reverse_cons, List.append_assoc, List.singleton_append]
  · intro y member
    cases l with
    | nil => cases member
    | cons z l =>
        have less : key z < key x := first z rfl
        rw [whole, Ascending, List.pairwise_append, List.reverse_cons, List.pairwise_append]
          at ascending
        rw [List.reverse_cons] at member
        cases List.mem_append.mp member with
        | inl earlier =>
            exact lt_trans (ascending.1.2.2 y earlier z (List.mem_singleton_self z)) less
        | inr last =>
            obtain rfl := List.mem_singleton.mp last
            exact less

theorem mem_of_insert (ascending : Ascending key ys) (inserted : insert key x ys = some zs)
    (z : α) : z ∈ zs ↔ z = x ∨ z ∈ ys := by
  obtain ⟨l, r, rfl, rfl, -, -⟩ := insert_some ascending inserted
  simp only [List.mem_append, List.mem_cons]
  rw [or_left_comm]

theorem length_of_insert (ascending : Ascending key ys) (inserted : insert key x ys = some zs) :
    zs.length = ys.length + 1 := by
  obtain ⟨l, r, rfl, rfl, -, -⟩ := insert_some ascending inserted
  simp only [List.length_append, List.length_cons]
  rfl

theorem ascending_of_insert (ascending : Ascending key ys) (inserted : insert key x ys = some zs) :
    Ascending key zs := by
  obtain ⟨l, r, rfl, rfl, smaller, greater⟩ := insert_some ascending inserted
  obtain ⟨low, high, across⟩ := List.pairwise_append.mp ascending
  refine List.pairwise_append.mpr ⟨low, List.pairwise_cons.mpr ⟨greater, high⟩, ?_⟩
  intro y first z later
  cases List.mem_cons.mp later with
  | inl own => exact own ▸ smaller y first
  | inr behind => exact across y first z behind

theorem scan_map (f : β → α) (x : β) (ys : List β) :
    scan key (f x) (ys.map f) = (scan (fun y => key (f y)) x ys).map (List.map f) := by
  induction ys with
  | nil => rfl
  | cons y ys ih =>
      rw [List.map_cons, scan, scan, ih]
      split
      · split <;> rfl
      · rw [Option.map_map, Option.map_map]
        rfl

theorem insert_map (f : β → α) (x : β) (ys : List β) :
    insert key (f x) (ys.map f) = (insert (fun y => key (f y)) x ys).map (List.map f) := by
  rw [insert, insert, ← List.map_reverse, scan_map, Option.map_map, Option.map_map]
  congr 1
  funext zs
  exact List.map_reverse.symm

end Scan

end Insertion

end Cors
