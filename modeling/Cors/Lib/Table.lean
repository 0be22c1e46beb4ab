import Mathlib.Data.List.AList
import Mathlib.Algebra.BigOperators.Group.List.Basic
import Mathlib.Algebra.Ring.Nat

/-! # Keyed tables

Finite maps with at most one record per key, as association lists that carry
their key uniqueness. Beyond the lookups of `AList`: the number of records, a
total over all of them, and keeping the records that pass a test.
-/

namespace Cors

abbrev Table (κ ν : Type) := AList fun _ : κ => ν

namespace Table

def size (t : Table κ ν) : Nat := t.entries.length

/-- The sum of a weight over all records. -/
def total (weight : ν → Nat) (t : Table κ ν) : Nat := (t.entries.map fun e => weight e.2).sum

/-- Keep the records that pass the test. -/
def keep (test : ν → Bool) (t : Table κ ν) : Table κ ν where
  entries := t.entries.filter fun e => test e.2
  nodupKeys := t.nodupKeys.sublist List.filter_sublist

/-- The same keys with other records. -/
def mapValues (f : ν → ν') (t : Table κ ν) : Table κ ν' where
  entries := t.entries.map fun e => ⟨e.1, f e.2⟩
  nodupKeys := by
    have same : (t.entries.map fun e => (⟨e.1, f e.2⟩ : (_ : κ) × ν')).keys = t.entries.keys := by
      simp only [List.keys, List.map_map, Function.comp_def]
    have nodup : t.entries.keys.Nodup := t.nodupKeys
    rw [List.NodupKeys, same]
    exact nodup

@[simp] theorem size_empty : size (∅ : Table κ ν) = 0 := rfl

@[simp] theorem total_empty (weight : ν → Nat) : total weight (∅ : Table κ ν) = 0 := rfl

theorem size_keep_le (test : ν → Bool) (t : Table κ ν) : (t.keep test).size ≤ t.size :=
  List.length_filter_le _ _

variable [DecidableEq κ]

theorem perm_of_lookup {t : Table κ ν} {k : κ} {v : ν} (found : t.lookup k = some v) :
    t.entries.Perm (⟨k, v⟩ :: (t.erase k).entries) := by
  have present : k ∈ t.entries.keys := AList.lookup_isSome.mp (by simp [found])
  obtain ⟨w, before, after, absent, split, erased⟩ := List.exists_of_kerase present
  have same : w = v := by
    have atKey : (⟨k, w⟩ : (_ : κ) × ν) ∈ t.entries := by simp [split]
    exact Option.some.inj ((AList.mem_lookup_iff.mpr atKey).symm.trans found)
  have rest : (t.erase k).entries = before ++ after := erased
  rw [rest, split, same]
  exact List.perm_middle

theorem total_of_lookup (weight : ν → Nat) {t : Table κ ν} {k : κ} {v : ν}
    (found : t.lookup k = some v) : total weight t = weight v + total weight (t.erase k) := by
  have shuffled := (perm_of_lookup found).map fun e => weight e.2
  simpa only [total, List.map_cons, List.sum_cons] using shuffled.sum_eq

theorem erase_of_lookup_none {t : Table κ ν} {k : κ} (absent : t.lookup k = none) :
    t.erase k = t := by
  apply AList.ext
  exact List.kerase_of_notMem_keys (AList.lookup_eq_none.mp absent)

theorem total_insert (weight : ν → Nat) (t : Table κ ν) (k : κ) (v : ν) :
    total weight (t.insert k v) = weight v + total weight (t.erase k) := by
  simp only [total, AList.entries_insert, List.map_cons, List.sum_cons]
  rfl

theorem size_insert_of_none {t : Table κ ν} {k : κ} (v : ν) (absent : t.lookup k = none) :
    size (t.insert k v) = size t + 1 := by
  have notMem : k ∉ t := AList.lookup_eq_none.mp absent
  simp only [size, AList.entries_insert_of_notMem notMem, List.length_cons]

theorem size_of_lookup {t : Table κ ν} {k : κ} {v : ν} (found : t.lookup k = some v) :
    size t = size (t.erase k) + 1 := by
  simpa only [size, List.length_cons] using (perm_of_lookup found).length_eq

theorem size_insert_of_some {t : Table κ ν} {k : κ} {v : ν} (w : ν)
    (found : t.lookup k = some v) : size (t.insert k w) = size t := by
  rw [size_of_lookup found]
  simp only [size, AList.entries_insert, List.length_cons]
  rfl

theorem size_insert_le (t : Table κ ν) (k : κ) (v : ν) : size (t.insert k v) ≤ size t + 1 := by
  cases found : t.lookup k with
  | none => exact Nat.le_of_eq (size_insert_of_none v found)
  | some w => exact (size_insert_of_some v found).trans_le (Nat.le_succ _)

theorem size_erase_le (t : Table κ ν) (k : κ) : size (t.erase k) ≤ size t := by
  cases found : t.lookup k with
  | none => simp only [erase_of_lookup_none found, Nat.le_refl]
  | some v => simp only [size_of_lookup found, Nat.le_add_right]

theorem lookup_keep (test : ν → Bool) (t : Table κ ν) (k : κ) :
    (t.keep test).lookup k = (t.lookup k).filter test := by
  apply Option.ext
  intro v
  have kept : v ∈ (t.keep test).lookup k ↔ (⟨k, v⟩ : (_ : κ) × ν) ∈ t.entries ∧ test v = true := by
    rw [AList.mem_lookup_iff]
    exact List.mem_filter
  rw [← Option.mem_def, kept, ← AList.mem_lookup_iff, Option.mem_def, Option.filter_eq_some_iff]

theorem exists_of_mem {t : Table κ ν} {k : κ} (present : k ∈ t) : ∃ v, t.lookup k = some v :=
  Option.isSome_iff_exists.mp (AList.lookup_isSome.mpr present)

theorem mem_of_lookup {t : Table κ ν} {k : κ} {v : ν} (found : t.lookup k = some v) : k ∈ t :=
  AList.lookup_isSome.mp (by simp [found])

theorem entry_of_lookup {t : Table κ ν} {k : κ} {v : ν} (found : t.lookup k = some v) :
    (⟨k, v⟩ : (_ : κ) × ν) ∈ t.entries :=
  AList.mem_lookup_iff.mp found

theorem lookup_of_entry {t : Table κ ν} {k : κ} {v : ν}
    (entry : (⟨k, v⟩ : (_ : κ) × ν) ∈ t.entries) : t.lookup k = some v :=
  AList.mem_lookup_iff.mpr entry

theorem entries_erase {t : Table κ ν} {e : (_ : κ) × ν} {before after : List ((_ : κ) × ν)}
    (split : t.entries = before ++ e :: after) : (t.erase e.1).entries = before ++ after := by
  have nodup : (before ++ e :: after).NodupKeys := split ▸ t.nodupKeys
  have absent : e.1 ∉ before.keys := by
    intro present
    have keys : (before.keys ++ e.1 :: after.keys).Nodup := by
      simpa only [List.NodupKeys, List.keys, List.map_append, List.map_cons] using nodup
    exact (List.nodup_append.mp keys).2.2 e.1 present e.1 List.mem_cons_self rfl
  calc
    (t.erase e.1).entries = (before ++ e :: after).kerase e.1 := by rw [← split]; rfl
    _ = before ++ (e :: after).kerase e.1 := List.kerase_append_right absent
    _ = before ++ after := by rw [List.kerase_cons_eq rfl]

/-- A loop over the entries that erases some of them as it goes: it visits only
    entries that are still in the table, and in the end the others are left. -/
theorem sweep (table : σ → Table κ ν) (step : σ → (_ : κ) × ν → σ) (test : ν → Bool)
    {P : σ → Prop}
    (turn : ∀ s e, P s → (table s).lookup e.1 = some e.2 → P (step s e) ∧
      table (step s e) = if test e.2 then (table s).erase e.1 else table s)
    {s : σ} (start : P s) :
    P ((table s).entries.foldl step s) ∧
      table ((table s).entries.foldl step s) = (table s).keep fun v => !test v := by
  have loop : ∀ todo before s, P s → (table s).entries = before ++ todo →
      P (todo.foldl step s) ∧
        (table (todo.foldl step s)).entries = before ++ todo.filter fun e => !test e.2 := by
    intro todo
    induction todo with
    | nil => exact fun _ _ holds split => ⟨holds, split⟩
    | cons e todo ih =>
        intro before s holds split
        have found : (table s).lookup e.1 = some e.2 := lookup_of_entry (by simp [split])
        obtain ⟨holds', moved⟩ := turn s e holds found
        by_cases hit : test e.2 = true
        · have rest : (table (step s e)).entries = before ++ todo := by
            rw [moved, if_pos hit, entries_erase split]
          simpa [hit] using ih before _ holds' rest
        · have rest : (table (step s e)).entries = (before ++ [e]) ++ todo := by
            rw [moved, if_neg hit, split, List.append_cons]
          simpa [hit] using ih (before ++ [e]) _ holds' rest
  obtain ⟨holds, left⟩ := loop (table s).entries [] s start rfl
  exact ⟨holds, AList.ext left⟩

end Table

end Cors
