import Mathlib.Data.List.Nodup
import Mathlib.Data.List.Perm.Basic
import Cors.Lib.Table

/-! # Objects in an index and in an order

Heap objects that are reached in two ways: by key through a finite map, and in
sequence through a list of pointers. Both containers hold pointers, so a change of
an object is seen through both, while insertion and removal have to be done in
each. A registry is consistent when the two hold the same objects, each once.
-/

namespace Cors

theorem notMem_dropLast {l : List α} {x : α} (once : l.Nodup) (last : l.getLast? = some x) :
    x ∉ l.dropLast := by
  intro present
  have split : l.dropLast ++ [x] = l := List.dropLast_append_getLast? x last
  rw [← split] at once
  exact (List.nodup_append.mp once).2.2 x present x (List.mem_singleton.mpr rfl) rfl

structure Registry (κ ο : Type) where
  heap : Nat → ο
  /-- The next pointer an allocation returns. -/
  fresh : Nat
  index : Table κ Nat
  order : List Nat

namespace Registry

def empty (blank : ο) : Registry κ ο where
  heap := fun _ => blank
  fresh := 0
  index := ∅
  order := []

/-- Change an object in place. -/
def modify (r : Registry κ ο) (p : Nat) (f : ο → ο) : Registry κ ο :=
  { r with heap := Function.update r.heap p (f (r.heap p)) }

/-- Move the first object to the end. -/
def rotate (r : Registry κ ο) : Registry κ ο :=
  { r with order := r.order.tail ++ r.order.head?.toList }

@[simp] theorem modify_heap_self (r : Registry κ ο) (p : Nat) (f : ο → ο) :
    (r.modify p f).heap p = f (r.heap p) :=
  Function.update_self ..

theorem modify_heap_ne (r : Registry κ ο) {p q : Nat} (f : ο → ο) (apart : q ≠ p) :
    (r.modify p f).heap q = r.heap q :=
  Function.update_of_ne apart ..

theorem modify_modify (r : Registry κ ο) (p : Nat) (f g : ο → ο) :
    (r.modify p f).modify p g = r.modify p fun x => g (f x) := by
  simp only [modify, Function.update_self, Function.update_idem]

theorem modify_spares (r : Registry κ ο) (p : Nat) {f : ο → ο} {part : ο → β}
    (spared : ∀ x, part (f x) = part x) (q : Nat) :
    part ((r.modify p f).heap q) = part (r.heap q) := by
  by_cases own : q = p
  · rw [own, modify_heap_self, spared]
  · rw [modify_heap_ne r f own]

section Keyed
variable [DecidableEq κ] (key : ο → κ)

/-- Allocate an object, enter it under its key and take it into the order. -/
def enter (r : Registry κ ο) (x : ο) (order : List Nat) : Registry κ ο where
  heap := Function.update r.heap r.fresh x
  fresh := r.fresh + 1
  index := r.index.insert (key x) r.fresh
  order := order

def pushFront (r : Registry κ ο) (x : ο) : Registry κ ο := r.enter key x (r.fresh :: r.order)

def pushBack (r : Registry κ ο) (x : ο) : Registry κ ο := r.enter key x (r.order ++ [r.fresh])

/-- Remove the last object from both containers, if it is found in the index. -/
def evict (r : Registry κ ο) : Option (Registry κ ο) := do
  let back ← r.order.getLast?
  let _ ← r.index.lookup (key (r.heap back))
  pure { r with index := r.index.erase (key (r.heap back)), order := r.order.dropLast }

structure Consistent (r : Registry κ ο) : Prop where
  keyed : ∀ p ∈ r.order, r.index.lookup (key (r.heap p)) = some p
  listed : ∀ k p, r.index.lookup k = some p → p ∈ r.order ∧ key (r.heap p) = k
  nodup : r.order.Nodup
  allocated : ∀ p ∈ r.order, p < r.fresh

variable {key}

theorem evict_cases {r r' : Registry κ ο} (evicted : r.evict key = some r') :
    ∃ back q, r.order.getLast? = some back ∧ r.index.lookup (key (r.heap back)) = some q ∧
      r' = { r with
        index := r.index.erase (key (r.heap back))
        order := r.order.dropLast } := by
  obtain ⟨back, last, found⟩ := Option.bind_eq_some_iff.mp evicted
  obtain ⟨q, stored, result⟩ := Option.bind_eq_some_iff.mp found
  exact ⟨back, q, last, stored, (Option.some.inj result).symm⟩

theorem empty_consistent (blank : ο) : Consistent key (empty blank : Registry κ ο) where
  keyed _ member := absurd member List.not_mem_nil
  listed _ _ found := absurd found (by simp [empty])
  nodup := List.nodup_nil
  allocated _ member := absurd member List.not_mem_nil

/-- The index leads to objects of the order, each under its own key. -/
def Indexed (key : ο → κ) (r : Registry κ ο) : Prop :=
  ∀ k p, r.index.lookup k = some p → p ∈ r.order ∧ key (r.heap p) = k

theorem Indexed.modify {r : Registry κ ο} (indexed : r.Indexed key) (p : Nat) {f : ο → ο}
    (sameKey : ∀ x, key (f x) = key x) : (r.modify p f).Indexed key := by
  intro k q found
  rw [modify_spares r p sameKey]
  exact indexed k q found

theorem Consistent.modify {r : Registry κ ο} (ok : r.Consistent key) (p : Nat) {f : ο → ο}
    (sameKey : ∀ x, key (f x) = key x) : (r.modify p f).Consistent key where
  keyed q member := by
    rw [modify_spares r p sameKey]
    exact ok.keyed q member
  listed := Indexed.modify ok.listed p sameKey
  nodup := ok.nodup
  allocated := ok.allocated

theorem Consistent.eq_of_key {r : Registry κ ο} (ok : r.Consistent key) {p q : Nat}
    (one : p ∈ r.order) (other : q ∈ r.order) (same : key (r.heap p) = key (r.heap q)) : p = q := by
  have found := ok.keyed p one
  rw [same, ok.keyed q other] at found
  exact (Option.some.inj found).symm

theorem Consistent.fresh_notMem {r : Registry κ ο} (ok : r.Consistent key) : r.fresh ∉ r.order :=
  fun member => absurd (ok.allocated _ member) (Nat.lt_irrefl _)

theorem Consistent.rotate {r : Registry κ ο} (ok : r.Consistent key) :
    r.rotate.Consistent key := by
  have shuffled : r.rotate.order.Perm r.order := by
    cases split : r.order with
    | nil => simp [Registry.rotate, split]
    | cons p rest => simp [Registry.rotate, split]
  refine ⟨fun p member => ?_, fun k p found => ?_, ?_, fun p member => ?_⟩
  · exact ok.keyed p (shuffled.mem_iff.mp member)
  · obtain ⟨member, same⟩ := ok.listed k p found
    exact ⟨shuffled.mem_iff.mpr member, same⟩
  · exact shuffled.nodup_iff.mpr ok.nodup
  · exact ok.allocated p (shuffled.mem_iff.mp member)

@[simp] theorem enter_heap_self (r : Registry κ ο) (x : ο) (order : List Nat) :
    (r.enter key x order).heap r.fresh = x :=
  Function.update_self ..

theorem enter_heap_ne (r : Registry κ ο) (x : ο) (order : List Nat) {p : Nat}
    (apart : p ≠ r.fresh) : (r.enter key x order).heap p = r.heap p :=
  Function.update_of_ne apart ..

@[simp] theorem enter_lookup_self (r : Registry κ ο) (x : ο) (order : List Nat) :
    (r.enter key x order).index.lookup (key x) = some r.fresh :=
  AList.lookup_insert _

theorem enter_lookup_ne (r : Registry κ ο) (x : ο) (order : List Nat) {k : κ}
    (apart : k ≠ key x) : (r.enter key x order).index.lookup k = r.index.lookup k :=
  AList.lookup_insert_ne apart

/-- A new object may take the key of an older one, which then is not indexed any more. -/
theorem Indexed.enter {r : Registry κ ο} (indexed : r.Indexed key)
    (allocated : ∀ p ∈ r.order, p < r.fresh) (x : ο) {order : List Nat}
    (entered : ∀ p, p ∈ r.fresh :: r.order → p ∈ order) : (r.enter key x order).Indexed key := by
  intro k p found
  by_cases own : k = key x
  · rw [own, enter_lookup_self] at found
    obtain rfl := Option.some.inj found
    rw [enter_heap_self, own]
    exact ⟨entered _ List.mem_cons_self, rfl⟩
  · rw [enter_lookup_ne r x order own] at found
    obtain ⟨member, same⟩ := indexed k p found
    rw [enter_heap_ne r x order (Nat.ne_of_lt (allocated p member))]
    exact ⟨entered p (List.mem_cons_of_mem _ member), same⟩

theorem Indexed.of_evict {r r' : Registry κ ο} (indexed : r.Indexed key)
    (evicted : r.evict key = some r') : r'.Indexed key := by
  obtain ⟨back, -, last, -, rfl⟩ := evict_cases evicted
  have split : r.order.dropLast ++ [back] = r.order := List.dropLast_append_getLast? back last
  intro k p found
  by_cases own : k = key (r.heap back)
  · rw [own, AList.lookup_erase] at found
    cases found
  · rw [AList.lookup_erase_ne own] at found
    obtain ⟨present, same⟩ := indexed k p found
    rw [← split, List.mem_append, List.mem_singleton] at present
    refine ⟨present.resolve_right fun removed => own ?_, same⟩
    rw [← same, removed]

/-- Entering a new object under a new key keeps the registry consistent, wherever
    in the order it goes. -/
theorem Consistent.enter {r : Registry κ ο} (ok : r.Consistent key) {x : ο}
    (absent : r.index.lookup (key x) = none) {order : List Nat}
    (entered : order.Perm (r.fresh :: r.order)) : (r.enter key x order).Consistent key := by
  have old : ∀ p ∈ r.order, (r.enter key x order).heap p = r.heap p := fun p member =>
    enter_heap_ne r x order (Nat.ne_of_lt (ok.allocated p member))
  refine ⟨fun p member => ?_, fun k p found => ?_, ?_, fun p member => ?_⟩
  · rcases List.mem_cons.mp (entered.mem_iff.mp member) with rfl | member
    · rw [enter_heap_self, enter_lookup_self]
    · have apart : key (r.heap p) ≠ key x := fun same =>
        absurd (same ▸ ok.keyed p member) (by simp [absent])
      rw [old p member, enter_lookup_ne r x order apart]
      exact ok.keyed p member
  · exact Indexed.enter ok.listed ok.allocated x (fun q => entered.mem_iff.mpr) k p found
  · exact entered.nodup_iff.mpr (List.nodup_cons.mpr ⟨ok.fresh_notMem, ok.nodup⟩)
  · rcases List.mem_cons.mp (entered.mem_iff.mp member) with rfl | member
    · exact Nat.lt_succ_self _
    · exact Nat.lt_succ_of_lt (ok.allocated p member)

theorem Consistent.pushFront {r : Registry κ ο} (ok : r.Consistent key) {x : ο}
    (absent : r.index.lookup (key x) = none) : (r.pushFront key x).Consistent key :=
  ok.enter absent (List.Perm.refl _)

theorem Consistent.pushBack {r : Registry κ ο} (ok : r.Consistent key) {x : ο}
    (absent : r.index.lookup (key x) = none) : (r.pushBack key x).Consistent key :=
  ok.enter absent (List.perm_append_singleton _ _)

/-- Eviction never misses in a consistent registry. -/
theorem Consistent.evict {r : Registry κ ο} (ok : r.Consistent key) {back : Nat}
    (last : r.order.getLast? = some back) :
    r.evict key =
      some { r with index := r.index.erase (key (r.heap back)), order := r.order.dropLast } := by
  have found := ok.keyed back (List.mem_of_getLast? last)
  simp [Registry.evict, last, found]

theorem Consistent.of_evict {r r' : Registry κ ο} (ok : r.Consistent key)
    (evicted : r.evict key = some r') : r'.Consistent key := by
  have removed : r'.Indexed key := Indexed.of_evict ok.listed evicted
  obtain ⟨back, last, -⟩ := Option.bind_eq_some_iff.mp evicted
  rw [ok.evict last] at evicted
  obtain rfl := Option.some.inj evicted
  have split : r.order.dropLast ++ [back] = r.order := List.dropLast_append_getLast? back last
  have member : ∀ p, p ∈ r.order ↔ p ∈ r.order.dropLast ∨ p = back := by
    intro p
    rw [← List.mem_singleton, ← List.mem_append, split]
  have gone : back ∉ r.order.dropLast := notMem_dropLast ok.nodup last
  refine ⟨fun p kept => ?_, fun k p found => ?_, ?_, fun p kept => ?_⟩
  · have apart : key (r.heap p) ≠ key (r.heap back) := by
      intro same
      have own := ok.eq_of_key ((member p).mpr (.inl kept)) ((member back).mpr (.inr rfl)) same
      exact gone (own ▸ kept)
    rw [AList.lookup_erase_ne apart]
    exact ok.keyed p ((member p).mpr (.inl kept))
  · exact removed k p found
  · exact ok.nodup.sublist (List.dropLast_sublist _)
  · exact ok.allocated p ((member p).mpr (.inl kept))

theorem Consistent.perm {r : Registry κ ο} (ok : r.Consistent key) :
    (r.index.entries.map Sigma.snd).Perm r.order := by
  have own : ∀ e ∈ r.index.entries, e.2 ∈ r.order ∧ key (r.heap e.2) = e.1 := fun e entry =>
    ok.listed e.1 e.2 (Table.lookup_of_entry entry)
  have once : (r.index.entries.map Sigma.snd).Nodup := by
    refine List.Nodup.map_on (fun e one f other same => ?_) r.index.nodupKeys.nodup
    have keys : e.1 = f.1 := by rw [← (own e one).2, ← (own f other).2, same]
    exact Sigma.ext keys (heq_of_eq same)
  apply (List.perm_ext_iff_of_nodup once ok.nodup).mpr
  intro p
  constructor
  · intro member
    obtain ⟨e, entry, rfl⟩ := List.mem_map.mp member
    exact (own e entry).1
  · intro member
    exact List.mem_map.mpr ⟨_, Table.entry_of_lookup (ok.keyed p member), rfl⟩

theorem Consistent.size {r : Registry κ ο} (ok : r.Consistent key) :
    r.index.size = r.order.length := by
  simpa only [Table.size, List.length_map] using ok.perm.length_eq

end Keyed

end Registry

end Cors
