import Mathlib.Algebra.BigOperators.Group.List.Basic
import Mathlib.Data.List.Basic
import Mathlib.Data.List.Find
import Mathlib.Data.List.Forall2
import Mathlib.Order.Lattice

/-! # Ordered maps

Maps with unique keys that are kept in ascending order, as a skip list provides them, and the
queue that comes of it when the values are lists: an element goes behind those with its own key
or a smaller one, and before those with a larger one.
-/

namespace Cors

structure OrderedMap (κ ν : Type) [LinearOrder κ] where
  entries : List (κ × ν)
  ascending : entries.Pairwise fun a b => a.1 < b.1

namespace OrderedMap

variable [LinearOrder κ]

def empty : OrderedMap κ ν := ⟨[], .nil⟩

/-- The entry with the smallest key. -/
def first (m : OrderedMap κ ν) : Option (κ × ν) := m.entries.head?

def search (m : OrderedMap κ ν) (k : κ) : Option ν :=
  (m.entries.find? fun e => e.1 = k).map Prod.snd

def below (m : OrderedMap κ ν) (k : κ) : List (κ × ν) := m.entries.filter fun e => e.1 < k

def above (m : OrderedMap κ ν) (k : κ) : List (κ × ν) := m.entries.filter fun e => k < e.1

def remove (m : OrderedMap κ ν) (k : κ) : OrderedMap κ ν where
  entries := m.entries.filter fun e => e.1 ≠ k
  ascending := m.ascending.filter _

/-- Enter a value where its key belongs. -/
def insert (m : OrderedMap κ ν) (k : κ) (v : ν) : OrderedMap κ ν where
  entries := m.below k ++ (k, v) :: m.above k
  ascending := by
    have lower : ∀ a ∈ m.below k, a.1 < k := fun a member =>
      of_decide_eq_true (List.mem_filter.mp member).2
    have upper : ∀ b ∈ m.above k, k < b.1 := fun b member =>
      of_decide_eq_true (List.mem_filter.mp member).2
    refine List.pairwise_append.mpr ⟨m.ascending.filter _, ?_, fun a low b high => ?_⟩
    · exact List.pairwise_cons.mpr ⟨upper, m.ascending.filter _⟩
    · cases List.mem_cons.mp high with
      | inl own => exact own ▸ lower a low
      | inr high => exact lt_trans (lower a low) (upper b high)

/-- Change the value of a key in place. -/
def modify (m : OrderedMap κ ν) (k : κ) (f : ν → ν) : OrderedMap κ ν where
  entries := m.entries.map fun e => if e.1 = k then (e.1, f e.2) else e
  ascending := by
    apply List.pairwise_map.mpr
    refine m.ascending.imp fun {a b} less => ?_
    have key (e : κ × ν) : (if e.1 = k then (e.1, f e.2) else e).1 = e.1 := by split <;> rfl
    rw [key, key]
    exact less

theorem lt_of_mem_below {m : OrderedMap κ ν} {k : κ} {e : κ × ν} (member : e ∈ m.below k) :
    e.1 < k :=
  of_decide_eq_true (List.mem_filter.mp member).2

theorem lt_of_mem_above {m : OrderedMap κ ν} {k : κ} {e : κ × ν} (member : e ∈ m.above k) :
    k < e.1 :=
  of_decide_eq_true (List.mem_filter.mp member).2

/-- A key has all smaller ones in front of it and all larger ones behind it. -/
theorem entries_eq (m : OrderedMap κ ν) (k : κ) :
    m.entries = m.below k ++ (((m.search k).map fun v => (k, v)).toList ++ m.above k) := by
  obtain ⟨entries, ascending⟩ := m
  unfold below above search
  dsimp only
  induction entries with
  | nil => rfl
  | cons e entries ih =>
      obtain ⟨least, rest⟩ := List.pairwise_cons.mp ascending
      have split := ih rest
      obtain less | same | more := lt_trichotomy e.1 k
      · have other : ¬e.1 = k := ne_of_lt less
        have back : ¬k < e.1 := not_lt_of_gt less
        simp only [List.filter_cons, List.find?_cons, less, other, back, decide_true, decide_false,
          if_true, Bool.false_eq_true, if_false, List.cons_append]
        rw [← split]
      · have behind : ∀ a ∈ entries, k < a.1 := fun a member => same ▸ least a member
        have none : entries.filter (fun a => a.1 < k) = [] :=
          List.filter_eq_nil_iff.mpr fun a member => by simp [not_lt_of_gt (behind a member)]
        have all : entries.filter (fun a => k < a.1) = entries :=
          List.filter_eq_self.mpr fun a member => by simp [behind a member]
        have own : e = (k, e.2) := Prod.ext same rfl
        simp [same, none, all, ← own]
      · have behind : ∀ a ∈ e :: entries, k < a.1 := by
          intro a member
          cases List.mem_cons.mp member with
          | inl own => exact own ▸ more
          | inr later => exact lt_trans more (least a later)
        have none : (e :: entries).filter (fun a => a.1 < k) = [] :=
          List.filter_eq_nil_iff.mpr fun a member => by simp [not_lt_of_gt (behind a member)]
        have all : (e :: entries).filter (fun a => k < a.1) = e :: entries :=
          List.filter_eq_self.mpr fun a member => by simp [behind a member]
        have absent : (e :: entries).find? (fun a => a.1 = k) = Option.none :=
          List.find?_eq_none.mpr fun a member => by simp [ne_of_gt (behind a member)]
        rw [none, all, absent]
        rfl

theorem mem_insert_of_none {m : OrderedMap κ ν} {k : κ} (none : m.search k = none) (v : ν)
    (e : κ × ν) : e ∈ (m.insert k v).entries ↔ e = (k, v) ∨ e ∈ m.entries := by
  have split := m.entries_eq k
  rw [none] at split
  rw [split, insert]
  simp only [List.mem_append, List.mem_cons, Option.map_none, Option.toList_none, List.nil_append]
  exact or_left_comm

theorem search_insert (m : OrderedMap κ ν) (k : κ) (v : ν) : (m.insert k v).search k = some v := by
  have under : (m.below k).find? (fun e => e.1 = k) = none :=
    List.find?_eq_none.mpr fun e member => by simpa using ne_of_lt (lt_of_mem_below member)
  simp only [search, insert, List.find?_append, under, Option.none_or, List.find?_cons, decide_true,
    Option.map_some]

theorem entries_of_first {m : OrderedMap κ ν} {e : κ × ν} (first : m.first = some e) :
    m.entries = e :: (m.remove e.1).entries := by
  obtain ⟨entries, ascending⟩ := m
  unfold remove
  dsimp only [OrderedMap.first] at first ⊢
  cases entries with
  | nil => cases first
  | cons f entries =>
      obtain rfl := Option.some.inj first
      obtain ⟨least, -⟩ := List.pairwise_cons.mp ascending
      have others : entries.filter (fun e => e.1 ≠ f.1) = entries :=
        List.filter_eq_self.mpr fun e member => by simp [ne_of_gt (least e member)]
      rw [List.filter_cons_of_neg (by simp), others]

theorem le_getLast {m : OrderedMap κ ν} {e : κ × ν} (last : m.entries.getLast? = some e) :
    ∀ f ∈ m.entries, f.1 ≤ e.1 := by
  obtain ⟨front, split⟩ := List.getLast?_eq_some_iff.mp last
  have ascending := m.ascending
  rw [split] at ascending ⊢
  intro f member
  cases List.mem_append.mp member with
  | inl before =>
      have later := (List.pairwise_append.mp ascending).2.2 f before e
      exact le_of_lt (later (List.mem_singleton_self e))
  | inr own => exact le_of_eq (congrArg Prod.fst (List.mem_singleton.mp own))

theorem search_eq_some_iff {m : OrderedMap κ ν} {k : κ} {v : ν} :
    m.search k = some v ↔ (k, v) ∈ m.entries := by
  constructor
  · intro found
    rw [m.entries_eq k, found]
    simp
  · intro member
    rw [m.entries_eq k] at member
    obtain under | rest := List.mem_append.mp member
    · exact absurd (lt_of_mem_below under) (lt_irrefl k)
    · obtain own | beyond := List.mem_append.mp rest
      · obtain ⟨w, found, same⟩ := Option.map_eq_some_iff.mp (Option.mem_toList.mp own)
        rw [found, (Prod.mk.inj same).2]
      · exact absurd (lt_of_mem_above beyond) (lt_irrefl k)

/-- A map is known by what is found in it. -/
theorem eq_of_search {m m' : OrderedMap κ ν} (same : ∀ k, m.search k = m'.search k) : m = m' := by
  have distinct (m : OrderedMap κ ν) : m.entries.Nodup :=
    m.ascending.imp fun less equal => ne_of_lt less (congrArg Prod.fst equal)
  have members (e : κ × ν) : e ∈ m.entries ↔ e ∈ m'.entries := by
    rw [← search_eq_some_iff, ← search_eq_some_iff, same]
  have perm := (List.perm_ext_iff_of_nodup (distinct m) (distinct m')).mpr members
  have equal := perm.eq_of_pairwise
    (fun a b _ _ less more => absurd (lt_trans less more) (lt_irrefl _)) m.ascending m'.ascending
  obtain ⟨entries, ascending⟩ := m
  obtain rfl := equal
  rfl

theorem search_insert_of_ne {m : OrderedMap κ ν} {k k' : κ} (none : m.search k = none) (v : ν)
    (other : k' ≠ k) : (m.insert k v).search k' = m.search k' := by
  apply Option.ext
  intro w
  rw [search_eq_some_iff, search_eq_some_iff, mem_insert_of_none none, Prod.mk.injEq]
  exact or_iff_right fun same => other same.1

theorem pairwise_iff {m : OrderedMap κ ν} {R : κ × ν → κ × ν → Prop} :
    m.entries.Pairwise R ↔
      ∀ k k' v w, k < k' → m.search k = some v → m.search k' = some w → R (k, v) (k', w) := by
  constructor
  · intro pairwise k k' v w less found found'
    obtain ⟨i, inside, first⟩ := List.mem_iff_getElem.mp (search_eq_some_iff.mp found)
    obtain ⟨j, inside', second⟩ := List.mem_iff_getElem.mp (search_eq_some_iff.mp found')
    obtain before | rfl | after := Nat.lt_trichotomy i j
    · exact first ▸ second ▸ List.pairwise_iff_getElem.mp pairwise i j inside inside' before
    · obtain ⟨rfl, -⟩ := Prod.mk.inj (first.symm.trans second)
      exact absurd less (lt_irrefl k)
    · have more := List.pairwise_iff_getElem.mp m.ascending j i inside' inside after
      rw [first, second] at more
      exact absurd (lt_trans less more) (lt_irrefl k)
  · intro all
    refine m.ascending.imp_of_mem fun first second less => ?_
    exact all _ _ _ _ less (search_eq_some_iff.mpr first) (search_eq_some_iff.mpr second)

/-! ## Offers -/

/-- Enter a value if its key is missing. -/
def offer (m : OrderedMap κ ν) (k : κ) (v : ν) : OrderedMap κ ν :=
  match m.search k with
  | some _ => m
  | none => m.insert k v

theorem search_offer (m : OrderedMap κ ν) (k : κ) (v : ν) (k' : κ) :
    (m.offer k v).search k' = (m.search k').or (if k' = k then some v else none) := by
  rw [offer]
  cases found : m.search k with
  | some w =>
      by_cases same : k' = k
      · rw [same, found, Option.some_or]
      · rw [if_neg same, Option.or_none]
  | none =>
      by_cases same : k' = k
      · rw [same, search_insert, found, if_pos rfl, Option.none_or]
      · rw [search_insert_of_ne found v same, if_neg same, Option.or_none]

/-- Enter each element if its key is missing. -/
def offers (key : ν → κ) (m : OrderedMap κ ν) (xs : List ν) : OrderedMap κ ν :=
  xs.foldl (fun m x => m.offer (key x) x) m

theorem search_offers (key : ν → κ) (m : OrderedMap κ ν) (xs : List ν) (k : κ) :
    (m.offers key xs).search k = (m.search k).or (xs.find? fun x => key x = k) := by
  induction xs generalizing m with
  | nil => exact (Option.or_none).symm
  | cons x xs ih =>
      change ((m.offer (key x) x).offers key xs).search k = _
      rw [ih, search_offer, Option.or_assoc, List.find?_cons]
      by_cases own : key x = k
      · rw [if_pos own.symm, Option.some_or, decide_eq_true own]
      · rw [if_neg (Ne.symm own), Option.none_or, decide_eq_false own]

section Firsts
variable (key : ν → κ) (xs : List ν)

/-- The first element of each key, in the order of the keys. -/
def firsts : OrderedMap κ ν := empty.offers key xs

def values (m : OrderedMap κ ν) : List ν := m.entries.map Prod.snd

theorem search_firsts (k : κ) : (firsts key xs).search k = xs.find? fun x => key x = k := by
  rw [firsts, search_offers]
  rfl

theorem key_of_firsts {e : κ × ν} (member : e ∈ (firsts key xs).entries) : key e.2 = e.1 := by
  have found := search_eq_some_iff.mpr member
  rw [search_firsts] at found
  simpa using List.find?_some found

theorem values_ascending : (firsts key xs).values.Pairwise fun x y => key x < key y := by
  refine List.pairwise_map.mpr ((firsts key xs).ascending.imp_of_mem fun first second less => ?_)
  rw [key_of_firsts key xs first, key_of_firsts key xs second]
  exact less

theorem find?_values (k : κ) :
    ((firsts key xs).values.find? fun x => key x = k) = xs.find? fun x => key x = k := by
  rw [values, List.find?_map, ← search_firsts key xs k, search]
  congr 1
  refine List.find?_congr fun e member => ?_
  rw [Function.comp_apply, key_of_firsts key xs member]

theorem values_of_ascending {xs : List ν} (ascending : xs.Pairwise fun x y => key x < key y) :
    (firsts key xs).values = xs := by
  let m : OrderedMap κ ν := ⟨xs.map fun x => (key x, x), List.pairwise_map.mpr ascending⟩
  have same : firsts key xs = m := by
    apply eq_of_search
    intro k
    rw [search_firsts, search, List.find?_map, Option.map_map]
    exact (Option.map_id' (x := _)).symm
  rw [same, values, List.map_map]
  exact List.map_id' xs

theorem mem_of_values {x : ν} (member : x ∈ (firsts key xs).values) : x ∈ xs := by
  obtain ⟨e, inside, rfl⟩ := List.mem_map.mp member
  have found := search_eq_some_iff.mpr inside
  rw [search_firsts] at found
  exact List.mem_of_find?_eq_some found

end Firsts

section Related
variable {R : ν → μ → Prop}

/-- The same keys, with values that are related. -/
def Related (R : ν → μ → Prop) (m : OrderedMap κ ν) (m' : OrderedMap κ μ) : Prop :=
  List.Forall₂ (fun a b => a.1 = b.1 ∧ R a.2 b.2) m.entries m'.entries

theorem Related.filter {m : OrderedMap κ ν} {m' : OrderedMap κ μ} (related : Related R m m')
    (p : κ → Bool) :
    List.Forall₂ (fun a b => a.1 = b.1 ∧ R a.2 b.2) (m.entries.filter fun e => p e.1)
      (m'.entries.filter fun e => p e.1) :=
  List.rel_filter (fun _ _ same => iff_of_eq (congrArg (fun k => p k = true) same.1)) related

theorem Related.missing {m : OrderedMap κ ν} {m' : OrderedMap κ μ} (related : Related R m m')
    (k : κ) : m.search k = none ↔ m'.search k = none := by
  have here := (related.filter fun x => x = k).length_eq
  rw [search, search, Option.map_eq_none_iff, Option.map_eq_none_iff, List.find?_eq_none,
    List.find?_eq_none, ← List.filter_eq_nil_iff, ← List.filter_eq_nil_iff,
    ← List.length_eq_zero_iff, ← List.length_eq_zero_iff, here]

theorem Related.offer {m : OrderedMap κ ν} {m' : OrderedMap κ μ} (related : Related R m m') (k : κ)
    {x : ν} {y : μ} (own : R x y) : Related R (m.offer k x) (m'.offer k y) := by
  have missing := related.missing k
  unfold OrderedMap.offer
  cases found : m.search k with
  | some v =>
      cases found' : m'.search k with
      | some w => exact related
      | none => rw [missing.mpr found'] at found; cases found
  | none =>
      rw [missing.mp found]
      exact List.rel_append (related.filter fun x => x < k)
        (.cons ⟨rfl, own⟩ (related.filter fun x => k < x))

end Related

/-! ## Queues -/

section Queue

/-- The elements in the order of their keys. -/
def items (m : OrderedMap κ (List ε)) : List ε := m.entries.flatMap Prod.snd

/-- The map with a list under the key. -/
def ensure (m : OrderedMap κ (List ε)) (k : κ) : OrderedMap κ (List ε) :=
  match m.search k with
  | none => m.insert k []
  | some _ => m

/-- Append to the list under a key, which is made if it is missing. -/
def push (m : OrderedMap κ (List ε)) (k : κ) (x : ε) : OrderedMap κ (List ε) :=
  (m.ensure k).modify k fun v => v ++ [x]

/-- The list of a missing key is made before the element is appended. -/
theorem push_insert {m : OrderedMap κ (List ε)} {k : κ} (none : m.search k = none) (x : ε) :
    (m.insert k []).push k x = m.push k x := by
  simp only [push, ensure, search_insert, none]

/-- Every element is in the list of its own key. -/
def Filed (key : ε → κ) (m : OrderedMap κ (List ε)) : Prop :=
  ∀ e ∈ m.entries, ∀ x ∈ e.2, key x = e.1

variable {key : ε → κ}

theorem empty_filed : Filed key (empty : OrderedMap κ (List ε)) := fun _ member => by cases member

theorem Filed.remove {m : OrderedMap κ (List ε)} (filed : m.Filed key) (k : κ) :
    (m.remove k).Filed key := fun e member => filed e (List.mem_filter.mp member).1

theorem ensure_entries (m : OrderedMap κ (List ε)) (k : κ) :
    (m.ensure k).entries = m.below k ++ (k, (m.search k).getD []) :: m.above k := by
  unfold ensure
  cases found : m.search k with
  | none => rfl
  | some v =>
      have split := m.entries_eq k
      rw [found] at split
      exact split

theorem push_entries (m : OrderedMap κ (List ε)) (k : κ) (x : ε) :
    (m.push k x).entries = m.below k ++ (k, (m.search k).getD [] ++ [x]) :: m.above k := by
  have low : (m.below k).map (fun e => if e.1 = k then (e.1, e.2 ++ [x]) else e) = m.below k :=
    List.map_congr_left (g := id) (fun e member => if_neg (ne_of_lt (lt_of_mem_below member)))
      |>.trans (List.map_id _)
  have high : (m.above k).map (fun e => if e.1 = k then (e.1, e.2 ++ [x]) else e) = m.above k :=
    List.map_congr_left (g := id) (fun e member => if_neg (ne_of_gt (lt_of_mem_above member)))
      |>.trans (List.map_id _)
  change (m.ensure k).entries.map _ = _
  rw [ensure_entries, List.map_append, List.map_cons, low, high, if_pos rfl]

theorem items_eq (m : OrderedMap κ (List ε)) (k : κ) :
    m.items = (m.below k).flatMap Prod.snd ++ ((m.search k).getD [] ++
      (m.above k).flatMap Prod.snd) := by
  rw [items, m.entries_eq k, List.flatMap_append, List.flatMap_append]
  cases m.search k with
  | none => rfl
  | some v => simp

theorem mem_of_search {m : OrderedMap κ ν} {k : κ} {v : ν} (found : m.search k = some v) :
    (k, v) ∈ m.entries := by
  rw [m.entries_eq k, found]
  simp

/-- A pushed element goes behind those with its key or a smaller one. -/
theorem push_items {m : OrderedMap κ (List ε)} (filed : m.Filed key) (x : ε) :
    ∃ l r, m.items = l ++ r ∧ (m.push (key x) x).items = l ++ x :: r ∧
      (∀ y ∈ l, key y ≤ key x) ∧ ∀ y ∈ r, key x < key y := by
  let low := (m.below (key x)).flatMap Prod.snd
  let high := (m.above (key x)).flatMap Prod.snd
  refine ⟨low ++ (m.search (key x)).getD [], high, ?_, ?_, fun y member => ?_, fun y member => ?_⟩
  · rw [List.append_assoc]
    exact m.items_eq (key x)
  · rw [items, push_entries, List.flatMap_append, List.flatMap_cons]
    simp [low, high]
  · cases List.mem_append.mp member with
    | inl under =>
        obtain ⟨e, entry, own⟩ := List.mem_flatMap.mp under
        rw [filed e (List.mem_filter.mp entry).1 y own]
        exact le_of_lt (lt_of_mem_below entry)
    | inr same =>
        cases found : m.search (key x) with
        | none =>
            rw [found] at same
            cases same
        | some v =>
            rw [found] at same
            exact le_of_eq (filed _ (mem_of_search found) y same)
  · obtain ⟨e, entry, own⟩ := List.mem_flatMap.mp member
    rw [filed e (List.mem_filter.mp entry).1 y own]
    exact lt_of_mem_above entry

theorem Filed.push {m : OrderedMap κ (List ε)} (filed : m.Filed key) (x : ε) :
    (m.push (key x) x).Filed key := by
  intro e member y own
  rw [push_entries] at member
  cases List.mem_append.mp member with
  | inl under => exact filed e (List.mem_filter.mp under).1 y own
  | inr rest =>
      cases List.mem_cons.mp rest with
      | inr beyond => exact filed e (List.mem_filter.mp beyond).1 y own
      | inl here =>
          obtain rfl := here
          cases List.mem_append.mp own with
          | inr new => exact List.mem_singleton.mp new ▸ rfl
          | inl old =>
              cases found : m.search (key x) with
              | none =>
                  rw [found] at old
                  cases old
              | some v =>
                  rw [found] at old
                  exact filed _ (mem_of_search found) y old

theorem items_of_first {m : OrderedMap κ (List ε)} {e : κ × List ε} (first : m.first = some e) :
    m.items = e.2 ++ (m.remove e.1).items := by
  rw [items, entries_of_first first, List.flatMap_cons]
  rfl

theorem items_of_none {m : OrderedMap κ (List ε)} (none : m.first = none) : m.items = [] := by
  rw [items, List.head?_eq_none_iff.mp none]
  rfl

theorem first_le {m : OrderedMap κ (List ε)} (filed : m.Filed key) {e : κ × List ε}
    (first : m.first = some e) : ∀ x ∈ m.items, e.1 ≤ key x := by
  intro x member
  obtain ⟨f, entry, own⟩ := List.mem_flatMap.mp member
  rw [filed f entry x own]
  rw [entries_of_first first] at entry
  cases List.mem_cons.mp entry with
  | inl same => exact le_of_eq (congrArg Prod.fst same.symm)
  | inr later =>
      have ascending := m.ascending
      rw [entries_of_first first] at ascending
      exact le_of_lt ((List.pairwise_cons.mp ascending).1 f later)

theorem filter_push (m : OrderedMap κ (List ε)) {k : κ} {p : κ → Prop} [DecidablePred p]
    (other : ¬p k) (x : ε) :
    (m.push k x).entries.filter (fun e => p e.1) = m.entries.filter fun e => p e.1 := by
  rw [push_entries, m.entries_eq k]
  cases m.search k <;> simp [other]

/-- No list is empty. -/
def Occupied (m : OrderedMap κ (List ε)) : Prop := ∀ e ∈ m.entries, e.2 ≠ []

theorem empty_occupied : (empty : OrderedMap κ (List ε)).Occupied :=
  fun _ member => by cases member

theorem Occupied.remove {m : OrderedMap κ (List ε)} (occupied : m.Occupied) (k : κ) :
    (m.remove k).Occupied := fun e member => occupied e (List.mem_filter.mp member).1

theorem Occupied.push {m : OrderedMap κ (List ε)} (occupied : m.Occupied) (k : κ) (x : ε) :
    (m.push k x).Occupied := by
  intro e member
  rw [push_entries] at member
  cases List.mem_append.mp member with
  | inl under => exact occupied e (List.mem_filter.mp under).1
  | inr rest =>
      cases List.mem_cons.mp rest with
      | inl here => simp [here]
      | inr beyond => exact occupied e (List.mem_filter.mp beyond).1

theorem Occupied.length_le {m : OrderedMap κ (List ε)} (occupied : m.Occupied)
    (p : κ × List ε → Bool) :
    (m.entries.filter p).length ≤ ((m.entries.filter p).flatMap Prod.snd).length := by
  have some : ∀ n ∈ (m.entries.filter p).map (fun e => e.2.length), 1 ≤ n := by
    intro n member
    obtain ⟨e, inside, rfl⟩ := List.mem_map.mp member
    exact List.length_pos_of_ne_nil (occupied e (List.mem_filter.mp inside).1)
  have most := List.length_le_sum_of_one_le _ some
  rw [List.length_map] at most
  rw [List.length_flatMap]
  exact most

end Queue

end OrderedMap

end Cors
