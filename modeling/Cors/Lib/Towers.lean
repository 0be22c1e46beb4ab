import Mathlib.Data.List.Basic
import Mathlib.Data.List.Induction
import Mathlib.Logic.Function.Basic

/-! # Lists linked on several levels

A tower is an element with the number of levels it takes part in. On each level the elements that
take part are linked in their order, and an element has no link on a level above its tower. A
search goes along the links of the highest level as far as it may, and on from there on the level
below. The elements where it turns down are those whose links change when an element is entered
or taken out behind the last of them.
-/

namespace Cors

namespace Tower

variable {α : Type}

/-- The first element that takes part in a level. -/
def first (i : Nat) (ts : List (α × Nat)) : Option α := (ts.find? fun t => i < t.2).map Prod.fst

/-- The last element that takes part in a level. -/
def last (i : Nat) (ts : List (α × Nat)) : Option α := first i ts.reverse

/-- The links of a list of towers, with the ones that come behind it. -/
def Linked (next : Nat → α → Option α) (levels : Nat) :
    List (α × Nat) → List (α × Nat) → Prop
  | [], _ => True
  | t :: ts, back =>
      (∀ i < levels, next i t.1 = if i < t.2 then first i (ts ++ back) else none) ∧
        Linked next levels ts back

@[simp] theorem first_nil (i : Nat) : first i ([] : List (α × Nat)) = none := rfl

theorem first_cons (i : Nat) (t : α × Nat) (ts : List (α × Nat)) :
    first i (t :: ts) = if i < t.2 then some t.1 else first i ts := by
  unfold first
  by_cases high : i < t.2 <;> simp [high]

theorem first_append (i : Nat) (xs ys : List (α × Nat)) :
    first i (xs ++ ys) = (first i xs).or (first i ys) := by
  unfold first
  rw [List.find?_append]
  cases xs.find? fun t => i < t.2 <;> rfl

theorem mem_of_first {i : Nat} {ts : List (α × Nat)} {x : α} (found : first i ts = some x) :
    ∃ h, (x, h) ∈ ts ∧ i < h := by
  obtain ⟨t, chosen, rfl⟩ := Option.map_eq_some_iff.mp found
  exact ⟨t.2, List.mem_of_find?_eq_some chosen, by simpa using List.find?_some chosen⟩

theorem first_zero {ts : List (α × Nat)} (positive : ∀ t ∈ ts, 0 < t.2) :
    first 0 ts = (ts.map Prod.fst).head? := by
  cases ts with
  | nil => rfl
  | cons t ts => rw [first_cons, if_pos (positive t List.mem_cons_self)]; rfl

theorem first_eq_none {i : Nat} {ts : List (α × Nat)} :
    first i ts = none ↔ ∀ t ∈ ts, t.2 ≤ i := by
  simp [first]

theorem last_cons (i : Nat) (t : α × Nat) (ts : List (α × Nat)) :
    last i (t :: ts) = (last i ts).or (if i < t.2 then some t.1 else none) := by
  rw [last, List.reverse_cons, first_append, first_cons, first_nil, ← last]

theorem mem_of_last {i : Nat} {ts : List (α × Nat)} {x : α} (found : last i ts = some x) :
    ∃ h, (x, h) ∈ ts ∧ i < h := by
  obtain ⟨h, member, high⟩ := mem_of_first found
  exact ⟨h, List.mem_reverse.mp member, high⟩

theorem last_eq_none {i : Nat} {ts : List (α × Nat)} : last i ts = none ↔ first i ts = none := by
  simp [last, first_eq_none]

theorem last_zero {ts : List (α × Nat)} (positive : ∀ t ∈ ts, 0 < t.2) :
    last 0 ts = ts.getLast?.map Prod.fst := by
  induction ts with
  | nil => rfl
  | cons t ts ih =>
      obtain ⟨own, rest⟩ := List.forall_mem_cons.mp positive
      rw [last_cons, ih rest, if_pos own]
      cases ts with
      | nil => rfl
      | cons u us => simp [List.getLast?_cons]

theorem last_split {i : Nat} {ts : List (α × Nat)} {x : α} (found : last i ts = some x) :
    ∃ front h back, ts = front ++ (x, h) :: back ∧ i < h ∧ first i back = none := by
  induction ts with
  | nil => cases found
  | cons t ts ih =>
      rw [last_cons] at found
      cases later : last i ts with
      | some y =>
          rw [later] at found
          obtain rfl := Option.some.inj found
          obtain ⟨front, h, back, rfl, high, past⟩ := ih later
          exact ⟨t :: front, h, back, rfl, high, past⟩
      | none =>
          rw [later, Option.none_or] at found
          by_cases high : i < t.2
          · rw [if_pos high] at found
            obtain rfl := Option.some.inj found
            exact ⟨[], t.2, ts, rfl, high, last_eq_none.mp later⟩
          · rw [if_neg high] at found
            cases found

/-! ## Links -/

section Linked
variable {next next' : Nat → α → Option α} {levels : Nat}

theorem linked_append {xs ys zs : List (α × Nat)} :
    Linked next levels (xs ++ ys) zs ↔
      Linked next levels xs (ys ++ zs) ∧ Linked next levels ys zs := by
  induction xs with
  | nil => simp [Linked]
  | cons x xs ih => simp only [List.cons_append, Linked, ih, List.append_assoc, and_assoc]

theorem Linked.congr {ts back : List (α × Nat)} (linked : Linked next levels ts back)
    (same : ∀ t ∈ ts, ∀ i < levels, next' i t.1 = next i t.1) : Linked next' levels ts back := by
  induction ts with
  | nil => trivial
  | cons t ts ih =>
      obtain ⟨own, rest⟩ := List.forall_mem_cons.mp same
      refine ⟨fun i inside => ?_, ih linked.2 rest⟩
      rw [own i inside]
      exact linked.1 i inside

theorem Linked.link {i : Nat} (inside : i < levels) {x : α} {h : Nat}
    {front ts back : List (α × Nat)} (linked : Linked next levels (front ++ (x, h) :: ts) back) :
    next i x = if i < h then first i (ts ++ back) else none :=
  (linked_append.mp linked).2.1 i inside

theorem Linked.link_of_last {i : Nat} (inside : i < levels) {x : α} {ts back : List (α × Nat)}
    (linked : Linked next levels ts back) (end_ : last i ts = some x) :
    next i x = first i back := by
  obtain ⟨front, h, post, rfl, high, past⟩ := last_split end_
  rw [linked.link inside, if_pos high, first_append, past, Option.none_or]

/-- The first of the towers is seen by no link: its height may change where no other is. -/
theorem Linked.height {x : α} {a b : Nat} {ts back : List (α × Nat)}
    (linked : Linked next levels ((x, a) :: ts) back)
    (same : ∀ i < levels, (i < a ↔ i < b) ∨ first i (ts ++ back) = none) :
    Linked next levels ((x, b) :: ts) back := by
  refine ⟨fun i inside => ?_, linked.2⟩
  rw [linked.1 i inside]
  obtain equal | bare := same i inside
  · simp only [equal]
  · simp only [bare, ite_self]

/-- The links into what follows a list are those of the last elements of its levels. -/
theorem Linked.relink {ts back back' : List (α × Nat)} (linked : Linked next levels ts back)
    (distinct : (ts.map Prod.fst).Nodup)
    (changed : ∀ t ∈ ts, ∀ i < levels,
      (last i ts = some t.1 → next' i t.1 = first i back') ∧
        (last i ts ≠ some t.1 → next' i t.1 = next i t.1)) :
    Linked next' levels ts back' := by
  induction ts with
  | nil => trivial
  | cons t ts ih =>
      obtain ⟨apart, distinct⟩ := List.nodup_cons.mp distinct
      obtain ⟨own, rest⟩ := List.forall_mem_cons.mp changed
      refine ⟨fun i inside => ?_, ih linked.2 distinct fun u member i inside => ?_⟩
      · obtain ⟨ends, passes⟩ := own i inside
        rw [first_append]
        rw [last_cons] at ends passes
        cases later : first i ts with
        | some y =>
            obtain ⟨z, end_⟩ := Option.ne_none_iff_exists'.mp
              (mt last_eq_none.mp (later ▸ Option.some_ne_none y))
            have other : z ≠ t.1 := by
              rintro rfl
              obtain ⟨h, member, -⟩ := mem_of_last end_
              exact apart (List.mem_map.mpr ⟨_, member, rfl⟩)
            rw [passes (by simpa [end_] using other), linked.1 i inside, first_append, later]
            rfl
        | none =>
            rw [last_eq_none.mpr later, Option.none_or] at ends passes
            by_cases high : i < t.2
            · rw [if_pos high] at ends ⊢
              rw [ends rfl, Option.none_or]
            · rw [if_neg high] at passes ⊢
              rw [passes (by simp), linked.1 i inside, if_neg high]
      · have other : u.1 ≠ t.1 := fun same => apart (same ▸ List.mem_map_of_mem member)
        obtain ⟨ends, passes⟩ := rest u member i inside
        rw [last_cons] at ends passes
        cases later : last i ts with
        | some z =>
            rw [later, Option.some_or] at ends passes
            exact ⟨ends, passes⟩
        | none =>
            refine ⟨nofun, fun _ => passes ?_⟩
            rw [later, Option.none_or]
            by_cases high : i < t.2 <;> simp [high, other.symm]

end Linked

/-! ## Searching -/

/-- Follow the links as long as the element behind them is to be passed. -/
def walk (next : α → Option α) (pass : α → Bool) : Nat → α → Option α
  | 0, _ => none
  | fuel + 1, x =>
      match next x with
      | some y => if pass y then walk next pass fuel y else some x
      | none => some x

/-- Walk on each of the lower `n` levels, the highest first. The elements where the walks end are
    listed from the lowest level on. -/
def descend (next : Nat → α → Option α) (pass : α → Bool) (fuel : Nat) :
    Nat → α → Option (α × List α)
  | 0, x => some (x, [])
  | n + 1, x =>
      match walk (next n) pass fuel x with
      | none => none
      | some y => (descend next pass fuel n y).map fun found => (found.1, found.2 ++ [y])

section Search
variable {next : Nat → α → Option α} {levels : Nat} {pass : α → Bool}

theorem walk_spec {i : Nat} (inside : i < levels) {back : List (α × Nat)}
    (stops : ∀ t ∈ back, pass t.1 = false) {ts : List (α × Nat)} (passes : ∀ t ∈ ts, pass t.1)
    (linked : Linked next levels ts back) {fuel : Nat} (enough : ts.length < fuel) {x : α}
    (link : next i x = first i (ts ++ back)) :
    walk (next i) pass fuel x = some ((last i ts).getD x) := by
  induction ts generalizing x fuel with
  | nil =>
      obtain ⟨fuel, rfl⟩ := Nat.exists_eq_succ_of_ne_zero (Nat.ne_of_gt enough)
      rw [List.nil_append] at link
      rw [walk, link]
      cases found : first i back with
      | none => rfl
      | some y =>
          obtain ⟨h, member, -⟩ := mem_of_first found
          simp [stops _ member, last]
  | cons t ts ih =>
      obtain ⟨own, passes⟩ := List.forall_mem_cons.mp passes
      rw [List.length_cons] at enough
      rw [List.cons_append, first_cons] at link
      rw [last_cons]
      by_cases high : i < t.2
      · rw [if_pos high] at link
        obtain ⟨fuel, rfl⟩ := Nat.exists_eq_succ_of_ne_zero
          (Nat.ne_of_gt (Nat.zero_lt_of_lt enough))
        have onward := linked.1 i inside
        rw [if_pos high] at onward
        rw [walk, link]
        simp only [own, if_true, high]
        rw [ih passes linked.2 (Nat.lt_of_succ_lt_succ enough) onward]
        cases last i ts <;> rfl
      · rw [if_neg high] at link
        rw [ih passes linked.2 (Nat.lt_of_succ_lt enough) link, if_neg high, Option.or_none]

/-- The walks end at the last elements of their levels that are passed. They begin at the first
    element, and do not ask whether to pass that. -/
theorem descend_spec {back : List (α × Nat)} (stops : ∀ t ∈ back, pass t.1 = false)
    {ts : List (α × Nat)} (passes : ∀ t ∈ ts.tail, pass t.1) {x : α} {n fuel : Nat}
    (linked : Linked next levels ts back) (enough : ts.length ≤ fuel) (below : n ≤ levels)
    (from_ : ∃ front h rest, ts = front ++ (x, h) :: rest ∧ n ≤ h) :
    ∃ z us, descend next pass fuel n x = some (z, us) ∧ us.length = n ∧
      (∀ i < n, us[i]? = last i ts) ∧ (0 < n → last 0 ts = some z) := by
  induction n generalizing x with
  | zero => exact ⟨x, [], rfl, rfl, fun i less => absurd less (Nat.not_lt_zero i), by omega⟩
  | succ n ih =>
      obtain ⟨front, h, rest, rfl, reaches⟩ := from_
      have high : n < h := reaches
      have tail := (linked_append.mp linked).2
      have later : ∀ t ∈ rest, t ∈ (front ++ (x, h) :: rest).tail := by
        intro t member
        cases front with
        | nil => exact member
        | cons u front => simp [member]
      have walked := walk_spec (Nat.lt_of_succ_le below) stops
        (fun t member => passes t (later t member)) tail.2
        (Nat.lt_of_lt_of_le (by simp; omega) enough) (by rw [tail.1 n below, if_pos high])
      have end_ : last n (front ++ (x, h) :: rest) = some ((last n rest).getD x) := by
        rw [last, List.reverse_append, first_append, ← last, last_cons, if_pos high]
        cases last n rest <;> rfl
      obtain ⟨pre, g, post, split, more, -⟩ := last_split end_
      obtain ⟨z, us, found, size, ends, lowest⟩ :=
        ih (Nat.le_of_succ_le below) ⟨pre, g, post, split, Nat.le_of_lt more⟩
      refine ⟨z, us ++ [(last n rest).getD x], ?_, by simp [size], fun i less => ?_, fun _ => ?_⟩
      · simp only [descend, walked, found, Option.map_some]
      · obtain lower | rfl := Nat.lt_succ_iff_lt_or_eq.mp less
        · rw [List.getElem?_append_left (size ▸ lower)]
          exact ends i lower
        · rw [List.getElem?_append_right (Nat.le_of_eq size), size, Nat.sub_self]
          exact end_.symm
      · obtain rfl | positive := Nat.eq_zero_or_pos n
        · simp only [descend, Option.some.injEq, Prod.mk.injEq] at found
          rw [end_, found.1]
        · exact lowest positive

end Search

/-! ## Both directions -/

/-- What is reached along the links from an element on. -/
def follow (next : α → Option α) : Nat → Option α → Option (List α)
  | _, none => some []
  | 0, some _ => none
  | fuel + 1, some x => (follow next fuel (next x)).map (x :: ·)

/-- Each element is linked to the one before it, the first one as it is said. -/
def Backed (previous : α → Option α) : Option α → List α → Prop
  | _, [] => True
  | p, x :: xs => previous x = p ∧ Backed previous (some x) xs

section Both
variable {next : Nat → α → Option α} {levels : Nat} {previous previous' : α → Option α}

theorem follow_linked {ts : List (α × Nat)} (linked : Linked next levels ts [])
    (levels_pos : 0 < levels) (positive : ∀ t ∈ ts, 0 < t.2) {fuel : Nat}
    (enough : ts.length ≤ fuel) :
    follow (next 0) fuel (ts.map Prod.fst).head? = some (ts.map Prod.fst) := by
  induction ts generalizing fuel with
  | nil => simp [follow]
  | cons t ts ih =>
      obtain ⟨own, rest⟩ := List.forall_mem_cons.mp positive
      obtain ⟨fuel, rfl⟩ := Nat.exists_eq_add_of_le' (Nat.le_trans (Nat.succ_pos _) enough)
      have link : next 0 t.1 = (ts.map Prod.fst).head? := by
        rw [linked.1 0 levels_pos, if_pos own, List.append_nil, first_zero rest]
      simp only [List.map_cons, List.head?_cons, follow, link,
        ih linked.2 rest (Nat.le_of_succ_le_succ enough), Option.map_some]

theorem backed_append {p : Option α} {xs ys : List α} :
    Backed previous p (xs ++ ys) ↔
      Backed previous p xs ∧ Backed previous (xs.getLast?.or p) ys := by
  induction xs generalizing p with
  | nil => simp [Backed]
  | cons x xs ih =>
      simp only [List.cons_append, Backed, ih, and_assoc]
      cases xs with
      | nil => rfl
      | cons y ys => simp [List.getLast?_cons]

theorem Backed.congr {p : Option α} {xs : List α} (backed : Backed previous p xs)
    (same : ∀ x ∈ xs, previous' x = previous x) : Backed previous' p xs := by
  induction xs generalizing p with
  | nil => trivial
  | cons x xs ih =>
      obtain ⟨own, rest⟩ := List.forall_mem_cons.mp same
      exact ⟨own.trans backed.1, ih backed.2 rest⟩

theorem follow_backed {xs : List α} (backed : Backed previous none xs) {fuel : Nat}
    (enough : xs.length ≤ fuel) : follow previous fuel xs.getLast? = some xs.reverse := by
  induction xs using List.reverseRecOn generalizing fuel with
  | nil => simp [follow]
  | append_singleton xs x ih =>
      rw [List.length_append, List.length_singleton] at enough
      obtain ⟨fuel, rfl⟩ := Nat.exists_eq_add_of_le' (Nat.le_trans (Nat.succ_pos _) enough)
      obtain ⟨earlier, own, -⟩ := backed_append.mp backed
      rw [Option.or_none] at own
      simp only [List.getLast?_concat, follow, own, ih earlier (Nat.le_of_succ_le_succ enough),
        Option.map_some, List.reverse_append, List.reverse_cons, List.reverse_nil,
        List.nil_append, List.singleton_append]

end Both

end Tower

end Cors
