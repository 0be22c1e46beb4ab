import Cors.Lib.OrderedMap
import Cors.Proxy.SkipList

/-! # The shape of a skip list

The links of a list that came from its own operations are those of towers, the head being as high
as the whole list; and entering or taking out an element gives such links again.
-/

namespace Cors

namespace Skiplist

/-! ## Loops over the levels -/

section Loops
theorem rndlvl_go {l : Nat} (below : l ≤ sklistMaxLevs) (flips : List Bool) :
    l ≤ rndlvl.go l flips ∧ rndlvl.go l flips ≤ sklistMaxLevs := by
  induction flips generalizing l with
  | nil => exact ⟨le_refl l, below⟩
  | cons flip flips ih =>
      cases flip with
      | false => exact ⟨le_refl l, below⟩
      | true =>
          unfold rndlvl.go
          by_cases more : l < sklistMaxLevs
          · rw [if_pos more]
            obtain ⟨low, high⟩ := ih more
            exact ⟨Nat.le_of_succ_le low, high⟩
          · rw [if_neg more]
            exact ⟨le_refl l, below⟩

theorem rndlvl_bounds (flips : List Bool) :
    0 < rndlvl flips ∧ rndlvl flips ≤ sklistMaxLevs :=
  rndlvl_go (by decide) flips

variable {α : Type}

theorem forLevels_apply (lo hi : Nat) (body : Nat → (α → Option α) → α → Option α)
    (forward : Nat → α → Option α) (j : Nat) :
    forLevels lo hi body forward j =
      if lo ≤ j ∧ j < hi then body j (forward j) else forward j := by
  unfold forLevels
  have general : ∀ n lo forward,
      (List.range' lo n).foldl
          (fun forward i => Function.update forward i (body i (forward i))) forward j =
        if lo ≤ j ∧ j < lo + n then body j (forward j) else forward j := by
    intro n
    induction n with
    | zero => intro lo forward; simp
    | succ n ih =>
        intro lo forward
        rw [List.range'_succ, List.foldl_cons, ih]
        obtain less | rfl | more := Nat.lt_trichotomy j lo
        · rw [if_neg (by omega), if_neg (by omega), Function.update_of_ne (Nat.ne_of_lt less)]
        · rw [if_neg (by omega), if_pos (by omega), Function.update_self]
        · rw [Function.update_of_ne (Nat.ne_of_gt more)]
          simp only [Nat.succ_le_iff.mpr more, Nat.le_of_lt more, true_and, Nat.add_assoc,
            Nat.add_comm 1]
  rw [general]
  by_cases inside : lo ≤ hi
  · rw [Nat.add_sub_cancel' inside]
  · rw [if_neg (by omega), if_neg (by omega)]

/-- The level is lowered as far as the head has no links. -/
theorem lower_spec (forward : Nat → α → Option α) (head : α) {l : Nat} (positive : 0 < l) :
    0 < lower forward head l ∧ lower forward head l ≤ l ∧
      ∀ i, lower forward head l ≤ i → i < l → forward i head = none := by
  induction l with
  | zero => omega
  | succ l ih =>
      unfold lower
      by_cases bare : 1 < l + 1 ∧ forward l head = none
      · rw [if_pos bare]
        obtain ⟨low, high, none⟩ := ih (by omega)
        refine ⟨low, by omega, fun i above below => ?_⟩
        obtain less | rfl := Nat.lt_succ_iff_lt_or_eq.mp below
        · exact none i above less
        · exact bare.2
      · rw [if_neg bare]
        exact ⟨by omega, le_refl _, fun i above below => by omega⟩

variable [DecidableEq α]

theorem enter_apply (elm : α) (i : Nat) (us : List α) (forward : Nat → α → Option α) (j : Nat) :
    enter elm i us forward j =
      if i ≤ j then
        match us[j - i]? with
        | some u =>
            Function.update (Function.update (forward j) elm (forward j u)) u (some elm)
        | none => forward j
      else
        forward j := by
  induction us generalizing i forward with
  | nil => simp [enter]
  | cons u us ih =>
      rw [enter, ih]
      obtain less | rfl | more := Nat.lt_trichotomy j i
      · rw [if_neg (by omega), if_neg (by omega), Function.update_of_ne (Nat.ne_of_lt less)]
      · rw [if_neg (by omega), if_pos (le_refl j), Function.update_self, Nat.sub_self]
        rfl
      · rw [if_pos (by omega), if_pos (by omega), Function.update_of_ne (Nat.ne_of_gt more),
          show j - i = (j - (i + 1)) + 1 by omega, List.getElem?_cons_succ]

theorem unlink_apply {x : α} {i h : Nat} {us : List α} {forward : Nat → α → Option α}
    (linked : ∀ j u, us[j]? = some u → (forward (i + j) u = some x ↔ i + j < h)) (j : Nat) :
    unlink x i us forward j =
      if i ≤ j ∧ j < h then
        match us[j - i]? with
        | some u => Function.update (forward j) u (forward j x)
        | none => forward j
      else
        forward j := by
  induction us generalizing i forward with
  | nil => simp [unlink]
  | cons u us ih =>
      have here := linked 0 u rfl
      rw [Nat.add_zero] at here
      unfold unlink
      by_cases link : forward i u = some x
      · have inside := here.mp link
        rw [if_pos link, ih fun j v member => ?_]
        · obtain less | rfl | more := Nat.lt_trichotomy j i
          · rw [if_neg (by omega), if_neg (by omega), Function.update_of_ne (Nat.ne_of_lt less)]
          · rw [if_neg (by omega), if_pos ⟨le_refl j, inside⟩, Function.update_self, Nat.sub_self]
            rfl
          · rw [Function.update_of_ne (Nat.ne_of_gt more),
              show j - i = (j - (i + 1)) + 1 by omega, List.getElem?_cons_succ]
            simp only [Nat.succ_le_iff.mpr more, Nat.le_of_lt more, true_and]
        · rw [Function.update_of_ne (by omega), Nat.add_assoc, Nat.add_comm 1]
          exact linked (j + 1) v member
      · have outside := mt here.mpr link
        rw [if_neg link, if_neg (by omega)]

theorem raise_apply {head next : α} {h : Nat} (positive : 0 < h) {n : Nat}
    {forward : Nat → α → Option α} (below : h ≤ n)
    (linked : ∀ i < n, forward i head = some next ↔ i < h) :
    raise head next n forward =
      some fun j =>
        if h ≤ j ∧ j < n then Function.update (forward j) next (forward j head)
        else forward j := by
  induction n generalizing forward with
  | zero => omega
  | succ n ih =>
      have here := linked n (Nat.lt_succ_self n)
      unfold raise
      by_cases inside : n < h
      · rw [if_neg (not_not.mpr (here.mpr inside))]
        congr 1
        funext j
        rw [if_neg (by omega)]
      · rw [if_pos (mt here.mp inside), ih (Nat.not_lt.mp inside) fun i less => ?_]
        · congr 1
          funext j
          obtain less | rfl | more := Nat.lt_trichotomy j n
          · rw [Function.update_of_ne (Nat.ne_of_lt less)]
            simp only [less, Nat.lt_succ_of_lt less, and_true]
          · rw [if_neg (by omega), if_pos ⟨Nat.not_lt.mp inside, Nat.lt_succ_self j⟩,
              Function.update_self]
          · rw [if_neg (by omega), if_neg (by omega), Function.update_of_ne (Nat.ne_of_gt more)]
        · rw [Function.update_of_ne (Nat.ne_of_lt less)]
          exact linked i (Nat.lt_succ_of_lt less)

end Loops

/-! ## Single operations -/

section Links
variable {κ α : Type} [DecidableEq α] {s : Skiplist κ α}

theorem insertBehind_forward {head elm prev : α} {x : Option α} {us : List α} {newlvl j : Nat}
    {u : α} (inside : j < newlvl)
    (update : ((us ++ List.replicate (newlvl - s.lvl) head).take newlvl)[j]? = some u) (y : α) :
    (s.insertBehind head elm prev x us newlvl).forward j y =
      if y = u then some elm else if y = elm then s.forward j u else s.forward j y := by
  simp only [insertBehind, forLevels_apply, enter_apply, Nat.not_le_of_lt inside, false_and,
    if_false, Nat.zero_le, if_true, Nat.sub_zero, update, Function.update_apply]

theorem insertBehind_forward_above {head elm prev : α} {x : Option α} {us : List α}
    {newlvl j : Nat} (outside : newlvl ≤ j) (below : j < sklistMaxLevs) (y : α) :
    (s.insertBehind head elm prev x us newlvl).forward j y =
      if y = elm then none else s.forward j y := by
  have short : ((us ++ List.replicate (newlvl - s.lvl) head).take newlvl)[j]? = none :=
    List.getElem?_eq_none (by rw [List.length_take]; omega)
  simp only [insertBehind, forLevels_apply, enter_apply, outside, below, true_and, if_true,
    Nat.zero_le, Nat.sub_zero, short, Function.update_apply]

theorem insertBehind_lvl (head elm prev : α) (x : Option α) (us : List α) (newlvl : Nat) :
    (s.insertBehind head elm prev x us newlvl).lvl = max s.lvl newlvl := by
  simp only [insertBehind]
  split <;> omega

theorem insertBehind_previous (head elm prev : α) (x : Option α) (us : List α) (newlvl : Nat)
    (y : α) : (s.insertBehind head elm prev x us newlvl).previous y =
      if y = elm then some prev else if x = some y then some elm else s.previous y := by
  unfold insertBehind
  cases x with
  | none => simp [Function.update_apply]
  | some x => simp [Function.update_apply, eq_comm]

/-- The head is taken over: its links above the level it is given go to the new one. -/
structure TakesOver (s s' : Skiplist κ α) (elm : α) (newlvl : Nat) : Prop where
  lvl : s'.lvl = max s.lvl newlvl
  head : s'.head = some elm
  tail : s'.tail = if s.tail = none then some elm else s.tail
  sz : s'.sz = s.sz
  key : s'.key = s.key
  previous : ∀ y, s'.previous y =
    if s.head = some y then some elm else if y = elm then none else s.previous y
  own : ∀ j < sklistMaxLevs, s'.forward j elm =
    if j < newlvl then s.head else if j < s.lvl then s.head.bind (s.forward j) else none
  old : ∀ j y, s.head = some y → s'.forward j y =
    if j < newlvl ∧ j < s.lvl then s.forward j y
    else if j < newlvl ∨ j < s.lvl then none else s.forward j y
  other : ∀ j y, s.head ≠ some y → y ≠ elm → s'.forward j y = s.forward j y

theorem insertHead_takesOver {elm : α} {newlvl : Nat} (apart : s.head ≠ some elm)
    (present : s.head = none → s.lvl ≤ newlvl) :
    ∃ s', s.insertHead elm newlvl = some s' ∧ s.TakesOver s' elm newlvl := by
  by_cases low : newlvl < s.lvl
  · obtain ⟨head, known⟩ := Option.ne_none_iff_exists'.mp fun none => by
      have := present none
      omega
    have other : elm ≠ head := fun same => apart (same ▸ known)
    refine ⟨_, by simp only [insertHead, low, if_true, known, Option.map_some]; rfl, ?_⟩
    constructor
    case lvl => exact (Nat.max_eq_left (Nat.le_of_lt low)).symm
    case head => rfl
    case tail => rfl
    case sz => rfl
    case key => rfl
    all_goals
      simp only [forLevels_apply, Function.update_apply]
      grind
  · have high := Nat.not_lt.mp low
    cases known : s.head with
    | none =>
        refine ⟨_, by simp only [insertHead, low, if_false, known, Option.map_some]; rfl, ?_⟩
        constructor
        case lvl => exact (Nat.max_eq_right high).symm
        case head => rfl
        case tail => rfl
        case sz => rfl
        case key => rfl
        all_goals
          simp only [forLevels_apply, Function.update_apply, known]
          grind
    | some head =>
        have other : elm ≠ head := fun same => apart (same ▸ known)
        refine ⟨_, by simp only [insertHead, low, if_false, known, Option.map_some]; rfl, ?_⟩
        constructor
        case lvl => exact (Nat.max_eq_right high).symm
        case head => rfl
        case tail => rfl
        case sz => rfl
        case key => rfl
        all_goals
          simp only [forLevels_apply, Function.update_apply, known]
          grind

end Links

/-! ## Towers of a list -/

section Shape
variable {κ α : Type} [LinearOrder κ]

/-- The elements of a list in their order, and how many levels each of them takes part in. -/
structure Shaped (s : Skiplist κ α) (ts : List (α × Nat)) : Prop where
  ascending : (ts.map Prod.fst).Pairwise fun x y => s.key x < s.key y
  linked : Tower.Linked s.forward sklistMaxLevs ts []
  backed : Tower.Backed s.previous none (ts.map Prod.fst)
  head : s.head = (ts.map Prod.fst).head?
  tail : s.tail = (ts.map Prod.fst).getLast?
  size : s.sz = ts.length
  level : s.lvl = (ts.head?.map Prod.snd).getD 1
  heights : ∀ t ∈ ts, 0 < t.2 ∧ t.2 ≤ s.lvl
  levels : s.lvl ≤ sklistMaxLevs

variable {s : Skiplist κ α} {ts : List (α × Nat)}

theorem Shaped.distinct (shaped : s.Shaped ts) : (ts.map Prod.fst).Nodup :=
  shaped.ascending.imp fun less same => ne_of_lt less (congrArg s.key same)

theorem Shaped.positive (shaped : s.Shaped ts) : ∀ t ∈ ts, 0 < t.2 :=
  fun t member => (shaped.heights t member).1

theorem Shaped.lvl_pos (shaped : s.Shaped ts) : 0 < s.lvl := by
  cases ts with
  | nil => simp [shaped.level]
  | cons t ts =>
      obtain ⟨low, high⟩ := shaped.heights t List.mem_cons_self
      exact Nat.lt_of_lt_of_le low high

theorem Shaped.head_height {head : α} {h : Nat} (shaped : s.Shaped ((head, h) :: ts)) :
    h = s.lvl := shaped.level.symm

theorem Shaped.none_above {i : Nat} (shaped : s.Shaped ts) (above : s.lvl ≤ i)
    {part : List (α × Nat)} (sub : part ⊆ ts) : Tower.first i part = none :=
  Tower.first_eq_none.mpr fun t member =>
    Nat.le_trans (shaped.heights t (sub member)).2 above

theorem split_ascending {key : α → κ} {ts : List (α × Nat)}
    (ascending : (ts.map Prod.fst).Pairwise fun x y => key x < key y) (k : κ) :
    ∃ front back, ts = front ++ back ∧ (∀ x ∈ front.map Prod.fst, key x < k) ∧
      ∀ x ∈ back.map Prod.fst, k ≤ key x := by
  induction ts with
  | nil => exact ⟨[], [], rfl, List.forall_mem_nil _, List.forall_mem_nil _⟩
  | cons t ts ih =>
      obtain ⟨least, rest⟩ := List.pairwise_cons.mp ascending
      by_cases less : key t.1 < k
      · obtain ⟨front, back, rfl, low, high⟩ := ih rest
        exact ⟨t :: front, back, rfl, List.forall_mem_cons.mpr ⟨less, low⟩, high⟩
      · have stop := not_lt.mp less
        refine ⟨[], t :: ts, rfl, List.forall_mem_nil _, List.forall_mem_cons.mpr ⟨stop, ?_⟩⟩
        exact fun x member => le_trans stop (le_of_lt (least x member))

theorem Shaped.seek_spec {head : α} {h : Nat} {front back : List (α × Nat)} {k : κ}
    (shaped : s.Shaped ((head, h) :: front ++ back))
    (low : ∀ x ∈ front.map Prod.fst, s.key x < k)
    (high : ∀ x ∈ back.map Prod.fst, k ≤ s.key x) :
    ∃ prev us, s.seek k head = some (prev, us) ∧ us.length = s.lvl ∧
      (∀ i < s.lvl, us[i]? = Tower.last i ((head, h) :: front)) ∧
      Tower.last 0 ((head, h) :: front) = some prev ∧
      s.forward 0 prev = (back.map Prod.fst).head? := by
  have linked := shaped.linked
  rw [Tower.linked_append, List.append_nil] at linked
  have enough : ((head, h) :: front).length ≤ s.sz := by
    rw [shaped.size, List.length_append]
    exact Nat.le_add_right _ _
  let pass := fun y => decide (cmp (s.key y) k < 0)
  have stops : ∀ t ∈ back, pass t.1 = false := fun t member =>
    decide_eq_false (mt cmp_neg.mp (not_lt.mpr (high t.1 (List.mem_map_of_mem member))))
  have passes : ∀ t ∈ ((head, h) :: front).tail, pass t.1 := fun t member =>
    decide_eq_true (cmp_neg.mpr (low t.1 (List.mem_map_of_mem member)))
  obtain ⟨prev, us, found, size, ends, lowest⟩ := Tower.descend_spec stops passes linked.1 enough
    shaped.levels ⟨[], h, front, rfl, Nat.le_of_eq shaped.level⟩
  have end_ := lowest shaped.lvl_pos
  refine ⟨prev, us, found, size, ends, end_, ?_⟩
  rw [linked.1.link_of_last (by decide) end_]
  exact Tower.first_zero fun t member => shaped.positive t (List.mem_append_right _ member)

theorem lowered {forward : Nat → α → Option α} {head : α} {lvl : Nat} {rest : List (α × Nat)}
    (linked : Tower.Linked forward sklistMaxLevs ((head, lvl) :: rest) [])
    (heights : ∀ t ∈ rest, 0 < t.2 ∧ t.2 ≤ lvl) (positive : 0 < lvl)
    (levels : lvl ≤ sklistMaxLevs) :
    Tower.Linked forward sklistMaxLevs ((head, lower forward head lvl) :: rest) [] ∧
      (∀ t ∈ (head, lower forward head lvl) :: rest, 0 < t.2 ∧ t.2 ≤ lower forward head lvl) ∧
      lower forward head lvl ≤ sklistMaxLevs := by
  obtain ⟨low, high, none⟩ := lower_spec forward head positive
  have bare : ∀ i, lower forward head lvl ≤ i → i < lvl → Tower.first i rest = .none := by
    intro i above below
    have link := linked.1 i (Nat.lt_of_lt_of_le below levels)
    rwa [none i above below, if_pos below, List.append_nil, eq_comm] at link
  refine ⟨linked.height fun i _ => ?_, List.forall_mem_cons.mpr ⟨⟨low, le_refl _⟩, ?_⟩,
    Nat.le_trans high levels⟩
  · rw [List.append_nil]
    by_cases above : lower forward head lvl ≤ i ∧ i < lvl
    · exact .inr (bare i above.1 above.2)
    · exact .inl (by omega)
  · refine fun t member => ⟨(heights t member).1, Nat.not_lt.mp fun more => ?_⟩
    have below := Nat.lt_of_lt_of_le more (heights t member).2
    exact absurd (Tower.first_eq_none.mp (bare _ (le_refl _) below) t member) (Nat.not_le.mpr more)

/-! ## Entering an element -/

/-- The head is as high as the list when it is raised, and `update` has the last elements of all
    levels then. -/
theorem Shaped.update {head : α} {h : Nat} {front back : List (α × Nat)} {us : List α}
    {newlvl i : Nat} (shaped : s.Shaped ((head, h) :: front ++ back)) (size : us.length = s.lvl)
    (ends : ∀ i < s.lvl, us[i]? = Tower.last i ((head, h) :: front)) (inside : i < newlvl) :
    ((us ++ List.replicate (newlvl - s.lvl) head).take newlvl)[i]? =
      Tower.last i ((head, max s.lvl newlvl) :: front) := by
  have high : i < max s.lvl newlvl := Nat.lt_of_lt_of_le inside (Nat.le_max_right _ _)
  rw [List.getElem?_take_of_lt inside]
  by_cases known : i < s.lvl
  · rw [List.getElem?_append_left (size ▸ known), ends i known, Tower.last_cons, Tower.last_cons]
    simp only [shaped.head_height, known, high]
  · have bare : Tower.last i front = none :=
      Tower.last_eq_none.mpr
        (shaped.none_above (Nat.not_lt.mp known) (by intro t member; simp [member]))
    rw [List.getElem?_append_right (size ▸ Nat.not_lt.mp known), size, Tower.last_cons, bare,
      if_pos high, List.getElem?_replicate, if_pos (by omega)]
    rfl

variable [DecidableEq α]

theorem Shaped.insertBehind_spec {head elm prev : α} {h newlvl : Nat} {front back : List (α × Nat)}
    {us : List α} (shaped : s.Shaped ((head, h) :: front ++ back))
    (low : ∀ x ∈ head :: front.map Prod.fst, s.key x < s.key elm)
    (high : ∀ x ∈ back.map Prod.fst, s.key elm < s.key x)
    (positive : 0 < newlvl) (bounded : newlvl ≤ sklistMaxLevs) (size : us.length = s.lvl)
    (ends : ∀ i < s.lvl, us[i]? = Tower.last i ((head, h) :: front))
    (end_ : Tower.last 0 ((head, h) :: front) = some prev) :
    (s.insertBehind head elm prev (back.map Prod.fst).head? us newlvl).Shaped
      ((head, max s.lvl newlvl) :: front ++ (elm, newlvl) :: back) := by
  have own := shaped.head_height
  have shape := shaped
  obtain ⟨ascending, links, backed, head_, tail_, size_, level_, heights, levels_⟩ := shape
  rw [List.map_append, List.map_cons] at ascending backed tail_
  let front' := (head, max s.lvl newlvl) :: front
  have apart : ∀ x ∈ head :: front.map Prod.fst, x ≠ elm := fun x member same =>
    lt_irrefl _ (same ▸ low x member)
  have behind : ∀ x ∈ back.map Prod.fst, x ≠ elm := fun x member same =>
    lt_irrefl _ (same ▸ high x member)
  obtain ⟨linked, linkedBack⟩ := Tower.linked_append.mp links
  rw [List.append_nil] at linked
  obtain ⟨left, right, across_⟩ := List.pairwise_append.mp ascending
  have across : ∀ x ∈ head :: front.map Prod.fst, ∀ y ∈ back.map Prod.fst, x ≠ y :=
    fun x first y second same => ne_of_lt (across_ x first y second) (congrArg s.key same)
  have raised : Tower.Linked s.forward sklistMaxLevs front' back := by
    refine linked.height fun i _ => ?_
    by_cases known : i < s.lvl
    · exact .inl (by omega)
    · exact .inr (shaped.none_above (Nat.not_lt.mp known) (by simp))
  have found : ∀ i < newlvl, ∃ u, Tower.last i front' = some u := by
    intro i inside
    rw [Tower.last_cons, if_pos (Nat.lt_of_lt_of_le inside (Nat.le_max_right _ _))]
    cases Tower.last i front <;> simp
  constructor
  case ascending =>
    rw [List.map_append, List.map_cons, List.map_cons]
    refine List.pairwise_append.mpr ⟨left, List.pairwise_cons.mpr ⟨high, right⟩, ?_⟩
    exact fun x member => List.forall_mem_cons.mpr ⟨low x member, across_ x member⟩
  case linked =>
    rw [Tower.linked_append, List.append_nil]
    refine ⟨raised.relink (shaped.distinct.sublist (by simp [front'])) fun t member i inside => ?_,
      fun i inside => ?_, linkedBack.congr fun t member i inside => ?_⟩
    · have other := apart t.1 (List.mem_map_of_mem (f := Prod.fst) member)
      rw [Tower.first_cons]
      by_cases joins : i < newlvl
      · obtain ⟨u, last⟩ := found i joins
        rw [insertBehind_forward joins ((shaped.update size ends joins).trans last), if_pos joins,
          last, if_neg other]
        exact ⟨fun same => if_pos (Option.some.inj same).symm, fun differs => if_neg fun same =>
          differs (congrArg some same.symm)⟩
      · rw [insertBehind_forward_above (Nat.not_lt.mp joins) inside, if_neg joins, if_neg other]
        exact ⟨raised.link_of_last inside, fun _ => rfl⟩
    · rw [List.append_nil]
      by_cases joins : i < newlvl
      · obtain ⟨u, last⟩ := found i joins
        obtain ⟨g, member, -⟩ := Tower.mem_of_last last
        have other := apart u (List.mem_map_of_mem (f := Prod.fst) member)
        rw [insertBehind_forward joins ((shaped.update size ends joins).trans last), if_pos joins,
          if_neg other.symm, if_pos rfl, raised.link_of_last inside last]
      · rw [insertBehind_forward_above (Nat.not_lt.mp joins) inside, if_neg joins, if_pos rfl]
    · have other := behind t.1 (List.mem_map_of_mem member)
      by_cases joins : i < newlvl
      · obtain ⟨u, last⟩ := found i joins
        obtain ⟨g, within, -⟩ := Tower.mem_of_last last
        have past := (across u (List.mem_map_of_mem (f := Prod.fst) within) t.1
          (List.mem_map_of_mem member)).symm
        rw [insertBehind_forward joins ((shaped.update size ends joins).trans last), if_neg past,
          if_neg other]
      · rw [insertBehind_forward_above (Nat.not_lt.mp joins) inside, if_neg other]
  case backed =>
    rw [List.map_append, List.map_cons, List.map_cons]
    obtain ⟨front_, back_⟩ := Tower.backed_append.mp backed
    have lastName : (head :: front.map Prod.fst).getLast? = some prev := by
      rw [Tower.last_zero fun t member => shaped.positive t (List.mem_append_left _ member),
        ← List.getLast?_map] at end_
      exact end_
    rw [lastName, Option.some_or] at back_
    refine Tower.backed_append.mpr ⟨front_.congr fun x member => ?_, ?_, ?_⟩
    · have other : (back.map Prod.fst).head? ≠ some x := fun same =>
        across x member x (List.mem_of_head? same) rfl
      rw [insertBehind_previous, if_neg (apart x member), if_neg other]
    · rw [lastName, insertBehind_previous, if_pos rfl]
      rfl
    · cases names : back.map Prod.fst with
      | nil => trivial
      | cons y ys =>
          rw [names] at back_ behind right
          obtain ⟨other, others⟩ := List.forall_mem_cons.mp behind
          refine ⟨?_, back_.2.congr fun z member => ?_⟩
          · rw [insertBehind_previous, if_neg other, List.head?_cons, if_pos rfl]
          · have least := ne_of_lt ((List.pairwise_cons.mp right).1 z member)
            have later : some y ≠ some z := fun same =>
              least (congrArg s.key (Option.some.inj same))
            rw [insertBehind_previous, if_neg (others z member), List.head?_cons, if_neg later]
  case head => exact head_
  case tail =>
    rw [List.getLast?_append] at tail_
    rw [List.map_append, List.map_cons, List.map_cons, List.getLast?_append, List.getLast?_cons]
    cases names : back.map Prod.fst with
    | nil => rfl
    | cons y ys =>
        rw [names, List.getLast?_cons] at tail_
        rw [List.getLast?_cons]
        exact tail_
  case size =>
    have one : (s.insertBehind head elm prev (back.map Prod.fst).head? us newlvl).sz =
      s.sz + 1 := rfl
    rw [one, size_]
    simp only [List.length_append, List.length_cons]
    omega
  case level => exact insertBehind_lvl ..
  case heights =>
    rw [insertBehind_lvl]
    intro t member
    have raise : t ∈ (head, h) :: front ++ back → 0 < t.2 ∧ t.2 ≤ max s.lvl newlvl := fun old =>
      ⟨(heights t old).1, Nat.le_trans (heights t old).2 (Nat.le_max_left _ _)⟩
    simp only [List.cons_append, List.mem_cons, List.mem_append] at member
    obtain rfl | first | rfl | last := member
    · exact ⟨Nat.lt_of_lt_of_le positive (Nat.le_max_right _ _), le_refl _⟩
    · exact raise (by simp [first])
    · exact ⟨positive, Nat.le_max_right _ _⟩
    · exact raise (by simp [last])
  case levels =>
    rw [insertBehind_lvl]
    exact Nat.max_le.mpr ⟨levels_, bounded⟩

theorem Shaped.insertHead_spec {elm : α} {newlvl : Nat} (shaped : s.Shaped ts)
    (high : ∀ x ∈ ts.map Prod.fst, s.key elm < s.key x) (positive : 0 < newlvl)
    (bounded : newlvl ≤ sklistMaxLevs) :
    ∃ s' ts', { s with sz := s.sz + 1 }.insertHead elm newlvl = some s' ∧ s'.key = s.key ∧
      s'.Shaped ts' ∧ ts'.map Prod.fst = elm :: ts.map Prod.fst := by
  have levels := shaped.lvl_pos
  obtain ⟨ascending, links, backed, head_, tail_, size_, level_, heights, levels_⟩ := id shaped
  have apart : ∀ x ∈ ts.map Prod.fst, x ≠ elm := fun x member same =>
    lt_irrefl _ (same ▸ high x member)
  have notHead : s.head ≠ some elm := by
    rw [head_]
    exact fun same => apart elm (List.mem_of_head? same) rfl
  have present : s.head = none → s.lvl ≤ newlvl := by
    intro none
    cases ts with
    | nil => exact level_ ▸ positive
    | cons t ts => simp [head_] at none
  obtain ⟨s', done, takes⟩ :=
    @insertHead_takesOver κ α _ { s with sz := s.sz + 1 } elm newlvl notHead present
  obtain ⟨lvl', head', tail', sz', key', previous', own', old', other'⟩ := takes
  dsimp only at lvl' head' tail' sz' key' previous' own' old' other'
  cases ts with
  | nil =>
      refine ⟨s', [(elm, newlvl)], done, key', ?_, rfl⟩
      have none_ : s.head = none := head_
      have one : s.lvl = 1 := level_
      rw [Nat.max_eq_right (one ▸ positive)] at lvl'
      constructor
      case ascending => exact List.pairwise_singleton _ _
      case linked => exact ⟨fun i inside => by rw [own' i inside]; simp [none_], trivial⟩
      case backed => exact ⟨by rw [previous' elm]; simp [none_], trivial⟩
      case head => exact head'
      case tail =>
        have noTail : s.tail = none := tail_
        rw [tail', if_pos noTail]
        rfl
      case size => rw [sz', size_]; rfl
      case level => exact lvl'
      case heights => simpa [lvl'] using positive
      case levels => exact lvl' ▸ bounded
  | cons t rest =>
      obtain ⟨head, h⟩ := t
      have own := shaped.head_height
      have known : s.head = some head := head_
      obtain ⟨other, others⟩ := List.forall_mem_cons.mp apart
      obtain ⟨least, -⟩ := List.pairwise_cons.mp ascending
      have later : ∀ x ∈ rest.map Prod.fst, s.head ≠ some x := fun x member same =>
        ne_of_lt (least x member) (congrArg s.key (Option.some.inj (known ▸ same)))
      have bare : ∀ i, s.lvl ≤ i → Tower.first i rest = none := fun i above =>
        shaped.none_above above (List.subset_cons_self _ _)
      refine ⟨s', (elm, max s.lvl newlvl) :: (head, newlvl) :: rest, done, key', ?_, rfl⟩
      constructor
      case ascending => exact key' ▸ List.pairwise_cons.mpr ⟨high, ascending⟩
      case linked =>
        refine ⟨fun i inside => ?_, fun i inside => ?_, links.2.congr fun t member i _ => ?_⟩
        · have link := links.1 i inside
          rw [List.append_nil] at link
          rw [own' i inside, List.append_nil, Tower.first_cons, known, Option.bind_some, link]
          grind
        · have link := links.1 i inside
          rw [List.append_nil] at link
          rw [old' i head known, List.append_nil, link]
          grind
        · have member := List.mem_map_of_mem (f := Prod.fst) member
          exact other' i t.1 (later t.1 member) (others t.1 member)
      case backed =>
        refine ⟨?_, ?_, backed.2.congr fun x member => ?_⟩
        · rw [previous', if_neg (fun same => other (Option.some.inj (known ▸ same))), if_pos rfl]
        · rw [previous', if_pos known]
        · rw [previous', if_neg (later x member), if_neg (others x member)]
      case head => exact head'
      case tail =>
        rw [tail', tail_, if_neg (by simp)]
        simp [List.getLast?_cons]
      case size => rw [sz', size_]; rfl
      case level => exact lvl'
      case heights =>
        rw [lvl']
        refine List.forall_mem_cons.mpr ⟨⟨by omega, le_refl _⟩, List.forall_mem_cons.mpr
          ⟨⟨positive, Nat.le_max_right _ _⟩, fun t member => ?_⟩⟩
        obtain ⟨low, below⟩ := heights t (List.mem_cons_of_mem _ member)
        exact ⟨low, Nat.le_trans below (Nat.le_max_left _ _)⟩
      case levels => exact lvl' ▸ Nat.max_le.mpr ⟨levels_, bounded⟩

/-! ## Taking out an element -/

/-- What is left when the second element becomes the head. -/
theorem Shaped.raise_spec {head next : α} {h g : Nat} {rest : List (α × Nat)}
    (shaped : s.Shaped ((head, h) :: (next, g) :: rest)) :
    ∃ forward, raise head next s.lvl s.forward = some forward ∧
      Shaped
        { s with
          sz := s.sz - 1
          forward
          previous := Function.update s.previous next none
          head := some next
          lvl := lower forward next s.lvl }
        ((next, lower forward next s.lvl) :: rest) := by
  have positive := shaped.lvl_pos
  have own := shaped.head_height
  have distinct := shaped.distinct
  obtain ⟨ascending, links, backed, head_, tail_, size_, level_, heights, levels_⟩ := shaped
  obtain ⟨headLinks, nextLinks, restLinks⟩ := links
  simp only [List.map_cons, List.nodup_cons, List.mem_cons, not_or] at distinct
  obtain ⟨⟨-, -⟩, apart, -⟩ := distinct
  have others : ∀ t ∈ rest, t.1 ≠ next := fun t member same =>
    apart (same ▸ List.mem_map_of_mem member)
  have below := heights (next, g) (by simp)
  have seen : ∀ i < s.lvl, s.forward i head = some next ↔ i < g := by
    intro i inside
    rw [headLinks i (Nat.lt_of_lt_of_le inside levels_), if_pos (own ▸ inside), List.append_nil,
      Tower.first_cons]
    by_cases joins : i < g
    · simp [joins]
    · rw [if_neg joins]
      refine ⟨fun same => ?_, fun joins_ => absurd joins_ joins⟩
      obtain ⟨f, member, -⟩ := Tower.mem_of_first same
      exact absurd rfl (others _ member)
  let raised : Nat → α → Option α := fun j =>
    if g ≤ j ∧ j < s.lvl then Function.update (s.forward j) next (s.forward j head)
    else s.forward j
  have keeps : ∀ j y, y ≠ next → raised j y = s.forward j y := by
    intro j y other
    simp only [raised]
    split
    · exact Function.update_of_ne other _ _
    · rfl
  have linked : Tower.Linked raised sklistMaxLevs ((next, s.lvl) :: rest) [] := by
    refine ⟨fun j inside => ?_, restLinks.congr fun t member j _ => keeps j t.1 (others t member)⟩
    have headLink := headLinks j inside
    have nextLink := nextLinks j inside
    rw [List.append_nil] at headLink nextLink ⊢
    rw [Tower.first_cons] at headLink
    simp only [raised]
    grind [Function.update_self]
  obtain ⟨linked', heights', levels'⟩ := lowered linked
    (fun t member => heights t (by simp [member])) positive levels_
  refine ⟨raised, raise_apply below.1 below.2 seen, ?_⟩
  constructor
  case ascending => exact (List.pairwise_cons.mp ascending).2
  case linked => exact linked'
  case backed =>
    refine ⟨Function.update_self _ _ _, backed.2.2.congr fun x member => ?_⟩
    have other : x ≠ next := fun same => apart (same ▸ member)
    exact Function.update_of_ne other _ _
  case head => rfl
  case tail => simpa [List.getLast?_cons] using tail_
  case size => simp [size_]
  case level => rfl
  case heights => exact heights'
  case levels => exact levels'

theorem Shaped.unlink_spec {head x prev : α} {h g : Nat} {front back : List (α × Nat)} {us : List α}
    (shaped : s.Shaped ((head, h) :: front ++ (x, g) :: back)) (size : us.length = s.lvl)
    (ends : ∀ i < s.lvl, us[i]? = Tower.last i ((head, h) :: front))
    (end_ : Tower.last 0 ((head, h) :: front) = some prev) :
    Shaped
      { s with
        forward := unlink x 0 us s.forward
        lvl := lower (unlink x 0 us s.forward) head s.lvl
        sz := s.sz - 1
        previous :=
          match (back.map Prod.fst).head? with
          | some next => Function.update s.previous next (some prev)
          | none => s.previous
        tail := if (back.map Prod.fst).head? = none then some prev else s.tail }
      ((head, lower (unlink x 0 us s.forward) head s.lvl) :: front ++ back) := by
  have positive := shaped.lvl_pos
  have own := shaped.head_height
  have distinct := shaped.distinct
  have lastName : (head :: front.map Prod.fst).getLast? = some prev := by
    rw [Tower.last_zero fun t member => shaped.positive t (List.mem_append_left _ member),
      ← List.getLast?_map] at end_
    exact end_
  obtain ⟨ascending, links, backed, head_, tail_, size_, level_, heights, levels_⟩ := shaped
  simp only [List.map_append, List.map_cons] at ascending backed tail_ distinct
  obtain ⟨distinctFront, distinctBack, across⟩ := List.nodup_append.mp distinct
  obtain ⟨apart, distinctBack⟩ := List.nodup_cons.mp distinctBack
  obtain ⟨linked, own_, linkedBack⟩ := Tower.linked_append.mp links
  rw [List.append_nil] at linked
  simp only [List.append_nil] at own_
  have below := (heights (x, g) (by simp)).2
  have notBehind : ∀ i, Tower.first i back ≠ some x := by
    intro i same
    obtain ⟨f, member, -⟩ := Tower.mem_of_first same
    exact apart (List.mem_map_of_mem (f := Prod.fst) member)
  have seen : ∀ j u, us[j]? = some u → (s.forward (0 + j) u = some x ↔ 0 + j < g) := by
    intro j u member
    have inside : j < s.lvl := size ▸ (List.getElem?_eq_some_iff.mp member).1
    rw [Nat.zero_add, linked.link_of_last (Nat.lt_of_lt_of_le inside levels_)
      ((ends j inside).symm.trans member), Tower.first_cons]
    by_cases joins : j < g
    · simp [joins]
    · simp [joins, notBehind j]
  let forward := unlink x 0 us s.forward
  -- Only the last elements of the levels of `x` are linked anew.
  have relinked : ∀ i y, forward i y =
      if i < g ∧ Tower.last i ((head, h) :: front) = some y then Tower.first i back
      else s.forward i y := by
    intro i y
    simp only [forward, unlink_apply seen, Nat.zero_le, true_and, Nat.sub_zero]
    by_cases joins : i < g
    · have inside := Nat.lt_of_lt_of_le joins below
      obtain ⟨u, member⟩ : ∃ u, us[i]? = some u := ⟨_, List.getElem?_eq_getElem (size ▸ inside)⟩
      have link := own_ i (Nat.lt_of_lt_of_le inside levels_)
      rw [if_pos joins] at link
      simp only [joins, if_true, true_and, member, ← ends i inside, Function.update_apply, link,
        Option.some_inj, eq_comm]
    · simp [joins]
  have linked' : Tower.Linked forward sklistMaxLevs ((head, h) :: front ++ back) [] := by
    rw [Tower.linked_append, List.append_nil]
    refine ⟨linked.relink distinctFront fun t member i inside => ⟨fun last => ?_, fun passed => ?_⟩,
      linkedBack.congr fun t member i inside => ?_⟩
    · rw [relinked]
      by_cases joins : i < g
      · rw [if_pos ⟨joins, last⟩]
      · rw [if_neg (fun both => joins both.1), linked.link_of_last inside last, Tower.first_cons,
          if_neg joins]
    · rw [relinked, if_neg (fun both => passed both.2)]
    · rw [relinked, if_neg]
      rintro ⟨-, last⟩
      obtain ⟨f, within, -⟩ := Tower.mem_of_last last
      exact across _ (List.mem_map_of_mem (f := Prod.fst) within) t.1
        (List.mem_cons_of_mem _ (List.mem_map_of_mem member)) rfl
  rw [own] at linked'
  obtain ⟨linked'', heights', levels'⟩ := lowered linked'
    (fun t member => heights t (by
      obtain first | last := List.mem_append.mp member
      · simp [first]
      · simp [last])) positive levels_
  constructor
  case ascending =>
    rw [List.map_append, List.map_cons]
    exact ascending.sublist (by simp)
  case linked => exact linked''
  case backed =>
    obtain ⟨front_, -, back_⟩ := Tower.backed_append.mp backed
    rw [List.map_append, List.map_cons]
    cases names : back.map Prod.fst with
    | nil => exact (List.append_nil _).symm ▸ front_
    | cons next rest =>
        rw [names] at back_ across distinctBack
        have apart := (List.nodup_cons.mp distinctBack).1
        refine Tower.backed_append.mpr ⟨front_.congr fun y member => ?_, ?_,
          back_.2.congr fun y member => ?_⟩
        · exact Function.update_of_ne (across y member next (by simp)) _ _
        · rw [lastName]
          exact Function.update_self _ _ _
        · have other : y ≠ next := fun same => apart (same ▸ member)
          exact Function.update_of_ne other _ _
  case head => exact head_
  case tail =>
    rw [List.map_append, List.map_cons, List.getLast?_append]
    rw [List.getLast?_append, List.getLast?_cons] at tail_
    cases names : back.map Prod.fst with
    | nil => simp [lastName]
    | cons next rest =>
        rw [names] at tail_
        simpa [List.getLast?_cons] using tail_
  case size => simp [size_]; omega
  case level => rfl
  case heights => exact heights'
  case levels => exact levels'

end Shape

end Skiplist

end Cors
