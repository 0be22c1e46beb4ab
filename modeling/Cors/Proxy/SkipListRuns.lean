import Cors.Lib.Run
import Cors.Proxy.SkipListShape

/-! # Runs of a skip list

What each operation does to the elements in their order, and from it that a skip list that its
owner uses as `insert_head` requires is an ordered map, whatever the random levels are.
-/

namespace Cors

namespace Skiplist

variable {κ α : Type} [LinearOrder κ]

/-- The elements of a list, in their order. -/
def Lists (s : Skiplist κ α) (xs : List α) : Prop := ∃ ts, s.Shaped ts ∧ ts.map Prod.fst = xs

variable {s : Skiplist κ α} {xs : List α}

/-! ## Queries -/

theorem Lists.parts {head : α} (lists : s.Lists (head :: xs)) (k : κ) :
    ∃ front back, xs = front ++ back ∧ (∀ x ∈ front, s.key x < k) ∧ (∀ x ∈ back, k ≤ s.key x) ∧
      s.head = some head ∧ s.tail = (head :: xs).getLast? ∧ (∀ x ∈ xs, s.key head < s.key x) ∧
      (back.Pairwise fun x y => s.key x < s.key y) ∧
      ∃ prev us, s.seek k head = some (prev, us) ∧ (head :: front).getLast? = some prev ∧
        s.forward 0 prev = back.head? := by
  obtain ⟨ts, shaped, names⟩ := lists
  cases ts with
  | nil => cases names
  | cons t rest =>
      obtain ⟨_, h⟩ := t
      obtain ⟨rfl, rfl⟩ := List.cons.inj names
      obtain ⟨least, ascending⟩ := List.pairwise_cons.mp shaped.ascending
      obtain ⟨front, back, rfl, low, high⟩ := split_ascending ascending k
      obtain ⟨prev, us, found, -, -, end_, link⟩ := shaped.seek_spec low high
      rw [Tower.last_zero fun t member => shaped.positive t (List.mem_append_left _ member),
        ← List.getLast?_map] at end_
      exact ⟨_, _, List.map_append, low, high, shaped.head, shaped.tail, least,
        (List.pairwise_append.mp (List.map_append ▸ ascending)).2.1, prev, us, found, end_, link⟩

theorem Lists.head_eq (lists : s.Lists xs) : s.head = xs.head? := by
  obtain ⟨ts, shaped, rfl⟩ := lists
  exact shaped.head

theorem Lists.tail_eq (lists : s.Lists xs) : s.tail = xs.getLast? := by
  obtain ⟨ts, shaped, rfl⟩ := lists
  exact shaped.tail

/-- The last element before the key. It is the last of all where there is none. -/
theorem Lists.closestpred_spec (lists : s.Lists xs) (k : κ) :
    s.closestpred k = some ((xs.filter fun x => s.key x < k).getLast?.or xs.getLast?) := by
  cases xs with
  | nil => simp [closestpred, lists.head_eq]
  | cons head xs =>
      obtain ⟨front, back, rfl, low, high, known, tail, least, -, prev, us, found, end_,
        -⟩ :=
        lists.parts k
      have none_ : back.filter (fun x => s.key x < k) = [] :=
        List.filter_eq_nil_iff.mpr fun x member => by simpa using high x member
      by_cases before : s.key head < k
      · have all : (head :: front).filter (fun x => s.key x < k) = head :: front :=
          List.filter_eq_self.mpr (List.forall_mem_cons.mpr
            ⟨by simpa using before, fun x member => by simpa using low x member⟩)
        rw [← List.cons_append, List.filter_append, none_, all, List.append_nil, end_]
        simp only [closestpred, known, mt cmp_nonpos.mp (not_le.mpr before), if_false, found,
          Option.map_some, Option.some_or]
      · have nothing : (head :: (front ++ back)).filter (fun x => s.key x < k) = [] := by
          refine List.filter_eq_nil_iff.mpr (List.forall_mem_cons.mpr ⟨by simpa using before, ?_⟩)
          exact fun x member => by
            simpa using le_trans (not_lt.mp before) (le_of_lt (least x member))
        rw [nothing]
        simp only [closestpred, known, cmp_nonpos.mpr (not_lt.mp before), if_true, tail,
          List.getLast?_nil, Option.none_or]

theorem Lists.search_spec (lists : s.Lists xs) (k : κ) :
    s.search k = some (xs.find? fun x => s.key x = k) := by
  cases xs with
  | nil => simp [search, lists.head_eq]
  | cons head xs =>
      obtain ⟨front, back, rfl, low, high, known, tail, least, ascending, prev, us, found, end_,
        link⟩ := lists.parts k
      obtain less | rfl | more := lt_trichotomy k (s.key head)
      · have nothing : (head :: (front ++ back)).find? (fun x => s.key x = k) = none := by
          refine List.find?_eq_none.mpr
            (List.forall_mem_cons.mpr ⟨by simpa using ne_of_gt less, ?_⟩)
          exact fun x member => by simpa using ne_of_gt (lt_trans less (least x member))
        simp only [search, known, cmp_neg.mpr less, if_true, nothing]
      · have equal : cmp (s.key head) (s.key head) = 0 := cmp_zero.mpr rfl
        simp only [search, known, equal, lt_irrefl, if_false, if_true, List.find?_cons, decide_true]
      · have notFirst : ¬s.key head = k := ne_of_lt more
        have inFront : front.find? (fun x => s.key x = k) = none :=
          List.find?_eq_none.mpr fun x member => by simpa using ne_of_lt (low x member)
        have inBack : back.find? (fun x => s.key x = k) =
            back.head?.filter fun x => s.key x = k := by
          cases back with
          | nil => rfl
          | cons y ys =>
              by_cases equal : s.key y = k
              · simp [equal, Option.filter]
              · have above := lt_of_le_of_ne (high y (by simp)) (Ne.symm equal)
                have later : ys.find? (fun x => s.key x = k) = none :=
                  List.find?_eq_none.mpr fun x member => by
                    simpa using ne_of_gt (lt_trans above ((List.pairwise_cons.mp ascending).1 x
                      member))
                simp [equal, later, Option.filter]
        have before : s.closestpred k = some (some prev) := by
          simp only [closestpred, known, mt cmp_nonpos.mp (not_le.mpr more), if_false, found,
            Option.map_some]
        rw [List.find?_cons_of_neg (by simpa using notFirst), List.find?_append, inFront,
          Option.none_or, inBack]
        simp only [search, known, mt cmp_neg.mp (not_lt_of_gt more),
          mt cmp_zero.mp (ne_of_gt more), if_false, before, Option.map_some, Option.bind_some, link,
          cmp_zero]

/-- The first element that is not before the key. It is the first of all where there is none. -/
theorem Lists.closestsucc_spec [DecidableEq α] (lists : s.Lists xs) (k : κ) :
    s.closestsucc k = some ((xs.find? fun x => k ≤ s.key x).or xs.head?) := by
  cases xs with
  | nil => simp [closestsucc, lists.head_eq]
  | cons head xs =>
      obtain ⟨front, back, rfl, low, high, known, tail, least, ascending, prev, us, found, end_,
        link⟩ := lists.parts k
      by_cases first : k ≤ s.key head
      · simp [closestsucc, known, cmp_nonpos.mpr first, first]
      · have more := not_le.mp first
        have inFront : front.find? (fun x => k ≤ s.key x) = none :=
          List.find?_eq_none.mpr fun x member => by simpa using low x member
        rw [List.find?_cons_of_neg (by simpa using more), List.find?_append, inFront,
          Option.none_or]
        have prevLow : s.key prev < k := by
          obtain rfl | member := List.mem_cons.mp (List.mem_of_getLast? end_)
          · exact more
          · exact low prev member
        have before : s.closestpred k = some (some prev) := by
          simp only [closestpred, known, mt cmp_nonpos.mp first, if_false, found, Option.map_some]
        cases back with
        | nil =>
            rw [List.append_nil, end_] at tail
            simp [closestsucc, known, mt cmp_nonpos.mp first, tail, cmp_pos.mpr prevLow]
        | cons y ys =>
            obtain ⟨z, last⟩ : ∃ z, (y :: ys).getLast? = some z := by simp [List.getLast?_cons]
            rw [← List.cons_append, List.getLast?_append, last, Option.some_or] at tail
            have above := high z (List.mem_of_getLast? last)
            have other : some prev ≠ s.tail := by
              rw [tail]
              rintro ⟨⟩
              exact not_lt.mpr above prevLow
            have here := high y List.mem_cons_self
            simp only [closestsucc, known, mt cmp_nonpos.mp first, if_false, tail, Option.bind_some,
              mt cmp_pos.mp (not_lt.mpr above), before, Option.map_some, link, List.head?_cons,
              List.find?_cons, here, decide_true, Option.some_or]
            rw [if_neg (tail ▸ other)]

/-! ## All elements -/

theorem Lists.size_eq (lists : s.Lists xs) : s.size = xs.length := by
  obtain ⟨ts, shaped, rfl⟩ := lists
  rw [List.length_map]
  exact shaped.size

theorem Lists.ascending (lists : s.Lists xs) : xs.Pairwise fun x y => s.key x < s.key y := by
  obtain ⟨ts, shaped, rfl⟩ := lists
  exact shaped.ascending

theorem Lists.traverse_spec (lists : s.Lists xs) : s.traverse = some xs := by
  obtain ⟨ts, shaped, rfl⟩ := lists
  rw [traverse, shaped.head]
  exact Tower.follow_linked shaped.linked (by decide) shaped.positive
    (Nat.le_of_eq shaped.size.symm)

theorem Lists.rtraverse_spec (lists : s.Lists xs) : s.rtraverse = some xs.reverse := by
  obtain ⟨ts, shaped, rfl⟩ := lists
  rw [rtraverse, shaped.tail]
  refine Tower.follow_backed shaped.backed ?_
  rw [List.length_map]
  exact Nat.le_of_eq shaped.size.symm

/-! ## The check -/

section Check
variable [DecidableEq α]

theorem checkLevels_none (s : Skiplist κ α) (n : Nat) : s.checkLevels n none = some true := by
  induction n with
  | zero => rfl
  | succ n ih => simp only [checkLevels, checkLevel, ih]

theorem checkLevel_true {i : Nat} (inside : i < sklistMaxLevs) {ts : List (α × Nat)} {x : α}
    {fuel : Nat} (enough : ts.length < fuel) (linked : Tower.Linked s.forward sklistMaxLevs ts [])
    (link : s.forward i x = Tower.first i ts)
    (ascending : (x :: ts.map Prod.fst).Pairwise fun x y => s.key x < s.key y)
    (positive : ∀ t ∈ ts, 0 < t.2)
    (lowest : i = 0 → Tower.Backed s.previous (some x) (ts.map Prod.fst) ∧
      s.tail = (x :: ts.map Prod.fst).getLast?) :
    s.checkLevel i fuel (some x) = some true := by
  obtain ⟨fuel, rfl⟩ := Nat.exists_eq_succ_of_ne_zero (Nat.ne_of_gt (Nat.zero_lt_of_lt enough))
  induction ts generalizing x fuel with
  | nil =>
      have end_ : s.forward i x = none := link
      simp only [checkLevel, end_]
      rw [if_neg]
      rintro ⟨rfl, other⟩
      exact other (lowest rfl).2
  | cons t ts ih =>
      obtain ⟨own, positive⟩ := List.forall_mem_cons.mp positive
      obtain ⟨least, rest⟩ := List.pairwise_cons.mp ascending
      rw [Tower.first_cons] at link
      by_cases joins : i < t.2
      · rw [if_pos joins] at link
        have less := least t.1 (by simp)
        have onward := linked.1 i inside
        rw [if_pos joins, List.append_nil] at onward
        simp only [checkLevel, link]
        rw [if_neg (Int.not_le.mpr (cmp_neg.mpr less)), if_neg]
        · obtain ⟨fuel, rfl⟩ := Nat.exists_eq_succ_of_ne_zero
            (Nat.ne_of_gt (Nat.zero_lt_of_lt (Nat.lt_of_succ_lt_succ enough)))
          refine ih linked.2 onward rest positive (fun zero => ?_) fuel
            (Nat.lt_of_succ_lt_succ enough)
          obtain ⟨backed, tail⟩ := lowest zero
          exact ⟨backed.2, by simpa [List.getLast?_cons] using tail⟩
        · rintro ⟨zero, other⟩
          exact other (lowest zero).1.1
      · rw [if_neg joins] at link
        refine ih linked.2 link ?_ positive (fun zero => absurd own (by omega)) fuel
          (Nat.lt_of_succ_lt enough)
        exact ascending.sublist (by simp)

theorem Lists.repok_spec (lists : s.Lists xs) : s.repok = some true := by
  obtain ⟨ts, shaped, rfl⟩ := lists
  cases ts with
  | nil =>
      have none_ : s.head = none := shaped.head
      have level : s.lvl = 1 := shaped.level
      have tail : s.tail = none := shaped.tail
      simp only [repok, none_, level, tail, and_self, decide_true]
  | cons t ts =>
      obtain ⟨head, h⟩ := t
      have known : s.head = some head := shaped.head
      have first : s.previous head = none := shaped.backed.1
      have size : ts.length < s.sz := shaped.size ▸ Nat.lt_succ_self _
      obtain ⟨n, level⟩ := Nat.exists_eq_succ_of_ne_zero (Nat.ne_of_gt shaped.lvl_pos)
      have inside : n < sklistMaxLevs := Nat.lt_of_succ_le (level ▸ shaped.levels)
      have link := shaped.linked.1 n inside
      rw [shaped.head_height, level, if_pos (Nat.lt_succ_self n), List.append_nil] at link
      have checked : s.checkLevel n s.sz (some head) = some true :=
        checkLevel_true inside size shaped.linked.2 link shaped.ascending
          (fun t member => shaped.positive t (List.mem_cons_of_mem _ member))
          fun _ => ⟨shaped.backed.2, shaped.tail⟩
      simp only [repok, known, first, ne_eq, not_true, if_false, level, checkLevels, checked,
        checkLevels_none]

/-- On a level above the lowest the check compares keys, and looks at no other links. -/
theorem checkLevel_congr {s s' : Skiplist κ α} {i : Nat} (above : i ≠ 0) (key : s'.key = s.key)
    (forward : s'.forward i = s.forward i) (fuel : Nat) (p : Option α) :
    s'.checkLevel i fuel p = s.checkLevel i fuel p := by
  induction fuel generalizing p with
  | zero => cases p <;> rfl
  | succ fuel ih =>
      cases p with
      | none => rfl
      | some p => simp only [checkLevel, above, false_and, if_false, key, forward, ih]

/-- The highest level is all that the check sees of a list of several levels. -/
theorem repok_congr {s s' : Skiplist κ α} {head : α} (known : s.head = some head)
    (known' : s'.head = some head) (first : s'.previous head = s.previous head)
    (tall : 1 < s.lvl) (lvl : s'.lvl = s.lvl) (sz : s'.sz = s.sz) (key : s'.key = s.key)
    (top : s'.forward (s.lvl - 1) = s.forward (s.lvl - 1)) : s'.repok = s.repok := by
  obtain ⟨n, level⟩ := Nat.exists_eq_succ_of_ne_zero (Nat.ne_of_gt (Nat.zero_lt_of_lt tall))
  have same : s'.checkLevel n s.sz (some head) = s.checkLevel n s.sz (some head) := by
    refine checkLevel_congr (by omega) key ?_ _ _
    rwa [level, Nat.succ_sub_one] at top
  have levels : s'.checkLevels s.lvl (some head) = s.checkLevels s.lvl (some head) := by
    rw [level, checkLevels, checkLevels, sz, same, checkLevels_none, checkLevels_none]
  simp only [repok, known, known', first, lvl, levels]

end Check

/-! ## Changes -/

variable [DecidableEq α]

theorem Lists.insert_spec (lists : s.Lists xs) (elm : α) (flips : List Bool) :
    ((∃ x ∈ xs, s.key x = s.key elm) ∧ s.insert elm flips = some (s, false)) ∨
      ∃ lo hi s', xs = lo ++ hi ∧ (∀ x ∈ lo, s.key x < s.key elm) ∧
        (∀ x ∈ hi, s.key elm < s.key x) ∧ s.insert elm flips = some (s', true) ∧
        s'.key = s.key ∧ s'.Lists (lo ++ elm :: hi) := by
  obtain ⟨ts, shaped, rfl⟩ := lists
  obtain ⟨positive, bounded⟩ := rndlvl_bounds flips
  have first (high : ∀ x ∈ ts.map Prod.fst, s.key elm < s.key x)
      (entered : s.insert elm flips =
        ({ s with sz := s.sz + 1 }.insertHead elm (rndlvl flips)).map (·, true)) :
      ∃ lo hi s', ts.map Prod.fst = lo ++ hi ∧ (∀ x ∈ lo, s.key x < s.key elm) ∧
        (∀ x ∈ hi, s.key elm < s.key x) ∧ s.insert elm flips = some (s', true) ∧
        s'.key = s.key ∧ s'.Lists (lo ++ elm :: hi) := by
    obtain ⟨s', ts', done, key, shaped', names⟩ := shaped.insertHead_spec high positive bounded
    refine ⟨[], ts.map Prod.fst, s', rfl, List.forall_mem_nil _, high, ?_, key, ts', shaped', names⟩
    rw [entered, done, Option.map_some]
  cases ts with
  | nil =>
      have none_ : s.head = none := shaped.head
      exact .inr (first (List.forall_mem_nil _) (by simp only [insert, none_]))
  | cons t rest =>
      obtain ⟨head, h⟩ := t
      have known : s.head = some head := shaped.head
      obtain ⟨least, ascending⟩ := List.pairwise_cons.mp shaped.ascending
      obtain less | same | more := lt_trichotomy (s.key elm) (s.key head)
      · refine .inr (first (List.forall_mem_cons.mpr ⟨less, fun x member => ?_⟩) ?_)
        · exact lt_trans less (least x member)
        · simp only [insert, known, cmp_neg.mpr less, if_true]
      · refine .inl ⟨⟨head, by simp, same.symm⟩, ?_⟩
        simp only [insert, known, cmp_zero.mpr same, lt_irrefl, if_false, if_true]
      · obtain ⟨front, back, rfl, low, high⟩ := split_ascending ascending (s.key elm)
        obtain ⟨prev, us, found, size, ends, end_, link⟩ := shaped.seek_spec low high
        have notLess := mt cmp_neg.mp (not_lt_of_gt more)
        have notSame := mt cmp_zero.mp (ne_of_gt more)
        have low' : ∀ x ∈ head :: front.map Prod.fst, s.key x < s.key elm :=
          List.forall_mem_cons.mpr ⟨more, low⟩
        have entered : s.insert elm flips =
            if (back.map Prod.fst).head?.all fun x => 0 < cmp (s.key x) (s.key elm) then
              some (s.insertBehind head elm prev (back.map Prod.fst).head? us (rndlvl flips), true)
            else some (s, false) := by
          simp only [insert, known, notLess, notSame, if_false, found, Option.map_some, link]
          split <;> rfl
        by_cases behind : ∀ x ∈ back.map Prod.fst, s.key elm < s.key x
        · have shaped' := shaped.insertBehind_spec low' behind positive bounded size ends end_
          refine .inr ⟨head :: front.map Prod.fst, back.map Prod.fst, _, by simp, low', behind,
            ?_, ?_, ⟨_, shaped', by simp⟩⟩
          · rw [entered, if_pos]
            cases next : (back.map Prod.fst).head? with
            | none => rfl
            | some y => simpa [cmp_pos] using behind y (List.mem_of_head? next)
          · rfl
        · cases back with
          | nil => exact absurd (List.forall_mem_nil _) behind
          | cons u back =>
              rw [List.map_append] at ascending
              have later := (List.pairwise_cons.mp (List.pairwise_append.mp ascending).2.1).1
              have equal : s.key u.1 = s.key elm := by
                refine le_antisymm (not_lt.mp fun less => behind ?_) (high u.1 (by simp))
                exact List.forall_mem_cons.mpr
                  ⟨less, fun x member => lt_trans less (later x member)⟩
              refine .inl ⟨⟨u.1, by simp, equal⟩, ?_⟩
              rw [entered, if_neg]
              simp [cmp_pos, equal]

theorem Lists.remove_spec (lists : s.Lists xs) (k : κ) :
    ((∀ x ∈ xs, s.key x ≠ k) ∧ s.remove k = some (s, none)) ∨
      ∃ lo x hi s', xs = lo ++ x :: hi ∧ s.key x = k ∧ s.remove k = some (s', some x) ∧
        s'.key = s.key ∧ s'.Lists (lo ++ hi) := by
  obtain ⟨ts, shaped, rfl⟩ := lists
  cases ts with
  | nil =>
      have none_ : s.head = none := shaped.head
      exact .inl ⟨List.forall_mem_nil _, by simp only [remove, none_]⟩
  | cons t rest =>
      obtain ⟨head, h⟩ := t
      have known : s.head = some head := shaped.head
      obtain ⟨least, ascending⟩ := List.pairwise_cons.mp shaped.ascending
      by_cases same : s.key head = k
      · have link := shaped.linked.1 0 (by decide)
        rw [if_pos (shaped.positive (head, h) (by simp)), List.append_nil, Tower.first_zero
          fun t member => shaped.positive t (by simp [member])] at link
        cases rest with
        | nil =>
            let s' := { s with sz := s.sz - 1, head := none, tail := none, lvl := 1 }
            have alone : s.forward 0 head = none := link
            refine .inr ⟨[], head, [], s', rfl, same, ?_, rfl, [], ?_, rfl⟩
            · simp only [remove, known, cmp_zero.mpr same, if_true, alone, s']
            · constructor
              case size => simp [s', shaped.size]
              case heights => exact List.forall_mem_nil _
              case levels => exact Nat.le_of_lt (show 1 < sklistMaxLevs by decide)
              all_goals first | rfl | trivial
        | cons u rest =>
            have second : s.forward 0 head = some u.1 := link
            obtain ⟨forward, raised, shaped'⟩ := shaped.raise_spec
            refine .inr ⟨[], head, u.1 :: rest.map Prod.fst, _, rfl, same, ?_, ?_,
              ⟨_, shaped', rfl⟩⟩
            · simp only [remove, known, cmp_zero.mpr same, if_true, second, raised, Option.map_some]
            · rfl
      · obtain ⟨front, back, rfl, low, high⟩ := split_ascending ascending k
        obtain ⟨prev, us, found, size, ends, end_, link⟩ := shaped.seek_spec low high
        have notHead := mt cmp_zero.mp same
        cases back with
        | nil =>
            refine .inl ⟨List.forall_mem_cons.mpr ⟨same, fun x member => ?_⟩, ?_⟩
            · exact ne_of_lt (low x (by simpa using member))
            · have end_' : s.forward 0 prev = none := link
              simp only [remove, known, notHead, if_false, found, Option.map_some, end_']
        | cons u back =>
            obtain ⟨y, g⟩ := u
            have end_' : s.forward 0 prev = some y := link
            by_cases equal : s.key y = k
            · have shaped' := shaped.unlink_spec size ends end_
              have behind : s.forward 0 y = (back.map Prod.fst).head? := by
                have member : (y, g) ∈ (head, h) :: (front ++ (y, g) :: back) := by simp
                rw [← List.cons_append] at shaped
                rw [shaped.linked.link (by decide), if_pos (shaped.positive _ member),
                  List.append_nil, Tower.first_zero fun t within => shaped.positive t (by
                    simp [within])]
              refine .inr ⟨head :: front.map Prod.fst, y, back.map Prod.fst, _, by simp, equal, ?_,
                ?_, ⟨_, shaped', by simp⟩⟩
              · simp only [remove, known, notHead, if_false, found, Option.map_some, end_',
                  cmp_zero.mpr equal, if_true, behind]
                cases back <;> rfl
              · rfl
            · rw [List.map_append] at ascending
              have later := (List.pairwise_cons.mp (List.pairwise_append.mp ascending).2.1).1
              have more := lt_of_le_of_ne (high y (by simp)) (Ne.symm equal)
              refine .inl ⟨List.forall_mem_cons.mpr ⟨same, fun x member => ?_⟩, ?_⟩
              · rw [List.map_append] at member
                obtain first | rest := List.mem_append.mp member
                · exact ne_of_lt (low x first)
                · obtain rfl | last := List.mem_cons.mp rest
                  · exact equal
                  · exact ne_of_gt (lt_trans more (later x last))
              · simp only [remove, known, notHead, if_false, found, Option.map_some, end_',
                  mt cmp_zero.mp equal]

/-! ## Runs -/

/-- What the owner of a list does with it: make an element with a key and enter it, or take one
    out. -/
inductive Call (κ α : Type) where
  | insert (elm : α) (k : κ) (flips : List Bool)
  | remove (k : κ)
  | search (k : κ)
  | closestpred (k : κ)
  | closestsucc (k : κ)

inductive Reply (α : Type) where
  | inserted (entered : Bool)
  | removed (elm : Option α)
  | found (elm : Option α)

def answer (s : Skiplist κ α) : Call κ α → Option (Skiplist κ α × Reply α)
  | .insert elm k flips =>
      ({ s with key := Function.update s.key elm k }.insert elm flips).map fun (s, entered) =>
        (s, .inserted entered)
  | .remove k => (s.remove k).map fun (s, elm) => (s, .removed elm)
  | .search k => (s.search k).map fun elm => (s, .found elm)
  | .closestpred k => (s.closestpred k).map fun elm => (s, .found elm)
  | .closestsucc k => (s.closestsucc k).map fun elm => (s, .found elm)

/-- A list and what its calls have returned. -/
def step (state : Skiplist κ α × List (Reply α)) (c : Call κ α) :
    Option (Skiplist κ α × List (Reply α)) :=
  (state.1.answer c).map fun (s, reply) => (s, state.2 ++ [reply])

end Skiplist

namespace OrderedMap

variable {κ α : Type} [LinearOrder κ]

/-- The value under the greatest smaller key, and under the last where there is none. -/
def closestpred (m : OrderedMap κ α) (k : κ) : Option α :=
  ((m.below k).getLast?.or m.entries.getLast?).map Prod.snd

/-- The value under the least key that is not smaller, and under the first where there is none. -/
def closestsucc (m : OrderedMap κ α) (k : κ) : Option α :=
  ((m.entries.find? fun e => k ≤ e.1).or m.entries.head?).map Prod.snd

/-- What the calls mean. -/
def answer (m : OrderedMap κ α) : Skiplist.Call κ α → OrderedMap κ α × Skiplist.Reply α
  | .insert elm k _ =>
      match m.search k with
      | some _ => (m, .inserted false)
      | none => (m.insert k elm, .inserted true)
  | .remove k => (m.remove k, .removed (m.search k))
  | .search k => (m, .found (m.search k))
  | .closestpred k => (m, .found (m.closestpred k))
  | .closestsucc k => (m, .found (m.closestsucc k))

def step (state : OrderedMap κ α × List (Skiplist.Reply α)) (c : Skiplist.Call κ α) :
    OrderedMap κ α × List (Skiplist.Reply α) :=
  ((state.1.answer c).1, state.2 ++ [(state.1.answer c).2])

/-- The element that is entered is not in the list. -/
def Fresh (state : OrderedMap κ α × List (Skiplist.Reply α)) : Skiplist.Call κ α → Prop
  | .insert elm _ _ => elm ∉ state.1.entries.map Prod.snd
  | _ => True

instance [DecidableEq α] (state : OrderedMap κ α × List (Skiplist.Reply α))
    (c : Skiplist.Call κ α) : Decidable (Fresh state c) := by
  cases c <;> unfold Fresh <;> infer_instance

end OrderedMap

namespace Skiplist

variable {κ α : Type} [LinearOrder κ] {s : Skiplist κ α} {m : OrderedMap κ α}

/-- The elements of the list are the values of the map, each under its key. -/
structure Represents (s : Skiplist κ α) (m : OrderedMap κ α) : Prop where
  lists : s.Lists (m.entries.map Prod.snd)
  keys : ∀ e ∈ m.entries, s.key e.2 = e.1

theorem Represents.filter (represents : s.Represents m) (p : κ → Bool) :
    (m.entries.map Prod.snd).filter (fun x => p (s.key x)) =
      (m.entries.filter fun e => p e.1).map Prod.snd := by
  rw [List.filter_map]
  refine congrArg (List.map Prod.snd) (List.filter_congr fun e member => ?_)
  simp only [Function.comp_apply, represents.keys e member]

theorem Represents.find (represents : s.Represents m) (k : κ) :
    (m.entries.map Prod.snd).find? (fun x => s.key x = k) = m.search k := by
  rw [← List.head?_filter, represents.filter (fun x => x = k), OrderedMap.search, List.head?_map,
    List.head?_filter]

theorem Represents.search_spec (represents : s.Represents m) (k : κ) :
    s.search k = some (m.search k) := by
  rw [represents.lists.search_spec, represents.find]

theorem Represents.closestpred_spec (represents : s.Represents m) (k : κ) :
    s.closestpred k = some (m.closestpred k) := by
  have below := represents.filter (fun x => x < k)
  rw [represents.lists.closestpred_spec, below, List.getLast?_map, List.getLast?_map,
    OrderedMap.closestpred, Option.map_or]
  rfl

theorem Represents.closestsucc_spec [DecidableEq α] (represents : s.Represents m) (k : κ) :
    s.closestsucc k = some (m.closestsucc k) := by
  have above := represents.filter (fun x => k ≤ x)
  rw [represents.lists.closestsucc_spec, ← List.head?_filter, above, List.head?_map,
    List.head?_map, OrderedMap.closestsucc, Option.map_or, List.head?_filter]

theorem new_represents (key : α → κ) (previous : α → Option α) (forward : Nat → α → Option α) :
    (new key previous forward).Represents OrderedMap.empty := by
  refine ⟨⟨[], ?_, rfl⟩, List.forall_mem_nil _⟩
  constructor
  case ascending => exact .nil
  case heights => exact List.forall_mem_nil _
  case levels => exact Nat.le_of_lt (show 1 < sklistMaxLevs by decide)
  all_goals first | rfl | trivial

variable [DecidableEq α]

theorem Represents.setKey (represents : s.Represents m) {elm : α}
    (fresh : elm ∉ m.entries.map Prod.snd) (k : κ) :
    { s with key := Function.update s.key elm k }.Represents m := by
  have same : ∀ x ∈ m.entries.map Prod.snd, Function.update s.key elm k x = s.key x := by
    intro x member
    refine Function.update_of_ne (fun equal => ?_) _ _
    exact fresh (equal ▸ member)
  obtain ⟨⟨ts, shaped, names⟩, keys⟩ := represents
  refine ⟨⟨ts, ?_, names⟩, fun e member => ?_⟩
  · rw [← names] at same
    obtain ⟨ascending, linked, backed, head, tail, size, level, heights, levels⟩ := shaped
    refine ⟨ascending.imp_of_mem fun first second less => ?_, linked, backed, head, tail, size,
      level, heights, levels⟩
    dsimp only
    rw [same _ first, same _ second]
    exact less
  · exact (same e.2 (List.mem_map_of_mem member)).trans (keys e member)

theorem Represents.insert_spec (represents : s.Represents m) (elm : α) (flips : List Bool) :
    ∃ s', s.insert elm flips = some (s', (m.search (s.key elm)).isNone) ∧
      s'.Represents (if (m.search (s.key elm)).isNone then m.insert (s.key elm) elm else m) := by
  have found := represents.find (s.key elm)
  obtain ⟨⟨x, member, same⟩, done⟩ | ⟨lo, hi, s', split, low, high, done, key, lists⟩ :=
    represents.lists.insert_spec elm flips
  · obtain ⟨y, search⟩ : ∃ y, m.search (s.key elm) = some y := by
      rw [← found, ← Option.isSome_iff_exists, List.find?_isSome]
      exact ⟨x, member, by simpa using same⟩
    exact ⟨s, by rw [done, search]; rfl, by rw [search]; exact represents⟩
  · have search : m.search (s.key elm) = none := by
      rw [← found, List.find?_eq_none, split]
      intro x member
      obtain first | last := List.mem_append.mp member
      · simpa using ne_of_lt (low x first)
      · simpa using ne_of_gt (high x last)
    refine ⟨s', by rw [done, search]; rfl, ?_⟩
    rw [search]
    have below := represents.filter (fun x => x < s.key elm)
    have above := represents.filter (fun x => s.key elm < x)
    have lowAll : lo.filter (fun x => s.key x < s.key elm) = lo :=
      List.filter_eq_self.mpr fun x member => by simpa using low x member
    have lowNone : lo.filter (fun x => s.key elm < s.key x) = [] :=
      List.filter_eq_nil_iff.mpr fun x member => by simpa using le_of_lt (low x member)
    have highAll : hi.filter (fun x => s.key elm < s.key x) = hi :=
      List.filter_eq_self.mpr fun x member => by simpa using high x member
    have highNone : hi.filter (fun x => s.key x < s.key elm) = [] :=
      List.filter_eq_nil_iff.mpr fun x member => by simpa using le_of_lt (high x member)
    rw [split, List.filter_append, lowAll, highNone, List.append_nil] at below
    rw [split, List.filter_append, lowNone, highAll, List.nil_append] at above
    refine ⟨?_, fun e member => ?_⟩
    · have names : (m.insert (s.key elm) elm).entries.map Prod.snd = lo ++ elm :: hi := by
        rw [OrderedMap.insert, List.map_append, List.map_cons, below, above]
        rfl
      exact names ▸ lists
    · rw [key]
      obtain rfl | old := (OrderedMap.mem_insert_of_none search elm e).mp member
      · rfl
      · exact represents.keys e old

theorem Represents.remove_spec (represents : s.Represents m) (k : κ) :
    ∃ s', s.remove k = some (s', m.search k) ∧ s'.Represents (m.remove k) := by
  have found := represents.find k
  have rest := represents.filter (fun x => x ≠ k)
  have sub : ∀ e ∈ (m.remove k).entries, e ∈ m.entries := fun e member =>
    (List.mem_filter.mp member).1
  obtain ⟨others, done⟩ | ⟨lo, x, hi, s', split, same, done, key, lists⟩ :=
    represents.lists.remove_spec k
  · have search : m.search k = none := by
      rw [← found, List.find?_eq_none]
      exact fun x member => by simpa using others x member
    have all : (m.entries.map Prod.snd).filter (fun x => s.key x ≠ k) = m.entries.map Prod.snd :=
      List.filter_eq_self.mpr fun x member => by simpa using others x member
    rw [all] at rest
    refine ⟨s, by rw [done, search], ?_, fun e member => represents.keys e (sub e member)⟩
    have lists := represents.lists
    rw [rest] at lists
    exact lists
  · have ascending := represents.lists.ascending
    rw [split] at ascending rest found
    obtain ⟨-, behind, across⟩ := List.pairwise_append.mp ascending
    have low : ∀ y ∈ lo, s.key y ≠ k := fun y member =>
      ne_of_lt (same ▸ across y member x List.mem_cons_self)
    have high : ∀ y ∈ hi, s.key y ≠ k := fun y member =>
      ne_of_gt (same ▸ (List.pairwise_cons.mp behind).1 y member)
    have search : m.search k = some x := by
      have inFront : lo.find? (fun x => s.key x = k) = none :=
        List.find?_eq_none.mpr fun y member => by simpa using low y member
      rw [← found, List.find?_append, inFront, Option.none_or, List.find?_cons_of_pos (by simpa)]
    have lowAll : lo.filter (fun x => s.key x ≠ k) = lo :=
      List.filter_eq_self.mpr fun y member => by simpa using low y member
    have highAll : hi.filter (fun x => s.key x ≠ k) = hi :=
      List.filter_eq_self.mpr fun y member => by simpa using high y member
    rw [List.filter_append, List.filter_cons_of_neg (by simpa using same), lowAll, highAll] at rest
    refine ⟨s', by rw [done, search], ?_, fun e member => ?_⟩
    · rw [rest] at lists
      exact lists
    · rw [key]
      exact represents.keys e (sub e member)

theorem query_represents {state : Skiplist κ α × List (Reply α)}
    {model : OrderedMap κ α × List (Reply α)}
    (related : state.1.Represents model.1 ∧ state.2 = model.2) {c : Call κ α} {reply : Reply α}
    (found : state.1.answer c = some (state.1, reply))
    (meant : model.1.answer c = (model.1, reply)) :
    ∃ state', step state c = some state' ∧
      state'.1.Represents (OrderedMap.step model c).1 ∧
      state'.2 = (OrderedMap.step model c).2 := by
  obtain ⟨represents, same⟩ := related
  rw [step, found, OrderedMap.step, meant]
  exact ⟨_, rfl, represents, by rw [same]⟩

theorem step_represents {state : Skiplist κ α × List (Reply α)}
    {model : OrderedMap κ α × List (Reply α)} {c : Call κ α} (fresh : OrderedMap.Fresh model c)
    (related : state.1.Represents model.1 ∧ state.2 = model.2) :
    ∃ state', step state c = some state' ∧
      state'.1.Represents (OrderedMap.step model c).1 ∧
      state'.2 = (OrderedMap.step model c).2 := by
  obtain ⟨represents, same⟩ := related
  cases c with
  | insert elm k flips =>
      obtain ⟨s', done, after⟩ := (represents.setKey fresh k).insert_spec elm flips
      simp only [Function.update_self] at done after
      refine ⟨_, by simp only [step, answer, done, Option.map_some]; rfl, ?_⟩
      simp only [OrderedMap.step, OrderedMap.answer, same]
      cases search : model.1.search k with
      | none => rw [search] at after; exact ⟨after, rfl⟩
      | some y => rw [search] at after; exact ⟨after, rfl⟩
  | remove k =>
      obtain ⟨s', done, after⟩ := represents.remove_spec k
      refine ⟨_, by simp only [step, answer, done, Option.map_some]; rfl, after, ?_⟩
      simp only [OrderedMap.step, OrderedMap.answer, same]
  | search k =>
      refine query_represents ⟨represents, same⟩ ?_ rfl
      rw [answer, represents.search_spec]
      rfl
  | closestpred k =>
      refine query_represents ⟨represents, same⟩ ?_ rfl
      rw [answer, represents.closestpred_spec]
      rfl
  | closestsucc k =>
      refine query_represents ⟨represents, same⟩ ?_ rfl
      rw [answer, represents.closestsucc_spec]
      rfl

section Runs
variable (key : α → κ) (previous : α → Option α) (forward : Nat → α → Option α)

theorem run_represents {calls : List (Call κ α)}
    (fresh : ∀ visit ∈ Run.visits OrderedMap.step (OrderedMap.empty, []) calls,
      OrderedMap.Fresh visit.1 visit.2) :
    ∃ state, Run.attempt step (new key previous forward, []) calls = some state ∧
      state.1.Represents (Run.final OrderedMap.step (OrderedMap.empty, []) calls).1 ∧
      state.2 = (Run.final OrderedMap.step (OrderedMap.empty, []) calls).2 :=
  let related (state : Skiplist κ α × List (Reply α)) (model : OrderedMap κ α × List (Reply α)) :=
    state.1.Represents model.1 ∧ state.2 = model.2
  Run.attempt_simulates (R := related) (fun _ _ _ => step_represents)
    ⟨new_represents key previous forward, rfl⟩ fresh

/-- A head that is replaced, a key that is there already, an element that is taken out, and
    queries in between. -/
def sampleCalls : List (Call Int Nat) :=
  [.closestpred 7, .insert 0 5 [true], .insert 1 3 [], .insert 2 9 [true, true], .search 5,
    .insert 3 5 [], .closestpred 3, .remove 3, .closestsucc 6, .insert 4 4 [true]]

def sampleList : Skiplist Int Nat := new (fun _ => 0) (fun _ => none) fun _ _ => none

theorem sampleCalls_fresh :
    ∀ visit ∈ Run.visits OrderedMap.step (OrderedMap.empty, []) sampleCalls,
      OrderedMap.Fresh visit.1 visit.2 := by
  decide

/-- Whatever the memory held before and however the random levels come out, the calls and queries
    end, return what they mean for an ordered map, and leave the elements in the order of their
    keys. -/
theorem calls_as_map {calls : List (Call κ α)}
    (fresh : ∀ visit ∈ Run.visits OrderedMap.step (OrderedMap.empty, []) calls,
      OrderedMap.Fresh visit.1 visit.2) :
    ∃ s, Run.attempt step (new key previous forward, []) calls =
        some (s, (Run.final OrderedMap.step (OrderedMap.empty, []) calls).2) ∧
      s.traverse =
        some ((Run.final OrderedMap.step (OrderedMap.empty, []) calls).1.entries.map Prod.snd) := by
  obtain ⟨⟨s, replies⟩, ran, represents, rfl⟩ := run_represents key previous forward fresh
  exact ⟨s, ran, represents.lists.traverse_spec⟩

theorem calls_as_map_sample : ∃ s, Run.attempt step (sampleList, []) sampleCalls =
      some (s, [.found none, .inserted true, .inserted true, .inserted true, .found (some 0),
        .inserted false, .found (some 2), .removed (some 1), .found (some 2), .inserted true]) ∧
      s.traverse = some [4, 0, 2] :=
  calls_as_map _ _ _ sampleCalls_fresh

variable {calls : List (Call κ α)} {replies : List (Reply α)}

theorem represents_of_run
    (fresh : ∀ visit ∈ Run.visits OrderedMap.step (OrderedMap.empty, []) calls,
      OrderedMap.Fresh visit.1 visit.2)
    (ran : Run.attempt step (new key previous forward, []) calls = some (s, replies)) :
    s.Represents (Run.final OrderedMap.step (OrderedMap.empty, []) calls).1 := by
  obtain ⟨state, reached, represents, -⟩ := run_represents key previous forward fresh
  obtain rfl := Option.some.inj (ran.symm.trans reached)
  exact represents

/-- What the queries find in a list that was used so: the element under a key, and the nearest
    ones to it, where the list is taken as a ring. -/
theorem queries_of_run
    (fresh : ∀ visit ∈ Run.visits OrderedMap.step (OrderedMap.empty, []) calls,
      OrderedMap.Fresh visit.1 visit.2)
    (ran : Run.attempt step (new key previous forward, []) calls = some (s, replies)) (k : κ) :
    let m := (Run.final OrderedMap.step (OrderedMap.empty, []) calls).1
    s.search k = some (m.search k) ∧
      s.closestpred k =
        some (((m.below k).getLast?.or m.entries.getLast?).map Prod.snd) ∧
      s.closestsucc k =
        some (((m.entries.find? fun e => k ≤ e.1).or m.entries.head?).map Prod.snd) := by
  intro m
  have represents := represents_of_run key previous forward fresh ran
  exact ⟨represents.search_spec k, represents.closestpred_spec k, represents.closestsucc_spec k⟩

theorem queries_of_run_sample :
    ∃ state, Run.attempt step (sampleList, []) sampleCalls = some state ∧
      state.1.search 6 = some none ∧ state.1.closestpred 6 = some (some 0) ∧
      state.1.closestsucc 6 = some (some 2) := by
  obtain ⟨state, ran, -⟩ := run_represents _ _ _ sampleCalls_fresh
  exact ⟨state, ran, queries_of_run _ _ _ sampleCalls_fresh ran 6⟩

/-- Forwards and backwards the traversals meet the same elements, all of them. -/
theorem traversals_of_run
    (fresh : ∀ visit ∈ Run.visits OrderedMap.step (OrderedMap.empty, []) calls,
      OrderedMap.Fresh visit.1 visit.2)
    (ran : Run.attempt step (new key previous forward, []) calls = some (s, replies)) :
    ∃ xs, s.traverse = some xs ∧ s.rtraverse = some xs.reverse ∧ s.size = xs.length ∧
      s.first = xs.head? ∧ s.last = xs.getLast? ∧ xs.Pairwise fun x y => s.key x < s.key y := by
  have lists := (represents_of_run key previous forward fresh ran).lists
  exact ⟨_, lists.traverse_spec, lists.rtraverse_spec, lists.size_eq, lists.head_eq, lists.tail_eq,
    lists.ascending⟩

theorem traversals_of_run_sample :
    ∃ state, Run.attempt step (sampleList, []) sampleCalls = some state ∧
      ∃ xs, state.1.traverse = some xs ∧ state.1.rtraverse = some xs.reverse := by
  obtain ⟨state, ran, -⟩ := run_represents _ _ _ sampleCalls_fresh
  obtain ⟨xs, forwards, backwards, -⟩ := traversals_of_run _ _ _ sampleCalls_fresh ran
  exact ⟨state, ran, xs, forwards, backwards⟩

/-- The check passes, and goes on passing when all links of a list of several levels but those of
    the highest level have been overwritten. -/
theorem repok_of_run
    (fresh : ∀ visit ∈ Run.visits OrderedMap.step (OrderedMap.empty, []) calls,
      OrderedMap.Fresh visit.1 visit.2)
    (ran : Run.attempt step (new key previous forward, []) calls = some (s, replies)) :
    s.repok = some true ∧
      ∀ previous' forward' tail', 1 < s.lvl →
        (∀ head, s.head = some head → previous' head = none) →
        forward' (s.lvl - 1) = s.forward (s.lvl - 1) → s.head ≠ none →
        { s with previous := previous', forward := forward', tail := tail' }.repok = some true := by
  have lists := (represents_of_run key previous forward fresh ran).lists
  have passes := lists.repok_spec
  refine ⟨passes, fun previous' forward' tail' tall first top present => ?_⟩
  obtain ⟨head, known⟩ := Option.ne_none_iff_exists'.mp present
  have kept : s.previous head = none := by
    by_contra other
    simp [repok, known, other] at passes
  let damaged := { s with previous := previous', forward := forward', tail := tail' }
  have same : damaged.repok = s.repok :=
    repok_congr known known ((first head known).trans kept.symm) tall rfl rfl rfl top
  exact same.trans passes

/-- The sample list has two levels, of which the lower one and the tail are lost. -/
theorem repok_of_run_sample :
    ∃ state, Run.attempt step (sampleList, []) sampleCalls = some state ∧
      state.1.repok = some true ∧
      { state.1 with
        previous := fun _ => none
        forward := Function.update state.1.forward 0 fun _ => none
        tail := none }.repok = some true := by
  have shape : (Run.attempt step (sampleList, []) sampleCalls).map
      (fun state => (state.1.lvl, state.1.head)) = some (2, some 4) := by decide +kernel
  obtain ⟨state, ran, known⟩ := Option.map_eq_some_iff.mp shape
  obtain ⟨lvl, head⟩ := Prod.mk.inj known
  obtain ⟨passes, still⟩ := repok_of_run _ _ _ sampleCalls_fresh ran
  refine ⟨state, ran, passes, still _ _ _ (by omega) (fun _ _ => rfl) ?_ (by simp [head])⟩
  rw [lvl]
  exact Function.update_of_ne (by decide) _ _

end Runs

end Skiplist

end Cors
