import Mathlib.Order.Lattice
import Cors.Lib.Towers

/-! # The skip list

`skiplist` orders elements by a key that they hold, and links them with the `sklist_entry` that
they bring. An element is its address. The lists of keys and links are the memory: they have a
value for every address, whether its element is in the list or not. Where the code would follow
a null pointer, fail an assertion or go on forever, a function has no result; a loop along the
links is given as many rounds as the list has elements.
-/

namespace Cors

def sklistMaxLevs : Nat := 2

structure Skiplist (κ α : Type) where
  head : Option α
  tail : Option α
  sz : Nat
  lvl : Nat
  key : α → κ
  previous : α → Option α
  forward : Nat → α → Option α

namespace Skiplist

/-- The comparison of two keys: `compare`. -/
def cmp [LinearOrder κ] (a b : κ) : Int := if a < b then -1 else if b < a then 1 else 0

section Compare
variable [LinearOrder κ] {a b : κ}

theorem cmp_neg : cmp a b < 0 ↔ a < b := by
  unfold cmp
  obtain less | rfl | more := lt_trichotomy a b
  · simp [less]
  · simp
  · simp [more, not_lt_of_gt more]

theorem cmp_pos : 0 < cmp a b ↔ b < a := by
  unfold cmp
  obtain less | rfl | more := lt_trichotomy a b
  · simp [less, not_lt_of_gt less]
  · simp
  · simp [more, not_lt_of_gt more]

theorem cmp_zero : cmp a b = 0 ↔ a = b := by
  unfold cmp
  obtain less | rfl | more := lt_trichotomy a b
  · simp [less, ne_of_lt less]
  · simp
  · simp [more, not_lt_of_gt more, ne_of_gt more]

theorem cmp_nonpos : cmp a b ≤ 0 ↔ a ≤ b := by
  rw [← Int.not_lt, cmp_pos, not_lt]

end Compare

/-- `rndlvl`: each flip says whether the random number was below one half. -/
def rndlvl (flips : List Bool) : Nat := go 1 flips
where
  go (l : Nat) : List Bool → Nat
    | true :: flips => if l < sklistMaxLevs then go (l + 1) flips else l
    | _ => l

/-! ## Loops over the levels -/

section Loops
variable {α : Type} [DecidableEq α]

/-- `for (i = lo; i < hi; i++)`, the body working on the links of level `i`. -/
def forLevels (lo hi : Nat) (body : Nat → (α → Option α) → α → Option α)
    (forward : Nat → α → Option α) : Nat → α → Option α :=
  (List.range' lo (hi - lo)).foldl
    (fun forward i => Function.update forward i (body i (forward i))) forward

/-- The new element between `update[i]` and what it is linked to. -/
def enter (elm : α) : Nat → List α → (Nat → α → Option α) → Nat → α → Option α
  | _, [], forward => forward
  | i, u :: us, forward =>
      let behind := Function.update (forward i) elm (forward i u)
      enter elm (i + 1) us (Function.update forward i (Function.update behind u (some elm)))

/-- The links to `x` are those of `x` now, up to the first `update[i]` that has none. -/
def unlink (x : α) : Nat → List α → (Nat → α → Option α) → Nat → α → Option α
  | _, [], forward => forward
  | i, u :: us, forward =>
      if forward i u = some x then
        unlink x (i + 1) us
          (Function.update forward i (Function.update (forward i) u (forward i x)))
      else
        forward

/-- The second element gets the links of the head, from the highest level down to those that the
    head has to itself. The counter is unsigned: it does not go below zero. -/
def raise (head next : α) : Nat → (Nat → α → Option α) → Option (Nat → α → Option α)
  | 0, _ => none
  | i + 1, forward =>
      if forward i head ≠ some next then
        raise head next i
          (Function.update forward i (Function.update (forward i) next (forward i head)))
      else
        some forward

/-- `while (lvl > 1 && head->forward[lvl - 1] == NULL) lvl--`. -/
def lower (forward : Nat → α → Option α) (head : α) : Nat → Nat
  | 0 => 0
  | l + 1 => if 1 < l + 1 ∧ forward l head = none then lower forward head l else l + 1

end Loops

/-! ## Operations -/

variable {κ α : Type} [LinearOrder κ] [DecidableEq α]

/-- `skiplist()`, in a memory that may hold anything. -/
def new (key : α → κ) (previous : α → Option α) (forward : Nat → α → Option α) : Skiplist κ α :=
  ⟨none, none, 0, 1, key, previous, forward⟩

/-- The loops of `closestpred`, `insert` and `remove`: the last element with a smaller key, and
    the last one on each level. -/
def seek (s : Skiplist κ α) (k : κ) (head : α) : Option (α × List α) :=
  Tower.descend s.forward (fun y => cmp (s.key y) k < 0) s.sz s.lvl head

/-- `insert_head`. -/
def insertHead (s : Skiplist κ α) (elm : α) (newlvl : Nat) : Option (Skiplist κ α) :=
  let previous := Function.update s.previous elm none
  let linked :=
    if newlvl < s.lvl then
      s.head.map fun head =>
        let forward := forLevels 0 newlvl (fun _ f => Function.update f elm (some head)) s.forward
        let cut (f : α → Option α) :=
          Function.update (Function.update f elm (f head)) head none
        (forLevels newlvl s.lvl (fun _ f => cut f) forward, s.lvl)
    else
      let forward := forLevels 0 newlvl (fun _ f => Function.update f elm s.head) s.forward
      match s.head with
      | some head =>
          some (forLevels s.lvl newlvl (fun _ f => Function.update f head none) forward, newlvl)
      | none => some (forward, newlvl)
  linked.map fun (forward, lvl) =>
    { s with
      lvl
      previous :=
        match s.head with
        | some head => Function.update previous head (some elm)
        | none => previous
      tail := if s.tail = none then some elm else s.tail
      head := some elm
      forward := forLevels lvl sklistMaxLevs (fun _ f => Function.update f elm none) forward }

/-- The end of `insert`, behind `prev` and in front of `x`. -/
def insertBehind (s : Skiplist κ α) (head elm prev : α) (x : Option α) (update : List α)
    (newlvl : Nat) : Skiplist κ α :=
  let update := update ++ List.replicate (newlvl - s.lvl) head
  let previous :=
    match x with
    | none => s.previous
    | some x => Function.update s.previous x (some elm)
  { s with
    lvl := if s.lvl < newlvl then newlvl else s.lvl
    forward :=
      forLevels newlvl sklistMaxLevs (fun _ f => Function.update f elm none)
        (enter elm 0 (update.take newlvl) s.forward)
    tail := if x = none then some elm else s.tail
    previous := Function.update previous elm (some prev)
    sz := s.sz + 1 }

def insert (s : Skiplist κ α) (elm : α) (flips : List Bool) : Option (Skiplist κ α × Bool) :=
  match s.head with
  | none => ({ s with sz := s.sz + 1 }.insertHead elm (rndlvl flips)).map (·, true)
  | some head =>
      let headcmp := cmp (s.key elm) (s.key head)
      if headcmp < 0 then
        ({ s with sz := s.sz + 1 }.insertHead elm (rndlvl flips)).map (·, true)
      else if headcmp = 0 then
        some (s, false)
      else
        (s.seek (s.key elm) head).map fun (prev, update) =>
          let x := s.forward 0 prev
          if x.all fun x => 0 < cmp (s.key x) (s.key elm) then
            (s.insertBehind head elm prev x update (rndlvl flips), true)
          else
            (s, false)

def remove (s : Skiplist κ α) (k : κ) : Option (Skiplist κ α × Option α) :=
  match s.head with
  | none => some (s, none)
  | some head =>
      if cmp (s.key head) k = 0 then
        match s.forward 0 head with
        | none => some ({ s with sz := s.sz - 1, head := none, tail := none, lvl := 1 }, some head)
        | some next =>
            (raise head next s.lvl s.forward).map fun forward =>
              ({ s with
                  sz := s.sz - 1
                  forward
                  previous := Function.update s.previous next none
                  head := some next
                  lvl := lower forward next s.lvl },
                some head)
      else
        (s.seek k head).map fun (prev, update) =>
          match s.forward 0 prev with
          | none => (s, none)
          | some x =>
              if cmp (s.key x) k = 0 then
                let next := s.forward 0 x
                let forward := unlink x 0 update s.forward
                let s := { s with forward, lvl := lower forward head s.lvl, sz := s.sz - 1 }
                match next with
                | some next =>
                    ({ s with previous := Function.update s.previous next (some prev) }, some x)
                | none => ({ s with tail := some prev }, some x)
              else
                (s, none)

def closestpred (s : Skiplist κ α) (k : κ) : Option (Option α) :=
  match s.head with
  | none => some none
  | some head =>
      if cmp k (s.key head) ≤ 0 then
        some s.tail
      else
        (s.seek k head).map fun (x, _) => some x

def search (s : Skiplist κ α) (k : κ) : Option (Option α) :=
  match s.head with
  | none => some none
  | some head =>
      if cmp k (s.key head) < 0 then
        some none
      else if cmp k (s.key head) = 0 then
        some (some head)
      else
        (s.closestpred k).map fun x =>
          (x.bind (s.forward 0)).filter fun x => cmp (s.key x) k = 0

def closestsucc (s : Skiplist κ α) (k : κ) : Option (Option α) :=
  match s.head with
  | none => some none
  | some head =>
      if cmp k (s.key head) ≤ 0 then
        some (some head)
      else
        s.tail.bind fun tail =>
          if 0 < cmp k (s.key tail) then
            some (some head)
          else
            (s.closestpred k).map fun x =>
              x.bind fun x => if some x = s.tail then some head else s.forward 0 x

def first (s : Skiplist κ α) : Option α := s.head

def last (s : Skiplist κ α) : Option α := s.tail

def size (s : Skiplist κ α) : Nat := s.sz

def next (s : Skiplist κ α) (elm : α) : Option α := s.forward 0 elm

def prev (s : Skiplist κ α) (elm : α) : Option α := s.previous elm

/-- The elements in the order in which `traverse` calls back. -/
def traverse (s : Skiplist κ α) : Option (List α) := Tower.follow s.next s.sz s.head

def rtraverse (s : Skiplist κ α) : Option (List α) := Tower.follow s.prev s.sz s.tail

/-! ## The check -/

/-- The inner loop of `repok`, on level `i` from `p` on. -/
def checkLevel (s : Skiplist κ α) (i : Nat) : Nat → Option α → Option Bool
  | _, none => some true
  | 0, some _ => none
  | fuel + 1, some p =>
      match s.forward i p with
      | some np =>
          if 0 ≤ cmp (s.key p) (s.key np) then some false
          else if i = 0 ∧ s.previous np ≠ some p then some false
          else s.checkLevel i fuel (some np)
      | none => if i = 0 ∧ s.tail ≠ some p then some false else some true

/-- The outer loop. Where the inner one ends `p` is null, and it is not set again. -/
def checkLevels (s : Skiplist κ α) : Nat → Option α → Option Bool
  | 0, _ => some true
  | i + 1, p =>
      match s.checkLevel i s.sz p with
      | some true => s.checkLevels i none
      | verdict => verdict

/-- `repok`: false where an assertion fails. -/
def repok (s : Skiplist κ α) : Option Bool :=
  match s.head with
  | none => some (decide (s.lvl = 1 ∧ s.tail = none))
  | some head => if s.previous head ≠ none then some false else s.checkLevels s.lvl (some head)

end Skiplist

end Cors
