import Mathlib.Data.List.Basic
import Cors.Lib.Memory

/-! # Counting down the length

A hand-written decoder that reads fields at positions of its own and counts down how many bytes
are left. Before each field it checks the count, which nothing ties to the position.

So a field comes with two numbers: the length from which on its guard lets it pass, and the end
of what is read then. All questions about acceptance and bounds are questions about these pairs.
-/

namespace Cors

/-- What a decoder did: whether it went through, the variables, the bytes left by its count, and
    one past the last byte it read. -/
structure Counted (σ : Type) where
  ok : Bool
  out : σ
  left : Int
  extent : Nat

/-- A decoder over a memory, the variables and a count. -/
def Countdown (σ : Type) := Mem → σ → Int → Counted σ

namespace Countdown

/-- `assert`: a program that it ends went through as little as one that returns an error. -/
def check (f : ByteFormat α) (pos : Nat) (test : α → Bool) : Countdown σ := fun m out left =>
  ⟨test (m.get f pos), out, left, pos + f.width⟩

/-- `len -= n`. -/
def skip (n : Nat) : Countdown σ := fun _ out left => ⟨true, out, left - n, 0⟩

/-- `if (len < sizeof(x)) return -1;` with a signed size, and then the `memcpy`. -/
def field (f : ByteFormat α) (pos : Nat) (store : σ → α → σ) : Countdown σ := fun m out left =>
  if left < f.width then ⟨false, out, left, 0⟩
  else ⟨true, store out (m.get f pos), left, pos + f.width⟩

/-- The value of an `int` that is converted to `size_t`. -/
def unsigned (left : Int) : Nat := (left % 4294967296).toNat

/-- The same with an unsigned size, which the count is converted to. -/
def unsignedField (f : ByteFormat α) (pos : Nat) (store : σ → α → σ) : Countdown σ :=
  fun m out left =>
    if unsigned left < f.width then ⟨false, out, left, 0⟩
    else ⟨true, store out (m.get f pos), left, pos + f.width⟩

def andThen (c d : Countdown σ) : Countdown σ := fun m out left =>
  let first := c m out left
  if first.ok then
    let second := d m first.out first.left
    { second with extent := max first.extent second.extent }
  else
    first

/-- One statement after the other. -/
def chain : List (Countdown σ) → Countdown σ
  | [] => skip 0
  | c :: cs => c.andThen (chain cs)

/-- A counted loop over one field. -/
def elements (f : ByteFormat α) (store : σ → α → σ) : Nat → Nat → Countdown σ
  | 0, _ => skip 0
  | n + 1, pos =>
      chain [unsignedField f pos store, skip f.width, elements f store n (pos + f.width)]

/-- A statement that depends on a variable. -/
def given (pick : σ → β) (c : β → Countdown σ) : Countdown σ := fun m out => c (pick out) m out

/-! ## Guards -/

/-- Every guard lets its field pass. -/
def Passes (len : Nat) (gs : List (Nat × Nat)) : Prop := ∀ g ∈ gs, g.1 ≤ len

/-- No field that passes reaches behind the length. -/
def Inside (len : Nat) (gs : List (Nat × Nat)) : Prop := ∀ g ∈ gs, g.1 ≤ len → g.2 ≤ len

instance : Decidable (Passes len gs) := inferInstanceAs (Decidable (∀ g ∈ gs, _))

/-- How far the fields are read, up to the first one whose guard does not let it pass. -/
def reach (len : Nat) : List (Nat × Nat) → Nat
  | [] => 0
  | g :: gs => if g.1 ≤ len then max g.2 (reach len gs) else 0

@[simp] theorem passes_nil : Passes len [] := fun _ member => nomatch member

theorem passes_cons {g : Nat × Nat} {gs : List (Nat × Nat)} :
    Passes len (g :: gs) ↔ g.1 ≤ len ∧ Passes len gs := List.forall_mem_cons

theorem passes_append {gs hs : List (Nat × Nat)} :
    Passes len (gs ++ hs) ↔ Passes len gs ∧ Passes len hs := List.forall_mem_append

theorem inside_append {gs hs : List (Nat × Nat)} :
    Inside len (gs ++ hs) ↔ Inside len gs ∧ Inside len hs := List.forall_mem_append

theorem reach_append (len : Nat) (gs hs : List (Nat × Nat)) :
    reach len (gs ++ hs) =
      if Passes len gs then max (reach len gs) (reach len hs) else reach len gs := by
  induction gs with
  | nil => simp [reach]
  | cons g gs ih =>
      simp only [List.cons_append, reach, ih, passes_cons]
      by_cases passes : g.1 ≤ len
      · simp only [passes, if_true, true_and]
        split
        · rw [Nat.max_assoc]
        · rfl
      · simp only [passes, if_false, false_and]

/-- When later guards ask for no less, the reads stay inside the buffer just in case those of
    all fields do that pass. -/
theorem reach_le_iff {len : Nat} {gs : List (Nat × Nat)}
    (ascending : gs.Pairwise fun g h => g.1 ≤ h.1) : reach len gs ≤ len ↔ Inside len gs := by
  induction gs with
  | nil => exact iff_of_true (Nat.zero_le len) fun _ member => nomatch member
  | cons g gs ih =>
      obtain ⟨least, rest⟩ := List.pairwise_cons.mp ascending
      rw [Inside, List.forall_mem_cons]
      by_cases passes : g.1 ≤ len
      · rw [reach, if_pos passes, Nat.max_le, ih rest]
        simp only [passes, true_implies, Inside]
      · rw [reach, if_neg passes]
        refine iff_of_true (Nat.zero_le len) ⟨fun pass => absurd pass passes, ?_⟩
        intro h member later
        exact absurd (Nat.le_trans (least h member) later) passes

/-! ## Walks -/

/-- Of `len` bytes `spent` are counted before: the decoder goes through just in case all guards
    let their fields pass, and reads as far as these reach. -/
structure Walks (c : Countdown σ) (m : Mem) (len : Nat) (out : σ) (spent : Nat)
    (gs : List (Nat × Nat)) (out' : σ) (spent' : Nat) : Prop where
  passes : Passes len gs → c m out (len - spent) = ⟨true, out', len - spent', reach len gs⟩
  stops : ¬Passes len gs →
    (c m out (len - spent)).ok = false ∧ (c m out (len - spent)).extent = reach len gs

section Walks
variable {c d : Countdown σ} {m : Mem} {len spent spent' : Nat} {gs hs : List (Nat × Nat)}
  {out out' : σ}

theorem Walks.ok_iff (walks : Walks c m len out spent gs out' spent') :
    (c m out (len - spent)).ok = true ↔ Passes len gs := by
  by_cases all : Passes len gs
  · rw [walks.passes all]
    exact iff_of_true rfl all
  · rw [(walks.stops all).1]
    exact iff_of_false Bool.false_ne_true all

theorem Walks.extent_eq (walks : Walks c m len out spent gs out' spent') :
    (c m out (len - spent)).extent = reach len gs := by
  by_cases all : Passes len gs
  · rw [walks.passes all]
  · exact (walks.stops all).2

theorem Walks.skip (m : Mem) (len : Nat) (out : σ) (spent n : Nat) :
    Walks (Countdown.skip n) m len out spent [] out (spent + n) where
  passes _ := by
    rw [Countdown.skip, Int.natCast_add, Int.sub_sub]
    rfl
  stops stopped := absurd passes_nil stopped

theorem Walks.check {f : ByteFormat α} {pos : Nat} {test : α → Bool} (out : σ) (spent : Nat)
    (holds : test (m.get f pos) = true) (inside : pos + f.width ≤ len) :
    Walks (Countdown.check f pos test) m len out spent [(pos + f.width, pos + f.width)] out
      spent where
  passes _ := by simp only [Countdown.check, holds, reach, if_pos inside, Nat.max_zero]
  stops stopped := absurd (passes_cons.mpr ⟨inside, passes_nil⟩) stopped

theorem Walks.field (m : Mem) (len : Nat) (f : ByteFormat α) (pos : Nat) (store : σ → α → σ)
    (out : σ) (spent : Nat) :
    Walks (Countdown.field f pos store) m len out spent [(spent + f.width, pos + f.width)]
      (store out (m.get f pos)) spent where
  passes all := by
    have bound : spent + f.width ≤ len := (passes_cons.mp all).1
    have left : ¬(len : Int) - spent < f.width := by omega
    simp only [Countdown.field, if_neg left, reach, if_pos bound, Nat.max_zero]
  stops stopped := by
    have bound : ¬spent + f.width ≤ len := fun bound =>
      stopped (passes_cons.mpr ⟨bound, passes_nil⟩)
    have left : (len : Int) - spent < f.width := by omega
    simp only [Countdown.field, if_pos left, reach, if_neg bound, and_self]

theorem unsigned_eq {left : Int} (positive : 0 ≤ left) (small : left < 4294967296) :
    unsigned left = left.toNat := by
  rw [unsigned, Int.emod_eq_of_lt positive small]

theorem unsigned_of_neg {left : Int} (negative : left < 0) (bound : -2147483648 ≤ left) :
    2147483648 ≤ unsigned left := by
  unfold unsigned
  omega

theorem Walks.unsignedField (m : Mem) (f : ByteFormat α) (pos : Nat) (store : σ → α → σ) (out : σ)
    (counted : spent ≤ len) (small : len < 4294967296) :
    Walks (Countdown.unsignedField f pos store) m len out spent
      [(spent + f.width, pos + f.width)] (store out (m.get f pos)) spent := by
  have left : unsigned ((len : Int) - spent) = len - spent := by
    rw [unsigned_eq (by omega) (by omega)]
    omega
  constructor
  · intro all
    have bound : spent + f.width ≤ len := (passes_cons.mp all).1
    have enough : ¬len - spent < f.width := by omega
    simp only [Countdown.unsignedField, left, if_neg enough, reach, if_pos bound, Nat.max_zero]
  · intro stopped
    have bound : ¬spent + f.width ≤ len := fun bound =>
      stopped (passes_cons.mpr ⟨bound, passes_nil⟩)
    have short : len - spent < f.width := by omega
    simp only [Countdown.unsignedField, left, if_pos short, reach, if_neg bound, and_self]

theorem Walks.andThen {out'' : σ} {spent'' : Nat}
    (first : Walks c m len out spent gs out' spent')
    (second : Passes len gs → Walks d m len out' spent' hs out'' spent'') :
    Walks (c.andThen d) m len out spent (gs ++ hs) out'' spent'' := by
  by_cases all : Passes len gs
  · have front := first.passes all
    have back := second all
    constructor
    · intro whole
      simp only [Countdown.andThen, front, if_true, back.passes (passes_append.mp whole).2,
        reach_append, if_pos all]
    · intro stopped
      have behind : ¬Passes len hs := fun rest => stopped (passes_append.mpr ⟨all, rest⟩)
      simp only [Countdown.andThen, front, if_true, (back.stops behind).1, (back.stops behind).2,
        reach_append, if_pos all, and_self]
  · obtain ⟨fails, reads⟩ := first.stops all
    constructor
    · intro whole
      exact absurd (passes_append.mp whole).1 all
    · intro _
      simp only [Countdown.andThen, fails, Bool.false_eq_true, if_false, reads, reach_append,
        if_neg all, and_self]

theorem Walks.nil (m : Mem) (len : Nat) (out : σ) (spent : Nat) :
    Walks (chain []) m len out spent [] out spent :=
  Walks.skip m len out spent 0

theorem Walks.last (walks : Walks c m len out spent gs out' spent') :
    Walks (chain [c]) m len out spent gs out' spent' := by
  have whole := walks.andThen fun _ => Walks.nil m len out' spent'
  rw [List.append_nil] at whole
  exact whole

section Statements
variable {cs : List (Countdown σ)} {f : ByteFormat α} {pos : Nat}

theorem Walks.check_cons {test : α → Bool} (holds : test (m.get f pos) = true)
    (inside : pos + f.width ≤ len) (rest : Walks (chain cs) m len out spent hs out' spent') :
    Walks (chain (Countdown.check f pos test :: cs)) m len out spent
      ((pos + f.width, pos + f.width) :: hs) out' spent' :=
  (Walks.check out spent holds inside).andThen fun _ => rest

theorem Walks.skip_cons {n : Nat} (rest : Walks (chain cs) m len out (spent + n) hs out' spent') :
    Walks (chain (Countdown.skip n :: cs)) m len out spent hs out' spent' :=
  (Walks.skip m len out spent n).andThen fun _ => rest

theorem Walks.field_cons {store : σ → α → σ} (rest : spent + f.width ≤ len →
      Walks (chain cs) m len (store out (m.get f pos)) spent hs out' spent') :
    Walks (chain (Countdown.field f pos store :: cs)) m len out spent
      ((spent + f.width, pos + f.width) :: hs) out' spent' :=
  (Walks.field m len f pos store out spent).andThen fun passed => rest (passes_cons.mp passed).1

theorem Walks.unsignedField_cons {store : σ → α → σ} (counted : spent ≤ len)
    (small : len < 4294967296) (rest : spent + f.width ≤ len →
      Walks (chain cs) m len (store out (m.get f pos)) spent hs out' spent') :
    Walks (chain (Countdown.unsignedField f pos store :: cs)) m len out spent
      ((spent + f.width, pos + f.width) :: hs) out' spent' :=
  (Walks.unsignedField m f pos store out counted small).andThen
    fun passed => rest (passes_cons.mp passed).1

end Statements

/-- The decoder is exact just in case no field that passes reaches behind the length, and all pass
    from the full length on. -/
theorem Walks.exact_iff (walks : Walks c m len out spent gs out' spent')
    (ascending : gs.Pairwise fun g h => g.1 ≤ h.1) (full : Nat) :
    (c m out (len - spent)).extent ≤ len ∧ ((c m out (len - spent)).ok = true ↔ full ≤ len) ↔
      Inside len gs ∧ (Passes len gs ↔ full ≤ len) := by
  rw [walks.extent_eq, walks.ok_iff, reach_le_iff ascending]

theorem Walks.given {pick : σ → β} {c : β → Countdown σ}
    (walks : Walks (c (pick out)) m len out spent gs out' spent') :
    Walks (Countdown.given pick c) m len out spent gs out' spent' :=
  ⟨walks.passes, walks.stops⟩

/-- The guards of a counted loop. -/
def elementGuards (spent pos width n : Nat) : List (Nat × Nat) :=
  (List.range n).map fun i => (spent + (i + 1) * width, pos + (i + 1) * width)

theorem elementGuards_succ (spent pos width n : Nat) :
    elementGuards spent pos width (n + 1) =
      (spent + width, pos + width) :: elementGuards (spent + width) (pos + width) width n := by
  have shift (a i : Nat) : a + (i + 1 + 1) * width = a + width + (i + 1) * width := by
    rw [Nat.succ_mul (i + 1), Nat.add_comm ((i + 1) * width), Nat.add_assoc]
  simp only [elementGuards, List.range_succ_eq_map, List.map_cons, List.map_map, Function.comp_def,
    Nat.succ_eq_add_one, shift, Nat.zero_add, Nat.one_mul]

theorem Walks.elements (m : Mem) (f : ByteFormat α) (store : σ → α → σ) (small : len < 4294967296)
    (n : Nat) (out : σ) {spent : Nat} (pos : Nat) (counted : spent ≤ len) :
    Walks (Countdown.elements f store n pos) m len out spent (elementGuards spent pos f.width n)
      (((List.range n).map fun i => m.get f (pos + i * f.width)).foldl store out)
      (spent + n * f.width) := by
  induction n generalizing out spent pos with
  | zero =>
      rw [Nat.zero_mul]
      exact Walks.skip m len out spent 0
  | succ n ih =>
      have shift (i : Nat) : pos + (i + 1) * f.width = pos + f.width + i * f.width := by
        rw [Nat.succ_mul, Nat.add_comm (i * f.width), Nat.add_assoc]
      have total : spent + (n + 1) * f.width = spent + f.width + n * f.width := by
        rw [Nat.succ_mul, Nat.add_comm (n * f.width), Nat.add_assoc]
      simp only [elementGuards_succ, total, List.range_succ_eq_map, List.map_cons, List.foldl_cons,
        List.map_map, Nat.zero_mul, Nat.add_zero, Function.comp_def, Nat.succ_eq_add_one, shift]
      refine Walks.unsignedField_cons counted small fun enough => Walks.skip_cons ?_
      exact (ih (store out (m.get f pos)) (pos + f.width) enough).last

/-- With a count below zero the guard lets everything pass. -/
theorem Walks.unsignedField_over (m : Mem) (f : ByteFormat α) (pos : Nat) (store : σ → α → σ)
    (out : σ) (negative : len < spent) (bound : spent ≤ len + 2147483648)
    (narrow : f.width ≤ 2147483648) :
    Walks (Countdown.unsignedField f pos store) m len out spent [(len, pos + f.width)]
      (store out (m.get f pos)) spent where
  passes _ := by
    have large : 2147483648 ≤ unsigned ((len : Int) - spent) :=
      unsigned_of_neg (by omega) (by omega)
    have enough : ¬unsigned ((len : Int) - spent) < f.width := by omega
    simp only [Countdown.unsignedField, if_neg enough, reach, Nat.le_refl, if_true, Nat.max_zero]
  stops stopped := absurd (passes_cons.mpr ⟨Nat.le_refl len, passes_nil⟩) stopped

theorem Walks.elements_over (m : Mem) (f : ByteFormat α) (store : σ → α → σ) (n : Nat) (out : σ)
    {spent : Nat} (pos : Nat) (negative : len < spent)
    (bound : spent + n * f.width ≤ len + 2147483648) (narrow : f.width ≤ 2147483648) :
    ∃ out' spent', Walks (Countdown.elements f store n pos) m len out spent
      ((List.range n).map fun i => (len, pos + (i + 1) * f.width)) out' spent' := by
  induction n generalizing out spent pos with
  | zero => exact ⟨_, _, Walks.skip m len out spent 0⟩
  | succ n ih =>
      have shift (i : Nat) : pos + (i + 1 + 1) * f.width = pos + f.width + (i + 1) * f.width := by
        rw [Nat.succ_mul (i + 1), Nat.add_comm ((i + 1) * f.width), Nat.add_assoc]
      rw [Nat.succ_mul] at bound
      obtain ⟨out', spent', rest⟩ := ih (store out (m.get f pos)) (pos + f.width)
        (Nat.lt_add_right f.width negative) (by omega)
      refine ⟨out', spent', ?_⟩
      simp only [List.range_succ_eq_map, List.map_cons, List.map_map, Function.comp_def,
        Nat.succ_eq_add_one, shift, Nat.zero_add, Nat.one_mul]
      exact (Walks.unsignedField_over m f pos store out negative (by omega) narrow).andThen
        fun _ => Walks.skip_cons rest.last

end Walks

/-! ## The guards of a counted loop -/

theorem elementGuards_ascending (spent pos width n : Nat) :
    (elementGuards spent pos width n).Pairwise fun g h => g.1 ≤ h.1 := by
  refine List.pairwise_map.mpr (List.pairwise_lt_range.imp fun {i j} less => ?_)
  have next : i + 1 ≤ j + 1 := Nat.succ_le_succ (Nat.le_of_lt less)
  exact Nat.add_le_add_left (Nat.mul_le_mul_right width next) spent

theorem passes_elementGuards (counted : spent ≤ len) (pos width n : Nat) :
    Passes len (elementGuards spent pos width n) ↔ spent + n * width ≤ len := by
  simp only [Passes, elementGuards, List.forall_mem_map, List.mem_range]
  constructor
  · intro all
    cases n with
    | zero => rwa [Nat.zero_mul]
    | succ n => exact all n (Nat.lt_succ_self n)
  · intro whole i inside
    exact Nat.le_trans (Nat.add_le_add_left (Nat.mul_le_mul_right width inside) spent) whole

theorem inside_elementGuards (len spent pos width n : Nat) :
    Inside len (elementGuards spent pos width n) ↔
      ∀ i < n, spent + (i + 1) * width ≤ len → pos + (i + 1) * width ≤ len := by
  simp only [Inside, elementGuards, List.forall_mem_map, List.mem_range]

end Countdown

end Cors
