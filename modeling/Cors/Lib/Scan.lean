import Cors.Lib.Memory

/-! # Scanning guarded fields

A hand-written decoder walks a buffer with an offset and, before each field,
checks only that the offset has not reached the length. `Scan` is that decoder
with its reads recorded: a result, and how far the buffer was read. A scan
`Follows` a layout when it reads exactly the fields of that layout in order; all
questions about acceptance and bounds are then questions about the layout.
-/

namespace Cors

/-- What a scan did: the value with the position behind it, or an error; and one
    past the last byte it read. -/
structure Scanned (α : Type) where
  result : Option (α × Nat)
  extent : Nat

/-- A decoder over a memory, a buffer length and a starting offset. -/
def Scan (α : Type) := Mem → Nat → Nat → Scanned α

namespace Scan

protected def pure (a : α) : Scan α := fun _ _ off => ⟨some (a, off), 0⟩

protected def bind (s : Scan α) (t : α → Scan β) : Scan β := fun m len off =>
  match s m len off with
  | ⟨none, extent⟩ => ⟨none, extent⟩
  | ⟨some (a, off'), extent⟩ =>
      let next := t a m len off'
      ⟨next.result, max extent next.extent⟩

instance : Monad Scan where
  pure := Scan.pure
  bind := Scan.bind

theorem bind_run (s : Scan α) (t : α → Scan β) (m : Mem) (len off : Nat) :
    (s >>= t) m len off =
      match s m len off with
      | ⟨none, extent⟩ => ⟨none, extent⟩
      | ⟨some (a, off'), extent⟩ => ⟨(t a m len off').result, max extent (t a m len off').extent⟩ :=
  rfl

/-- `goto err`. -/
def fail : Scan α := fun _ _ _ => ⟨none, 0⟩

/-- An unguarded `memcpy` out of the buffer. -/
def raw (f : ByteFormat α) : Scan α := fun m _ off =>
  ⟨some (m.get f off, off + f.width), off + f.width⟩

/-- `if (offset >= len) goto err;` and then the `memcpy`. -/
def field (f : ByteFormat α) : Scan α := fun m len off =>
  if len ≤ off then ⟨none, 0⟩ else raw f m len off

/-- A counted loop over one field. -/
def fields (f : ByteFormat α) : Nat → Scan (List α)
  | 0 => pure []
  | n + 1 => do
      let x ← field f
      let xs ← fields f n
      pure (x :: xs)

/-! ## Layouts -/

/-- Start and width of each field of a layout. -/
def pieces : Nat → List Nat → List (Nat × Nat)
  | _, [] => []
  | off, w :: ws => (off, w) :: pieces (off + w) ws

/-- Every field starts inside the buffer: all that the guards check. -/
def Fits (len off : Nat) (ws : List Nat) : Prop := ∀ p ∈ pieces off ws, p.1 < len

/-- The end of the buffer does not fall inside a field. -/
def Uncut (len off : Nat) (ws : List Nat) : Prop :=
  ∀ p ∈ pieces off ws, p.1 < len → p.1 + p.2 ≤ len

instance : Decidable (Fits len off ws) :=
  inferInstanceAs (Decidable (∀ p ∈ pieces off ws, p.1 < len))

instance : Decidable (Uncut len off ws) :=
  inferInstanceAs (Decidable (∀ p ∈ pieces off ws, p.1 < len → p.1 + p.2 ≤ len))

/-- How far a guarded walk over the layout reads. -/
def reach (len : Nat) : Nat → List Nat → Nat
  | _, [] => 0
  | off, w :: ws => if len ≤ off then 0 else max (off + w) (reach len (off + w) ws)

theorem le_of_mem_pieces {off ws p} (member : p ∈ pieces off ws) : off ≤ p.1 := by
  induction ws generalizing off with
  | nil => simp [pieces] at member
  | cons w ws ih =>
      rcases List.mem_cons.mp member with rfl | later
      · exact Nat.le_refl _
      · exact Nat.le_of_add_right_le (ih later)

theorem pieces_append (off : Nat) (ws vs : List Nat) :
    pieces off (ws ++ vs) = pieces off ws ++ pieces (off + ws.sum) vs := by
  induction ws generalizing off with
  | nil => rfl
  | cons w ws ih =>
      simp only [List.cons_append, pieces, ih, List.sum_cons, Nat.add_assoc]

@[simp] theorem fits_nil : Fits len off [] := by simp [Fits, pieces]

theorem fits_cons {len off w ws} :
    Fits len off (w :: ws) ↔ off < len ∧ Fits len (off + w) ws := by
  simp only [Fits, pieces, List.forall_mem_cons]

theorem fits_append {len off ws vs} :
    Fits len off (ws ++ vs) ↔ Fits len off ws ∧ Fits len (off + ws.sum) vs := by
  simp only [Fits, pieces_append, List.forall_mem_append]

theorem fits_replicate {len off n w} :
    Fits len off (List.replicate n w) ↔ ∀ i < n, off + i * w < len := by
  induction n generalizing off with
  | zero => simp
  | succ n ih =>
      rw [List.replicate_succ, fits_cons, ih]
      constructor
      · intro fits i inside
        cases i with
        | zero => simpa using fits.1
        | succ i =>
            have later := fits.2 i (by omega)
            rw [Nat.succ_mul]
            omega
      · intro fits
        refine ⟨by simpa using fits 0 (by omega), fun i inside => ?_⟩
        have later := fits (i + 1) (by omega)
        rw [Nat.succ_mul] at later
        omega

theorem uncut_cons {len off w ws} :
    Uncut len off (w :: ws) ↔ (off < len → off + w ≤ len) ∧ Uncut len (off + w) ws := by
  simp only [Uncut, pieces, List.forall_mem_cons]

theorem uncut_of_le {len off : Nat} (ws : List Nat) (past : len ≤ off) : Uncut len off ws := by
  intro p member inside
  have := le_of_mem_pieces member
  omega

theorem reach_append (len off : Nat) (ws vs : List Nat) :
    reach len off (ws ++ vs) =
      if Fits len off ws then max (reach len off ws) (reach len (off + ws.sum) vs)
      else reach len off ws := by
  induction ws generalizing off with
  | nil => simp [reach]
  | cons w ws ih =>
      simp only [List.cons_append, reach, ih, fits_cons, List.sum_cons, Nat.add_assoc]
      by_cases past : len ≤ off
      · simp [past]
      · simp only [past, if_false, Nat.lt_of_not_le past, true_and]
        split
        · rw [Nat.max_assoc]
        · rfl

theorem reach_le_iff {len off : Nat} {ws : List Nat} :
    reach len off ws ≤ len ↔ Uncut len off ws := by
  induction ws generalizing off with
  | nil => simp [reach, Uncut, pieces]
  | cons w ws ih =>
      by_cases past : len ≤ off
      · simp only [reach, past, if_true, Nat.zero_le, uncut_of_le (w :: ws) past]
      · have inside : off < len := Nat.lt_of_not_le past
        simp only [reach, past, if_false, uncut_cons, inside, true_implies, ← ih, Nat.max_le]

theorem complete_of_fits {len off : Nat} {ws : List Nat} (inside : off ≤ len)
    (uncut : Uncut len off ws) (fits : Fits len off ws) : off + ws.sum ≤ len := by
  induction ws generalizing off with
  | nil => simpa using inside
  | cons w ws ih =>
      obtain ⟨starts, rest⟩ := fits_cons.mp fits
      obtain ⟨ends, restUncut⟩ := uncut_cons.mp uncut
      have tail := ih (ends starts) restUncut rest
      rw [List.sum_cons]
      omega

theorem fits_of_complete {len off : Nat} {ws : List Nat} (positive : ∀ w ∈ ws, 0 < w)
    (complete : off + ws.sum ≤ len) : Fits len off ws := by
  induction ws generalizing off with
  | nil => exact fits_nil
  | cons w ws ih =>
      rw [List.sum_cons] at complete
      have wide : 0 < w := positive w List.mem_cons_self
      apply fits_cons.mpr
      refine ⟨by omega, ih (fun v hv => positive v (List.mem_cons_of_mem _ hv)) (by omega)⟩

/-- Guards that test only the first byte of a field are exact iff no field is cut. -/
theorem exact_iff_uncut {len off : Nat} {ws : List Nat} (positive : ∀ w ∈ ws, 0 < w)
    (inside : off ≤ len) :
    reach len off ws ≤ len ∧ (Fits len off ws ↔ off + ws.sum ≤ len) ↔ Uncut len off ws := by
  rw [reach_le_iff]
  constructor
  · exact And.left
  · intro uncut
    exact ⟨uncut, complete_of_fits inside uncut, fits_of_complete positive⟩

/-! ## Scans that follow a layout -/

/-- Over the memory `m`, the scan walks the layout `ws` from `off` and decodes `a`. -/
def Follows (m : Mem) (s : Scan α) (off : Nat) (ws : List Nat) (a : α) : Prop :=
  ∀ len, s m len off =
    ⟨if Fits len off ws then some (a, off + ws.sum) else none, reach len off ws⟩

theorem Follows.pure (m : Mem) (off : Nat) (a : α) : Follows m (Pure.pure a) off [] a := by
  intro len
  simp only [fits_nil, if_true, List.sum_nil, Nat.add_zero, reach]
  rfl

theorem Follows.field (m : Mem) (off : Nat) (f : ByteFormat α) :
    Follows m (Scan.field f) off [f.width] (m.get f off) := by
  intro len
  by_cases past : len ≤ off
  · have unfit : ¬ Fits len off [f.width] := fun fits => by
      have := (fits_cons.mp fits).1
      omega
    simp only [Scan.field, reach, past, if_true, unfit, if_false]
  · have fits : Fits len off [f.width] := fits_cons.mpr ⟨by omega, fits_nil⟩
    simp [Scan.field, raw, reach, past, fits]

theorem Follows.bind {m : Mem} {s : Scan α} {t : α → Scan β} {off ws vs a b}
    (first : Follows m s off ws a) (next : Follows m (t a) (off + ws.sum) vs b) :
    Follows m (s >>= t) off (ws ++ vs) b := by
  intro len
  rw [bind_run, first len, reach_append]
  by_cases fits : Fits len off ws
  · simp only [fits, if_true, next len, fits_append, true_and, List.sum_append, Nat.add_assoc]
  · simp only [fits, if_false, fits_append, false_and]

theorem Follows.field_bind {m : Mem} {f : ByteFormat α} {t : α → Scan β} {off vs b}
    (next : Follows m (t (m.get f off)) (off + f.width) vs b) :
    Follows m (Scan.field f >>= t) off (f.width :: vs) b := by
  apply Follows.bind (Follows.field m off f)
  simpa only [List.sum_singleton] using next

theorem Follows.map {m : Mem} {s : Scan α} {off ws a} (g : α → β) (h : Follows m s off ws a) :
    Follows m (s >>= fun x => Pure.pure (g x)) off ws (g a) := by
  simpa only [List.append_nil] using h.bind (t := fun x => Pure.pure (g x)) (Follows.pure m _ (g a))

theorem Follows.fields (m : Mem) (off : Nat) (f : ByteFormat α) (n : Nat) :
    Follows m (Scan.fields f n) off (List.replicate n f.width)
      ((List.range n).map fun i => m.get f (off + i * f.width)) := by
  induction n generalizing off with
  | zero => exact Follows.pure m off []
  | succ n ih =>
      let rest := (List.range n).map fun i => m.get f (off + f.width + i * f.width)
      have tail : Follows m (Scan.fields f n >>= fun xs => Pure.pure (m.get f off :: xs))
          (off + f.width) (List.replicate n f.width) (m.get f off :: rest) :=
        (ih (off + f.width)).map (m.get f off :: ·)
      have whole := Follows.field_bind (t := fun x =>
        Scan.fields f n >>= fun xs => Pure.pure (x :: xs)) tail
      have shift : ∀ i, off + (i + 1) * f.width = off + f.width + i * f.width := by
        intro i
        rw [Nat.succ_mul]
        omega
      rw [List.replicate_succ, List.range_succ_eq_map, List.map_cons, List.map_map]
      simpa only [Scan.fields, rest, Nat.zero_mul, Nat.add_zero, Function.comp_def,
        Nat.succ_eq_add_one, shift] using whole

end Scan

end Cors
