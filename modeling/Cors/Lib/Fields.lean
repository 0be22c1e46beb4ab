import Cors.Lib.Text

/-! # Fields between delimiters

Texts that are put together from fields with one delimiter between any two, and taken apart
again. Whether that gives back the fields depends on the characters in them only, so there is a
lemma on what characters a number consists of.
-/

namespace Cors

namespace Text

/-! ## Joining and splitting -/

def joined (delim : Char) : List Text → Text
  | [] => []
  | [field] => field
  | field :: next :: fields => field ++ delim :: joined delim (next :: fields)

section Joined
variable (delim : Char)

theorem joined_cons (field : Text) {fields : List Text} (nonempty : fields ≠ []) :
    joined delim (field :: fields) = field ++ delim :: joined delim fields := by
  cases fields with
  | nil => exact absurd rfl nonempty
  | cons next fields => rfl

theorem joined_append {fields others : List Text} (some : fields ≠ []) (more : others ≠ []) :
    joined delim (fields ++ others) = joined delim fields ++ delim :: joined delim others := by
  induction fields with
  | nil => exact absurd rfl some
  | cons field fields ih =>
      cases fields with
      | nil => exact joined_cons delim field more
      | cons next fields =>
          have rest := ih (List.cons_ne_nil next fields)
          rw [List.cons_append, joined_cons delim field (by simp), rest,
            joined_cons delim field (List.cons_ne_nil _ _), List.append_assoc, List.cons_append]

/-- Without a delimiter in between the last field and the first become one. -/
theorem joined_glue (fields : List Text) (last first : Text) (others : List Text) :
    joined delim (fields ++ [last]) ++ joined delim (first :: others) =
      joined delim (fields ++ (last ++ first) :: others) := by
  have single : joined delim [last] ++ joined delim (first :: others) =
      joined delim ((last ++ first) :: others) := by
    cases others with
    | nil => rfl
    | cons next others =>
        rw [joined_cons delim first (by simp), joined_cons delim (last ++ first) (by simp),
          List.append_assoc]
        rfl
  cases fields with
  | nil => exact single
  | cons field fields =>
      rw [joined_append delim (List.cons_ne_nil field fields) (by simp),
        joined_append delim (List.cons_ne_nil field fields) (by simp), List.append_assoc,
        List.cons_append, single]

/-- A field that is found again: it is there, and holds no delimiter. -/
def Clean (field : Text) : Prop := field ≠ [] ∧ delim ∉ field

variable {delim}

theorem Clean.append {field other : Text} (clean : Clean delim field)
    (cleanToo : Clean delim other) : Clean delim (field ++ other) := by
  refine ⟨List.append_ne_nil_of_left_ne_nil clean.1 other, fun member => ?_⟩
  cases List.mem_append.mp member with
  | inl left => exact clean.2 left
  | inr right => exact cleanToo.2 right

theorem split_joined {fields : List Text} (clean : ∀ field ∈ fields, Clean delim field) :
    split (· = delim) (joined delim fields) = fields := by
  induction fields with
  | nil => exact split_nil _
  | cons field fields ih =>
      obtain ⟨⟨nonempty, free⟩, rest⟩ := List.forall_mem_cons.mp clean
      have inner : ∀ c ∈ field, decide (c = delim) = false := fun c member =>
        decide_eq_false fun same => free (same ▸ member)
      cases fields with
      | nil =>
          have whole := split_word nonempty inner [] fun _ none => by cases none
          rw [List.append_nil, split_nil] at whole
          exact whole
      | cons next fields =>
          rw [joined_cons delim field (by simp), split_word nonempty inner _ fun c first => ?_,
            split_delim (by simp), ih rest]
          obtain rfl := Option.some.inj first
          exact decide_eq_true rfl

end Joined

/-! ## Numbers as fields -/

/-- A digit, a sign, the point or the letter of an exponent. -/
def isNumeric (c : Char) : Bool := c.isDigit || c ∈ ['+', '-', '.', 'e', 'E']

theorem Digits.numeric {t : Text} (digits : Digits t) : ∀ c ∈ t, isNumeric c = true := by
  intro c member
  rw [isNumeric, digits c member, Bool.true_or]

theorem sign_numeric {sign : Text} (isOne : isSign sign = true) :
    ∀ c ∈ sign, isNumeric c = true := by
  simp only [isSign, Bool.or_eq_true, decide_eq_true_eq] at isOne
  obtain (rfl | rfl) | rfl := isOne
  · exact List.forall_mem_nil _
  · exact List.forall_mem_singleton.mpr rfl
  · exact List.forall_mem_singleton.mpr rfl

namespace Number

theorem WellFormed.numeric {x : Number} (formed : x.WellFormed) :
    ∀ c ∈ x.chars, isNumeric c = true := by
  obtain ⟨sign, whole, behind, -, raised⟩ := formed
  have point : ∀ c ∈ pointChars x.point, isNumeric c = true := by
    cases split : x.point with
    | none => exact fun _ none => nomatch none
    | some ds => exact List.forall_mem_cons.mpr ⟨rfl, (behind ds split).numeric⟩
  have exponent : ∀ c ∈ exponentChars x.exponent, isNumeric c = true := by
    cases split : x.exponent with
    | none => exact fun _ none => nomatch none
    | some e =>
        obtain ⟨mark, power, many, -⟩ := raised e split
        have letter : isNumeric e.1 = true := by
          cases mark with
          | inl small => rw [small]; rfl
          | inr large => rw [large]; rfl
        exact List.forall_mem_cons.mpr
          ⟨letter, List.forall_mem_append.mpr ⟨sign_numeric power, many.numeric⟩⟩
  exact List.forall_mem_append.mpr ⟨sign_numeric sign,
    List.forall_mem_append.mpr ⟨whole.numeric, List.forall_mem_append.mpr ⟨point, exponent⟩⟩⟩

theorem WellFormed.clean {x : Number} (formed : x.WellFormed) {delim : Char}
    (other : isNumeric delim = false) : Clean delim x.chars := by
  refine ⟨formed.chars_ne_nil, fun member => ?_⟩
  rw [formed.numeric delim member] at other
  cases other

def minus (i : Int) : Text := if i < 0 then ['-'] else []

theorem minus_isSign (i : Int) : isSign (minus i) = true := by
  unfold minus
  split <;> rfl

/-- The token of an integer. -/
def ofInt (i : Int) : Number := ⟨minus i, decimal i.natAbs, none, none⟩

theorem ofInt_chars (i : Int) : (ofInt i).chars = decimalInt i := by
  cases i with
  | ofNat n => simp [ofInt, minus, chars, pointChars, exponentChars, decimalInt]
  | negSucc n => simp [ofInt, minus, chars, pointChars, exponentChars, decimalInt]

theorem ofInt_formed (i : Int) : (ofInt i).WellFormed where
  sign := minus_isSign i
  whole := decimal_digits _
  point := fun _ none => nomatch none
  mantissa := .inl (decimal_ne_nil _)
  exponent := fun _ none => nomatch none

end Number

end Text

end Cors
