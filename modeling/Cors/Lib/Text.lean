import Mathlib.Data.List.Basic
import Mathlib.Data.Rat.Defs

/-! # Formatted text

Lines, words and numbers as text, and their extraction from a stream in the way of the C++
library: spaces are skipped, a number is the longest prefix that can be one, and a stream that
has failed once leaves all further variables alone.
-/

namespace Cors

abbrev Text := List Char

namespace Text

/-- `isspace`. -/
def isSpace (c : Char) : Bool := c = ' ' || (9 ≤ c.toNat && c.toNat ≤ 13)

/-- No character is a space. -/
def Solid (t : Text) : Prop := ∀ c ∈ t, isSpace c = false

theorem solid_of_any {t : Text} (spaceless : t.any isSpace = false) : Solid t := by
  intro c member
  exact eq_false_of_ne_true (List.any_eq_false.mp spaceless c member)

/-- Nothing follows, or a space. -/
def Ended (t : Text) : Prop := ∀ c ∈ t.head?, isSpace c = true

theorem ended_nil : Ended [] := fun _ first => by cases first

theorem ended_space (t : Text) : Ended (' ' :: t) := by
  intro c first
  obtain rfl := Option.some.inj first
  rfl

theorem Solid.append {t u : Text} (first : Solid t) (second : Solid u) : Solid (t ++ u) := by
  intro c member
  cases List.mem_append.mp member with
  | inl front => exact first c front
  | inr back => exact second c back

theorem Solid.cons {c : Char} {t : Text} (first : isSpace c = false) (rest : Solid t) :
    Solid (c :: t) := List.forall_mem_cons.mpr ⟨first, rest⟩

theorem solid_nil : Solid [] := fun _ member => by cases member

theorem Solid.newline_notMem {t : Text} (solid : Solid t) : '\n' ∉ t := by
  intro member
  exact absurd (solid _ member) (by decide)

theorem Solid.space_notMem {t : Text} (solid : Solid t) : ' ' ∉ t := by
  intro member
  exact absurd (solid _ member) (by decide)

/-! ## Lines -/

/-- What `getline` returns until it fails. -/
def lines : Text → List Text
  | [] => []
  | c :: cs =>
      if c = '\n' then
        [] :: lines cs
      else
        match lines cs with
        | [] => [[c]]
        | line :: rest => (c :: line) :: rest

/-- The lines with a newline behind each. -/
def unlines (ls : List Text) : Text := ls.flatMap (· ++ ['\n'])

theorem lines_append (line rest : Text) (whole : '\n' ∉ line) :
    lines (line ++ '\n' :: rest) = line :: lines rest := by
  induction line with
  | nil => rw [List.nil_append, lines, if_pos rfl]
  | cons c line ih =>
      rw [List.mem_cons, not_or] at whole
      rw [List.cons_append, lines, if_neg (Ne.symm whole.1), ih whole.2]

theorem lines_last (line : Text) (whole : '\n' ∉ line) (nonempty : line ≠ []) :
    lines line = [line] := by
  induction line with
  | nil => exact absurd rfl nonempty
  | cons c line ih =>
      rw [List.mem_cons, not_or] at whole
      rw [lines, if_neg (Ne.symm whole.1)]
      cases line with
      | nil => rfl
      | cons d line => rw [ih whole.2 (List.cons_ne_nil d line)]

theorem lines_unlines_append (ls : List Text) (rest : Text) (whole : ∀ line ∈ ls, '\n' ∉ line) :
    lines (unlines ls ++ rest) = ls ++ lines rest := by
  induction ls with
  | nil => rfl
  | cons line ls ih =>
      rw [List.forall_mem_cons] at whole
      have split : unlines (line :: ls) ++ rest = line ++ '\n' :: (unlines ls ++ rest) := by
        simp [unlines]
      rw [split, lines_append line _ whole.1, ih whole.2, List.cons_append]

theorem lines_unlines (ls : List Text) (whole : ∀ line ∈ ls, '\n' ∉ line) :
    lines (unlines ls) = ls := by
  have all := lines_unlines_append ls [] whole
  rwa [List.append_nil, lines, List.append_nil] at all

/-! ## Words -/

theorem takeWhile_append {p : Char → Bool} (t rest : Text) (all : ∀ c ∈ t, p c = true)
    (stop : ∀ c ∈ rest.head?, p c = false) : (t ++ rest).takeWhile p = t := by
  rw [List.takeWhile_append_of_pos all]
  cases rest with
  | nil => exact List.append_nil t
  | cons c rest => rw [List.takeWhile_cons_of_neg (by simp [stop c rfl]), List.append_nil]

theorem dropWhile_append {p : Char → Bool} (t rest : Text) (all : ∀ c ∈ t, p c = true)
    (stop : ∀ c ∈ rest.head?, p c = false) : (t ++ rest).dropWhile p = rest := by
  rw [List.dropWhile_append_of_pos all]
  cases rest with
  | nil => rfl
  | cons c rest => rw [List.dropWhile_cons_of_neg (by simp [stop c rfl])]

theorem length_dropWhile_le (p : Char → Bool) (t : Text) : (t.dropWhile p).length ≤ t.length :=
  (List.dropWhile_sublist p).length_le

/-- The words between delimiters. -/
def split (delim : Char → Bool) (t : Text) : List Text :=
  match _found : t.dropWhile delim with
  | [] => []
  | c :: rest =>
      (c :: rest.takeWhile fun d => !delim d) :: split delim (rest.dropWhile fun d => !delim d)
termination_by t.length
decreasing_by
  have shorter := length_dropWhile_le (fun d => !delim d) rest
  have whole := length_dropWhile_le delim t
  rw [_found, List.length_cons] at whole
  omega

theorem split_blank {delim : Char → Bool} {t : Text} (blank : t.dropWhile delim = []) :
    split delim t = [] := by
  rw [split]
  split
  · rfl
  · rename_i found
    rw [blank] at found
    cases found

theorem split_found {delim : Char → Bool} {t : Text} {c : Char} {rest : Text}
    (found : t.dropWhile delim = c :: rest) :
    split delim t =
      (c :: rest.takeWhile fun d => !delim d) ::
        split delim (rest.dropWhile fun d => !delim d) := by
  rw [split]
  split
  · rename_i blank
    rw [found] at blank
    cases blank
  · rename_i found'
    rw [found] at found'
    obtain ⟨rfl, rfl⟩ := List.cons.inj found'
    rfl

theorem split_nil (delim : Char → Bool) : split delim [] = [] := split_blank rfl

theorem split_delim {delim : Char → Bool} {c : Char} (skipped : delim c = true) (t : Text) :
    split delim (c :: t) = split delim t := by
  have same : (c :: t).dropWhile delim = t.dropWhile delim := List.dropWhile_cons_of_pos skipped
  cases found : t.dropWhile delim with
  | nil => rw [split_blank found, split_blank (same.trans found)]
  | cons d rest => rw [split_found found, split_found (same.trans found)]

theorem split_word {delim : Char → Bool} {word : Text} (nonempty : word ≠ [])
    (inner : ∀ c ∈ word, delim c = false) (rest : Text)
    (stop : ∀ c ∈ rest.head?, delim c = true) :
    split delim (word ++ rest) = word :: split delim rest := by
  cases word with
  | nil => exact absurd rfl nonempty
  | cons c word =>
      rw [List.forall_mem_cons] at inner
      have found : (c :: word ++ rest).dropWhile delim = c :: (word ++ rest) :=
        List.dropWhile_cons_of_neg (by simp [inner.1])
      have all : ∀ d ∈ word, (!delim d) = true := fun d member => by simp [inner.2 d member]
      have stop' : ∀ d ∈ rest.head?, (!delim d) = false := fun d first => by simp [stop d first]
      rw [split_found found, takeWhile_append word rest all stop',
        dropWhile_append word rest all stop']

/-! ## Decimal numbers -/

def decimal (n : Nat) : Text := Nat.toDigits 10 n

def decimalInt : Int → Text
  | .ofNat n => decimal n
  | .negSucc n => '-' :: decimal (n + 1)

/-- The longest run of digits in front, and what follows it. -/
def takeDigits (t : Text) : Text × Text := (t.takeWhile Char.isDigit, t.dropWhile Char.isDigit)

def Digits (t : Text) : Prop := ∀ c ∈ t, c.isDigit = true

instance (t : Text) : Decidable (Digits t) := inferInstanceAs (Decidable (∀ c ∈ t, _))

theorem digit_not_space {c : Char} (digit : c.isDigit = true) : isSpace c = false := by
  have range : 48 ≤ c.toNat ∧ c.toNat ≤ 57 := Char.isDigit_iff_toNat.mp digit
  have other : c ≠ ' ' := by
    rintro rfl
    exact absurd digit (by decide)
  simp only [isSpace, other, decide_false, Bool.false_or, Bool.and_eq_false_iff,
    decide_eq_false_iff_not]
  omega

theorem space_not_digit {c : Char} (space : isSpace c = true) : c.isDigit = false := by
  cases digit : c.isDigit with
  | false => rfl
  | true =>
      rw [digit_not_space digit] at space
      cases space

theorem Digits.solid {t : Text} (digits : Digits t) : Solid t :=
  fun c member => digit_not_space (digits c member)

theorem Ended.digit_stops {t : Text} (ended : Ended t) : ∀ c ∈ t.head?, c.isDigit = false :=
  fun c first => space_not_digit (ended c first)

theorem decimal_digits (n : Nat) : Digits (decimal n) := fun _ member =>
  Nat.isDigit_of_mem_toDigits (by decide) (by decide) member

theorem decimal_ne_nil (n : Nat) : decimal n ≠ [] := Nat.toDigits_ne_nil

theorem ofDigitChars_decimal (n : Nat) : Nat.ofDigitChars 10 (decimal n) 0 = n :=
  Nat.ofDigitChars_ten_toDigits

theorem decimal_head {n : Nat} (positive : 0 < n) : (decimal n).head? ≠ some '0' := by
  induction n using Nat.strongRecOn with
  | ind n ih =>
      by_cases small : n < 10
      · rw [decimal, Nat.toDigits_of_lt_base small]
        intro same
        have value := Nat.toNat_digitChar_sub_48_of_lt_ten small
        rw [Option.some.inj same] at value
        exact absurd value (Nat.ne_of_lt positive)
      · have large := Nat.le_of_not_lt small
        have lower : n / 10 < n := Nat.div_lt_self positive (by decide)
        rw [decimal, Nat.toDigits_of_base_le (by decide) large,
          List.head?_append_of_ne_nil _ Nat.toDigits_ne_nil]
        exact ih (n / 10) lower (Nat.div_pos large (by decide))

theorem decimalInt_solid (i : Int) : Solid (decimalInt i) := by
  cases i with
  | ofNat n => exact (decimal_digits n).solid
  | negSucc n => exact (decimal_digits (n + 1)).solid.cons rfl

theorem decimalInt_ne_nil (i : Int) : decimalInt i ≠ [] := by
  cases i with
  | ofNat n => exact decimal_ne_nil n
  | negSucc n => exact List.cons_ne_nil _ _

theorem takeDigits_append {t rest : Text} (digits : Digits t)
    (stop : ∀ c ∈ rest.head?, c.isDigit = false) : takeDigits (t ++ rest) = (t, rest) := by
  rw [takeDigits, takeWhile_append t rest digits stop, dropWhile_append t rest digits stop]

/-! ## Numbers with a point -/

/-- A token for a number: sign, digits, the digits behind the point, and the exponent with the
    letter in front and its own sign. -/
structure Number where
  sign : Text
  whole : Text
  point : Option Text
  exponent : Option (Char × Text × Text)
  deriving DecidableEq

def isSign (t : Text) : Bool := t = [] || t = ['+'] || t = ['-']

namespace Number

def pointChars (point : Option Text) : Text := point.elim [] ('.' :: ·)

def exponentChars (exponent : Option (Char × Text × Text)) : Text :=
  exponent.elim [] fun e => e.1 :: (e.2.1 ++ e.2.2)

def chars (x : Number) : Text :=
  x.sign ++ (x.whole ++ (pointChars x.point ++ exponentChars x.exponent))

/-- There is a digit in front of the exponent. -/
def Mantissa (whole : Text) (point : Option Text) : Prop := whole ≠ [] ∨ point.getD [] ≠ []

instance (whole : Text) (point : Option Text) : Decidable (Mantissa whole point) :=
  inferInstanceAs (Decidable (_ ∨ _))

/-- A letter, perhaps a sign, and digits. -/
def Power (e : Char × Text × Text) : Prop :=
  (e.1 = 'e' ∨ e.1 = 'E') ∧ isSign e.2.1 = true ∧ Digits e.2.2 ∧ e.2.2 ≠ []

structure WellFormed (x : Number) : Prop where
  sign : isSign x.sign = true
  whole : Digits x.whole
  point : ∀ digits ∈ x.point, Digits digits
  mantissa : Mantissa x.whole x.point
  exponent : ∀ e ∈ x.exponent, Power e

end Number

def takeSign : Text → Text × Text
  | '+' :: t => (['+'], t)
  | '-' :: t => (['-'], t)
  | t => ([], t)

def takePoint : Text → Option Text × Text
  | '.' :: t => (some (takeDigits t).1, (takeDigits t).2)
  | t => (none, t)

def takeExponent : Text → Option (Char × Text × Text) × Text
  | c :: t =>
      if c = 'e' ∨ c = 'E' then
        let (sign, t) := takeSign t
        let (digits, t) := takeDigits t
        (some (c, sign, digits), t)
      else
        (none, c :: t)
  | [] => (none, [])

/-- The longest prefix that can be a number, and what follows it. -/
def takeNumber (t : Text) : Number × Text :=
  let (sign, t) := takeSign t
  let (whole, t) := takeDigits t
  let (point, t) := takePoint t
  let (exponent, t) := if Number.Mantissa whole point then takeExponent t else (none, t)
  (⟨sign, whole, point, exponent⟩, t)

/-- What can follow a number: none of its characters. -/
structure Stops (t : Text) : Prop where
  sign : ∀ c ∈ t.head?, c ≠ '+' ∧ c ≠ '-'
  digit : ∀ c ∈ t.head?, c.isDigit = false
  point : ∀ c ∈ t.head?, c ≠ '.'
  exponent : ∀ c ∈ t.head?, c ≠ 'e' ∧ c ≠ 'E'

theorem Ended.stops {t : Text} (ended : Ended t) : Stops t := by
  have apart : ∀ c ∈ t.head?, ∀ d, isSpace d = false → c ≠ d := by
    intro c first d other same
    rw [← same, ended c first] at other
    cases other
  exact {
    sign := fun c first => ⟨apart c first '+' rfl, apart c first '-' rfl⟩
    digit := ended.digit_stops
    point := fun c first => apart c first '.' rfl
    exponent := fun c first => ⟨apart c first 'e' rfl, apart c first 'E' rfl⟩ }

theorem takeSign_none {t : Text} (stop : ∀ c ∈ t.head?, c ≠ '+' ∧ c ≠ '-') :
    takeSign t = ([], t) := by
  unfold takeSign
  split
  · exact absurd rfl (stop '+' rfl).1
  · exact absurd rfl (stop '-' rfl).2
  · rfl

theorem takeSign_append {sign t : Text} (isOne : isSign sign = true)
    (stop : ∀ c ∈ t.head?, c ≠ '+' ∧ c ≠ '-') : takeSign (sign ++ t) = (sign, t) := by
  simp only [isSign, Bool.or_eq_true, decide_eq_true_eq] at isOne
  obtain (rfl | rfl) | rfl := isOne
  · exact takeSign_none stop
  · rfl
  · rfl

theorem digit_not_sign {c : Char} (digit : c.isDigit = true) : c ≠ '+' ∧ c ≠ '-' := by
  constructor <;>
  · rintro rfl
    exact absurd digit (by decide)

theorem takePoint_none {t : Text} (stop : ∀ c ∈ t.head?, c ≠ '.') : takePoint t = (none, t) := by
  unfold takePoint
  split
  · exact absurd rfl (stop '.' rfl)
  · rfl

theorem takePoint_append {point : Option Text} (behind : ∀ digits ∈ point, Digits digits) {t : Text}
    (digit : ∀ c ∈ t.head?, c.isDigit = false) (dot : ∀ c ∈ t.head?, c ≠ '.') :
    takePoint (Number.pointChars point ++ t) = (point, t) := by
  cases point with
  | none => exact takePoint_none dot
  | some ds =>
      change takePoint ('.' :: (ds ++ t)) = (some ds, t)
      rw [takePoint, takeDigits_append (behind ds rfl) digit]

theorem takeExponent_none {t : Text} (stop : ∀ c ∈ t.head?, c ≠ 'e' ∧ c ≠ 'E') :
    takeExponent t = (none, t) := by
  cases t with
  | nil => rfl
  | cons c t => rw [takeExponent, if_neg (not_or.mpr (stop c rfl))]

theorem digits_first {ds t : Text} (digits : Digits ds) (nonempty : ds ≠ []) :
    ∀ c ∈ (ds ++ t).head?, c.isDigit = true := by
  intro c first
  cases ds with
  | nil => exact absurd rfl nonempty
  | cons d ds =>
      obtain rfl := Option.some.inj first
      exact digits d List.mem_cons_self

theorem takeExponent_append {exponent : Option (Char × Text × Text)}
    (raised : ∀ e ∈ exponent, Number.Power e) {t : Text} (stops : Stops t) :
    takeExponent (Number.exponentChars exponent ++ t) = (exponent, t) := by
  cases exponent with
  | none => exact takeExponent_none stops.exponent
  | some e =>
      obtain ⟨mark, sign, digits, nonempty⟩ := raised e rfl
      have first : ∀ c ∈ (e.2.2 ++ t).head?, c ≠ '+' ∧ c ≠ '-' := fun c head =>
        digit_not_sign (digits_first digits nonempty c head)
      have shape : Number.exponentChars (some e) ++ t = e.1 :: (e.2.1 ++ (e.2.2 ++ t)) := by
        simp [Number.exponentChars]
      rw [shape, takeExponent, if_pos mark, takeSign_append sign first]
      dsimp only
      rw [takeDigits_append digits stops.digit]

/-- What stands behind the digits of a number is none of the signs and digits. -/
theorem exponent_first {exponent : Option (Char × Text × Text)}
    (raised : ∀ e ∈ exponent, Number.Power e) {t : Text} (stops : Stops t) :
    ∀ c ∈ (Number.exponentChars exponent ++ t).head?,
      (c ≠ '+' ∧ c ≠ '-') ∧ c.isDigit = false ∧ c ≠ '.' := by
  intro c first
  cases exponent with
  | none => exact ⟨stops.sign c first, stops.digit c first, stops.point c first⟩
  | some e =>
      obtain rfl := Option.some.inj first
      cases (raised e rfl).1 with
      | inl small => rw [small]; decide
      | inr large => rw [large]; decide

theorem point_first {point : Option Text} {t : Text}
    (stop : ∀ c ∈ t.head?, (c ≠ '+' ∧ c ≠ '-') ∧ c.isDigit = false ∧ c ≠ '.') :
    ∀ c ∈ (Number.pointChars point ++ t).head?, (c ≠ '+' ∧ c ≠ '-') ∧ c.isDigit = false := by
  intro c first
  cases point with
  | none => exact ⟨(stop c first).1, (stop c first).2.1⟩
  | some ds =>
      obtain rfl := Option.some.inj first
      decide

theorem takeNumber_append {x : Number} (formed : x.WellFormed) {t : Text} (ended : Ended t) :
    takeNumber (x.chars ++ t) = (x, t) := by
  obtain ⟨sign, digits, behind, mantissa, raised⟩ := formed
  let tail := Number.exponentChars x.exponent ++ t
  let middle := Number.pointChars x.point ++ tail
  have tail_stops := exponent_first raised ended.stops
  have middle_stops : ∀ c ∈ middle.head?, (c ≠ '+' ∧ c ≠ '-') ∧ c.isDigit = false :=
    point_first tail_stops
  have first : ∀ c ∈ (x.whole ++ middle).head?, c ≠ '+' ∧ c ≠ '-' := by
    intro c head
    by_cases empty : x.whole = []
    · rw [empty] at head
      exact (middle_stops c head).1
    · exact digit_not_sign (digits_first digits empty c head)
  have shape : x.chars ++ t = x.sign ++ (x.whole ++ middle) := by
    simp [Number.chars, middle, tail]
  have point : takePoint middle = (x.point, tail) :=
    takePoint_append behind (fun c head => (tail_stops c head).2.1)
      fun c head => (tail_stops c head).2.2
  have exponent : takeExponent tail = (x.exponent, t) := takeExponent_append raised ended.stops
  rw [shape, takeNumber, takeSign_append sign first]
  dsimp only
  rw [takeDigits_append digits fun c head => (middle_stops c head).2]
  dsimp only
  rw [point]
  dsimp only
  rw [if_pos mantissa, exponent]

theorem sign_solid {sign : Text} (isOne : isSign sign = true) : Solid sign := by
  simp only [isSign, Bool.or_eq_true, decide_eq_true_eq] at isOne
  obtain (rfl | rfl) | rfl := isOne
  · exact solid_nil
  · exact solid_nil.cons rfl
  · exact solid_nil.cons rfl

theorem Number.WellFormed.solid {x : Number} (formed : x.WellFormed) : Solid x.chars := by
  obtain ⟨sign, digits, behind, -, raised⟩ := formed
  have point : Solid (pointChars x.point) := by
    cases split : x.point with
    | none => exact solid_nil
    | some ds => exact (behind ds split).solid.cons rfl
  have exponent : Solid (exponentChars x.exponent) := by
    cases split : x.exponent with
    | none => exact solid_nil
    | some e =>
        obtain ⟨mark, power, many, -⟩ := raised e split
        have letter : isSpace e.1 = false := by
          cases mark with
          | inl small => rw [small]; rfl
          | inr large => rw [large]; rfl
        exact ((sign_solid power).append many.solid).cons letter
  exact (sign_solid sign).append (digits.solid.append (point.append exponent))

theorem Number.WellFormed.chars_ne_nil {x : Number} (formed : x.WellFormed) : x.chars ≠ [] := by
  intro empty
  simp only [chars, List.append_eq_nil_iff] at empty
  obtain ⟨-, whole, point, -⟩ := empty
  cases formed.mantissa with
  | inl digits => exact digits whole
  | inr digits =>
      cases split : x.point with
      | none =>
          rw [split] at digits
          exact digits rfl
      | some ds =>
          rw [split] at point
          cases point

/-! ## Streams -/

/-- What is left to read, and whether reading has failed. -/
structure Stream where
  rest : Text
  failed : Bool
  deriving DecidableEq

def Stream.of (t : Text) : Stream := ⟨t, false⟩

/-- `>>` into a variable: spaces are skipped first, and a stream that has failed or has come to
    its end leaves the variable as it was. -/
def extract (read : Text → α × Stream) (s : Stream) (old : α) : α × Stream :=
  if s.failed then
    (old, s)
  else
    match s.rest.dropWhile isSpace with
    | [] => (old, ⟨[], true⟩)
    | c :: t => read (c :: t)

/-- Any character is a character. -/
def readChar : Text → Char × Stream
  | [] => ('\x00', ⟨[], true⟩)
  | c :: t => (c, .of t)

/-- A number below a bound. Nothing but digits is needed, and a minus in front of them counts
    backwards from the bound; too large a number sets the largest one. -/
def readUnsigned (bound : Nat) (t : Text) : Nat × Stream :=
  let (sign, t) := takeSign t
  let (digits, t) := takeDigits t
  let n := Nat.ofDigitChars 10 digits 0
  if digits = [] then
    (0, ⟨t, true⟩)
  else if bound ≤ n then
    (bound - 1, ⟨t, true⟩)
  else
    (if sign = ['-'] then (bound - n) % bound else n, .of t)

/-- A number from `-bound` up to but not including `bound`. -/
def readSigned (bound : Nat) (t : Text) : Int × Stream :=
  let (sign, t) := takeSign t
  let (digits, t) := takeDigits t
  let n := Nat.ofDigitChars 10 digits 0
  if digits = [] then
    (0, ⟨t, true⟩)
  else if sign = ['-'] then
    if n ≤ bound then (-n, .of t) else (-bound, ⟨t, true⟩)
  else
    if n < bound then (n, .of t) else (bound - 1, ⟨t, true⟩)

/-- A number with a point, of which `value` tells the value. -/
def readNumber (value : Number → Rat) (t : Text) : Rat × Stream :=
  let (x, t) := takeNumber t
  if Number.Mantissa x.whole x.point ∧ ∀ e ∈ x.exponent, e.2.2 ≠ [] then
    (value x, .of t)
  else
    (0, ⟨t, true⟩)

theorem extract_solid (read : Text → α × Stream) {c : Char} (solid : isSpace c = false) (t : Text)
    (old : α) : extract read (.of (c :: t)) old = read (c :: t) := by
  have kept : (c :: t).dropWhile isSpace = c :: t := List.dropWhile_cons_of_neg (by simp [solid])
  simp only [extract, Stream.of, Bool.false_eq_true, if_false, kept]

theorem extract_space (read : Text → α × Stream) (t : Text) (old : α) :
    extract read (.of (' ' :: t)) old = extract read (.of t) old := by
  have skipped : (' ' :: t).dropWhile isSpace = t.dropWhile isSpace :=
    List.dropWhile_cons_of_pos rfl
  simp only [extract, Stream.of, Bool.false_eq_true, if_false, skipped]

theorem extract_token (read : Text → α × Stream) {token : Text} (solid : Solid token)
    (nonempty : token ≠ []) (t : Text) (old : α) :
    extract read (.of (token ++ t)) old = read (token ++ t) := by
  cases token with
  | nil => exact absurd rfl nonempty
  | cons c token => exact extract_solid read (solid c List.mem_cons_self) _ old

/-- A token behind a space is read as it is read by itself. -/
theorem extract_field {read : Text → α × Stream} {token rest : Text} {x : α} (solid : Solid token)
    (nonempty : token ≠ []) (reads : read (token ++ rest) = (x, .of rest)) (old : α) :
    extract read (.of (' ' :: (token ++ rest))) old = (x, .of rest) := by
  rw [extract_space, extract_token read solid nonempty, reads]

theorem takeSign_digits {ds : Text} (digits : Digits ds) (nonempty : ds ≠ []) (t : Text) :
    takeSign (ds ++ t) = ([], ds ++ t) :=
  takeSign_none fun c head => digit_not_sign (digits_first digits nonempty c head)

theorem readUnsigned_decimal {bound n : Nat} (below : n < bound) {t : Text} (ended : Ended t) :
    readUnsigned bound (decimal n ++ t) = (n, .of t) := by
  rw [readUnsigned, takeSign_digits (decimal_digits n) (decimal_ne_nil n)]
  dsimp only
  rw [takeDigits_append (decimal_digits n) ended.digit_stops]
  dsimp only
  rw [ofDigitChars_decimal, if_neg (decimal_ne_nil n), if_neg (Nat.not_le_of_lt below),
    if_neg (by decide)]

theorem readSigned_decimal {bound : Nat} {i : Int} (above : -bound ≤ i) (below : i < bound)
    {t : Text} (ended : Ended t) : readSigned bound (decimalInt i ++ t) = (i, .of t) := by
  cases i with
  | ofNat n =>
      have small : n < bound := Int.ofNat_lt.mp below
      rw [decimalInt, readSigned, takeSign_digits (decimal_digits n) (decimal_ne_nil n)]
      dsimp only
      rw [takeDigits_append (decimal_digits n) ended.digit_stops]
      dsimp only
      rw [ofDigitChars_decimal, if_neg (decimal_ne_nil n), if_neg (by decide), if_pos small]
      rfl
  | negSucc n =>
      have small : n + 1 ≤ bound := by omega
      have negative : takeSign (decimalInt (.negSucc n) ++ t) = (['-'], decimal (n + 1) ++ t) := rfl
      rw [readSigned, negative]
      dsimp only
      rw [takeDigits_append (decimal_digits (n + 1)) ended.digit_stops]
      dsimp only
      rw [ofDigitChars_decimal, if_neg (decimal_ne_nil (n + 1)), if_pos rfl, if_pos small]
      rfl

theorem readNumber_chars (value : Number → Rat) {x : Number} (formed : x.WellFormed) {t : Text}
    (ended : Ended t) : readNumber value (x.chars ++ t) = (value x, .of t) := by
  rw [readNumber, takeNumber_append formed ended]
  dsimp only
  rw [if_pos ⟨formed.mantissa, fun e raised => (formed.exponent e raised).2.2.2⟩]

/-! ## Fixed widths -/

def readU16 (t : Text) : UInt16 × Stream := Prod.map UInt16.ofNat id (readUnsigned UInt16.size t)

def readU32 (t : Text) : UInt32 × Stream := Prod.map UInt32.ofNat id (readUnsigned UInt32.size t)

def readI32 (t : Text) : Int32 × Stream := Prod.map Int32.ofInt id (readSigned 2147483648 t)

theorem readU16_decimal (x : UInt16) {t : Text} (ended : Ended t) :
    readU16 (decimal x.toNat ++ t) = (x, .of t) := by
  rw [readU16, readUnsigned_decimal x.toNat_lt_size ended, Prod.map, UInt16.ofNat_toNat]
  rfl

theorem readU32_decimal (x : UInt32) {t : Text} (ended : Ended t) :
    readU32 (decimal x.toNat ++ t) = (x, .of t) := by
  rw [readU32, readUnsigned_decimal x.toNat_lt_size ended, Prod.map, UInt32.ofNat_toNat]
  rfl

theorem readI32_decimal (x : Int32) {t : Text} (ended : Ended t) :
    readI32 (decimalInt x.toInt ++ t) = (x, .of t) := by
  rw [readI32, readSigned_decimal x.le_toInt x.toInt_lt ended, Prod.map, Int32.ofInt_toInt]
  rfl

/-- A byte as a character, and back. -/
def byteChar (x : Int8) : Char := Char.ofNat x.toUInt8.toNat

def charByte (c : Char) : Int8 := (UInt8.ofNat c.toNat).toInt8

def readI8 (t : Text) : Int8 × Stream := Prod.map charByte id (readChar t)

/-- How real numbers are printed and read: each as one token. -/
structure RealFormat where
  print : Rat → Number
  value : Number → Rat
  formed : ∀ x, (print x).WellFormed

end Text

end Cors
