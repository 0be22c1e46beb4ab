import Mathlib.Algebra.Field.Rat
import Mathlib.Data.List.DropRight
import Mathlib.Tactic.Ring
import Cors.Lib.Fields

/-! # Numbers of limited precision

How a stream prints a floating-point number whose value is an integer: with at most a given
number of significant digits, and once the integer is too long for that, rounded and with an
exponent. What is printed has the value of the integer just in case all digits that are cut are
zeros.
-/

namespace Cors

namespace Text

open Number

/-! ## The value of a token -/

def Number.power (x : Number) : Int :=
  match x.exponent with
  | none => 0
  | some (_, sign, digits) =>
      let n : Int := Nat.ofDigitChars 10 digits 0
      if sign = ['-'] then -n else n

def signValue (sign : Text) : Rat := if sign = ['-'] then -1 else 1

def Number.value (x : Number) : Rat :=
  signValue x.sign * (Nat.ofDigitChars 10 (x.whole ++ x.point.getD []) 0 : Nat) *
    10 ^ (x.power - (x.point.getD []).length)

theorem signValue_minus (i : Int) : signValue (minus i) = if i < 0 then -1 else 1 := by
  by_cases negative : i < 0
  · simp [signValue, minus, negative]
  · simp [signValue, minus, negative]

theorem sign_mul_natAbs (i : Int) : signValue (minus i) * ((i.natAbs : Nat) : Rat) = i := by
  have natural : ((i.natAbs : Int) : Rat) = ((i.natAbs : Nat) : Rat) := Int.cast_natCast _
  rw [signValue_minus]
  by_cases negative : i < 0
  · have signed : i = -(i.natAbs : Int) := by omega
    rw [if_pos negative, neg_one_mul, ← natural, ← Int.cast_neg, ← signed]
  · have signed : i = (i.natAbs : Int) := by omega
    rw [if_neg negative, one_mul, ← natural, ← signed]

theorem ofInt_value (i : Int) : (Number.ofInt i).value = i := by
  rw [← sign_mul_natAbs i]
  simp only [Number.value, Number.power, Number.ofInt, Option.getD_none,
    List.append_nil, ofDigitChars_decimal, List.length_nil, Nat.cast_zero, sub_zero, zpow_zero,
    mul_one]

/-! ## Printing -/

/-- Division with the quotient rounded to the nearest number, and to the even one of two. -/
def roundEven (n d : Nat) : Nat :=
  if 2 * (n % d) < d ∨ 2 * (n % d) = d ∧ n / d % 2 = 0 then n / d else n / d + 1

theorem roundEven_mul_iff {n d : Nat} (positive : 0 < d) : roundEven n d * d = n ↔ d ∣ n := by
  constructor
  · intro same
    exact ⟨roundEven n d, by rw [Nat.mul_comm, same]⟩
  · intro divides
    have rest : n % d = 0 := Nat.mod_eq_zero_of_dvd divides
    have down : 2 * (n % d) < d ∨ 2 * (n % d) = d ∧ n / d % 2 = 0 := .inl (by omega)
    rw [roundEven, if_pos down, Nat.div_mul_cancel divides]

theorem roundEven_one (n : Nat) : roundEven n 1 = n := by
  rw [← Nat.mul_one (roundEven n 1)]
  exact (roundEven_mul_iff Nat.one_pos).mpr (Nat.one_dvd n)

/-- At least two digits. -/
def exponentDigits (k : Nat) : Text := if k < 10 then '0' :: decimal k else decimal k

/-- How many digits of a number are more than there is room for. -/
def excess (digits n : Nat) : Nat := (decimal n).length - digits

/-- An integer with the given number of significant digits. -/
def significant (digits : Nat) (v : Int) : Number :=
  if v.natAbs < 10 ^ digits then
    ⟨minus v, decimal v.natAbs, none, none⟩
  else
    let cut := excess digits v.natAbs
    let kept := decimal (roundEven v.natAbs (10 ^ cut))
    let behind := (kept.drop 1).rdropWhile (· = '0')
    ⟨minus v, kept.take 1, if behind = [] then none else some behind,
      some ('e', ['+'], exponentDigits (kept.length - 1 + cut))⟩

theorem excess_of_lt {digits n : Nat} (positive : 0 < digits) (fits : n < 10 ^ digits) :
    excess digits n = 0 := by
  have short : (decimal n).length ≤ digits :=
    (Nat.length_toDigits_le_iff (by decide) positive).mpr fits
  exact Nat.sub_eq_zero_of_le short

theorem ofDigitChars_exponentDigits (k : Nat) : Nat.ofDigitChars 10 (exponentDigits k) 0 = k := by
  unfold exponentDigits
  split
  · rw [Nat.ofDigitChars_cons]
    exact ofDigitChars_decimal k
  · exact ofDigitChars_decimal k

theorem exponentDigits_digits (k : Nat) : Digits (exponentDigits k) ∧ exponentDigits k ≠ [] := by
  unfold exponentDigits
  split
  · exact ⟨List.forall_mem_cons.mpr ⟨rfl, decimal_digits k⟩, List.cons_ne_nil _ _⟩
  · exact ⟨decimal_digits k, decimal_ne_nil k⟩

theorem ofDigitChars_rdropWhile (front back : Text) :
    Nat.ofDigitChars 10 (front ++ back) 0 =
      Nat.ofDigitChars 10 (front ++ back.rdropWhile (· = '0')) 0 *
        10 ^ (back.length - (back.rdropWhile (· = '0')).length) := by
  induction back using List.reverseRecOn with
  | nil => simp
  | append_singleton back c ih =>
      by_cases zero : c = '0'
      · subst zero
        have shorter := (List.rdropWhile_prefix (p := (· = '0')) back).length_le
        have longer : (back ++ ['0']).length - (back.rdropWhile (· = '0')).length =
            back.length - (back.rdropWhile (· = '0')).length + 1 := by
          rw [List.length_append, List.length_singleton]
          omega
        rw [List.rdropWhile_concat_pos _ _ _ (by simp), longer, pow_succ, ← mul_assoc, ← ih,
          ← List.append_assoc, Nat.ofDigitChars_append]
        have last : Nat.ofDigitChars 10 ['0'] (Nat.ofDigitChars 10 (front ++ back) 0) =
            10 ^ 1 * Nat.ofDigitChars 10 (front ++ back) 0 :=
          @Nat.ofDigitChars_replicate_zero 10 _ 1
        rw [last, pow_one, mul_comm]
      · rw [List.rdropWhile_concat_neg (fun c => decide (c = '0')) back c (by simpa using zero),
          Nat.sub_self, pow_zero, mul_one]

theorem point_getD (behind : Text) :
    (if behind = [] then none else some behind : Option Text).getD [] = behind := by
  split
  · rename_i empty
    exact empty.symm
  · rfl

theorem significant_value {digits : Nat} (positive : 0 < digits) (v : Int) :
    (significant digits v).value =
      signValue (minus v) * ((roundEven v.natAbs (10 ^ excess digits v.natAbs) *
        10 ^ excess digits v.natAbs : Nat) : Rat) := by
  unfold significant
  by_cases fits : v.natAbs < 10 ^ digits
  · rw [if_pos fits, excess_of_lt positive fits]
    simp only [Number.value, Number.power, pow_zero, roundEven_one, mul_one,
      Option.getD_none, List.append_nil, ofDigitChars_decimal, List.length_nil, Nat.cast_zero,
      sub_zero, zpow_zero]
  · rw [if_neg fits]
    dsimp only
    generalize excess digits v.natAbs = cut
    generalize roundEven v.natAbs (10 ^ cut) = m
    let kept := decimal m
    let behind := (kept.drop 1).rdropWhile (· = '0')
    have whole : kept.take 1 ++ kept.drop 1 = kept := List.take_append_drop 1 kept
    have value := ofDigitChars_rdropWhile (kept.take 1) (kept.drop 1)
    rw [whole, ofDigitChars_decimal] at value
    have shorter : behind.length ≤ (kept.drop 1).length := (List.rdropWhile_prefix _ _).length_le
    have places : (kept.drop 1).length = kept.length - 1 := List.length_drop
    have shift : ((kept.length - 1 + cut : Nat) : Int) - behind.length =
        ((kept.drop 1).length - behind.length + cut : Nat) := by
      omega
    simp only [Number.value, Number.power, point_getD, ofDigitChars_exponentDigits]
    rw [mul_assoc]
    congr 1
    change ((Nat.ofDigitChars 10 (kept.take 1 ++ behind) 0 : Nat) : Rat) *
      10 ^ (((kept.length - 1 + cut : Nat) : Int) - behind.length) = _
    rw [shift, zpow_natCast, pow_add, ← mul_assoc]
    rw [Nat.cast_mul, Nat.cast_pow, value, Nat.cast_mul, Nat.cast_pow, Nat.cast_ofNat]

/-- The integer itself is printed just in case the digits that are cut are zeros. -/
theorem significant_exact_iff {digits : Nat} (positive : 0 < digits) (v : Int) :
    (significant digits v).value = v ↔ 10 ^ excess digits v.natAbs ∣ v.natAbs := by
  rw [significant_value positive, ← roundEven_mul_iff (Nat.pow_pos (by decide))]
  generalize roundEven v.natAbs (10 ^ excess digits v.natAbs) * 10 ^ excess digits v.natAbs = m
  have signed : signValue (minus v) ≠ 0 := by
    rw [signValue_minus]
    split <;> norm_num
  rw [← sign_mul_natAbs v, mul_right_inj' signed]
  exact Nat.cast_inj

theorem take_one_ne_nil {t : Text} (nonempty : t ≠ []) : t.take 1 ≠ [] := by
  intro none
  cases List.take_eq_nil_iff.mp none with
  | inl zero => cases zero
  | inr empty => exact nonempty empty

theorem significant_formed (digits : Nat) (v : Int) : (significant digits v).WellFormed := by
  unfold significant
  split
  · refine ⟨minus_isSign v, decimal_digits _, fun _ absent => ?_, .inl (decimal_ne_nil _),
      fun _ absent => ?_⟩
    · cases absent
    · cases absent
  · dsimp only
    generalize excess digits v.natAbs = cut
    generalize roundEven v.natAbs (10 ^ cut) = m
    have shown := decimal_digits m
    refine ⟨minus_isSign v, fun c member => shown c (List.mem_of_mem_take member), ?_,
      .inl (take_one_ne_nil (decimal_ne_nil m)), ?_⟩
    · intro ds present
      split at present
      · cases present
      · obtain rfl := Option.some.inj present
        intro c member
        have inside := (List.rdropWhile_prefix _ _).subset member
        exact shown c (List.mem_of_mem_drop inside)
    · intro e present
      obtain rfl := Option.some.inj present
      exact ⟨.inl rfl, rfl, exponentDigits_digits _⟩

theorem significant_sign (digits : Nat) (v : Int) : (significant digits v).sign = minus v := by
  unfold significant
  split <;> rfl

theorem significant_whole (digits : Nat) (v : Int) : (significant digits v).whole ≠ [] := by
  unfold significant
  split
  · exact decimal_ne_nil _
  · exact take_one_ne_nil (decimal_ne_nil _)

theorem significant_head (digits : Nat) (v : Int) :
    (significant digits v).chars.head? = some '-' ↔ v < 0 := by
  rw [Number.chars, significant_sign]
  by_cases negative : v < 0
  · rw [minus, if_pos negative]
    exact iff_of_true rfl negative
  · rw [minus, if_neg negative, List.nil_append]
    refine iff_of_false (fun first => ?_) negative
    have digit := digits_first (significant_formed digits v).whole (significant_whole digits v) '-'
      first
    exact absurd digit (by decide)

/-! ## Numbers that print the same -/

theorem roundEven_mono {n n' : Nat} (d : Nat) (le : n ≤ n') : roundEven n d ≤ roundEven n' d := by
  have quotients : n / d ≤ n' / d := Nat.div_le_div_right le
  have first := Nat.div_add_mod n d
  have second := Nat.div_add_mod n' d
  simp only [roundEven]
  by_cases same : n / d = n' / d
  · rw [same] at first ⊢
    split <;> split <;> omega
  · split <;> split <;> omega

/-- The number that is shown for a natural number. -/
def rounded (digits n : Nat) : Nat := roundEven n (10 ^ excess digits n) * 10 ^ excess digits n

theorem rounded_of_lt {digits n : Nat} (positive : 0 < digits) (fits : n < 10 ^ digits) :
    rounded digits n = n := by
  rw [rounded, excess_of_lt positive fits, pow_zero, roundEven_one, Nat.mul_one]

theorem roundEven_power {cut j : Nat} (le : cut ≤ j) :
    roundEven (10 ^ j) (10 ^ cut) * 10 ^ cut = 10 ^ j :=
  (roundEven_mul_iff (Nat.pow_pos (by decide))).mpr (Nat.pow_dvd_pow 10 le)

theorem rounded_le_power {digits n j : Nat} (le : n ≤ 10 ^ j) (room : excess digits n ≤ j) :
    rounded digits n ≤ 10 ^ j := by
  rw [← roundEven_power room]
  exact Nat.mul_le_mul_right _ (roundEven_mono _ le)

theorem power_le_rounded {digits n j : Nat} (le : 10 ^ j ≤ n) (room : excess digits n ≤ j) :
    10 ^ j ≤ rounded digits n := by
  rw [← roundEven_power room]
  exact Nat.mul_le_mul_right _ (roundEven_mono _ le)

theorem decimal_length_le_iff {n k : Nat} (positive : 0 < k) :
    (decimal n).length ≤ k ↔ n < 10 ^ k :=
  Nat.length_toDigits_le_iff (by decide) positive

theorem decimal_length_pos (n : Nat) : 0 < (decimal n).length :=
  List.length_pos_of_ne_nil (decimal_ne_nil n)

theorem power_le_of_length {n k : Nat} (positive : 0 < k) (long : k < (decimal n).length) :
    10 ^ k ≤ n :=
  Nat.le_of_not_lt fun below => absurd ((decimal_length_le_iff positive).mpr below) (by omega)

theorem decimal_length_mono {n n' : Nat} (le : n ≤ n') :
    (decimal n).length ≤ (decimal n').length := by
  have room := decimal_length_pos n'
  exact (decimal_length_le_iff room).mpr
    (Nat.lt_of_le_of_lt le ((decimal_length_le_iff room).mp (Nat.le_refl _)))

/-- Rounding keeps the order, also where one number has more digits than the other. -/
theorem rounded_mono {digits n n' : Nat} (positive : 0 < digits) (le : n ≤ n') :
    rounded digits n ≤ rounded digits n' := by
  have lengths := decimal_length_mono le
  by_cases same : excess digits n = excess digits n'
  · rw [rounded, same]
    exact Nat.mul_le_mul_right _ (roundEven_mono _ le)
  · simp only [excess] at same
    have one : 0 < (decimal n').length - 1 := by omega
    have between : n < 10 ^ ((decimal n').length - 1) :=
      (decimal_length_le_iff one).mp (by omega)
    calc rounded digits n ≤ 10 ^ ((decimal n').length - 1) :=
          rounded_le_power (Nat.le_of_lt between) (by simp only [excess]; omega)
      _ ≤ rounded digits n' :=
          power_le_rounded (power_le_of_length one (by omega)) (by simp only [excess]; omega)

theorem power_le_rounded_iff {digits n : Nat} (positive : 0 < digits) :
    10 ^ digits ≤ rounded digits n ↔ 10 ^ digits ≤ n := by
  constructor
  · intro large
    by_contra small
    rw [rounded_of_lt positive (Nat.lt_of_not_le small)] at large
    exact small large
  · intro large
    have long : digits < (decimal n).length :=
      Nat.lt_of_not_le fun short => absurd ((decimal_length_le_iff positive).mp short) (by omega)
    calc 10 ^ digits ≤ 10 ^ ((decimal n).length - 1) := Nat.pow_le_pow_right (by decide) (by omega)
      _ ≤ rounded digits n :=
          power_le_rounded (power_le_of_length (by omega) (by omega)) (by simp only [excess]; omega)

theorem decimal_mul_power {m : Nat} (positive : 0 < m) (cut : Nat) :
    decimal (m * 10 ^ cut) = decimal m ++ List.replicate cut '0' := by
  induction cut with
  | zero => simp
  | succ cut ih =>
      have next : decimal (10 * (m * 10 ^ cut) + 0) = decimal (m * 10 ^ cut) ++ decimal 0 :=
        (Nat.toDigits_append_toDigits (by decide) (Nat.mul_pos positive (Nat.pow_pos (by decide)))
          (by decide)).symm
      rw [pow_succ, ← mul_assoc, Nat.mul_comm _ 10, ← Nat.add_zero (10 * _), next, ih,
        List.append_assoc, List.replicate_succ']
      rfl

theorem rdropWhile_append_zeros (t : Text) (k : Nat) :
    (t ++ List.replicate k '0').rdropWhile (· = '0') = t.rdropWhile (· = '0') := by
  induction k with
  | zero => rw [List.replicate_zero, List.append_nil]
  | succ k ih =>
      rw [List.replicate_succ', ← List.append_assoc, List.rdropWhile_concat_pos _ _ _ (by simp), ih]

/-- The digits of a number without the zeros at its end, and an exponent. -/
def scientific (sign : Text) (n : Nat) : Number :=
  let behind := ((decimal n).drop 1).rdropWhile (· = '0')
  ⟨sign, (decimal n).take 1, if behind = [] then none else some behind,
    some ('e', ['+'], exponentDigits ((decimal n).length - 1))⟩

theorem significant_eq {digits : Nat} (positive : 0 < digits) (v : Int) :
    significant digits v =
      if rounded digits v.natAbs < 10 ^ digits then
        ⟨minus v, decimal (rounded digits v.natAbs), none, none⟩
      else scientific (minus v) (rounded digits v.natAbs) := by
  have threshold := power_le_rounded_iff (n := v.natAbs) positive
  by_cases fits : v.natAbs < 10 ^ digits
  · rw [significant, if_pos fits, rounded_of_lt positive fits, if_pos fits]
  · have large := threshold.mpr (Nat.le_of_not_lt fits)
    rw [significant, if_neg fits, if_neg (Nat.not_lt.mpr large), scientific]
    dsimp only
    rw [rounded] at large ⊢
    generalize excess digits v.natAbs = cut at large ⊢
    generalize roundEven v.natAbs (10 ^ cut) = m at large ⊢
    have some : 0 < m := by
      by_contra none
      obtain rfl : m = 0 := by omega
      rw [Nat.zero_mul] at large
      exact absurd large (Nat.not_le.mpr (Nat.pow_pos (by decide)))
    have first := decimal_length_pos m
    have whole := decimal_mul_power some cut
    have head : (decimal (m * 10 ^ cut)).take 1 = (decimal m).take 1 := by
      rw [whole, List.take_append_of_le_length first]
    have tail : ((decimal (m * 10 ^ cut)).drop 1).rdropWhile (· = '0') =
        ((decimal m).drop 1).rdropWhile (· = '0') := by
      rw [whole, List.drop_append_of_le_length first, rdropWhile_append_zeros]
    have long : (decimal (m * 10 ^ cut)).length - 1 = (decimal m).length - 1 + cut := by
      rw [whole, List.length_append, List.length_replicate]
      omega
    rw [head, tail, long]

theorem rounded_of_chars {digits : Nat} (positive : 0 < digits) {v w : Int}
    (same : (significant digits v).chars = (significant digits w).chars) :
    minus v = minus w ∧ rounded digits v.natAbs = rounded digits w.natAbs := by
  have read (x : Int) : takeNumber (significant digits x).chars = (significant digits x, []) := by
    have whole := takeNumber_append (significant_formed digits x) ended_nil
    rwa [List.append_nil] at whole
  have numbers : significant digits v = significant digits w := by
    have both := (read v).symm.trans ((congrArg takeNumber same).trans (read w))
    exact congrArg Prod.fst both
  have signs : minus v = minus w := by
    rw [← significant_sign digits v, numbers, significant_sign]
  refine ⟨signs, ?_⟩
  have values := congrArg Number.value numbers
  have signed : signValue (minus w) ≠ 0 := by
    rw [signValue_minus]
    split <;> norm_num
  rw [significant_value positive, significant_value positive, signs,
    mul_right_inj' signed] at values
  exact Nat.cast_inj.mp values

/-- Between two numbers that print the same all do. -/
theorem significant_between {digits : Nat} (positive : 0 < digits) {lo v hi : Int} (above : lo ≤ v)
    (below : v ≤ hi) (same : (significant digits lo).chars = (significant digits hi).chars) :
    significant digits v = significant digits lo := by
  obtain ⟨signs, shown⟩ := rounded_of_chars positive same
  have sides : lo < 0 ↔ hi < 0 := by
    rw [← significant_head digits, same, significant_head]
  have sign : minus v = minus lo := by
    by_cases negative : lo < 0
    · rw [minus, minus, if_pos negative, if_pos (by omega)]
    · rw [minus, minus, if_neg negative, if_neg (by omega)]
  have number : rounded digits v.natAbs = rounded digits lo.natAbs := by
    by_cases negative : lo < 0
    · have upper := rounded_mono positive (by omega : v.natAbs ≤ lo.natAbs)
      have lower := rounded_mono positive (by omega : hi.natAbs ≤ v.natAbs)
      omega
    · have upper := rounded_mono positive (by omega : v.natAbs ≤ hi.natAbs)
      have lower := rounded_mono positive (by omega : lo.natAbs ≤ v.natAbs)
      omega
  rw [significant_eq positive, significant_eq positive, sign, number]

end Text

end Cors
