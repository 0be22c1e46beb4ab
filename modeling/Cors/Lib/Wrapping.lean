import Mathlib.Algebra.Ring.Nat
import Mathlib.Data.Int.Basic

/-! # Signed arithmetic in 32 bits

The operations keep the remainder of the result by the size of the word, and where the exact
result is in the range of a word it is the result.
-/

namespace Cors

namespace Wrapping

/-- An integer that a signed word holds. -/
def InRange (x : Int) : Prop := -2147483648 ≤ x ∧ x < 2147483648

variable {a b : Int32}

theorem bmod_of_inRange {x : Int} (inside : InRange x) : x.bmod (2 ^ 32) = x := by
  obtain ⟨low, high⟩ := inside
  exact Int.bmod_eq_of_le_mul_two (by omega) (by omega)

theorem sub_toInt (inside : InRange (a.toInt - b.toInt)) :
    (a - b).toInt = a.toInt - b.toInt := by
  rw [Int32.toInt_sub, bmod_of_inRange inside]

theorem add_toInt (inside : InRange (a.toInt + b.toInt)) :
    (a + b).toInt = a.toInt + b.toInt := by
  rw [Int32.toInt_add, bmod_of_inRange inside]

theorem mul_toInt (inside : InRange (a.toInt * b.toInt)) :
    (a * b).toInt = a.toInt * b.toInt := by
  rw [Int32.toInt_mul, bmod_of_inRange inside]

theorem div_toInt (dividend : 0 ≤ a.toInt) (divisor : 0 < b.toInt) :
    (a / b).toInt = a.toInt / b.toInt := by
  have other : b ≠ -1 := by
    rintro rfl
    exact absurd divisor (by decide)
  rw [Int32.toInt_div_of_ne_right a b other, Int.tdiv_eq_ediv_of_nonneg dividend]

variable (a b)

theorem sub_toInt_emod : (a - b).toInt % 4294967296 = (a.toInt - b.toInt) % 4294967296 := by
  rw [Int32.toInt_sub]
  exact Int.bmod_emod

theorem add_toInt_emod : (a + b).toInt % 4294967296 = (a.toInt + b.toInt) % 4294967296 := by
  rw [Int32.toInt_add]
  exact Int.bmod_emod

theorem mul_toInt_emod : (a * b).toInt % 4294967296 = (a.toInt * b.toInt) % 4294967296 := by
  rw [Int32.toInt_mul]
  exact Int.bmod_emod

theorem toUInt32_toNat : (a.toUInt32.toNat : Int) = a.toInt % 4294967296 := by
  have small := a.toUInt32.toNat_lt
  have signed : a.toInt = if 2 * a.toUInt32.toNat < 2 ^ 32 then (a.toUInt32.toNat : Int)
      else (a.toUInt32.toNat : Int) - (2 ^ 32 : Nat) :=
    BitVec.toInt_eq_toNat_cond a.toBitVec
  rw [signed]
  split <;> omega

end Wrapping

end Cors
