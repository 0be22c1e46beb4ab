import Mathlib.Data.List.Basic
import Mathlib.Logic.Equiv.Defs
import Mathlib.Tactic.Ring

/-! # Fixed-width byte formats

A `ByteFormat` is an exact correspondence between the values of a type and the
byte strings of one fixed length: what `memcpy` of a scalar or of a padding-free
struct does in both directions. Formats compose by concatenation, so the format
of a struct is assembled from the formats of its members.
-/

namespace Cors

abbrev Bytes := List UInt8

/-- The `width` low-order base-256 digits of `n`, least significant first. -/
def natLE : Nat → Nat → Bytes
  | 0, _ => []
  | width + 1, n => UInt8.ofNat n :: natLE width (n / 256)

/-- The number whose base-256 digits are the bytes, least significant first. -/
def ofLE : Bytes → Nat
  | [] => 0
  | b :: bs => b.toNat + 256 * ofLE bs

@[simp] theorem natLE_length (width n : Nat) : (natLE width n).length = width := by
  induction width generalizing n with
  | zero => rfl
  | succ width ih => simp only [natLE, List.length_cons, ih]

theorem ofLE_lt (l : Bytes) : ofLE l < 256 ^ l.length := by
  induction l with
  | nil => simp [ofLE]
  | cons b bs ih =>
      have small : b.toNat < 256 := b.toNat_lt
      simp only [ofLE, List.length_cons, pow_succ]
      omega

theorem ofLE_natLE (width n : Nat) : ofLE (natLE width n) = n % 256 ^ width := by
  induction width generalizing n with
  | zero => simp [natLE, ofLE, Nat.mod_one]
  | succ width ih =>
      have digit : (UInt8.ofNat n).toNat = n % 256 := UInt8.toNat_ofNat'
      rw [natLE, ofLE, ih, digit, pow_succ', Nat.mod_mul]

theorem natLE_ofLE {width : Nat} {l : Bytes} (full : l.length = width) :
    natLE width (ofLE l) = l := by
  induction l generalizing width with
  | nil => subst full; rfl
  | cons b bs ih =>
      subst full
      have small : b.toNat < 256 := b.toNat_lt
      have digit : (b.toNat + 256 * ofLE bs) / 256 = ofLE bs := by omega
      have head : UInt8.ofNat (b.toNat + 256 * ofLE bs) = b := by
        apply UInt8.toNat_inj.mp
        rw [UInt8.toNat_ofNat']
        omega
      simp only [List.length_cons, ofLE, natLE, digit, head, ih rfl]

theorem ofLE_append (l r : Bytes) : ofLE (l ++ r) = ofLE l + 256 ^ l.length * ofLE r := by
  induction l with
  | nil => simp [ofLE]
  | cons b bs ih =>
      simp only [List.cons_append, ofLE, ih, List.length_cons, pow_succ]
      ring

/-- The bytes of one type of value, all of the same length. -/
structure ByteFormat (α : Type) where
  width : Nat
  encode : α → Bytes
  decode : Bytes → α
  encode_length : ∀ x, (encode x).length = width
  decode_encode : ∀ x, decode (encode x) = x
  encode_decode : ∀ l, l.length = width → encode (decode l) = l

namespace ByteFormat

attribute [simp] encode_length decode_encode

theorem decode_injective (f : ByteFormat α) {l r : Bytes}
    (hl : l.length = f.width) (hr : r.length = f.width)
    (same : f.decode l = f.decode r) : l = r := by
  rw [← f.encode_decode l hl, ← f.encode_decode r hr, same]

theorem encode_injective (f : ByteFormat α) {x y : α} (same : f.encode x = f.encode y) : x = y := by
  rw [← f.decode_encode x, ← f.decode_encode y, same]

/-- Two members laid out one after the other. -/
def seq (f : ByteFormat α) (g : ByteFormat β) : ByteFormat (α × β) where
  width := f.width + g.width
  encode x := f.encode x.1 ++ g.encode x.2
  decode l := (f.decode (l.take f.width), g.decode (l.drop f.width))
  encode_length x := by simp only [List.length_append, encode_length]
  decode_encode x := by
    have cut := f.encode_length x.1
    simp only [List.take_left' cut, List.drop_left' cut, decode_encode]
  encode_decode l full := by
    have left : (l.take f.width).length = f.width := by
      rw [List.length_take]
      omega
    have right : (l.drop f.width).length = g.width := by
      rw [List.length_drop]
      omega
    simp only [f.encode_decode _ left, g.encode_decode _ right, List.take_append_drop]

/-- The same bytes read as another type. -/
def via (f : ByteFormat α) (e : α ≃ β) : ByteFormat β where
  width := f.width
  encode x := f.encode (e.symm x)
  decode l := e (f.decode l)
  encode_length x := f.encode_length _
  decode_encode x := by simp only [decode_encode, Equiv.apply_symm_apply]
  encode_decode l full := by simp only [Equiv.symm_apply_apply, f.encode_decode l full]

@[simp] theorem seq_width (f : ByteFormat α) (g : ByteFormat β) :
    (f.seq g).width = f.width + g.width := rfl

@[simp] theorem via_width (f : ByteFormat α) (e : α ≃ β) : (f.via e).width = f.width := rfl

def u8 : ByteFormat UInt8 where
  width := 1
  encode x := natLE 1 x.toNat
  decode l := UInt8.ofNat (ofLE l)
  encode_length x := natLE_length 1 _
  decode_encode x := by
    have bound : x.toNat < 256 ^ 1 := x.toNat_lt
    rw [ofLE_natLE, Nat.mod_eq_of_lt bound, UInt8.ofNat_toNat]
  encode_decode l full := by
    have bound := ofLE_lt l
    rw [full] at bound
    rw [UInt8.toNat_ofNat_of_lt' bound, natLE_ofLE full]

def u16 : ByteFormat UInt16 where
  width := 2
  encode x := natLE 2 x.toNat
  decode l := UInt16.ofNat (ofLE l)
  encode_length x := natLE_length 2 _
  decode_encode x := by
    have bound : x.toNat < 256 ^ 2 := x.toNat_lt
    rw [ofLE_natLE, Nat.mod_eq_of_lt bound, UInt16.ofNat_toNat]
  encode_decode l full := by
    have bound := ofLE_lt l
    rw [full] at bound
    rw [UInt16.toNat_ofNat_of_lt' bound, natLE_ofLE full]

def u32 : ByteFormat UInt32 where
  width := 4
  encode x := natLE 4 x.toNat
  decode l := UInt32.ofNat (ofLE l)
  encode_length x := natLE_length 4 _
  decode_encode x := by
    have bound : x.toNat < 256 ^ 4 := x.toNat_lt
    rw [ofLE_natLE, Nat.mod_eq_of_lt bound, UInt32.ofNat_toNat]
  encode_decode l full := by
    have bound := ofLE_lt l
    rw [full] at bound
    rw [UInt32.toNat_ofNat_of_lt' bound, natLE_ofLE full]

/-- Two's complement: the bytes of the unsigned value with the same bits. -/
def i8 : ByteFormat Int8 :=
  u8.via ⟨UInt8.toInt8, Int8.toUInt8, fun _ => rfl, fun _ => rfl⟩

def i32 : ByteFormat Int32 :=
  u32.via ⟨UInt32.toInt32, Int32.toUInt32, fun _ => rfl, fun _ => rfl⟩

@[simp] theorem u8_width : u8.width = 1 := rfl
@[simp] theorem i8_width : i8.width = 1 := rfl
@[simp] theorem u16_width : u16.width = 2 := rfl
@[simp] theorem u32_width : u32.width = 4 := rfl
@[simp] theorem i32_width : i32.width = 4 := rfl

theorem u8_encode (b : UInt8) : u8.encode b = [b] := by
  simp only [u8, natLE, UInt8.ofNat_toNat]

@[simp] theorem u8_decode (b : UInt8) : u8.decode [b] = b := by
  rw [← u8_encode, decode_encode]

end ByteFormat

/-! ## Host and network byte order

The host is little-endian: `hton*` reverse the bytes of a value. -/

section ByteOrder
open ByteFormat

def htons (x : UInt16) : UInt16 := u16.decode (u16.encode x).reverse
def htonl (x : UInt32) : UInt32 := u32.decode (u32.encode x).reverse
def ntohs (x : UInt16) : UInt16 := htons x
def ntohl (x : UInt32) : UInt32 := htonl x

@[simp] theorem u16_encode_htons (x : UInt16) :
    u16.encode (htons x) = (u16.encode x).reverse :=
  u16.encode_decode _ (by simp)

@[simp] theorem u32_encode_htonl (x : UInt32) :
    u32.encode (htonl x) = (u32.encode x).reverse :=
  u32.encode_decode _ (by simp)

@[simp] theorem ntohs_htons (x : UInt16) : ntohs (htons x) = x :=
  u16.encode_injective (by simp [ntohs])

@[simp] theorem ntohl_htonl (x : UInt32) : ntohl (htonl x) = x :=
  u32.encode_injective (by simp [ntohl])

theorem ntohl_decode {l : Bytes} (full : l.length = 4) :
    ntohl (u32.decode l) = u32.decode l.reverse := by
  rw [ntohl, htonl, u32.encode_decode l full]

theorem u32_decode_toNat {l : Bytes} (full : l.length = 4) : (u32.decode l).toNat = ofLE l := by
  have bound := ofLE_lt l
  rw [full] at bound
  exact UInt32.toNat_ofNat_of_lt' bound

theorem htons_injective {x y : UInt16} (same : htons x = htons y) : x = y := by
  rw [← ntohs_htons x, ← ntohs_htons y, same]

/-- A 16-bit swap lands in the two bytes a 32-bit network-order reader takes for
    the high half. -/
theorem ntohl_htons (x : UInt16) : (ntohl (htons x).toUInt32).toNat = 65536 * x.toNat := by
  have bound : x.toNat < 256 ^ 2 := x.toNat_lt
  have digits : u32.encode (htons x).toUInt32 = (u16.encode x).reverse ++ [0, 0] := by
    have small : (htons x).toNat / 256 / 256 = 0 := by
      have := (htons x).toNat_lt
      omega
    rw [← u16_encode_htons]
    simp [u32, u16, natLE, small]
  have swapped : (u32.encode (htons x).toUInt32).reverse = [0, 0] ++ u16.encode x := by
    simp [digits]
  have value : ofLE ([0, 0] ++ u16.encode x) = 65536 * x.toNat := by
    rw [ofLE_append, u16, ofLE_natLE, Nat.mod_eq_of_lt bound]
    simp [ofLE]
  simp only [ntohl, htonl, swapped]
  simp only [u32, value]
  exact UInt32.toNat_ofNat_of_lt' (by rw [UInt32.size]; omega)

end ByteOrder

end Cors
