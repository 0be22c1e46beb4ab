import Mathlib.Tactic.Common
import Cors.Lib.Bytes

/-! # Byte memory

A buffer together with whatever stands behind it: a total function from
positions to bytes. Reading past the end of a datagram is then an ordinary read
of bytes nobody sent, and "depends on the received bytes only" is a statement
about two memories that agree on a prefix.
-/

namespace Cors

abbrev Mem := Nat → UInt8

namespace Mem

/-- The `n` bytes from `pos` on. -/
def read (m : Mem) (pos : Nat) : Nat → Bytes
  | 0 => []
  | n + 1 => m pos :: read m (pos + 1) n

/-- `memcpy(m + pos, l, |l|)`. -/
def write (m : Mem) (pos : Nat) (l : Bytes) : Mem := fun i =>
  if pos ≤ i then (l[i - pos]?).getD (m i) else m i

/-- Receiving the datagram `l` into a buffer that held `rest`. -/
def receive (rest : Mem) (l : Bytes) : Mem := rest.write 0 l

/-- `memcpy(&x, m + pos, sizeof(x))`. -/
def get (m : Mem) (f : ByteFormat α) (pos : Nat) : α := f.decode (m.read pos f.width)

/-- `memcpy(m + pos, &x, sizeof(x))`. -/
def put (m : Mem) (f : ByteFormat α) (pos : Nat) (x : α) : Mem := m.write pos (f.encode x)

@[simp] theorem read_length (m : Mem) (pos n : Nat) : (m.read pos n).length = n := by
  induction n generalizing pos with
  | zero => rfl
  | succ n ih => simp only [read, List.length_cons, ih]

theorem get_u8 (m : Mem) (pos : Nat) : m.get ByteFormat.u8 pos = m pos := ByteFormat.u8_decode _

theorem read_add (m : Mem) (pos a b : Nat) :
    m.read pos (a + b) = m.read pos a ++ m.read (pos + a) b := by
  induction a generalizing pos with
  | zero => simp only [read, Nat.zero_add, Nat.add_zero, List.nil_append]
  | succ a ih =>
      rw [Nat.succ_add, read, read, ih, List.cons_append, Nat.add_right_comm pos 1 a,
        Nat.add_assoc pos a 1]

theorem read_getElem? (m : Mem) {pos n i : Nat} (inside : i < n) :
    (m.read pos n)[i]? = some (m (pos + i)) := by
  induction n generalizing pos i with
  | zero => omega
  | succ n ih =>
      cases i with
      | zero => rfl
      | succ i =>
          rw [read, List.getElem?_cons_succ, ih (by omega), Nat.add_assoc, Nat.add_comm 1 i]

theorem read_congr {m m' : Mem} {pos n : Nat} (same : ∀ i < n, m (pos + i) = m' (pos + i)) :
    m.read pos n = m'.read pos n := by
  induction n generalizing pos with
  | zero => rfl
  | succ n ih =>
      have head : m pos = m' pos := same 0 (by omega)
      have tail : m.read (pos + 1) n = m'.read (pos + 1) n := ih fun i hi => by
        simpa only [Nat.add_assoc, Nat.add_comm 1] using same (i + 1) (by omega)
      rw [read, read, head, tail]

theorem eq_of_read_eq {m m' : Mem} {pos n i : Nat} (same : m.read pos n = m'.read pos n)
    (inside : i < n) : m (pos + i) = m' (pos + i) := by
  have at_i := congrArg (·[i]?) same
  simpa only [read_getElem? _ inside, Option.some.injEq] using at_i

theorem write_of_lt (m : Mem) {pos i : Nat} (l : Bytes) (before : i < pos) :
    m.write pos l i = m i := by
  rw [write, if_neg (by omega)]

theorem write_of_ge (m : Mem) {pos i : Nat} (l : Bytes) (after : pos + l.length ≤ i) :
    m.write pos l i = m i := by
  rw [write, List.getElem?_eq_none (by omega), Option.getD_none, ite_self]

theorem write_inside (m : Mem) {pos i : Nat} (l : Bytes) (inside : i < l.length) :
    m.write pos l (pos + i) = l[i] := by
  rw [write, if_pos (by omega), Nat.add_sub_cancel_left, List.getElem?_eq_getElem inside,
    Option.getD_some]

@[simp] theorem read_write (m : Mem) (pos : Nat) (l : Bytes) :
    (m.write pos l).read pos l.length = l := by
  apply List.ext_getElem (by simp)
  intro i _ inside
  apply Option.some.inj
  rw [← List.getElem?_eq_getElem, read_getElem? _ inside, write_inside m l inside]

theorem read_write_disjoint (m : Mem) {pos spot n : Nat} (l : Bytes)
    (apart : spot + n ≤ pos ∨ pos + l.length ≤ spot) :
    (m.write pos l).read spot n = m.read spot n := by
  apply read_congr
  intro i hi
  cases apart with
  | inl before => exact write_of_lt m l (by omega)
  | inr after => exact write_of_ge m l (by omega)

theorem get_write_disjoint (m : Mem) (g : ByteFormat α) {pos spot : Nat} (l : Bytes)
    (apart : spot + g.width ≤ pos ∨ pos + l.length ≤ spot) :
    (m.write pos l).get g spot = m.get g spot := by
  rw [get, read_write_disjoint m l apart, get]

theorem write_nil (m : Mem) (pos : Nat) : m.write pos [] = m := by
  funext i
  simp [write]

theorem write_append (m : Mem) (pos : Nat) (l r : Bytes) :
    (m.write pos l).write (pos + l.length) r = m.write pos (l ++ r) := by
  funext i
  by_cases before : i < pos
  · rw [write_of_lt _ _ (by omega), write_of_lt _ _ before, write_of_lt _ _ before]
  · by_cases first : i < pos + l.length
    · obtain ⟨j, rfl⟩ := Nat.exists_eq_add_of_le (Nat.le_of_not_lt before)
      have inside : j < l.length := by omega
      rw [write_of_lt _ _ first, write_inside m l inside,
        write_inside m (l ++ r) (by rw [List.length_append]; omega), List.getElem_append_left]
    · by_cases second : i < pos + l.length + r.length
      · obtain ⟨j, rfl⟩ := Nat.exists_eq_add_of_le (Nat.le_of_not_lt first)
        have inside : j < r.length := by omega
        have within : l.length + j < (l ++ r).length := by
          rw [List.length_append]
          omega
        have shifted : m.write pos (l ++ r) (pos + (l.length + j)) = _ := write_inside m _ within
        rw [write_inside _ r inside, Nat.add_assoc, shifted, List.getElem_append_right (by omega)]
        simp only [Nat.add_sub_cancel_left]
      · rw [write_of_ge _ _ (by omega), write_of_ge _ _ (by omega),
          write_of_ge _ _ (by rw [List.length_append]; omega)]

@[simp] theorem get_put (m : Mem) (f : ByteFormat α) (pos : Nat) (x : α) :
    (m.put f pos x).get f pos = x := by
  have exact_read := read_write m pos (f.encode x)
  rw [f.encode_length] at exact_read
  rw [get, put, exact_read, f.decode_encode]

theorem get_put_disjoint (m : Mem) (f : ByteFormat α) (g : ByteFormat β) {pos spot : Nat} (x : α)
    (apart : spot + g.width ≤ pos ∨ pos + f.width ≤ spot) :
    (m.put f pos x).get g spot = m.get g spot :=
  get_write_disjoint m g _ (by rwa [f.encode_length])

theorem get_congr {m m' : Mem} (f : ByteFormat α) {pos : Nat}
    (same : ∀ i < f.width, m (pos + i) = m' (pos + i)) : m.get f pos = m'.get f pos := by
  rw [get, get, read_congr same]

theorem read_of_get_eq {m m' : Mem} (f : ByteFormat α) {pos : Nat}
    (same : m.get f pos = m'.get f pos) : m.read pos f.width = m'.read pos f.width :=
  f.decode_injective (read_length _ _ _) (read_length _ _ _) same

/-! ## Values made of others -/

theorem get_seq (m : Mem) (f : ByteFormat α) (g : ByteFormat β) (pos : Nat) :
    m.get (f.seq g) pos = (m.get f pos, m.get g (pos + f.width)) := by
  have cut : (m.read pos f.width).length = f.width := read_length _ _ _
  simp only [get, ByteFormat.seq, read_add, List.take_left' cut, List.drop_left' cut]

theorem get_via (m : Mem) (f : ByteFormat α) (e : α ≃ β) (pos : Nat) :
    m.get (f.via e) pos = e (m.get f pos) := rfl

/-- What a byte counts for at the top of a signed number. -/
def signedByte (b : UInt8) : Int := if b.toNat < 128 then b.toNat else b.toNat - 256

theorem get_i32_toInt (m : Mem) (pos : Nat) :
    (m.get ByteFormat.i32 pos).toInt = (m pos).toNat + 256 * (m (pos + 1)).toNat +
      65536 * (m (pos + 2)).toNat + 16777216 * signedByte (m (pos + 3)) := by
  have bytes : m.read pos 4 = [m pos, m (pos + 1), m (pos + 2), m (pos + 3)] := rfl
  have value : (ByteFormat.u32.decode (m.read pos 4)).toNat = ofLE (m.read pos 4) :=
    u32_decode_toNat (read_length _ _ _)
  have same : (m.get ByteFormat.i32 pos).toInt =
      ((ByteFormat.u32.decode (m.read pos 4)).toNat : Int).bmod (2 ^ 32) :=
    BitVec.toInt_eq_toNat_bmod (ByteFormat.u32.decode (m.read pos 4)).toBitVec
  have first := (m pos).toNat_lt
  have second := (m (pos + 1)).toNat_lt
  have third := (m (pos + 2)).toNat_lt
  have fourth := (m (pos + 3)).toNat_lt
  rw [same, value, bytes, signedByte]
  simp only [ofLE]
  split
  · rw [Int.bmod_eq_of_le] <;> omega
  · rw [Int.bmod_def]
    omega

/-! ## Bytes known to stand at a position -/

/-- The bytes `l` stand at `pos`. -/
def Holds (m : Mem) (pos : Nat) (l : Bytes) : Prop := m.read pos l.length = l

theorem holds_append {m : Mem} {pos : Nat} {l r : Bytes} :
    m.Holds pos (l ++ r) ↔ m.Holds pos l ∧ m.Holds (pos + l.length) r := by
  simp only [Holds, List.length_append, read_add]
  constructor
  · intro whole
    exact List.append_inj whole (read_length _ _ _)
  · rintro ⟨left, right⟩
    rw [left, right]

theorem Holds.get {m : Mem} {pos : Nat} {f : ByteFormat α} {x : α}
    (stands : m.Holds pos (f.encode x)) : m.get f pos = x := by
  rw [Holds, f.encode_length] at stands
  rw [Mem.get, stands, f.decode_encode]

theorem Holds.getAll {m : Mem} {f : ByteFormat α} {pos : Nat} {xs : List α}
    (stands : m.Holds pos (xs.flatMap f.encode)) :
    ((List.range xs.length).map fun i => m.get f (pos + i * f.width)) = xs := by
  induction xs generalizing pos with
  | nil => rfl
  | cons x xs ih =>
      obtain ⟨first, others⟩ := holds_append.mp stands
      simp only [f.encode_length] at others
      have shift : ∀ i, pos + (i + 1) * f.width = pos + f.width + i * f.width := by
        intro i
        rw [Nat.succ_mul]
        omega
      simp only [List.length_cons, List.range_succ_eq_map, List.map_cons, Nat.zero_mul,
        Nat.add_zero, first.get, List.map_map, Function.comp_def, Nat.succ_eq_add_one, shift,
        ih others]

theorem holds_write (m : Mem) (pos : Nat) (l : Bytes) : (m.write pos l).Holds pos l :=
  read_write m pos l

theorem holds_put (m : Mem) (f : ByteFormat α) (pos : Nat) (x : α) :
    (m.put f pos x).Holds pos (f.encode x) :=
  holds_write m pos (f.encode x)

/-- An encoded value survives a write elsewhere. -/
theorem Holds.put {m : Mem} {spot : Nat} {g : ByteFormat β} {y : β}
    (stands : m.Holds spot (g.encode y)) (f : ByteFormat α) {pos : Nat} (x : α)
    (apart : spot + g.width ≤ pos ∨ pos + f.width ≤ spot) :
    (m.put f pos x).Holds spot (g.encode y) :=
  (read_write_disjoint m _ (by rwa [f.encode_length, g.encode_length])).trans stands

/-! ## Values in network byte order -/

section NetworkOrder
open ByteFormat

theorem Holds.netShort {m : Mem} {pos : Nat} {x : UInt16}
    (stands : m.Holds pos (u16.encode (htons x))) :
    256 * (m pos).toNat + (m (pos + 1)).toNat = x.toNat := by
  have small := x.toNat_lt
  rw [u16_encode_htons] at stands
  obtain ⟨high, low⟩ : m pos = UInt8.ofNat (x.toNat / 256) ∧
      m (pos + 1) = UInt8.ofNat x.toNat := by
    simpa [Holds, read, u16, natLE] using stands
  rw [high, low, UInt8.toNat_ofNat', UInt8.toNat_ofNat']
  omega

theorem netShort_get (m : Mem) (pos : Nat) :
    (ntohs (m.get u16 pos)).toNat = 256 * (m pos).toNat + (m (pos + 1)).toNat := by
  refine (Holds.netShort (x := ntohs (m.get u16 pos)) ?_).symm
  have back : htons (ntohs (m.get u16 pos)) = m.get u16 pos := ntohs_htons _
  have size : (u16.encode (m.get u16 pos)).length = 2 := u16.encode_length _
  rw [back, Holds, size]
  exact (u16.encode_decode _ (read_length m pos 2)).symm

theorem Holds.netLong {m : Mem} {pos : Nat} {x : UInt32}
    (stands : m.Holds pos (u32.encode (htonl x))) :
    16777216 * (m pos).toNat + 65536 * (m (pos + 1)).toNat + 256 * (m (pos + 2)).toNat +
      (m (pos + 3)).toNat = x.toNat := by
  have small := x.toNat_lt
  rw [u32_encode_htonl] at stands
  obtain ⟨first, second, third, fourth⟩ : m pos = UInt8.ofNat (x.toNat / 256 / 256 / 256) ∧
      m (pos + 1) = UInt8.ofNat (x.toNat / 256 / 256) ∧
      m (pos + 2) = UInt8.ofNat (x.toNat / 256) ∧ m (pos + 3) = UInt8.ofNat x.toNat := by
    simpa [Holds, read, u32, natLE] using stands
  simp only [first, second, third, fourth, UInt8.toNat_ofNat']
  omega

theorem shifted_short (a b : UInt8) :
    ((a.toUInt16 <<< 8) + b.toUInt16).toNat = 256 * a.toNat + b.toNat := by
  have high := a.toNat_lt
  have low := b.toNat_lt
  simp [UInt16.toNat_add, UInt16.toNat_shiftLeft, Nat.shiftLeft_eq]
  omega

theorem shifted_long (a b c d : UInt8) :
    ((a.toUInt32 <<< 24) + (b.toUInt32 <<< 16) + (c.toUInt32 <<< 8) + d.toUInt32).toNat =
      16777216 * a.toNat + 65536 * b.toNat + 256 * c.toNat + d.toNat := by
  have first := a.toNat_lt
  have second := b.toNat_lt
  have third := c.toNat_lt
  have fourth := d.toNat_lt
  simp [UInt32.toNat_add, UInt32.toNat_shiftLeft, Nat.shiftLeft_eq]
  omega

end NetworkOrder

/-! ## Received datagrams -/

theorem receive_holds (rest : Mem) (l : Bytes) : (rest.receive l).Holds 0 l :=
  holds_write rest 0 l

theorem receive_inside (rest : Mem) {l : Bytes} {i : Nat} (inside : i < l.length) :
    rest.receive l i = l[i] := by
  have there : rest.write 0 l (0 + i) = l[i] := write_inside rest l inside
  simpa only [Nat.zero_add, receive] using there

theorem receive_beyond (rest : Mem) {l : Bytes} {i : Nat} (beyond : l.length ≤ i) :
    rest.receive l i = rest i :=
  write_of_ge rest l (by omega)

theorem receive_read (rest m : Mem) {len pos n : Nat} (inside : pos + n ≤ len) :
    (rest.receive (m.read 0 len)).read pos n = m.read pos n := by
  apply read_congr
  intro i hi
  have short : pos + i < (m.read 0 len).length := by
    rw [read_length]
    omega
  have there := (read_getElem? m (by omega : pos + i < len) : (m.read 0 len)[pos + i]? = _)
  rw [List.getElem?_eq_getElem short, Nat.zero_add] at there
  rw [receive_inside rest short, Option.some.inj there]

theorem receive_get (rest m : Mem) (f : ByteFormat α) {len pos : Nat}
    (inside : pos + f.width ≤ len) : (rest.receive (m.read 0 len)).get f pos = m.get f pos := by
  rw [get, receive_read rest m inside, get]

theorem receive_put (rest : Mem) {l : Bytes} {pos : Nat} (inside : pos < l.length) (b : UInt8) :
    (rest.receive l).put ByteFormat.u8 pos b = rest.receive (l.set pos b) := by
  funext i
  rw [put, ByteFormat.u8_encode]
  by_cases same : i = pos
  · subst same
    have there : (rest.receive l).write i [b] (i + 0) = _ :=
      write_inside (rest.receive l) [b] Nat.one_pos
    have kept : i < (l.set i b).length := by rwa [List.length_set]
    rw [receive_inside rest kept, List.getElem_set_self]
    exact there
  · have elsewhere : (rest.receive l).write pos [b] i = rest.receive l i := by
      obtain before | after := Nat.lt_or_gt_of_ne same
      · exact write_of_lt _ _ before
      · exact write_of_ge _ _ after
    by_cases within : i < l.length
    · have kept : i < (l.set pos b).length := by rwa [List.length_set]
      rw [elsewhere, receive_inside rest within, receive_inside rest kept,
        List.getElem_set_ne (Ne.symm same)]
    · have outside : (l.set pos b).length ≤ i := by
        rw [List.length_set]
        exact Nat.le_of_not_lt within
      rw [elsewhere, receive_beyond rest (Nat.le_of_not_lt within), receive_beyond rest outside]

/-! ## Values one behind the other -/

/-- A loop of `memcpy`. -/
def putAll (m : Mem) (f : ByteFormat α) (pos : Nat) : List α → Mem
  | [] => m
  | x :: xs => putAll (m.put f pos x) f (pos + f.width) xs

theorem putAll_eq (m : Mem) (f : ByteFormat α) (pos : Nat) (xs : List α) :
    m.putAll f pos xs = m.write pos (xs.flatMap f.encode) := by
  induction xs generalizing m pos with
  | nil => exact (write_nil m pos).symm
  | cons x xs ih =>
      have behind := write_append m pos (f.encode x) (xs.flatMap f.encode)
      rw [f.encode_length] at behind
      rw [putAll, ih, List.flatMap_cons]
      exact behind

/-! ## Memories that agree on a prefix -/

/-- The first `n` bytes are the same. -/
def Agree (n : Nat) (m m' : Mem) : Prop := ∀ i < n, m i = m' i

/-- Inside a datagram the leftovers are invisible. -/
theorem receive_agree (rest rest' : Mem) (l : Bytes) :
    Agree l.length (rest.receive l) (rest'.receive l) := by
  intro i inside
  rw [receive_inside rest inside, receive_inside rest' inside]

theorem Agree.read {n : Nat} {m m' : Mem} (agree : Agree n m m') {pos k : Nat}
    (inside : pos + k ≤ n) : m.read pos k = m'.read pos k :=
  read_congr fun i hi => agree (pos + i) (by omega)

theorem Agree.get {n : Nat} {m m' : Mem} (agree : Agree n m m') (f : ByteFormat α) {pos : Nat}
    (inside : pos + f.width ≤ n) : m.get f pos = m'.get f pos := by
  rw [Mem.get, Mem.get, agree.read inside]

theorem Agree.write {n : Nat} {m m' : Mem} (agree : Agree n m m') (pos : Nat) (l : Bytes) :
    Agree n (m.write pos l) (m'.write pos l) := by
  intro i inside
  simp only [Mem.write, agree i inside]

theorem Agree.put {n : Nat} {m m' : Mem} (agree : Agree n m m') (f : ByteFormat α) (pos : Nat)
    (x : α) : Agree n (m.put f pos x) (m'.put f pos x) :=
  agree.write pos (f.encode x)

theorem Agree.extend {n : Nat} {m m' : Mem} (agree : Agree n m m') (l : Bytes) :
    Agree (n + l.length) (m.write n l) (m'.write n l) := by
  intro i inside
  by_cases before : i < n
  · rw [write_of_lt m l before, write_of_lt m' l before, agree i before]
  · obtain ⟨j, rfl⟩ := Nat.exists_eq_add_of_le (Nat.le_of_not_lt before)
    have within : j < l.length := by omega
    rw [write_inside m l within, write_inside m' l within]

/-! ## Bytes behind a datagram -/

/-- The bytes `l` with zeros behind them. -/
def padded (l : Bytes) : Mem := Mem.receive (fun _ => 0) l

/-- Another value in one place. -/
def bump (m : Mem) (i : Nat) : Mem := Function.update m i (m i + 1)

theorem receive_bump (rest : Mem) {l : Bytes} {i : Nat} (beyond : l.length ≤ i) :
    (rest.bump i).receive l = (rest.receive l).bump i := by
  funext j
  by_cases inside : j < l.length
  · rw [receive_inside _ inside, bump, Function.update_of_ne (by omega), receive_inside _ inside]
  · have outside := Nat.le_of_not_lt inside
    rw [receive_beyond _ outside, bump, bump, receive_beyond _ beyond, Function.update_apply,
      Function.update_apply, receive_beyond _ outside]

theorem bump_get_ne (m : Mem) (f : ByteFormat α) {pos i : Nat} (from_pos : pos ≤ i)
    (inside : i < pos + f.width) : (m.bump i).get f pos ≠ m.get f pos := by
  intro same
  obtain ⟨j, rfl⟩ := Nat.exists_eq_add_of_le from_pos
  have byte := eq_of_read_eq (read_of_get_eq f same) (by omega : j < f.width)
  rw [bump, Function.update_self] at byte
  exact absurd byte (by simp)

theorem bump_get_of_apart (m : Mem) (f : ByteFormat α) {pos i : Nat}
    (apart : i < pos ∨ pos + f.width ≤ i) : (m.bump i).get f pos = m.get f pos :=
  get_congr f fun _ hj => Function.update_of_ne (by omega) ..

/-- What is behind a received datagram does not matter to `view`. -/
def Determines (l : Bytes) (view : Mem → α) : Prop :=
  ∀ rest rest' : Mem, view (rest.receive l) = view (rest'.receive l)

theorem determines_congr {l : Bytes} {view view' : Mem → α}
    (same : ∀ rest : Mem, view (rest.receive l) = view' (rest.receive l)) :
    Determines l view ↔ Determines l view' :=
  forall₂_congr fun rest rest' => by rw [same rest, same rest']

/-- A datagram determines a field just in case it holds all its bytes. -/
theorem determines_get_iff (f : ByteFormat α) (l : Bytes) {pos : Nat} (positive : 0 < f.width) :
    (Determines l fun msg => msg.get f pos) ↔ pos + f.width ≤ l.length := by
  constructor
  · intro same
    by_contra cut
    have beyond : l.length ≤ pos + f.width - 1 := by omega
    have other := same (Mem.bump (fun _ => 0) (pos + f.width - 1)) fun _ => 0
    simp only [receive_bump _ beyond] at other
    exact bump_get_ne _ f (by omega) (by omega) other
  · intro inside rest rest'
    exact (receive_agree rest rest' l).get f inside

end Mem

end Cors
