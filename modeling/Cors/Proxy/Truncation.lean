import Cors.Proxy.SimpleRldvr

/-! # Truncated messages

A parser is exact when it goes through just in case the message is complete, and reads nothing
behind its end. That of an inquiry always is. The others are not where their count is too high
and a field is let pass that is cut; where the count of an advice is below zero, the number of
relays is not checked at all.
-/

namespace Cors

open ByteFormat

namespace SimpleRldvr

open Countdown

/-- The result is 0 just in case the buffer has the full length, and no byte behind it was read. -/
def Exact (r : Counted σ) (full : Nat) (len : Int32) : Prop :=
  (r.extent : Int) ≤ len.toInt ∧ (r.ok = true ↔ (full : Int) ≤ len.toInt)

/-- What an advice says that it lists, and what a filter does. -/
def announced (buf : Mem) : Nat := (buf Advice.numPos).toNat

def adviceLen (n : Nat) : Nat := Advice.rlsPos + n * RelayUnit.format.width
def filterLen (n : Nat) : Nat := Filter.rprtPos + n * u32.width

/-- Only the type is there; or the last byte in front of the relays is missing, and there should
    be relays; or it is there, and the buffer does not end one byte in front of the end of an
    announced relay. -/
def AdviceIntact (n : Nat) (len : Int) : Prop :=
  len = 1 ∨ len = 20 ∧ 1 ≤ n ∨ 21 ≤ len ∧ ¬(20 ∣ len - 20 ∧ len - 20 ≤ n * 20)

/-- The message is complete, or the buffer ends where the next field is refused and the last one
    was not cut. -/
def FilterIntact (n : Nat) (len : Int) : Prop :=
  len ≤ 16 ∨ len = 19 ∨ len = 20 ∨ (len = 23 ∨ len = 24) ∧ 1 ≤ n ∨ filterLen n ≤ len

instance : Decidable (AdviceIntact n len) := inferInstanceAs (Decidable (_ ∨ _))
instance : Decidable (FilterIntact n len) := inferInstanceAs (Decidable (_ ∨ _))

section Guards
variable {len : Nat}

theorem inquiry_exact : Inside len inquiryGuards ∧ (Passes len inquiryGuards ↔ 35 ≤ len) := by
  simp only [Inside, Passes, inquiryGuards, List.forall_mem_cons, List.not_mem_nil, false_implies,
    implies_true, and_true]
  omega

theorem blind_not_exact (some : 2 ≤ len) (short : len < 20) (n : Nat) :
    ¬(Inside len (blindGuards len n) ∧ (Passes len (blindGuards len n) ↔ adviceLen n ≤ len)) := by
  intro exactly
  obtain ⟨inside, accepted⟩ := exactly
  have all : Passes len (blindGuards len n) := by
    refine passes_append.mpr ⟨?_, fun g member => ?_⟩
    · exact passes_cons.mpr ⟨by omega, passes_cons.mpr ⟨some, passes_nil⟩⟩
    · obtain ⟨i, -, rfl⟩ := List.mem_map.mp member
      exact Nat.le_refl len
  have complete : 21 + n * 20 ≤ len := accepted.mp all
  omega

/-- One byte in front of the end of an element is where its guard is wrong. -/
theorem advice_elements_iff (enough : 20 ≤ len) (n : Nat) :
    (∀ i < n, 20 + (i + 1) * 20 ≤ len → 21 + (i + 1) * 20 ≤ len) ∧
        (20 + n * 20 ≤ len ↔ 21 + n * 20 ≤ len) ↔
      AdviceIntact n len := by
  constructor
  · intro exactly
    obtain ⟨inside, accepted⟩ := exactly
    by_cases first : len = 20
    · exact .inr (.inl ⟨by omega, by omega⟩)
    · refine .inr (.inr ⟨by omega, fun cut => ?_⟩)
      obtain ⟨⟨k, whole⟩, announced⟩ := cut
      have reads := inside (k.toNat - 1) (by omega) (by omega)
      omega
  · intro intact
    obtain one | first | last := intact
    · omega
    · refine ⟨fun i _ passes => ?_, ?_⟩ <;> omega
    · obtain ⟨long, uncut⟩ := last
      refine ⟨fun i inside passes => ?_, ?_⟩
      · by_contra cut
        exact uncut ⟨⟨i + 1, by omega⟩, by omega⟩
      · refine ⟨fun passes => ?_, fun complete => by omega⟩
        by_contra cut
        exact uncut ⟨⟨n, by omega⟩, by omega⟩

theorem advice_exact_iff (counted : 2 ≤ len → 20 ≤ len) (n : Nat) (nonempty : 1 ≤ len) :
    Inside len (adviceGuards n) ∧ (Passes len (adviceGuards n) ↔ adviceLen n ≤ len) ↔
      AdviceIntact n len := by
  rw [adviceGuards, inside_append, passes_append, inside_elementGuards, RelayUnit.format_width]
  have header : Inside len [(1, 1), (2, 3)] := by
    simp only [Inside, List.forall_mem_cons, List.not_mem_nil, false_implies, implies_true,
      and_true]
    omega
  have passed : Passes len [(1, 1), (2, 3)] ↔ 2 ≤ len := by
    simp only [passes_cons, passes_nil, and_true]
    omega
  rw [passed]
  by_cases some : 2 ≤ len
  · rw [passes_elementGuards (counted some), ← advice_elements_iff (counted some)]
    simp only [header, some, true_and]
    rfl
  · have one : (len : Int) = 1 := by omega
    refine iff_of_true ⟨⟨header, fun i _ passes => ?_⟩, ?_⟩ (.inl one)
    · omega
    · exact iff_of_false (fun passes => some passes.1) fun complete => some (by
        have whole : 21 + n * 20 ≤ len := complete
        omega)

/-- Beyond the end points some element is cut unless all are complete. -/
theorem filter_elements_iff (enough : 25 ≤ len) (n : Nat) :
    (∀ i < n, 21 + (i + 1) * 4 ≤ len → 25 + (i + 1) * 4 ≤ len) ∧
        (21 + n * 4 ≤ len ↔ 25 + n * 4 ≤ len) ↔
      25 + n * 4 ≤ len := by
  constructor
  · intro exactly
    obtain ⟨inside, accepted⟩ := exactly
    by_cases all : 21 + n * 4 ≤ len
    · exact accepted.mp all
    · -- the last element that passes
      have reads := inside ((len - 21) / 4 - 1) (by omega) (by omega)
      omega
  · intro complete
    refine ⟨fun i inside _ => ?_, ?_⟩ <;> omega

theorem filter_exact_iff (len n : Nat) :
    Inside len (filterGuards n) ∧ (Passes len (filterGuards n) ↔ filterLen n ≤ len) ↔
      FilterIntact n len := by
  rw [filterGuards, inside_append, passes_append, inside_elementGuards, u32_width]
  have header : Inside len [(1, 1), (3, 3), (5, 5), (9, 9), (13, 13), (17, 19), (21, 23)] ↔
      (17 ≤ len → 19 ≤ len) ∧ (21 ≤ len → 23 ≤ len) := by
    simp only [Inside, List.forall_mem_cons, List.not_mem_nil, false_implies, implies_true,
      and_true]
    omega
  have passed : Passes len [(1, 1), (3, 3), (5, 5), (9, 9), (13, 13), (17, 19), (21, 23)] ↔
      21 ≤ len := by
    simp only [passes_cons, passes_nil, and_true]
    omega
  have full : filterLen n = 25 + n * 4 := rfl
  have position : Filter.rprtPos = 25 := rfl
  rw [header, passed, full, position, FilterIntact, full]
  by_cases long : 25 ≤ len
  · have elements := filter_elements_iff long n
    rw [passes_elementGuards (by omega)]
    constructor
    · intro exactly
      have complete := elements.mp ⟨exactly.1.2, by omega⟩
      omega
    · intro intact
      have exactly := elements.mpr (by omega)
      exact ⟨⟨by omega, exactly.1⟩, by omega⟩
  · have small (i : Nat) : 21 + (i + 1) * 4 ≤ len → 25 + (i + 1) * 4 ≤ len := by omega
    by_cases enough : 21 ≤ len
    · rw [passes_elementGuards enough]
      constructor
      · intro exactly
        have boundary := exactly.1.1
        have accepted := exactly.2
        omega
      · intro intact
        exact ⟨⟨by omega, fun i _ => small i⟩, by omega⟩
    · constructor
      · intro exactly
        have boundary := exactly.1.1
        omega
      · intro intact
        refine ⟨⟨by omega, fun i _ => small i⟩, ?_⟩
        exact iff_of_false (fun passes => enough passes.1) (by omega)

end Guards

/-! ## The parsers -/

section Parsers
variable {buf : Mem} {len : Int32}

theorem length_eq (nonempty : 1 ≤ len) :
    ∃ n : Nat, len.toInt = n ∧ 1 ≤ n ∧ n < 2147483648 := by
  have low : 1 ≤ len.toInt := Int32.le_iff_toInt_le.mp nonempty
  have high : len.toInt < 2147483648 := len.toInt_lt
  exact ⟨len.toInt.toNat, by omega, by omega, by omega⟩

theorem exact_iff {c : Countdown σ} {n : Nat} {out out' : σ} {gs : List (Nat × Nat)} {spent' : Nat}
    (walks : Walks c buf n out 0 gs out' spent') (ascending : gs.Pairwise fun g h => g.1 ≤ h.1)
    (full : Nat) (same : len.toInt = n) :
    Exact (c buf out len.toInt) full len ↔ Inside n gs ∧ (Passes n gs ↔ full ≤ n) := by
  have exactly := walks.exact_iff ascending full
  rw [Nat.cast_zero, Int.sub_zero] at exactly
  rw [Exact, same, Int.ofNat_le, Int.ofNat_le]
  exact exactly

theorem guards_ascending {header : List (Nat × Nat)} {spent : Nat}
    (ascending : header.Pairwise fun g h => g.1 ≤ h.1) (before : ∀ g ∈ header, g.1 ≤ spent)
    (pos width n : Nat) :
    (header ++ elementGuards spent pos width n).Pairwise fun g h => g.1 ≤ h.1 := by
  refine List.pairwise_append.mpr ⟨ascending, elementGuards_ascending spent pos width n, ?_⟩
  intro g first h later
  obtain ⟨i, -, rfl⟩ := List.mem_map.mp later
  exact Nat.le_add_right_of_le (before g first)

theorem parseRlInquiry_exact (nonempty : 1 ≤ len) (own : buf 0 = PacketType.rlyInquiry.code)
    (out : InquiryOut) :
    Exact (parseRlInquiry buf out len.toInt) Inquiry.inquiryLen len := by
  obtain ⟨n, same, some, -⟩ := length_eq nonempty
  exact (exact_iff (parseRlInquiry_walks own some out) (by decide) _ same).mpr inquiry_exact

theorem parseRlAdvice_exact_iff (nonempty : 1 ≤ len) (own : buf 0 = PacketType.rlyAdvice.code)
    (out : AdviceOut) :
    Exact (parseRlAdvice buf out len.toInt) (adviceLen (announced buf)) len ↔
      AdviceIntact (announced buf) len.toInt := by
  obtain ⟨n, same, some, small⟩ := length_eq nonempty
  have number : (buf.get u8 Advice.numPos).toNat = announced buf := by rw [Mem.get_u8, announced]
  by_cases counted : 2 ≤ n → 20 ≤ n
  · obtain ⟨out', spent', walks⟩ := parseRlAdvice_walks own some counted (by omega) out
    rw [number] at walks
    rw [exact_iff walks (guards_ascending (by decide) (by decide) _ _ _) _ same, same]
    exact advice_exact_iff counted _ some
  · have cut : 2 ≤ n ∧ n < 20 := by omega
    obtain ⟨out', spent', walks⟩ := parseRlAdvice_blind own cut.1 cut.2 out
    rw [number] at walks
    have ascending : (blindGuards n (announced buf)).Pairwise fun g h => g.1 ≤ h.1 := by
      refine List.pairwise_append.mpr ⟨by decide, ?_, ?_⟩
      · exact List.pairwise_map.mpr (List.pairwise_lt_range.imp fun _ => Nat.le_refl n)
      · intro g first h later
        obtain ⟨i, -, rfl⟩ := List.mem_map.mp later
        have two : ∀ g ∈ [((1 : Nat), (1 : Nat)), (2, 3)], g.1 ≤ 2 := by decide
        exact Nat.le_trans (two g first) cut.1
    rw [exact_iff walks ascending _ same, same]
    refine iff_of_false (blind_not_exact cut.1 cut.2 _) fun intact => ?_
    unfold AdviceIntact at intact
    omega

theorem parseRlFilter_exact_iff (nonempty : 1 ≤ len) (own : buf 0 = PacketType.rlyFilter.code)
    (out : FilterOut) :
    Exact (parseRlFilter buf out len.toInt) (filterLen (announced buf)) len ↔
      FilterIntact (announced buf) len.toInt := by
  obtain ⟨n, same, some, small⟩ := length_eq nonempty
  have number : (buf.get u8 Filter.numPos).toNat = announced buf := Mem.get_u8 _ _ ▸ rfl
  have walks := parseRlFilter_walks own some (by omega) out
  rw [number] at walks
  rw [exact_iff walks (guards_ascending (by decide) (by decide) _ _ _) _ same, same]
  exact filter_exact_iff n _

end Parsers

/-- The parser of an inquiry is exact, and the others are just in case the end of the buffer does
    not fall where their count is wrong. -/
theorem messages_exact_iff (buf : Mem) {len : Int32} (nonempty : 1 ≤ len) :
    (buf 0 = PacketType.rlyInquiry.code → ∀ out,
        Exact (parseRlInquiry buf out len.toInt) Inquiry.inquiryLen len) ∧
      (buf 0 = PacketType.rlyAdvice.code → ∀ out,
        (Exact (parseRlAdvice buf out len.toInt) (adviceLen (announced buf)) len ↔
          AdviceIntact (announced buf) len.toInt)) ∧
      (buf 0 = PacketType.rlyFilter.code → ∀ out,
        (Exact (parseRlFilter buf out len.toInt) (filterLen (announced buf)) len ↔
          FilterIntact (announced buf) len.toInt)) :=
  ⟨parseRlInquiry_exact nonempty, parseRlAdvice_exact_iff nonempty,
    parseRlFilter_exact_iff nonempty⟩

/-- The beginning of a filter of one network. -/
def oneNetwork : Mem := fun i => if i = 0 then PacketType.rlyFilter.code else 1

theorem complete_filter_exact :
    Exact (parseRlFilter oneNetwork ⟨0, 0, 0, 0, 0, 0, ∅⟩ (29 : Int32).toInt)
      (filterLen (announced oneNetwork)) 29 :=
  ((messages_exact_iff oneNetwork (by decide)).2.2 rfl _).mpr (by decide)

/-- Of an advice there are two bytes, and the number of relays is read behind them. -/
theorem cut_advice_not_exact :
    ¬ ∀ (buf : Mem) (len : Int32), 1 ≤ len → buf 0 = PacketType.rlyAdvice.code → ∀ out,
      Exact (parseRlAdvice buf out len.toInt) (adviceLen (announced buf)) len := by
  intro always
  have exactly := always (fun _ => 3) 2 (by decide) rfl ⟨0, []⟩
  exact absurd exactly.1 (by decide)

end SimpleRldvr

end Cors
