import Cors.Protocol.Packets

/-! # What the control-packet parsers accept and read

A guard that tests only the first byte of a field lets a cut field through: the
parser then reads behind the buffer and accepts an incomplete packet. The parsers
are exact when the end of the buffer falls on a field boundary, and only then.
-/

namespace Cors

open ByteFormat

inductive PacketClass where
  | inquiry
  | advice
  | report
  | probe
  deriving Repr, DecidableEq

namespace PacketClass

def accepted : PacketClass → List PacketType
  | inquiry => CorsInquiry.accepted
  | advice => CorsAdvice.accepted
  | report => CorsReport.accepted
  | probe => CorsProbe.accepted

/-- `Deserialize(buf, len)` of a fresh object returns 0. -/
def returnsZero (c : PacketClass) (buf : Mem) (len : Nat) : Bool :=
  match c with
  | inquiry => (parse CorsInquiry.deserialize buf len).isSome
  | advice => (parse CorsAdvice.new.deserialize buf len).isSome
  | report => (parse CorsReport.new.deserialize buf len).isSome
  | probe => (parse CorsProbe.deserialize buf len).isSome

/-- One past the last byte that `Deserialize(buf, len)` of a fresh object reads. -/
def readsUpTo (c : PacketClass) (buf : Mem) (len : Nat) : Nat :=
  match c with
  | inquiry => extent CorsInquiry.deserialize buf len
  | advice => extent CorsAdvice.new.deserialize buf len
  | report => extent CorsReport.new.deserialize buf len
  | probe => extent CorsProbe.deserialize buf len

/-- The length of the packet the buffer starts with: the fixed header and, for the
    list packets, the announced elements. -/
def fullLength (c : PacketClass) (buf : Mem) : Nat :=
  match c with
  | inquiry => 3 + 3 * EndPoint.format.width
  | advice => 3 + 2 * EndPoint.format.width + (buf sizePos).toNat * EndPoint.format.width
  | report => 3 + 2 * EndPoint.format.width + (buf sizePos).toNat * ReportEntry.format.width
  | probe => 2 + 3 * EndPoint.format.width + Timeval.format.width + 2 * u32.width

/-- The type byte is one the class accepts. -/
def Recognises (c : PacketClass) (buf : Mem) : Prop :=
  ∃ type ∈ c.accepted, buf 0 = type.code

/-- Reads inside the buffer only, and success exactly on complete packets. -/
def ParsesExactly (c : PacketClass) (buf : Mem) (len : Nat) : Prop :=
  c.readsUpTo buf len ≤ len ∧
    (c.returnsZero buf len = true ↔ c.Recognises buf ∧ c.fullLength buf ≤ len)

/-- Widths of the fields behind the type byte. -/
def fieldWidths (c : PacketClass) (buf : Mem) : List Nat :=
  match c with
  | inquiry => CorsInquiry.layout
  | advice => CorsAdvice.layout (buf sizePos)
  | report => CorsReport.layout (buf sizePos)
  | probe => CorsProbe.layout

/-- `len` does not fall strictly inside a field of the packet. -/
def OnFieldBoundary (c : PacketClass) (buf : Mem) (len : Nat) : Prop :=
  Scan.Uncut len 1 (c.fieldWidths buf)

instance : Decidable (OnFieldBoundary c buf len) :=
  inferInstanceAs (Decidable (Scan.Uncut len 1 (c.fieldWidths buf)))

theorem fieldWidths_positive (c : PacketClass) (buf : Mem) : ∀ w ∈ c.fieldWidths buf, 0 < w := by
  intro w member
  cases c with
  | inquiry | probe =>
      simp only [fieldWidths, CorsInquiry.layout, CorsProbe.layout, List.mem_cons,
        List.not_mem_nil, or_false] at member
      omega
  | advice | report =>
      simp only [fieldWidths, CorsAdvice.layout, CorsReport.layout, List.mem_append, List.mem_cons,
        List.mem_replicate, List.not_mem_nil, or_false] at member
      omega

theorem fieldWidths_sum (c : PacketClass) (buf : Mem) :
    1 + (c.fieldWidths buf).sum = c.fullLength buf := by
  cases c with
  | inquiry | probe => rfl
  | advice | report =>
      simp only [fieldWidths, fullLength, CorsAdvice.layout_sum, CorsReport.layout_sum,
        EndPoint.format_width, ReportEntry.format_width]
      omega

theorem code_of_ofCode? {b : UInt8} {type : PacketType}
    (found : PacketType.ofCode? b = some type) : b = type.code := by
  have matched := List.find?_some found
  exact (beq_iff_eq.mp matched).symm

theorem recognise_isSome (c : PacketClass) (buf : Mem) :
    (recognise c.accepted (buf 0)).isSome = true ↔ c.Recognises buf := by
  simp only [recognise, Recognises, Option.isSome_iff_exists, Option.bind_eq_some_iff]
  constructor
  · rintro ⟨_, type, found, own⟩
    split at own
    · exact ⟨type, ‹_›, code_of_ofCode? found⟩
    · cases own
  · rintro ⟨type, own, tag⟩
    exact ⟨type, type, by rw [tag, PacketType.ofCode?_code], if_pos own⟩

theorem outcome (c : PacketClass) (buf : Mem) (len : Nat) :
    (c.Recognises buf →
      (c.returnsZero buf len = true ↔ Scan.Fits len 1 (c.fieldWidths buf)) ∧
        c.readsUpTo buf len = max 1 (Scan.reach len 1 (c.fieldWidths buf))) ∧
    (¬ c.Recognises buf → c.returnsZero buf len = false ∧ c.readsUpTo buf len = 1) := by
  have size : buf.get u8 sizePos = buf sizePos := u8_decode _
  rw [← recognise_isSome]
  cases c with
  | inquiry | advice | report | probe =>
      simp only [accepted, returnsZero, readsUpTo, fieldWidths, parse, extent,
        CorsInquiry.deserialize_run, CorsAdvice.deserialize_run, CorsReport.deserialize_run,
        CorsProbe.deserialize_run, size]
      split <;> rename_i found <;> simp [found]

end PacketClass

open PacketClass

/-- The parsers are exact on a buffer just in case its type is not theirs or its
    end falls on a field boundary. -/
theorem parsers_exact_iff (c : PacketClass) (buf : Mem) (len : Nat) (nonempty : 1 ≤ len) :
    c.ParsesExactly buf len ↔ ¬ c.Recognises buf ∨ c.OnFieldBoundary buf len := by
  obtain ⟨known, unknown⟩ := c.outcome buf len
  by_cases own : c.Recognises buf
  · obtain ⟨returns, reads⟩ := known own
    have law := Scan.exact_iff_uncut (c.fieldWidths_positive buf) nonempty
    rw [c.fieldWidths_sum buf] at law
    simp only [ParsesExactly, reads, returns, Nat.max_le, nonempty, own, true_and, not_true,
      false_or, law, OnFieldBoundary]
  · obtain ⟨refuses, reads⟩ := unknown own
    simp only [ParsesExactly, reads, refuses, own, nonempty, false_and, not_false_iff, true_or,
      true_and, Bool.false_eq_true]

/-- A complete inquiry, and an advice that ends behind the first of its two relays. -/
theorem whole_fields_parsed_exactly :
    let source : EndPoint := ⟨10, 5060, 1, 0⟩
    let destination : EndPoint := ⟨20, 5061, 2, 0⟩
    let inquiry := { CorsInquiry.new with ttl := 3, requiredRelays := 2, source, destination }
    let advice :=
      { CorsAdvice.new with
        source, destination, relays := [⟨30, 906, 3, 0⟩, ⟨40, 906, 4, 0⟩] }
    PacketClass.inquiry.ParsesExactly (Mem.receive (fun _ => 9) inquiry.serialize) 39 ∧
      PacketClass.advice.ParsesExactly (Mem.receive (fun _ => 9) advice.serialize) 39 := by
  intro source destination inquiry advice
  constructor
  · exact (parsers_exact_iff .inquiry _ 39 (by decide)).mpr (.inr (by decide))
  · exact (parsers_exact_iff .advice _ 39 (by decide)).mpr (.inr (by decide))

/-- An inquiry cut one byte into its last field: 28 bytes are received, 39 are read. -/
theorem cut_inquiry_not_parsed_exactly :
    ¬ ∀ c buf len, 1 ≤ len → ParsesExactly c buf len := by
  intro exact_everywhere
  let cut := Mem.receive (fun _ => 0) (CorsInquiry.new.serialize.take 28)
  have inside : PacketClass.inquiry.readsUpTo cut 28 ≤ 28 :=
    (exact_everywhere .inquiry cut 28 (by decide)).1
  exact absurd inside (by decide)

end Cors
