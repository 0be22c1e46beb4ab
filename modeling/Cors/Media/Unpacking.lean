import Cors.Media.Player

/-! # What is parsed from a packet

The length of an extension stands behind the CSRC words, and the player looks for it right behind
the fixed header, where the first of these words may be.
-/

namespace Cors

open ByteFormat

structure Extension where
  profile : UInt16
  words : List UInt32
  few : words.length < 65536

/-- An RTP packet without padding. -/
structure RTPPacket where
  version : Fin 4
  marker : Bool
  payloadType : Fin 128
  sequenceNumber : UInt16
  timestamp : UInt32
  ssrc : UInt32
  csrcs : List UInt32
  extension : Option Extension
  payload : Bytes
  few : csrcs.length < 16
  full : payload ≠ []

namespace RTPPacket

def wordsBytes (words : List UInt32) : Bytes := words.flatMap fun word => u32.encode (htonl word)

def flags (version : Fin 4) (extended : Bool) (count : Fin 16) : UInt8 :=
  UInt8.ofNat (64 * version + (if extended then 16 else 0) + count)

def kind (marker : Bool) (payloadType : Fin 128) : UInt8 :=
  UInt8.ofNat ((if marker then 128 else 0) + payloadType)

def extensionBytes : Option Extension → Bytes
  | none => []
  | some extension =>
      u16.encode (htons extension.profile) ++
        (u16.encode (htons (UInt16.ofNat extension.words.length)) ++ wordsBytes extension.words)

/-- The packet as it is sent. -/
def encode (packet : RTPPacket) : Bytes :=
  [flags packet.version packet.extension.isSome ⟨packet.csrcs.length, packet.few⟩] ++
    ([kind packet.marker packet.payloadType] ++
    (u16.encode (htons packet.sequenceNumber) ++
    (u32.encode (htonl packet.timestamp) ++
    (u32.encode (htonl packet.ssrc) ++
    (wordsBytes packet.csrcs ++
    (extensionBytes packet.extension ++ packet.payload))))))

/-! ## The fields -/

theorem flags_count : ∀ version extended (count : Fin 16),
    (flags version extended count &&& 0x0F).toNat = count := by
  decide

theorem flags_extended : ∀ version extended count,
    flags version extended count &&& 0x10 ≠ 0 ↔ extended = true := by
  decide

theorem kind_marker : ∀ marker payloadType,
    kind marker payloadType &&& 0x80 ≠ 0 ↔ marker = true := by
  decide

theorem wordsBytes_length (words : List UInt32) : (wordsBytes words).length = 4 * words.length := by
  induction words with
  | nil => rfl
  | cons word words ih =>
      rw [wordsBytes, List.flatMap_cons, List.length_append, u32.encode_length, u32_width,
        ← wordsBytes, ih, List.length_cons]
      omega

/-- How long the extension is. -/
def extensionLength (extension : Option Extension) : Nat :=
  extension.elim 0 fun extension => 4 + 4 * extension.words.length

theorem extensionBytes_length (extension : Option Extension) :
    (extensionBytes extension).length = extensionLength extension := by
  cases extension with
  | none => rfl
  | some extension =>
      simp only [extensionBytes, List.length_append, ByteFormat.encode_length, u16_width,
        wordsBytes_length]
      rw [extensionLength, Option.elim_some]
      omega

/-- Where the payload begins. -/
def payloadStart (packet : RTPPacket) : Nat :=
  rtpHeaderLen + 4 * packet.csrcs.length + extensionLength packet.extension

theorem encode_length_eq (packet : RTPPacket) :
    packet.encode.length = packet.payloadStart + packet.payload.length := by
  simp only [encode, List.length_append, List.length_singleton, ByteFormat.encode_length,
    u16_width, u32_width, wordsBytes_length, extensionBytes_length]
  rw [payloadStart, rtpHeaderLen]
  omega

end RTPPacket

/-! ## What is read -/

/-- Where the player takes the payload to begin. -/
def dataStart (rawdata : Mem) : Nat :=
  rtpHeaderLen + 4 * (rawdata 0 &&& 0x0F).toNat +
    if rawdata 0 &&& 0x10 ≠ 0 then 4 + 4 * ((rawdata 14).toNat * 256 + (rawdata 15).toNat) else 0

theorem parseRTP_block {rawdata : Mem} {rawlen : Int32} (long : 12 ≤ rawlen.toInt) (block : Block) :
    (parseRTP rawdata rawlen).1 = some block ↔
      (dataStart rawdata : Int) < rawlen.toInt ∧
      block.data = rawdata.read (dataStart rawdata) (rawlen.toInt.toNat - dataStart rawdata) ∧
      block.mark = Int32.ofNat (rawdata 1 &&& 0x80).toNat ∧
      block.seq = Int32.ofNat (((rawdata 2).toUInt16 <<< 8) + (rawdata 3).toUInt16).toNat ∧
      block.ts = (((rawdata 4).toUInt32 <<< 24) + ((rawdata 5).toUInt32 <<< 16) +
        ((rawdata 6).toUInt32 <<< 8) + (rawdata 7).toUInt32).toInt32 := by
  obtain ⟨data, mark, seq, ts, short⟩ := block
  rw [parseRTP, if_neg (by rw [rtpHeaderLen]; omega)]
  by_cases cut : rawlen.toInt ≤ dataStart rawdata
  · have none_left : ¬(dataStart rawdata : Int) < rawlen.toInt := Int.not_lt.2 cut
    rw [dataStart] at cut
    simp only [if_pos cut, none_left, false_and, reduceCtorEq]
  · have some_left : (dataStart rawdata : Int) < rawlen.toInt := Int.not_le.1 cut
    rw [and_iff_right some_left]
    rw [dataStart] at cut ⊢
    simp only [if_neg cut, Option.some.injEq, Block.mk.injEq]
    constructor <;> (rintro ⟨rfl, rfl, rfl, rfl⟩; exact ⟨rfl, rfl, rfl, rfl⟩)

theorem parseRTP_some {rawdata : Mem} {rawlen : Int32} (long : 12 ≤ rawlen.toInt)
    (inside : (dataStart rawdata : Int) < rawlen.toInt) :
    ∃ block, (parseRTP rawdata rawlen).1 = some block := by
  rw [parseRTP, if_neg (by rw [rtpHeaderLen]; omega)]
  rw [dataStart] at inside
  simp only [if_neg (Int.not_le.2 inside)]
  exact ⟨_, rfl⟩

namespace RTPPacket

section Received
variable {packet : RTPPacket} {m : Mem}

/-- The parts of a packet that stands at the front of the memory. -/
structure Stands (packet : RTPPacket) (m : Mem) : Prop where
  flags : m 0 = flags packet.version packet.extension.isSome ⟨packet.csrcs.length, packet.few⟩
  kind : m 1 = kind packet.marker packet.payloadType
  sequenceNumber : m.Holds 2 (u16.encode (htons packet.sequenceNumber))
  timestamp : m.Holds 4 (u32.encode (htonl packet.timestamp))
  csrcs : m.Holds 12 (wordsBytes packet.csrcs)
  extension : m.Holds (12 + 4 * packet.csrcs.length) (extensionBytes packet.extension)
  payload : m.Holds packet.payloadStart packet.payload

theorem stands_of_holds (whole : m.Holds 0 packet.encode) : Stands packet m := by
  simp only [encode, Mem.holds_append, ByteFormat.encode_length, List.length_singleton,
    wordsBytes_length, extensionBytes_length, u16_width, u32_width, Nat.zero_add] at whole
  obtain ⟨flags, kind, sequenceNumber, timestamp, -, csrcs, extension, payload⟩ := whole
  exact {
    flags := (List.cons.inj flags).1
    kind := (List.cons.inj kind).1
    sequenceNumber, timestamp, csrcs, extension, payload }

/-- The number of words the player takes the extension to have. -/
def toldWords (csrcs words : List UInt32) : Nat :=
  match csrcs with
  | [] => words.length
  | first :: _ => first.toUInt16.toNat

theorem Stands.told (stands : Stands packet m) {extension : Extension}
    (there : packet.extension = some extension) :
    (m 14).toNat * 256 + (m 15).toNat = toldWords packet.csrcs extension.words := by
  have behind := stands.extension
  have csrcs := stands.csrcs
  rw [there] at behind
  cases some : packet.csrcs with
  | nil =>
      rw [some] at behind
      have length := (Mem.holds_append.1 (Mem.holds_append.1 behind).2).1
      have value : 256 * (m 14).toNat + (m 15).toNat =
          (UInt16.ofNat extension.words.length).toNat := length.netShort
      rw [Nat.mul_comm, value, UInt16.toNat_ofNat_of_lt' extension.few, toldWords]
  | cons first others =>
      rw [some] at csrcs
      have value : 16777216 * (m 12).toNat + 65536 * (m 13).toNat + 256 * (m 14).toNat +
          (m 15).toNat = first.toNat := (Mem.holds_append.1 csrcs).1.netLong
      have high := (m 14).toNat_lt
      have low := (m 15).toNat_lt
      rw [toldWords, UInt32.toNat_toUInt16]
      omega

theorem Stands.start_eq (stands : Stands packet m) :
    dataStart m = rtpHeaderLen + 4 * packet.csrcs.length +
      packet.extension.elim 0 fun extension => 4 + 4 * toldWords packet.csrcs extension.words := by
  have extended := flags_extended packet.version packet.extension.isSome
    ⟨packet.csrcs.length, packet.few⟩
  rw [dataStart, stands.flags, flags_count]
  cases there : packet.extension with
  | none =>
      rw [there] at extended
      rw [if_neg (by simpa [there] using extended)]
      rfl
  | some extension =>
      rw [there] at extended
      rw [if_pos (by simpa [there] using extended), stands.told there]
      rfl

/-- The player finds the payload just in case the lengths are equal. -/
def LengthFound (packet : RTPPacket) : Prop :=
  ∀ extension ∈ packet.extension, ∀ first ∈ packet.csrcs.head?,
    first.toUInt16.toNat = extension.words.length

theorem Stands.start_iff (stands : Stands packet m) :
    dataStart m = packet.payloadStart ↔ packet.LengthFound := by
  rw [stands.start_eq, payloadStart, extensionLength, LengthFound]
  cases packet.extension with
  | none => simp
  | some extension =>
      cases packet.csrcs with
      | nil => simp [toldWords]
      | cons first others => simp [toldWords]

end Received

/-- A block that carries what the packet does. -/
structure Carries (packet : RTPPacket) (block : Block) : Prop where
  data : block.data = packet.payload
  mark : block.mark ≠ 0 ↔ packet.marker = true
  seq : block.seq.toInt = packet.sequenceNumber.toNat
  ts : block.ts = packet.timestamp.toInt32

/-- The packet is parsed, whatever is in the buffer behind it. -/
def Unpacked (packet : RTPPacket) : Prop :=
  ∀ rest : Mem, ∃ block,
    (parseRTP (rest.receive packet.encode) (Int32.ofNat packet.encode.length)).1 = some block ∧
      packet.Carries block

/-- The marker is an `int` that is zero if the bit is. -/
theorem ofNat_byte_ne_zero {x : UInt8} : Int32.ofNat x.toNat ≠ 0 ↔ x ≠ 0 := by
  apply not_congr
  constructor
  · intro zero
    have value := congrArg Int32.toInt zero
    rw [Int32.toInt_ofNat_of_lt (Nat.lt_trans x.toNat_lt (by decide))] at value
    exact UInt8.toNat_inj.1 (Int.ofNat.inj value)
  · rintro rfl
    rfl

theorem Stands.carries_iff {packet : RTPPacket} {m : Mem} {rawlen : Int32} {block : Block}
    (stands : Stands packet m) (long : rawlen.toInt = packet.encode.length)
    (parsed : (parseRTP m rawlen).1 = some block) :
    packet.Carries block ↔ dataStart m = packet.payloadStart := by
  have length := packet.encode_length_eq
  have header : 12 ≤ packet.payloadStart := Nat.le_add_right_of_le (Nat.le_add_right 12 _)
  obtain ⟨inside, data, mark, seq, ts⟩ := (parseRTP_block (by omega) block).1 parsed
  constructor
  · intro carries
    have size := congrArg List.length (carries.data.symm.trans data)
    rw [Mem.read_length] at size
    omega
  · intro start
    refine ⟨?_, ?_, ?_, ?_⟩
    · have rest : rawlen.toInt.toNat - packet.payloadStart = packet.payload.length := by omega
      rw [data, start, rest]
      exact stands.payload
    · rw [mark, stands.kind, ofNat_byte_ne_zero]
      exact kind_marker _ _
    · rw [seq, Mem.shifted_short, stands.sequenceNumber.netShort]
      exact Int32.toInt_ofNat_of_lt (Nat.lt_trans packet.sequenceNumber.toNat_lt (by decide))
    · rw [ts]
      refine congrArg UInt32.toInt32 (UInt32.toNat_inj.1 ?_)
      rw [Mem.shifted_long, stands.timestamp.netLong]

/-- A packet is parsed just in case the start of its payload is found. -/
theorem unpacked_iff_found (packet : RTPPacket) (short : packet.encode.length < 2147483648) :
    packet.Unpacked ↔ packet.LengthFound := by
  have length := packet.encode_length_eq
  have told : (Int32.ofNat packet.encode.length).toInt = packet.encode.length :=
    Int32.toInt_ofNat_of_lt short
  have stands (rest : Mem) := stands_of_holds (rest.receive_holds packet.encode)
  constructor
  · intro unpacked
    obtain ⟨block, parsed, carries⟩ := unpacked fun _ => 0
    have start := ((stands fun _ => 0).carries_iff told parsed).1 carries
    exact (stands fun _ => 0).start_iff.1 start
  · intro found rest
    have start := (stands rest).start_iff.2 found
    have header : 12 ≤ packet.payloadStart := Nat.le_add_right_of_le (Nat.le_add_right 12 _)
    have some_data := List.length_pos_iff.2 packet.full
    have long : 12 ≤ (Int32.ofNat packet.encode.length).toInt := by omega
    have inside : (dataStart (rest.receive packet.encode) : Int) <
        (Int32.ofNat packet.encode.length).toInt := by omega
    obtain ⟨block, parsed⟩ := parseRTP_some long inside
    exact ⟨block, parsed, ((stands rest).carries_iff told parsed).2 start⟩

end RTPPacket

/-! ## Where is read -/

def ReadsInside (rawdata : Mem) (rawlen : Int32) : Prop :=
  ∀ pos < (parseRTP rawdata rawlen).2, (pos : Int) < rawlen.toInt

theorem parseRTP_extent {rawdata : Mem} {rawlen : Int32} (long : 12 ≤ rawlen.toInt) :
    (parseRTP rawdata rawlen).2 =
      if rawlen.toInt ≤ dataStart rawdata then if rawdata 0 &&& 0x10 ≠ 0 then 16 else 8
      else max (if rawdata 0 &&& 0x10 ≠ 0 then 16 else 8) rawlen.toInt.toNat := by
  rw [parseRTP, if_neg (by rw [rtpHeaderLen]; omega), apply_ite Prod.snd]
  rfl

theorem readsInside_iff (rawdata : Mem) (rawlen : Int32) :
    ReadsInside rawdata rawlen ↔
      ¬(12 ≤ rawlen.toInt ∧ rawlen.toInt < 16 ∧ rawdata 0 &&& 0x10 ≠ 0) := by
  by_cases long : 12 ≤ rawlen.toInt
  · rw [ReadsInside, parseRTP_extent long]
    by_cases extended : rawdata 0 &&& 0x10 ≠ 0
    · simp only [if_pos extended]
      have start : 16 ≤ dataStart rawdata := by
        rw [dataStart, if_pos extended, rtpHeaderLen]
        omega
      constructor
      · rintro reads ⟨-, cut, -⟩
        have far := reads 15 (by split <;> omega)
        omega
      · intro enough pos before
        have full : 16 ≤ rawlen.toInt := by
          by_contra less
          exact enough ⟨long, by omega, extended⟩
        split at before <;> omega
    · simp only [if_neg extended]
      refine iff_of_true (fun pos before => ?_) fun bad => extended bad.2.2
      split at before <;> omega
  · have short : (parseRTP rawdata rawlen).2 = 0 := by
      rw [parseRTP, if_pos (by rw [rtpHeaderLen]; omega)]
    rw [ReadsInside, short]
    exact iff_of_true (fun _ before => absurd before (Nat.not_lt_zero _)) fun bad => long bad.1

/-- Packets are parsed and reads stay inside exactly where the length of the extension is. -/
theorem unpacking (packet : RTPPacket) (rawdata : Mem) (rawlen : Int32) :
    (packet.encode.length < 2147483648 → (packet.Unpacked ↔ packet.LengthFound)) ∧
    (ReadsInside rawdata rawlen ↔
      ¬(12 ≤ rawlen.toInt ∧ rawlen.toInt < 16 ∧ rawdata 0 &&& 0x10 ≠ 0)) :=
  ⟨packet.unpacked_iff_found, readsInside_iff rawdata rawlen⟩

/-- One CSRC word and an extension of one word. -/
def mixedPacket : RTPPacket where
  version := 2
  marker := false
  payloadType := 96
  sequenceNumber := 1
  timestamp := 0
  ssrc := 0
  csrcs := [0]
  extension := some ⟨0, [0], by decide⟩
  payload := [1]
  few := by decide
  full := by decide

theorem mixed_packet_found : mixedPacket.encode.length = 25 ∧
    (mixedPacket.Unpacked ↔ mixedPacket.LengthFound) :=
  ⟨by decide, (unpacking mixedPacket (fun _ => 0) 0).1 (by decide)⟩

/-- The payload of a packet is not found, and the header of another ends before its end. -/
theorem mixed_packet_not_unpacked : ¬mixedPacket.Unpacked ∧ ¬ReadsInside (fun _ => 0x90) 12 := by
  constructor
  · rw [RTPPacket.unpacked_iff_found mixedPacket (by decide)]
    intro found
    exact absurd (found _ rfl _ rfl) (by decide)
  · rw [readsInside_iff]
    exact not_not.2 (by decide)

end Cors
