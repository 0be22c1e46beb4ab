import Cors.Utils.Ip2asn

/-! # Answers of a name server

A name is a number of labels and then a zero byte or a pointer. The loop that skips one looks at
the byte it stands on only once it is past a label, so that it finds the end of some labels at a
zero byte, and a pointer where no label stands in front of it.
-/

namespace Cors

namespace Ip2asn

open Text ByteFormat

/-! ## Names -/

structure DomainName where
  labels : List Bytes
  pointer : Option (UInt8 × UInt8)
  sized : ∀ label ∈ labels, 0 < label.length ∧ label.length < 64
  marked : ∀ p ∈ pointer, 0xc0 ≤ p.1

namespace DomainName

def labelBytes (labels : List Bytes) : Bytes :=
  labels.flatMap fun label => UInt8.ofNat label.length :: label

def endBytes (pointer : Option (UInt8 × UInt8)) : Bytes :=
  pointer.elim [0] fun p => [p.1, p.2]

def encode (name : DomainName) : Bytes := labelBytes name.labels ++ endBytes name.pointer

/-- Labels and a zero byte, or a pointer and no labels. -/
def Plain (name : DomainName) : Prop :=
  name.labels ≠ [] ∧ name.pointer = none ∨ name.labels = [] ∧ name.pointer ≠ none

end DomainName

/-! ## Skipping -/

section Skip
variable {data : Mem} {pos : Nat}

theorem skipLoop_zero (data : Mem) (pos : Nat) : skipLoop data 0 pos = some pos := by
  rw [skipLoop, if_pos rfl]

theorem skipLoop_pointer {tlen : UInt8} (marked : 0xc0 ≤ tlen) :
    skipLoop data tlen pos = some (pos + 2) := by
  have nonzero : tlen ≠ 0 := by
    rintro rfl
    exact absurd marked (by decide)
  rw [skipLoop, if_neg nonzero, if_pos marked]

/-- The length of a label. -/
def LabelSize (tlen : UInt8) : Prop := tlen ≠ 0 ∧ ¬0xc0 ≤ tlen

theorem skipLoop_label {tlen : UInt8} (size : LabelSize tlen) (inside : pos < dataLen) :
    skipLoop data tlen pos = skipLoop data (data pos) (pos + (data pos).toNat + 1) := by
  rw [skipLoop, if_neg size.1, if_neg size.2, if_pos inside]

theorem labelSize_of_sized {label : Bytes} (sized : 0 < label.length ∧ label.length < 64) :
    LabelSize (UInt8.ofNat label.length) ∧ (UInt8.ofNat label.length).toNat = label.length := by
  have value : (UInt8.ofNat label.length).toNat = label.length :=
    UInt8.toNat_ofNat_of_lt' (Nat.lt_trans sized.2 (by decide))
  refine ⟨⟨fun zero => ?_, fun marked => ?_⟩, value⟩
  · rw [zero] at value
    exact absurd value (Nat.ne_of_lt sized.1)
  · rw [UInt8.le_iff_toNat_le, value] at marked
    exact absurd sized.2 (Nat.not_lt.2 (Nat.le_trans (by decide) marked))

theorem skipLoop_labels {labels : List Bytes}
    (sized : ∀ label ∈ labels, 0 < label.length ∧ label.length < 64)
    (stands : data.Holds pos (DomainName.labelBytes labels))
    (inside : pos + (DomainName.labelBytes labels).length ≤ dataLen)
    {tlen : UInt8} (size : LabelSize tlen) :
    ∃ tlen', LabelSize tlen' ∧ skipLoop data tlen pos =
      skipLoop data tlen' (pos + (DomainName.labelBytes labels).length) := by
  induction labels generalizing pos tlen with
  | nil => exact ⟨tlen, size, rfl⟩
  | cons label labels ih =>
      rw [List.forall_mem_cons] at sized
      obtain ⟨isSize, value⟩ := labelSize_of_sized sized.1
      have split : DomainName.labelBytes (label :: labels) =
          (UInt8.ofNat label.length :: label) ++ DomainName.labelBytes labels := List.flatMap_cons
      rw [split, Mem.holds_append] at stands
      rw [split, List.length_append, List.length_cons] at inside ⊢
      have first : data pos = UInt8.ofNat label.length := (List.cons.inj stands.1).1
      have next : pos + (UInt8.ofNat label.length).toNat + 1 = pos + (label.length + 1) := by omega
      have behind := stands.2
      rw [List.length_cons] at behind
      obtain ⟨tlen', isSize', rest⟩ := ih sized.2 behind (by omega) isSize
      refine ⟨tlen', isSize', ?_⟩
      rw [skipLoop_label size (by omega), first, next, ← Nat.add_assoc pos (label.length + 1)]
      exact rest

variable {name : DomainName}

/-- Behind a label the loop counts a pointer as a label. -/
theorem skipLoop_end (pointer : Option (UInt8 × UInt8)) (marked : ∀ p ∈ pointer, 0xc0 ≤ p.1)
    (stands : data.Holds pos (DomainName.endBytes pointer)) (inside : pos < dataLen)
    {tlen : UInt8} (size : LabelSize tlen) :
    skipLoop data tlen pos = some (pos + (DomainName.endBytes pointer).length) ↔
      pointer = none := by
  rw [skipLoop_label size inside]
  cases pointer with
  | none =>
      have first : data pos = 0 := (List.cons.inj stands).1
      rw [first, skipLoop_zero]
      exact iff_of_true rfl rfl
  | some p =>
      have first : data pos = p.1 := (List.cons.inj stands).1
      have long : 0xc0 ≤ p.1.toNat := UInt8.le_iff_toNat_le.1 (marked p rfl)
      rw [first, skipLoop_pointer (marked p rfl)]
      refine iff_of_false (fun same => ?_) (Option.some_ne_none p)
      have equal : pos + p.1.toNat + 1 + 2 = pos + 2 := Option.some.inj same
      omega

/-- In front of all labels it is the other way round. -/
theorem skipLoop_start (pointer : Option (UInt8 × UInt8)) (marked : ∀ p ∈ pointer, 0xc0 ≤ p.1)
    (stands : data.Holds pos (DomainName.endBytes pointer)) :
    skipLoop data (data pos) pos = some (pos + (DomainName.endBytes pointer).length) ↔
      pointer ≠ none := by
  cases pointer with
  | none =>
      have first : data pos = 0 := (List.cons.inj stands).1
      rw [first, skipLoop_zero]
      refine iff_of_false (fun same => ?_) (fun other => other rfl)
      have equal : pos = pos + 1 := Option.some.inj same
      omega
  | some p =>
      have first : data pos = p.1 := (List.cons.inj stands).1
      rw [first, skipLoop_pointer (marked p rfl)]
      exact iff_of_true rfl (Option.some_ne_none p)

theorem skipName_iff (stands : data.Holds pos name.encode)
    (inside : pos + name.encode.length ≤ dataLen) :
    skipName data pos = some (pos + name.encode.length) ↔ name.Plain := by
  obtain ⟨labels, pointer, sized, marked⟩ := name
  have more : 0 < (DomainName.endBytes pointer).length := by
    cases pointer <;> exact Nat.succ_pos _
  dsimp only [DomainName.encode, DomainName.Plain] at stands inside ⊢
  have start : skipName data pos = skipLoop data (data pos) pos := by
    rw [List.length_append] at inside
    rw [skipName, if_pos (by omega)]
  rw [start]
  cases labels with
  | nil =>
      have empty : DomainName.labelBytes [] = [] := rfl
      rw [empty, List.nil_append] at stands ⊢
      rw [skipLoop_start pointer marked stands]
      simp
  | cons label labels =>
      rw [Mem.holds_append] at stands
      rw [List.length_append] at inside ⊢
      have isSize := labelSize_of_sized (List.forall_mem_cons.1 sized).1
      have first : data pos = UInt8.ofNat label.length := (List.cons.inj stands.1).1
      obtain ⟨tlen, size, passed⟩ := skipLoop_labels sized stands.1 (by omega) isSize.1
      rw [first, passed, ← Nat.add_assoc, skipLoop_end pointer marked stands.2 (by omega) size]
      simp

end Skip

/-! ## The number -/

theorem charByte_toNat {c : Char} (digit : c.isDigit = true) :
    (UInt8.ofNat c.toNat).toNat = c.toNat := by
  have range : 48 ≤ c.toNat ∧ c.toNat ≤ 57 := Char.isDigit_iff_toNat.1 digit
  exact UInt8.toNat_ofNat_of_lt' (by rw [UInt8.size]; omega)

theorem bytesText_charBytes {t : Text} (digits : Digits t) : bytesText (charBytes t) = t := by
  rw [bytesText, charBytes, List.map_map]
  refine (List.map_congr_left fun c member => ?_).trans (List.map_id t)
  rw [Function.comp_apply, charByte_toNat (digits c member), Char.ofNat_toNat, id]

theorem bytesText_append (l r : Bytes) : bytesText (l ++ r) = bytesText l ++ bytesText r :=
  List.map_append

theorem charBytes_ne_zero {t : Text} (digits : Digits t) : ∀ b ∈ charBytes t, b ≠ 0 := by
  intro b member
  obtain ⟨c, inside, rfl⟩ := List.mem_map.1 member
  have range : 48 ≤ c.toNat ∧ c.toNat ≤ 57 := Char.isDigit_iff_toNat.1 (digits c inside)
  intro zero
  have value := charByte_toNat (digits c inside)
  rw [zero, UInt8.toNat_zero] at value
  omega

theorem scanUnsigned_digits {digits rest : Text} (number : Digits digits) (nonempty : digits ≠ [])
    (stop : ∀ c ∈ rest.head?, c.isDigit = false)
    (small : Nat.ofDigitChars 10 digits 0 < 65536) :
    scanUnsigned (digits ++ rest) = some (UInt16.ofNat (Nat.ofDigitChars 10 digits 0)) := by
  have first := digits_first (t := rest) number nonempty
  have solid : (digits ++ rest).dropWhile isSpace = digits ++ rest := by
    cases digits with
    | nil => exact absurd rfl nonempty
    | cons d digits =>
        exact List.dropWhile_cons_of_neg (by simp [digit_not_space (number d List.mem_cons_self)])
  have unsigned : takeSign (digits ++ rest) = ([], digits ++ rest) :=
    takeSign_none fun c head => digit_not_sign (first c head)
  have some_digits : ¬(digits = [] ∨ 4294967296 ≤ Nat.ofDigitChars 10 digits 0) := by
    rintro (none | large)
    · exact nonempty none
    · omega
  rw [scanUnsigned, solid, unsigned]
  dsimp only
  rw [takeDigits_append number stop]
  dsimp only
  have low : (Nat.ofDigitChars 10 digits 0 : Int) % 2 ^ 16 = Nat.ofDigitChars 10 digits 0 := by
    omega
  rw [if_neg some_digits, if_neg (by decide), UInt16.ofInt, low, Int.toNat_natCast]

theorem zero_mem_read {data : Mem} {pos : Nat} (inside : pos < dataLen)
    (last : data (dataLen - 1) = 0) : 0 ∈ data.read pos (dataLen - pos) := by
  have there : (data.read pos (dataLen - pos))[dataLen - 1 - pos]? =
      some (data (pos + (dataLen - 1 - pos))) := data.read_getElem? (by omega)
  have spot : pos + (dataLen - 1 - pos) = dataLen - 1 := by omega
  rw [spot, last] at there
  exact List.mem_of_getElem? there

theorem cString_digits {data : Mem} {pos : Nat} {digits : Text} {stop : UInt8}
    (number : Digits digits) (other : (Char.ofNat stop.toNat).isDigit = false)
    (stands : data.Holds pos (charBytes digits ++ [stop]))
    (inside : pos + digits.length < dataLen) (last : data (dataLen - 1) = 0) :
    ∃ rest, cString data pos = some (digits ++ rest) ∧ ∀ c ∈ rest.head?, c.isDigit = false := by
  have size : (charBytes digits ++ [stop]).length = digits.length + 1 := by
    rw [List.length_append, charBytes, List.length_map]
    rfl
  have cut : dataLen - pos = (charBytes digits ++ [stop]).length +
      (dataLen - pos - (digits.length + 1)) := by omega
  have whole : ∃ l, data.read pos (dataLen - pos) = charBytes digits ++ stop :: l := by
    rw [cut, Mem.read_add, stands, List.append_assoc]
    exact ⟨_, rfl⟩
  have here : pos < dataLen := Nat.lt_of_le_of_lt (Nat.le_add_right pos _) inside
  have ends := zero_mem_read here last
  obtain ⟨l, whole⟩ := whole
  refine ⟨bytesText ((stop :: l).takeWhile (· ≠ 0)), ?_, ?_⟩
  · have passed : ∀ b ∈ charBytes digits, decide (b ≠ 0) = true := fun b member =>
      decide_eq_true (charBytes_ne_zero number b member)
    rw [cString, if_pos ends, whole, List.takeWhile_append_of_pos passed, bytesText_append,
      bytesText_charBytes number]
  · by_cases zero : stop = 0
    · rw [List.takeWhile_cons_of_neg (by simp [zero])]
      exact fun c first => by cases first
    · rw [List.takeWhile_cons_of_pos (p := fun b => decide (b ≠ 0)) (decide_eq_true zero)]
      rintro c ⟨⟩
      exact other

/-! ## Responses -/

/-- A response whose first answer is a TXT record, the text of which begins with a number. -/
structure Response where
  flags : UInt16
  nque : UInt16
  nans : UInt16
  naut : UInt16
  nadd : UInt16
  question : DomainName
  questionType : UInt16
  questionClass : UInt16
  owner : DomainName
  answerClass : UInt16
  ttl : UInt32
  size : UInt16
  textSize : UInt8
  digits : Text
  stop : UInt8
  rest : Bytes
  answered : 0 < nans
  number : Digits digits
  nonempty : digits ≠ []
  small : Nat.ofDigitChars 10 digits 0 < 65536
  ended : (Char.ofNat stop.toNat).isDigit = false

namespace Response

/-- The fields of the answer between its owner and its text. -/
def fixed (response : Response) : Bytes :=
  [0, 0x10] ++ u16.encode response.answerClass ++ u32.encode response.ttl ++
    u16.encode response.size ++ [response.textSize]

def encode (response : Response) : Bytes :=
  u16.encode msgId ++ (u16.encode response.flags ++ (u16.encode response.nque ++
    (u16.encode response.nans ++ (u16.encode response.naut ++ (u16.encode response.nadd ++
    (response.question.encode ++
    (u16.encode response.questionType ++ (u16.encode response.questionClass ++
    (response.owner.encode ++ (response.fixed ++
    ((charBytes response.digits ++ [response.stop]) ++ response.rest)))))))))))

def asn (response : Response) : UInt16 := UInt16.ofNat (Nat.ofDigitChars 10 response.digits 0)

/-- Where the owner of the answer begins. -/
def ownerPos (response : Response) : Nat := response.question.encode.length + 4

/-- Where the fields of the answer begin. -/
def fixedPos (response : Response) : Nat := response.ownerPos + response.owner.encode.length

theorem fixed_length (response : Response) : response.fixed.length = 11 := by
  simp [fixed]

theorem encode_length_eq (response : Response) : response.encode.length =
    12 + response.fixedPos + 11 + (response.digits.length + 1 + response.rest.length) := by
  simp only [encode, List.length_append, ByteFormat.encode_length, u16_width, fixed_length,
    charBytes, List.length_map, List.length_singleton]
  rw [fixedPos, ownerPos]
  omega

end Response

/-! ## What was there before -/

/-- Words and a byte in front of each are at most twice as long as the text. -/
theorem split_room (delim : Char → Bool) (t : Text) :
    ((split delim t).map (·.length + 1)).sum ≤ 2 * t.length := by
  induction t using split.induct delim with
  | case1 t blank =>
      rw [split_blank blank]
      exact Nat.zero_le _
  | case2 t c rest found ih =>
      have parts := congrArg List.length (rest.takeWhile_append_dropWhile (p := fun d => !delim d))
      have shorter := length_dropWhile_le delim t
      rw [List.length_append] at parts
      rw [found, List.length_cons] at shorter
      rw [split_found found, List.map_cons, List.sum_cons, List.length_cons]
      omega

theorem dottedText_length (bs : Bytes) : (NbConf.dottedText bs).length ≤ 4 * bs.length := by
  have short (b : UInt8) : (decimal b.toNat).length ≤ 3 :=
    (Nat.length_toDigits_le_iff (by decide) (by decide)).2 (Nat.lt_trans b.toNat_lt (by decide))
  fun_induction NbConf.dottedText bs with
  | case1 => exact Nat.le_refl 0
  | case2 b => exact Nat.le_succ_of_le (short b)
  | case3 b c bs ih =>
      have first := short b
      simp only [List.length_append, List.length_cons] at ih ⊢
      omega

theorem request_length (ip : UInt32) : (request ip).length < 500 := by
  have words := split_room isDot (NbConf.inetNtop ip)
  have text := dottedText_length (u32.encode ip)
  rw [u32.encode_length, u32_width] at text
  have each : ∀ labels : List Text,
      (labels.flatMap fun label => UInt8.ofNat label.length :: charBytes label).length =
        (labels.map (·.length + 1)).sum := by
    intro labels
    rw [List.length_flatMap]
    exact congrArg List.sum (List.map_congr_left fun label _ => by simp [charBytes])
  have front : header.length = 12 := rfl
  have behind : (zone.map (·.length + 1)).sum = 21 := by decide
  rw [NbConf.inetNtop] at words
  simp only [request, labels, List.length_append, each, List.map_append, List.sum_append,
    List.map_reverse, List.sum_reverse, encode_length, u16_width, front, behind,
    List.length_singleton, NbConf.inetNtop]
  omega

theorem dataOf_holds {msg : Mem} {pos : Nat} {l : Bytes} :
    (dataOf msg).Holds pos l ↔ msg.Holds (headerLen + pos) l := by
  have same (n : Nat) : (dataOf msg).read pos n = msg.read (headerLen + pos) n := by
    induction n generalizing pos with
    | zero => rfl
    | succ n ih => exact congrArg (msg (headerLen + pos) :: ·) ih
  rw [Mem.Holds, Mem.Holds, same]

/-- The parts of a response that stands in the message. -/
structure Response.Stands (response : Response) (msg : Mem) : Prop where
  id : msg.get u16 0 = msgId
  nans : msg.get u16 6 = response.nans
  question : (dataOf msg).Holds 0 response.question.encode
  owner : (dataOf msg).Holds response.ownerPos response.owner.encode
  fixed : (dataOf msg).Holds response.fixedPos response.fixed
  text : (dataOf msg).Holds (response.fixedPos + 11) (charBytes response.digits ++ [response.stop])
  last : dataOf msg (dataLen - 1) = 0

theorem Response.stands_of_holds {response : Response} {msg : Mem}
    (whole : msg.Holds 0 response.encode) (last : dataOf msg (dataLen - 1) = 0) :
    response.Stands msg := by
  simp only [encode, Mem.holds_append, ByteFormat.encode_length, u16_width, Nat.zero_add,
    Response.fixed_length] at whole
  obtain ⟨id, -, -, nans, -, -, question, -, -, owner, fixed, text, -⟩ := whole
  have ownerAt : headerLen + response.ownerPos = 12 + response.question.encode.length + 4 :=
    (Nat.add_assoc 12 _ 4).symm
  have fixedAt : headerLen + response.fixedPos =
      12 + response.question.encode.length + 4 + response.owner.encode.length := by
    rw [fixedPos, ← Nat.add_assoc, ownerAt]
  have textAt : headerLen + (response.fixedPos + 11) =
      12 + response.question.encode.length + 4 + response.owner.encode.length + 11 := by
    rw [← Nat.add_assoc, fixedAt]
  exact {
    id := id.get
    nans := nans.get
    question := dataOf_holds.2 question
    owner := by rwa [dataOf_holds, ownerAt]
    fixed := by rwa [dataOf_holds, fixedAt]
    text := by
      rw [dataOf_holds, textAt, Mem.holds_append]
      exact text
    last }

/-- The last bytes of the message are never written. -/
theorem received_last (ip : UInt32) (response : Bytes) :
    dataOf (received ip response) (dataLen - 1) = 0 := by
  have before := request_length ip
  have cut := List.length_take_le 512 response
  have spot : headerLen + (dataLen - 1) = 523 := rfl
  rw [dataOf, received, spot, Mem.receive_beyond _ (by omega), Mem.padded,
    Mem.receive_beyond _ (by omega)]

theorem Response.stands_of_fits (ip : UInt32) {response : Response}
    (fits : response.encode.length ≤ 512) : response.Stands (received ip response.encode) := by
  refine Response.stands_of_holds ?_ (received_last ip _)
  rw [received, List.take_of_length_le fits]
  exact Mem.receive_holds _ _

theorem Response.Stands.ends_iff {response : Response} {msg : Mem} (stands : response.Stands msg)
    (fits : response.encode.length ≤ 512) :
    skipName (dataOf msg) 0 = some response.question.encode.length ∧
      skipName (dataOf msg) response.ownerPos = some response.fixedPos ↔
        response.question.Plain ∧ response.owner.Plain := by
  have length := response.encode_length_eq
  have places : response.fixedPos = response.ownerPos + response.owner.encode.length := rfl
  have start : response.ownerPos = response.question.encode.length + 4 := rfl
  have question := skipName_iff stands.question (by rw [dataLen]; omega)
  have owner := skipName_iff stands.owner (by rw [dataLen]; omega)
  rw [Nat.zero_add] at question
  rw [← question, ← owner, places]

theorem Response.Stands.read {response : Response} {msg : Mem} (stands : response.Stands msg)
    (fits : response.encode.length ≤ 512)
    (question : skipName (dataOf msg) 0 = some response.question.encode.length)
    (owner : skipName (dataOf msg) response.ownerPos = some response.fixedPos) :
    readAnswer msg = some (htons response.asn) := by
  have length := response.encode_length_eq
  have isText : dataOf msg (response.fixedPos + 1) = 0x10 := by
    have second : 1 < response.fixed.length := by
      rw [response.fixed_length]
      decide
    have there : ((dataOf msg).read response.fixedPos response.fixed.length)[1]? = _ :=
      (dataOf msg).read_getElem? second
    rw [stands.fixed] at there
    exact (Option.some.inj there).symm
  have room : response.fixedPos + 1 < dataLen := by
    rw [dataLen]
    omega
  obtain ⟨rest, string, stop⟩ := cString_digits response.number response.ended stands.text
    (by rw [dataLen]; omega) stands.last
  have answered : msg.get u16 0 = msgId ∧ 0 < msg.get u16 6 :=
    ⟨stands.id, stands.nans ▸ response.answered⟩
  have number := scanUnsigned_digits response.number response.nonempty stop response.small
  have behind : skipName (dataOf msg) (response.question.encode.length + 4) =
      some response.fixedPos := owner
  rw [readAnswer, if_pos answered]
  simp only [question, Option.bind_eq_bind, Option.bind_some, behind, if_pos room, if_pos isText,
    string, number]
  rfl

/-! ## The whole -/

/-- The loops find the ends of both names, and the number is returned. -/
structure Response.Parsed (response : Response) (msg : Mem) (result : Option UInt16) : Prop where
  question : skipName (dataOf msg) 0 = some response.question.encode.length
  owner : skipName (dataOf msg) response.ownerPos = some response.fixedPos
  asn : result = some (htons response.asn)

theorem ip2asn_asked {ask : UInt32 → Bytes → Option Bytes} {ip addr : UInt32} {conf : Text}
    {answer : Bytes} (found : findServer (lines conf) = some addr) (nonzero : addr ≠ 0)
    (asked : ask addr (request ip) = some answer) :
    ip2asn ask ip (some conf) = readAnswer (received ip answer) := by
  simp only [ip2asn, found, if_neg nonzero, asked]

/-- A response is parsed just in case both names are plain. -/
theorem parsed_iff_plain (ask : UInt32 → Bytes → Option Bytes) (ip addr : UInt32) (conf : Text)
    (response : Response) (found : findServer (lines conf) = some addr) (nonzero : addr ≠ 0)
    (asked : ask addr (request ip) = some response.encode)
    (fits : response.encode.length ≤ 512) :
    response.Parsed (received ip response.encode) (ip2asn ask ip (some conf)) ↔
      response.question.Plain ∧ response.owner.Plain := by
  have stands := Response.stands_of_fits ip fits
  rw [← stands.ends_iff fits, ip2asn_asked found nonzero asked]
  constructor
  · rintro ⟨question, owner, -⟩
    exact ⟨question, owner⟩
  · rintro ⟨question, owner⟩
    exact ⟨question, owner, stands.read fits question owner⟩

def resolvConf : Text := "nameserver 8.8.8.8".toList

/-- An answer with 7132 for a name of one label, and an owner. -/
def sampleResponse (owner : DomainName) : Response where
  flags := 0
  nque := htons 1
  nans := htons 1
  naut := 0
  nadd := 0
  question := ⟨[[97]], none, by decide, fun p missing => by cases missing⟩
  questionType := qtype
  questionClass := qclass
  owner := owner
  answerClass := qclass
  ttl := 0
  size := htons 6
  textSize := 5
  digits := decimal 7132
  stop := 32
  rest := []
  answered := by decide
  number := decimal_digits 7132
  nonempty := decimal_ne_nil 7132
  small := by decide
  ended := by decide

theorem back_marked : ∀ p ∈ some ((0xc0, 12) : UInt8 × UInt8), 0xc0 ≤ p.1 := by
  rintro p ⟨⟩
  decide

/-- A pointer back to the question. -/
def pointerName : DomainName := ⟨[], some (0xc0, 12), List.forall_mem_nil _, back_marked⟩

/-- One more label in front of it. -/
def labelledName : DomainName := ⟨[[98]], some (0xc0, 12), by decide, back_marked⟩

theorem pointer_answer_parsed : (sampleResponse pointerName).Parsed
    (received 0 (sampleResponse pointerName).encode)
    (ip2asn (fun _ _ => some (sampleResponse pointerName).encode) 0 (some resolvConf)) :=
  (parsed_iff_plain _ 0 0x08080808 resolvConf (sampleResponse pointerName) (by decide) (by decide)
    rfl (by decide)).2 ⟨.inl (by decide), .inr (by decide)⟩

theorem labelled_answer_not_parsed : ¬(sampleResponse labelledName).Parsed
    (received 0 (sampleResponse labelledName).encode)
    (ip2asn (fun _ _ => some (sampleResponse labelledName).encode) 0 (some resolvConf)) := by
  have fits : (sampleResponse labelledName).encode.length ≤ 512 := by decide
  rintro ⟨question, owner, -⟩
  have plain := ((Response.stands_of_fits 0 fits).ends_iff fits).1 ⟨question, owner⟩
  rcases plain.2 with ⟨-, none⟩ | ⟨none, -⟩
  · cases none
  · cases none

end Ip2asn

end Cors
