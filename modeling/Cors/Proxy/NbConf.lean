import Cors.Proxy.Saving

/-! # The configuration tools

`nbconfgen` turns lines `oracle|peer ip port` into a file the neighbour maintainer can be
started on, and `nbconfparse` turns such a file back. The variable for the type is set once
before the loop of `nbconfgen` and after that only ever to the type of an oracle, so every line
behind one for an oracle becomes one too.
-/

namespace Cors

namespace NbConf

open Text SimpleNbmtr ByteFormat

/-! ## Addresses as text -/

def dottedText : Bytes → Text
  | [] => []
  | [b] => decimal b.toNat
  | b :: c :: bs => decimal b.toNat ++ '.' :: dottedText (c :: bs)

def inetNtop (addr : UInt32) : Text := dottedText (u32.encode addr)

/-- A decimal number up to 255 without leading zeros. -/
def takeOctet (t : Text) : Option (UInt8 × Text) :=
  let (digits, t) := takeDigits t
  let n := Nat.ofDigitChars 10 digits 0
  if digits = [] ∨ digits.head? = some '0' ∧ digits ≠ ['0'] ∨ 255 < n then
    none
  else
    some (UInt8.ofNat n, t)

/-- Octets up to the end of the text, each behind a point. -/
def takeOctets : Nat → Text → Option Bytes
  | 0, t => if t = [] then some [] else none
  | n + 1, '.' :: t => do
      let (b, t) ← takeOctet t
      let bs ← takeOctets n t
      pure (b :: bs)
  | _ + 1, _ => none

def inetPton (t : Text) : Option UInt32 := (takeOctets 4 ('.' :: t)).map u32.decode

/-! ## nbconfgen -/

def isBlank (c : Char) : Bool := c = ' '

def oracleWord : Text := ['o', 'r', 'a', 'c', 'l', 'e']
def peerWord : Text := ['p', 'e', 'e', 'r']

structure GenVars where
  type : Int8
  addr : UInt32
  port : UInt16

/-- `0` as it is printed. -/
def zero : Number := ⟨[], ['0'], none, none⟩

/-- One round of the loop. It is stuck on a line of less than three words. -/
def genLine (vars : GenVars) (line : Text) : Option (GenVars × Text) :=
  match split isBlank line with
  | v0 :: v1 :: v2 :: _ =>
      let type := if v0 = oracleWord then 0 else vars.type
      let addr := (inetPton v1).getD vars.addr
      let port := (extract readU16 (.of v2) vars.port).1
      some (⟨type, addr, port⟩, confLine type addr (htons port) zero 0 0 0xFFFFFFFF ++ [' '])
  | _ => none

def genLines : GenVars → List Text → Option (List Text)
  | _, [] => some []
  | vars, line :: rest => do
      let (vars, out) ← genLine vars line
      let outs ← genLines vars rest
      pure (out :: outs)

/-- `nbconfgen`. What `addr` and `port` are at first is left open. -/
def nbconfgen (addr : UInt32) (port : UInt16) (file : Text) : Option Text :=
  (genLines ⟨1, addr, port⟩ (lines file)).map unlines

/-! ## nbconfparse -/

def parsedLine (fmt : RealFormat) (vars : Neighbor) : Text :=
  (if vars.type = 0 then oracleWord else peerWord) ++ ' ' :: (inetNtop vars.addr ++ ' ' ::
    (decimal (ntohs vars.port).toNat ++ ' ' :: ((fmt.print vars.rtt).chars ++ ' ' ::
      (decimalInt vars.ts.toInt ++ ' ' :: (decimal vars.asn.toNat ++ ' ' :: inetNtop vars.mask)))))

/-- The variables are kept in the record their fields are named after. -/
def parseLines (fmt : RealFormat) : Neighbor → List Text → List Text
  | _, [] => []
  | vars, line :: rest =>
      let vars := extractLine fmt line vars
      parsedLine fmt vars :: parseLines fmt vars rest

def nbconfparse (fmt : RealFormat) (vars : Neighbor) (file : Text) : Text :=
  unlines (parseLines fmt vars (lines file))

/-! ## What is asked for -/

structure Entry where
  oracle : Bool
  ip : Bytes
  port : UInt16
  four : ip.length = 4

namespace Entry

def words (e : Entry) : List Text :=
  [if e.oracle then oracleWord else peerWord, dottedText e.ip, decimal e.port.toNat]

def line (e : Entry) : Text :=
  (if e.oracle then oracleWord else peerWord) ++ ' ' ::
    (dottedText e.ip ++ ' ' :: decimal e.port.toNat)

end Entry

/-- The lines of the entries; the last one may lack its newline. -/
def inputFile (closed : Bool) (es : List Entry) : Text :=
  let file := unlines (es.map Entry.line)
  if closed then file else file.dropLast

/-- Type, address and port of a line. -/
def firstWords (line : Text) : List Text := (split isBlank line).take 3

/-- Line by line the same types, addresses and ports come back. -/
def RoundTrips (fmt : RealFormat) (addr : UInt32) (port : UInt16) (vars : Neighbor) (closed : Bool)
    (es : List Entry) : Prop :=
  ∃ conf, nbconfgen addr port (inputFile closed es) = some conf ∧
    (lines (nbconfparse fmt vars conf)).map firstWords = es.map Entry.words

/-! ## Addresses -/

theorem takeOctet_decimal (b : UInt8) {t : Text} (stop : ∀ c ∈ t.head?, c.isDigit = false) :
    takeOctet (decimal b.toNat ++ t) = some (b, t) := by
  have small : b.toNat < 256 := b.toNat_lt
  have accepted : ¬(decimal b.toNat = [] ∨
      (decimal b.toNat).head? = some '0' ∧ decimal b.toNat ≠ ['0'] ∨ 255 < b.toNat) := by
    intro refused
    obtain empty | ⟨leading, more⟩ | large := refused
    · exact decimal_ne_nil _ empty
    · by_cases positive : 0 < b.toNat
      · exact decimal_head positive leading
      · have none : b.toNat = 0 := Nat.eq_zero_of_not_pos positive
        rw [none] at more
        exact more (Nat.toDigits_zero 10)
    · exact absurd large (Nat.not_lt_of_le (Nat.le_of_lt_succ small))
  rw [takeOctet, takeDigits_append (decimal_digits _) stop]
  dsimp only
  rw [ofDigitChars_decimal, if_neg accepted, UInt8.ofNat_toNat]

theorem takeOctets_dottedText {bs : Bytes} (nonempty : bs ≠ []) :
    takeOctets bs.length ('.' :: dottedText bs) = some bs := by
  induction bs with
  | nil => exact absurd rfl nonempty
  | cons b bs ih =>
      cases bs with
      | nil =>
          have octet := takeOctet_decimal b (t := []) fun _ first => by cases first
          rw [List.append_nil] at octet
          simp [takeOctets, dottedText, octet]
      | cons c bs =>
          have octet := takeOctet_decimal b (t := '.' :: dottedText (c :: bs)) fun d first => by
            obtain rfl := Option.some.inj first
            rfl
          have rest := ih (List.cons_ne_nil c bs)
          rw [List.length_cons, dottedText, takeOctets, octet]
          simp only [Option.bind_eq_bind, Option.bind_some, rest]
          rfl

theorem Entry.ip_ne_nil (e : Entry) : e.ip ≠ [] := by
  intro empty
  have four := e.four
  rw [empty] at four
  cases four

theorem inetPton_dottedText (e : Entry) : inetPton (dottedText e.ip) = some (u32.decode e.ip) := by
  have octets := takeOctets_dottedText e.ip_ne_nil
  rw [e.four] at octets
  rw [inetPton, octets, Option.map_some]

theorem inetNtop_decode (e : Entry) : inetNtop (u32.decode e.ip) = dottedText e.ip := by
  rw [inetNtop, u32.encode_decode e.ip e.four]

theorem dottedText_solid (bs : Bytes) : Solid (dottedText bs) := by
  induction bs with
  | nil => exact solid_nil
  | cons b bs ih =>
      have own : Solid (decimal b.toNat) := (decimal_digits _).solid
      cases bs with
      | nil => exact own
      | cons c bs => exact own.append (ih.cons rfl)

theorem dottedText_ne_nil {bs : Bytes} (nonempty : bs ≠ []) : dottedText bs ≠ [] := by
  cases bs with
  | nil => exact absurd rfl nonempty
  | cons b bs =>
      cases bs with
      | nil => exact decimal_ne_nil _
      | cons c bs => exact List.append_ne_nil_of_left_ne_nil (decimal_ne_nil _) _

/-! ## Lines -/

theorem typeWord_solid (oracle : Bool) :
    Solid (if oracle then oracleWord else peerWord) ∧
      (if oracle then oracleWord else peerWord) ≠ [] := by
  cases oracle <;> exact ⟨solid_of_any rfl, List.cons_ne_nil _ _⟩

theorem blank_not_solid {word : Text} (solid : Solid word) : ∀ c ∈ word, isBlank c = false := by
  intro c member
  cases blank : isBlank c with
  | false => rfl
  | true =>
      have space : c = ' ' := of_decide_eq_true blank
      exact absurd (space ▸ member) solid.space_notMem

theorem split_three {v0 v1 v2 : Text} (one : Solid v0 ∧ v0 ≠ []) (two : Solid v1 ∧ v1 ≠ [])
    (three : Solid v2 ∧ v2 ≠ []) (rest : Text) (stop : ∀ c ∈ rest.head?, isBlank c = true) :
    split isBlank (v0 ++ ' ' :: (v1 ++ ' ' :: (v2 ++ rest))) =
      v0 :: v1 :: v2 :: split isBlank rest := by
  have blank (t : Text) : ∀ c ∈ (' ' :: t).head?, isBlank c = true := by
    intro c first
    obtain rfl := Option.some.inj first
    rfl
  rw [split_word one.2 (blank_not_solid one.1) _ (blank _), split_delim rfl,
    split_word two.2 (blank_not_solid two.1) _ (blank _), split_delim rfl,
    split_word three.2 (blank_not_solid three.1) rest stop]

namespace Entry

theorem dotted_solid (e : Entry) : Solid (dottedText e.ip) ∧ dottedText e.ip ≠ [] :=
  ⟨dottedText_solid e.ip, dottedText_ne_nil e.ip_ne_nil⟩

theorem port_solid (e : Entry) : Solid (decimal e.port.toNat) ∧ decimal e.port.toNat ≠ [] :=
  ⟨(decimal_digits _).solid, decimal_ne_nil _⟩

theorem split_line (e : Entry) : split isBlank e.line = e.words := by
  have three := split_three (typeWord_solid e.oracle) e.dotted_solid e.port_solid []
    fun _ first => by cases first
  rw [List.append_nil, split_nil] at three
  exact three

theorem line_ne_nil (e : Entry) : e.line ≠ [] :=
  List.append_ne_nil_of_left_ne_nil (typeWord_solid e.oracle).2 _

theorem line_newline_notMem (e : Entry) : '\n' ∉ e.line := by
  have space : '\n' ≠ ' ' := by decide
  simp only [line, List.mem_append, List.mem_cons, not_or]
  exact ⟨(typeWord_solid e.oracle).1.newline_notMem, space, e.dotted_solid.1.newline_notMem, space,
    e.port_solid.1.newline_notMem⟩

end Entry

/-- The file consists of the lines, whether or not the last one is closed. -/
theorem lines_inputFile (closed : Bool) (es : List Entry) :
    lines (inputFile closed es) = es.map Entry.line := by
  have whole (fs : List Entry) : ∀ line ∈ fs.map Entry.line, '\n' ∉ line := by
    intro line member
    obtain ⟨e, -, rfl⟩ := List.mem_map.mp member
    exact e.line_newline_notMem
  cases closed with
  | true => exact lines_unlines _ (whole es)
  | false =>
      cases es using List.reverseRecOn with
      | nil => rfl
      | append_singleton es e =>
          have file : inputFile false (es ++ [e]) = unlines (es.map Entry.line) ++ e.line := by
            simp only [inputFile, unlines, List.map_append, List.flatMap_append, List.map_singleton,
              List.flatMap_singleton, Bool.false_eq_true, if_false]
            rw [← List.append_assoc, List.dropLast_concat]
          rw [file, lines_unlines_append _ _ (whole es),
            lines_last e.line e.line_newline_notMem e.line_ne_nil, List.map_append,
            List.map_singleton]

/-! ## From one tool to the other -/

/-- The entries with every type behind an oracle's turned to an oracle's. -/
def smeared : Bool → List Entry → List Entry
  | _, [] => []
  | seen, e :: es => { e with oracle := seen || e.oracle } :: smeared (seen || e.oracle) es

/-- The variable for the type, given whether an oracle was seen. -/
def typeVar (seen : Bool) : Int8 := if seen then 0 else 1

theorem zero_formed : zero.WellFormed where
  sign := rfl
  whole := fun _ digit => List.mem_singleton.mp digit ▸ rfl
  point := fun _ present => by cases present
  mantissa := .inl (List.cons_ne_nil _ _)
  exponent := fun _ present => by cases present

/-- The line that is written for an entry. -/
def confText (e : Entry) : Text :=
  confLine (typeVar e.oracle) (u32.decode e.ip) (htons e.port) zero 0 0 0xFFFFFFFF ++ [' ']

theorem genLine_line (seen : Bool) (addr : UInt32) (port : UInt16) (e : Entry) :
    genLine ⟨typeVar seen, addr, port⟩ e.line =
      some (⟨typeVar (seen || e.oracle), u32.decode e.ip, e.port⟩,
        confText { e with oracle := seen || e.oracle }) := by
  have portRead : (extract readU16 (.of (decimal e.port.toNat)) port).1 = e.port := by
    have token := extract_token readU16 e.port_solid.1 e.port_solid.2 [] port
    have value := readU16_decimal e.port ended_nil
    rw [List.append_nil] at token value
    rw [token, value]
  have type : (if (if e.oracle then oracleWord else peerWord) = oracleWord then 0
      else typeVar seen) = typeVar (seen || e.oracle) := by
    cases seen <;> cases e.oracle <;> decide
  rw [genLine, e.split_line]
  simp only [Entry.words, type, portRead, inetPton_dottedText, Option.getD_some, confText]

theorem typeVar_used (oracle : Bool) :
    typeVar oracle = Neighbor.oracle ∨ typeVar oracle = Neighbor.peer := by
  cases oracle
  · exact .inr rfl
  · exact .inl rfl

theorem firstWords_parsedLine (fmt : RealFormat) (vars : Neighbor) (e : Entry) :
    firstWords (parsedLine fmt (extractLine fmt (confText e) vars)) = e.words := by
  have read := extractLine_confLine fmt (typeVar_used e.oracle) (u32.decode e.ip) (htons e.port)
    zero_formed 0 0 0xFFFFFFFF (ended_space []) vars
  rw [confText, read]
  have type : (if typeVar e.oracle = 0 then oracleWord else peerWord) =
      if e.oracle then oracleWord else peerWord := by
    cases e.oracle <;> rfl
  simp only [parsedLine, firstWords, type, inetNtop_decode, ntohs_htons]
  rw [split_three (typeWord_solid e.oracle) e.dotted_solid e.port_solid]
  · rfl
  · intro c first
    obtain rfl := Option.some.inj first
    rfl

theorem inetNtop_solid (addr : UInt32) : Solid (inetNtop addr) := dottedText_solid _

theorem parsedLine_newline_notMem (fmt : RealFormat) (vars : Neighbor) :
    '\n' ∉ parsedLine fmt vars := by
  have space : '\n' ≠ ' ' := by decide
  have number (n : Nat) : '\n' ∉ decimal n := (decimal_digits n).solid.newline_notMem
  have word : '\n' ∉ if vars.type = 0 then oracleWord else peerWord := by
    split <;> decide
  simp only [parsedLine, List.mem_append, List.mem_cons, not_or]
  exact ⟨word, space, (inetNtop_solid _).newline_notMem, space, number _, space,
    (fmt.formed _).solid.newline_notMem, space, (decimalInt_solid _).newline_notMem, space,
    number _, space, (inetNtop_solid _).newline_notMem⟩

theorem confText_newline_notMem (e : Entry) : '\n' ∉ confText e := by
  rw [confText, List.mem_append, not_or]
  exact ⟨confLine_newline_notMem (typeVar_used e.oracle) _ _ zero_formed _ _ _, by decide⟩

theorem genLines_lines (seen : Bool) (addr : UInt32) (port : UInt16) (es : List Entry) :
    genLines ⟨typeVar seen, addr, port⟩ (es.map Entry.line) =
      some ((smeared seen es).map confText) := by
  induction es generalizing seen addr port with
  | nil => rfl
  | cons e es ih =>
      rw [List.map_cons, genLines, genLine_line]
      simp only [Option.bind_eq_bind, Option.bind_some, ih]
      rfl

theorem parseLines_confText (fmt : RealFormat) (vars : Neighbor) (es : List Entry) :
    (parseLines fmt vars (es.map confText)).map firstWords = es.map Entry.words := by
  induction es generalizing vars with
  | nil => rfl
  | cons e es ih =>
      rw [List.map_cons, parseLines, List.map_cons, firstWords_parsedLine, ih, List.map_cons]

theorem lines_nbconfparse (fmt : RealFormat) (vars : Neighbor) (file : Text) :
    lines (nbconfparse fmt vars file) = parseLines fmt vars (lines file) := by
  apply lines_unlines
  generalize lines file = ls
  induction ls generalizing vars with
  | nil => exact fun _ member => by cases member
  | cons line ls ih =>
      intro out member
      cases List.mem_cons.mp member with
      | inl own => exact own ▸ parsedLine_newline_notMem fmt _
      | inr later => exact ih _ out later

/-- What comes back has the types smeared. -/
theorem roundTrips_smeared (fmt : RealFormat) (addr : UInt32) (port : UInt16) (vars : Neighbor)
    (closed : Bool) (es : List Entry) :
    RoundTrips fmt addr port vars closed es ↔
      (smeared false es).map Entry.words = es.map Entry.words := by
  have generated : nbconfgen addr port (inputFile closed es) =
      some (unlines ((smeared false es).map confText)) := by
    rw [nbconfgen, lines_inputFile]
    have gen := genLines_lines false addr port es
    rw [typeVar, if_neg Bool.false_ne_true] at gen
    rw [gen, Option.map_some]
  have parsed : (lines (nbconfparse fmt vars (unlines ((smeared false es).map confText)))).map
      firstWords = (smeared false es).map Entry.words := by
    rw [lines_nbconfparse, lines_unlines, parseLines_confText]
    intro line member
    obtain ⟨e, -, rfl⟩ := List.mem_map.mp member
    exact confText_newline_notMem e
  simp only [RoundTrips, generated, Option.some.injEq, exists_eq_left', parsed]

theorem typeWord_inj : ∀ a b : Bool, (if a then oracleWord else peerWord) =
    (if b then oracleWord else peerWord) → a = b := by decide

theorem words_inj {e : Entry} {oracle : Bool} :
    Entry.words { e with oracle := oracle } = e.words ↔ oracle = e.oracle := by
  constructor
  · intro same
    exact typeWord_inj _ _ (List.cons.inj same).1
  · intro same
    rw [same]

theorem smeared_words (seen : Bool) (es : List Entry) :
    (smeared seen es).map Entry.words = es.map Entry.words ↔
      (seen = true → ∀ e ∈ es, e.oracle = true) ∧
        es.Pairwise fun e e' => e.oracle = true → e'.oracle = true := by
  induction es generalizing seen with
  | nil => simp [smeared]
  | cons e es ih =>
      rw [smeared, List.map_cons, List.map_cons, List.cons.injEq, words_inj, ih,
        List.pairwise_cons, List.forall_mem_cons]
      cases seen <;> cases own : e.oracle <;> simp

/-- The tools are inverse to each other just in case no line for a peer stands behind one for
    an oracle. -/
theorem roundTrips_iff (fmt : RealFormat) (addr : UInt32) (port : UInt16) (vars : Neighbor)
    (closed : Bool) (es : List Entry) :
    RoundTrips fmt addr port vars closed es ↔
      es.Pairwise fun e e' => e.oracle = true → e'.oracle = true := by
  rw [roundTrips_smeared, smeared_words]
  exact and_iff_right fun seen => absurd seen Bool.false_ne_true

/-- A peer that is listed behind an oracle comes back as an oracle. -/
theorem peer_becomes_oracle :
    ¬ ∀ fmt addr port vars closed es, RoundTrips fmt addr port vars closed es := by
  intro always
  have trip := always wholeFormat 0 0 blank true
    [⟨true, [1, 2, 3, 4], 80, rfl⟩, ⟨false, [5, 6, 7, 8], 80, rfl⟩]
  rw [roundTrips_smeared, smeared_words] at trip
  exact absurd trip.2 (by decide)

end NbConf

end Cors
