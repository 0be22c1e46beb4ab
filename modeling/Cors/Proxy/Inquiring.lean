import Cors.Lib.Table
import Cors.Proxy.FilterLayout
import Cors.Proxy.Truncation
import Cors.Proxy.SimpleNbmtr

/-! # The simple relay advisor

The handlers of `simplerldvr.cpp`. Whoever asks is told the neighbours, as many as an advice can
list, and if there are fewer than it asks for the inquiry is passed on for the others. The hop
count is a `char`, which has a sign, and the number of neighbours is cut to a byte.
-/

namespace Cors

open ByteFormat

def maxRlNum : UInt8 := 10

def defaultTimeout : UInt8 := 3

structure NetPair where
  srcNet : UInt32
  dstNet : UInt32
  deriving DecidableEq

/-- The networks of a filter, and when it came. -/
structure SimpleRldvr.Record where
  update : Int32
  filter : NetSet

structure SimpleRldvr where
  dbAddr : UInt32
  dbPort : UInt16
  localCache : Table NetPair SimpleRldvr.Record

/-- The neighbour as it is listed in an advice. -/
def Neighbor.relayUnit (nb : Neighbor) : RelayUnit :=
  ⟨nb.addr, nb.mask, nb.port, defaultTimeout, 0, nb.ts, 0⟩

/-- The address in `SimpleNbmtr::get_neighbor`, which counts from the back. -/
def SimpleNbmtr.getNeighbor (nl : List Neighbor) (index : Nat) : Option SockaddrIn :=
  let index := if index ≥ nl.length then nl.length - 1 else index
  nl.reverse[index]?.map Neighbor.sockaddr

namespace SimpleRldvr

open Countdown

def new (dbAddr : UInt32) (dbPort : UInt16) : SimpleRldvr := ⟨dbAddr, dbPort, ∅⟩

def database (s : SimpleRldvr) : SockaddrIn := ⟨s.dbPort, s.dbAddr⟩

/-- The neighbours, from the back of the list. -/
def rlList (nl : List Neighbor) : List RelayUnit := nl.reverse.map Neighbor.relayUnit

/-- The message with what stands in an inquiry where an advice has its end points. -/
def packRlAdvice (inquiryMsg : Mem) (rlNum : UInt8) (rlList : List RelayUnit) : Bytes :=
  let rlNum := if rlNum > maxRlNum then maxRlNum else rlNum
  let rlNum := if rlNum.toNat > rlList.length then UInt8.ofNat rlList.length else rlNum
  let len := Advice.rlsPos + rlNum.toNat * RelayUnit.format.width
  let msg : Mem := fun _ => 0
  let msg := msg.put u8 Advice.typePos PacketType.rlyAdvice.code
  let msg := msg.put u8 Advice.numPos rlNum
  let msg := msg.write Advice.srcPortPos
    (inquiryMsg.read Inquiry.srcPortPos (Advice.rlsPos - Advice.srcPortPos))
  let msg := msg.putAll RelayUnit.format Advice.rlsPos (rlList.take rlNum.toNat)
  msg.read 0 len

def processRlInquiry (msg : Mem) (len : Nat) (nl : List Neighbor) : List Datagram :=
  if nl.length = 0 then
    []
  else
    let parsed := parseRlInquiry msg ⟨0, 0, 0, 0, 0, 0, 0⟩ len
    if parsed.ok then
      let rlNum := parsed.out.rlNum
      let msg := msg.put u8 Inquiry.ttlPos (msg.get u8 Inquiry.ttlPos - 1)
      let forwarded :=
        if nl.length < rlNum.toNat ∧ 0 < msg.get i8 Inquiry.ttlPos then
          let msg := msg.put u8 Inquiry.numPos
            (msg.get u8 Inquiry.numPos - UInt8.ofNat nl.length)
          (SimpleNbmtr.getNeighbor nl 0).toList.map fun proxyaddr => ⟨proxyaddr, msg.read 0 len⟩
        else
          []
      -- the number is restored before the advice is packed
      let advMsg := packRlAdvice msg (UInt8.ofNat nl.length) (rlList nl)
      forwarded ++ [⟨msg.get SockaddrIn.format Inquiry.srcPortPos, advMsg⟩]
    else
      []

def processRlReport (s : SimpleRldvr) (msg : Mem) (len : Nat) : List Datagram :=
  [⟨s.database, msg.read 0 len⟩]

/-- What `parse_rl_filter` returns is not looked at, and its variables are not initialized. -/
def processRlFilter (s : SimpleRldvr) (now : Int32) (uninitialized : FilterOut) (msg : Mem)
    (len : Nat) (nl : List Neighbor) : SimpleRldvr × List Datagram :=
  let out := (parseRlFilter msg { uninitialized with netSet := ∅ } len).out
  let netPair : NetPair := ⟨out.srcIp &&& out.srcMask, out.dstIp &&& out.dstMask⟩
  let localCache :=
    -- `insert` leaves what is there
    if netPair ∈ s.localCache then s.localCache else s.localCache.insert netPair ⟨now, out.netSet⟩
  let advMsg := packRlAdvice msg (UInt8.ofNat nl.length) (rlList nl)
  ({ s with localCache }, [⟨⟨out.srcPort, out.srcIp⟩, advMsg⟩])

/-! ## Advices -/

/-- How many of the relays an advice lists. -/
def listed (rlNum : UInt8) (size : Nat) : Nat := min (min rlNum.toNat maxRlNum.toNat) size

theorem rlNum_eq (rlNum : UInt8) (size : Nat) :
    let bounded := if rlNum > maxRlNum then maxRlNum else rlNum
    (if bounded.toNat > size then UInt8.ofNat size else bounded).toNat = listed rlNum size := by
  intro bounded
  have least : bounded.toNat = min rlNum.toNat maxRlNum.toNat := by
    dsimp only [bounded]
    simp only [gt_iff_lt, UInt8.lt_iff_toNat_lt]
    split <;> omega
  have byte : bounded.toNat < 256 := bounded.toNat_lt
  rw [listed, ← least]
  split
  · rw [UInt8.toNat_ofNat_of_lt' (by rw [UInt8.size]; omega)]
    omega
  · omega

/-- An advice of the relays, with what stands in the inquiry. -/
structure Advises (a : Mem) (inquiry : Mem) (units : List RelayUnit) : Prop where
  type : a 0 = PacketType.rlyAdvice.code
  number : (a.get u8 Advice.numPos).toNat = units.length
  copied : a.read Advice.srcPortPos 18 = inquiry.read Inquiry.srcPortPos 18
  relays : a.Holds Advice.rlsPos (units.flatMap RelayUnit.format.encode)

theorem packRlAdvice_advises (inquiry rest : Mem) (rlNum : UInt8) (rlList : List RelayUnit) :
    let units := rlList.take (listed rlNum rlList.length)
    (packRlAdvice inquiry rlNum rlList).length =
        Advice.rlsPos + units.length * RelayUnit.format.width ∧
      Advises (rest.receive (packRlAdvice inquiry rlNum rlList)) inquiry units := by
  intro units
  have number := rlNum_eq rlNum rlList.length
  have count : units.length = listed rlNum rlList.length := by
    rw [List.length_take]
    exact Nat.min_eq_left (Nat.min_le_right _ _)
  unfold packRlAdvice
  dsimp only at number ⊢
  generalize (if _ > rlList.length then UInt8.ofNat rlList.length else _) = rlNum at number ⊢
  rw [number, ← count, Mem.putAll_eq]
  let ends := inquiry.read Inquiry.srcPortPos (Advice.rlsPos - Advice.srcPortPos)
  let header := Mem.put (Mem.put (fun _ => 0) u8 Advice.typePos PacketType.rlyAdvice.code) u8
    Advice.numPos rlNum
  have same : rlList.take units.length = units := by rw [count]
  rw [same]
  let relays := units.flatMap RelayUnit.format.encode
  let msg := (header.write Advice.srcPortPos ends).write Advice.rlsPos relays
  have size : relays.length = units.length * RelayUnit.format.width :=
    flatMap_encode_length RelayUnit.format _
  have received {α : Type} (f : ByteFormat α) {pos : Nat}
      (early : pos + f.width ≤ Advice.srcPortPos) :
      (rest.receive (msg.read 0 (Advice.rlsPos + units.length * RelayUnit.format.width))).get f
        pos = header.get f pos := by
    have front : pos + f.width ≤ Advice.rlsPos := Nat.le_trans early (by decide)
    rw [Mem.receive_get rest msg f (Nat.le_add_right_of_le front),
      Mem.get_write_disjoint _ f _ (.inl front), Mem.get_write_disjoint _ f _ (.inl early)]
  refine ⟨Mem.read_length _ _ _, ?_, ?_, ?_, ?_⟩
  · have first : 0 + u8.width ≤ Advice.srcPortPos := by decide
    exact (Mem.get_u8 _ 0).symm.trans ((received u8 first).trans (Mem.get_u8 _ 0))
  · have stated : header.get u8 Advice.numPos = rlNum := Mem.get_put _ u8 _ _
    rw [received u8 (by decide), stated, number, count]
  · have front : Advice.srcPortPos + 18 ≤ Advice.rlsPos := by decide
    rw [Mem.receive_read rest msg (Nat.le_add_right_of_le front),
      Mem.read_write_disjoint _ _ (.inl front)]
    have whole := Mem.read_write header Advice.srcPortPos ends
    rw [Mem.read_length] at whole
    exact whole
  · have written : msg.Holds Advice.rlsPos relays := Mem.holds_write _ _ _
    rw [Mem.Holds, Mem.receive_read rest msg (by rw [size])]
    exact written

theorem foldl_push (out : AdviceOut) (units : List RelayUnit) :
    units.foldl AdviceOut.push out = { out with rlList := out.rlList ++ units } := by
  induction units generalizing out with
  | nil => simp
  | cons unit units ih =>
      rw [List.foldl_cons, ih]
      simp [AdviceOut.push]

theorem parseRlAdvice_collects {m : Mem} {len : Nat} (own : m 0 = PacketType.rlyAdvice.code)
    (nonempty : 1 ≤ len) (counted : 2 ≤ len → 20 ≤ len) (small : len < 4294967296)
    (out : AdviceOut) :
    Walks parseRlAdvice m len out 0 (adviceGuards (m.get u8 Advice.numPos).toNat)
      { rlNum := m.get u8 Advice.numPos
        rlList := out.rlList ++ (List.range (m.get u8 Advice.numPos).toNat).map fun i =>
          m.get RelayUnit.format (Advice.rlsPos + i * RelayUnit.format.width) }
      (20 + (m.get u8 Advice.numPos).toNat * RelayUnit.format.width) := by
  have type : decide (m.get u8 Advice.typePos = PacketType.rlyAdvice.code) = true :=
    decide_eq_true ((Mem.get_u8 _ _).trans own)
  have loop (enough : 20 ≤ len) := Walks.elements m RelayUnit.format AdviceOut.push small
    (m.get u8 Advice.numPos).toNat ⟨m.get u8 Advice.numPos, out.rlList⟩ Advice.rlsPos enough
  simp only [foldl_push] at loop
  unfold parseRlAdvice
  exact .check_cons type nonempty (.skip_cons (.field_cons fun some => .skip_cons
    (.skip_cons (.last (.given (loop (counted some)))))))

theorem Advises.parses {a inquiry : Mem} {units : List RelayUnit}
    (advises : Advises a inquiry units) (few : units.length ≤ maxRlNum.toNat) (out : AdviceOut) :
    ∃ extent ≤ adviceLen units.length, ∃ left,
      parseRlAdvice a out (adviceLen units.length) =
        ⟨true, ⟨UInt8.ofNat units.length, out.rlList ++ units⟩, left, extent⟩ := by
  have limit : units.length ≤ 10 := few
  have position : Advice.rlsPos = 21 := rfl
  have length : adviceLen units.length = 21 + units.length * 20 := rfl
  have byte : a.get u8 Advice.numPos = UInt8.ofNat units.length := by
    rw [← advises.number, UInt8.ofNat_toNat]
  have nonempty : 1 ≤ adviceLen units.length := by omega
  have walks := parseRlAdvice_collects advises.type nonempty (by omega) (by omega) out
  rw [advises.number, advises.relays.getAll, byte] at walks
  have passes : Passes (adviceLen units.length) (adviceGuards units.length) := by
    refine passes_append.mpr ⟨?_, (passes_elementGuards (by omega) _ _ _).mpr ?_⟩
    · simp only [passes_cons, passes_nil, and_true]
      omega
    · rw [RelayUnit.format_width]
      omega
  have reads : reach (adviceLen units.length) (adviceGuards units.length) ≤
      adviceLen units.length := by
    refine (reach_le_iff (guards_ascending (by decide) (by decide) _ _ _)).mpr ?_
    refine inside_append.mpr ⟨?_, (inside_elementGuards _ _ _ _ _).mpr fun i inside _ => ?_⟩
    · simp only [Inside, List.forall_mem_cons, List.not_mem_nil, false_implies, implies_true,
        and_true]
      omega
    · rw [position, RelayUnit.format_width]
      omega
  have parsed := walks.passes passes
  rw [Nat.cast_zero, Int.sub_zero] at parsed
  exact ⟨_, reads, _, parsed⟩

theorem Advises.get_eq {a inquiry : Mem} {units : List RelayUnit}
    (advises : Advises a inquiry units) (f : ByteFormat α) {pos : Nat}
    (behind : Advice.srcPortPos ≤ pos) (before : pos + f.width ≤ Advice.rlsPos) :
    a.get f pos = inquiry.get f pos := by
  obtain ⟨i, rfl⟩ := Nat.exists_eq_add_of_le behind
  have copied : Advice.srcPortPos + 18 = Advice.rlsPos := rfl
  refine Mem.get_congr f fun j inside => ?_
  rw [Nat.add_assoc]
  exact Mem.eq_of_read_eq advises.copied (by omega)

theorem listed_le (rlNum : UInt8) (rlList : List RelayUnit) :
    (rlList.take (listed rlNum rlList.length)).length ≤ maxRlNum.toNat := by
  rw [List.length_take]
  exact Nat.le_trans (Nat.min_le_left _ _)
    (Nat.le_trans (Nat.min_le_left _ _) (Nat.min_le_right _ _))

/-- Whatever inquiry it is packed for and whatever it is to list, an advice is read as one of the
    first relays, at most ten of them, between the end points of the inquiry. -/
theorem advice_read_back (inquiry rest : Mem) (rlNum : UInt8) (rlList : List RelayUnit)
    (out : AdviceOut) :
    let units := rlList.take (listed rlNum rlList.length)
    let msg := packRlAdvice inquiry rlNum rlList
    (∃ extent ≤ msg.length, ∃ left, parseRlAdvice (rest.receive msg) out msg.length =
      ⟨true, ⟨UInt8.ofNat units.length, out.rlList ++ units⟩, left, extent⟩) ∧
    ∀ {α : Type} (f : ByteFormat α) (pos : Nat), Advice.srcPortPos ≤ pos →
      pos + f.width ≤ Advice.rlsPos → (rest.receive msg).get f pos = inquiry.get f pos := by
  intro units msg
  obtain ⟨size, advises⟩ := packRlAdvice_advises inquiry rest rlNum rlList
  have length : msg.length = adviceLen units.length := size
  refine ⟨?_, fun f pos behind before => advises.get_eq f behind before⟩
  rw [length]
  exact advises.parses (listed_le rlNum rlList) out

/-! ## What an inquiry brings about -/

/-- The bytes are an inquiry that the parser goes through. -/
structure Asking (b : Bytes) : Prop where
  type : b.getD Inquiry.typePos 0 = PacketType.rlyInquiry.code
  whole : Inquiry.inquiryLen ≤ b.length

instance (b : Bytes) : Decidable (Asking b) :=
  decidable_of_iff
    (b.getD Inquiry.typePos 0 = PacketType.rlyInquiry.code ∧ Inquiry.inquiryLen ≤ b.length)
    ⟨fun both => ⟨both.1, both.2⟩, fun asking => ⟨asking.type, asking.whole⟩⟩

/-- The hop count and the number of relays asked for. -/
def ttl (b : Bytes) : UInt8 := b.getD Inquiry.ttlPos 0
def required (b : Bytes) : UInt8 := b.getD Inquiry.numPos 0

def client (b : Bytes) : SockaddrIn := (Mem.padded b).get SockaddrIn.format Inquiry.srcPortPos

/-- How often an inquiry can be passed on: with a hop count above 128 it cannot at all. -/
def hops (ttl : UInt8) : Nat := if ttl.toNat ≤ 128 then ttl.toNat - 1 else 0

/-- The inquiry as it is passed on for those that `n` neighbours leave over. -/
def rest (b : Bytes) (n : Nat) : Bytes :=
  (b.set Inquiry.ttlPos (ttl b - 1)).set Inquiry.numPos (required b - UInt8.ofNat n)

/-- The answer to an inquiry. -/
def advice (b : Bytes) (nl : List Neighbor) : Datagram :=
  ⟨client b, packRlAdvice (Mem.padded b) (UInt8.ofNat nl.length) (rlList nl)⟩

/-- The inquiry is passed on. -/
def PassesOn (b : Bytes) (n : Nat) : Prop := n < (required b).toNat ∧ 0 < hops (ttl b)

instance (b : Bytes) (n : Nat) : Decidable (PassesOn b n) :=
  inferInstanceAs (Decidable (n < (required b).toNat ∧ 0 < hops (ttl b)))

theorem packRlAdvice_congr {m m' : Mem} (agree : m.read Inquiry.srcPortPos 18 =
      m'.read Inquiry.srcPortPos 18) (rlNum : UInt8) (rlList : List RelayUnit) :
    packRlAdvice m rlNum rlList = packRlAdvice m' rlNum rlList := by
  unfold packRlAdvice
  have length : Advice.rlsPos - Advice.srcPortPos = 18 := rfl
  rw [length, agree]

/-- Only a `char` that stays above zero when it is counted down is one of a hop that is left. -/
theorem signed_pos_iff (t : UInt8) : 0 < (t - 1).toInt8 ↔ 0 < hops t := by
  have all : ∀ n < 256, (0 < (UInt8.ofNat n - 1).toInt8 ↔ 0 < hops (UInt8.ofNat n)) := by
    decide +kernel
  have own := all t.toNat t.toNat_lt
  rwa [UInt8.ofNat_toNat] at own

theorem get_received {b : Bytes} (before : Mem) {pos : Nat} (inside : pos < b.length) :
    (before.receive b).get u8 pos = b.getD pos 0 := by
  rw [Mem.get_u8, Mem.receive_inside before inside, List.getD_eq_getElem?_getD,
    List.getElem?_eq_getElem inside, Option.getD_some]

theorem getNeighbor_zero {nl : List Neighbor} (some_ : nl ≠ []) :
    SimpleNbmtr.getNeighbor nl 0 = some (nl.getLast some_).sockaddr := by
  have least : ¬0 ≥ nl.length := Nat.not_le.mpr (List.length_pos_of_ne_nil some_)
  simp only [SimpleNbmtr.getNeighbor, if_neg least]
  rw [← List.head?_eq_getElem?, List.head?_reverse, List.getLast?_eq_some_getLast some_,
    Option.map_some]

theorem received_type {b : Bytes} (before : Mem)
    (own : b.getD Inquiry.typePos 0 = PacketType.rlyInquiry.code) (nonempty : 0 < b.length) :
    before.receive b 0 = PacketType.rlyInquiry.code :=
  (Mem.get_u8 _ 0).symm.trans ((get_received before nonempty).trans own)

theorem Asking.parsed {b : Bytes} (asking : Asking b) (before : Mem) (out : InquiryOut) :
    (parseRlInquiry (before.receive b) out b.length).ok = true ∧
      (parseRlInquiry (before.receive b) out b.length).out.rlNum = required b := by
  have whole : 35 ≤ b.length := asking.whole
  have nonempty : 0 < b.length := Nat.lt_of_lt_of_le (by decide) whole
  have own := received_type before asking.type nonempty
  have walks := parseRlInquiry_walks own nonempty out
  have passed := walks.passes (inquiry_exact.2.mpr whole)
  rw [Nat.cast_zero, Int.sub_zero] at passed
  rw [passed]
  exact ⟨rfl, get_received before (Nat.lt_of_lt_of_le (by decide) whole)⟩

theorem receive_set {b : Bytes} (before : Mem) (t : UInt8) {i : Nat}
    (behind : Inquiry.numPos < i) (inside : i < b.length) :
    before.receive (b.set Inquiry.ttlPos t) i = Mem.padded b i := by
  have kept : i < (b.set Inquiry.ttlPos t).length := by rwa [List.length_set]
  have apart : Inquiry.ttlPos ≠ i := Nat.ne_of_lt (Nat.lt_trans (by decide) behind)
  rw [Mem.padded, Mem.receive_inside before kept, Mem.receive_inside _ inside,
    List.getElem_set_ne apart]

/-- Whoever asks is answered, and what is passed on differs in two bytes. -/
theorem processRlInquiry_eq {b : Bytes} (asking : Asking b) (before : Mem)
    {nl : List Neighbor} (some_ : nl ≠ []) :
    processRlInquiry (before.receive b) b.length nl =
      (if PassesOn b nl.length then [⟨(nl.getLast some_).sockaddr, rest b nl.length⟩] else []) ++
        [advice b nl] := by
  have whole : 35 ≤ b.length := asking.whole
  obtain ⟨ok, number⟩ := asking.parsed before ⟨0, 0, 0, 0, 0, 0, 0⟩
  let b' := b.set Inquiry.ttlPos (ttl b - 1)
  have hop : Inquiry.ttlPos < b.length := Nat.lt_of_lt_of_le (by decide) whole
  have length : b'.length = b.length := List.length_set
  have numbered : Inquiry.numPos < b'.length := by
    rw [length]
    exact Nat.lt_of_lt_of_le (by decide) whole
  have counted : (before.receive b).put u8 Inquiry.ttlPos
      ((before.receive b).get u8 Inquiry.ttlPos - 1) = before.receive b' := by
    rw [get_received before hop, Mem.receive_put before hop]
    rfl
  have signed : (before.receive b').get i8 Inquiry.ttlPos = (ttl b - 1).toInt8 := by
    have byte := get_received before (Nat.lt_of_lt_of_eq hop length.symm)
    rw [i8, Mem.get_via, byte, List.getD_eq_getElem?_getD, List.getElem?_set_self hop]
    rfl
  have asked : (before.receive b').get u8 Inquiry.numPos = required b := by
    rw [get_received before numbered, List.getD_eq_getElem?_getD,
      List.getElem?_set_ne (by decide)]
    exact (List.getD_eq_getElem?_getD).symm
  have sent : ((before.receive b').put u8 Inquiry.numPos
      (required b - UInt8.ofNat nl.length)).read 0 b.length = rest b nl.length := by
    have there := before.receive_holds (rest b nl.length)
    rw [Mem.Holds, rest, List.length_set, List.length_set] at there
    rw [Mem.receive_put before numbered]
    exact there
  have toClient : (before.receive b').get SockaddrIn.format Inquiry.srcPortPos = client b := by
    refine Mem.get_congr _ fun i inside => receive_set before _ ?_ ?_
    · exact Nat.lt_of_lt_of_le (by decide) (Nat.le_add_right _ _)
    · exact Nat.lt_of_lt_of_le (Nat.add_lt_add_left inside _) (Nat.le_trans (by decide) whole)
  have packed : packRlAdvice (before.receive b') (UInt8.ofNat nl.length) (rlList nl) =
      packRlAdvice (Mem.padded b) (UInt8.ofNat nl.length) (rlList nl) := by
    refine packRlAdvice_congr (Mem.read_congr fun i inside => receive_set before _ ?_ ?_) _ _
    · exact Nat.lt_of_lt_of_le (by decide) (Nat.le_add_right _ _)
    · exact Nat.lt_of_lt_of_le (Nat.add_lt_add_left inside _) (Nat.le_trans (by decide) whole)
  have nonempty : ¬nl.length = 0 := fun none_ => some_ (List.length_eq_zero_iff.mp none_)
  unfold processRlInquiry
  simp only [if_neg nonempty, ok, if_true, number, counted, signed, asked, sent, toClient, packed,
    getNeighbor_zero some_, Option.toList_some, List.map_singleton, signed_pos_iff]
  rfl

theorem processRlInquiry_nil {b : Bytes} (before : Mem)
    (own : b.getD Inquiry.typePos 0 = PacketType.rlyInquiry.code) (nonempty : 0 < b.length)
    {nl : List Neighbor} (refused : ¬(Asking b ∧ nl ≠ [])) :
    processRlInquiry (before.receive b) b.length nl = [] := by
  unfold processRlInquiry
  by_cases alone : nl.length = 0
  · exact if_pos alone
  · have cut : ¬35 ≤ b.length := by
      intro whole
      exact refused ⟨⟨own, whole⟩, fun none_ => alone (List.length_eq_zero_iff.mpr none_)⟩
    have type := received_type before own nonempty
    have walks := parseRlInquiry_walks type nonempty ⟨0, 0, 0, 0, 0, 0, 0⟩
    have stopped := (walks.stops fun passes => cut (inquiry_exact.2.mp passes)).1
    rw [Nat.cast_zero, Int.sub_zero] at stopped
    simp only [if_neg alone, stopped, Bool.false_eq_true, if_false]

/-! ## Inquiries that were passed on -/

/-- The inquiry after proxies with so many neighbours passed it on. -/
def copy (b : Bytes) (ns : List Nat) : Bytes :=
  (b.set Inquiry.ttlPos (ttl b - UInt8.ofNat ns.length)).set Inquiry.numPos
    (required b - UInt8.ofNat ns.sum)

/-- They had neighbours, but fewer than were asked for, and hops were left. -/
structure Permits (b : Bytes) (ns : List Nat) : Prop where
  positive : ∀ n ∈ ns, 0 < n
  few : ns ≠ [] → ns.sum < (required b).toNat
  left : ns.length ≤ hops (ttl b)

theorem toNat_sub_ofNat {x : UInt8} {n : Nat} (fewer : n ≤ x.toNat) :
    (x - UInt8.ofNat n).toNat = x.toNat - n := by
  have small : x.toNat < 256 := x.toNat_lt
  have exact_size : (UInt8.ofNat n).toNat = n :=
    UInt8.toNat_ofNat_of_lt' (by rw [UInt8.size]; omega)
  rw [UInt8.toNat_sub_of_le _ _ (by rw [UInt8.le_iff_toNat_le]; omega), exact_size]

theorem hops_sub {t : UInt8} {k : Nat} (left : k ≤ hops t) :
    hops (t - UInt8.ofNat k) = hops t - k := by
  unfold hops at left ⊢
  by_cases high : t.toNat ≤ 128
  · rw [if_pos high] at left ⊢
    rw [toNat_sub_ofNat (by omega), if_pos (by omega)]
    omega
  · rw [if_neg high] at left ⊢
    obtain rfl : k = 0 := Nat.le_zero.mp left
    have same : t - UInt8.ofNat 0 = t := UInt8.sub_zero t
    rw [same, if_neg high]

section Copies
variable {b : Bytes} (asking : Asking b) (ns : List Nat)

@[simp] theorem copy_length (b : Bytes) : (copy b ns).length = b.length := by
  rw [copy, List.length_set, List.length_set]

theorem getD_set_set {b : Bytes} {i j k : Nat} {x y : UInt8} (first : i ≠ k) (second : j ≠ k) :
    ((b.set i x).set j y).getD k 0 = b.getD k 0 := by
  rw [List.getD_eq_getElem?_getD, List.getElem?_set_ne second, List.getElem?_set_ne first,
    ← List.getD_eq_getElem?_getD]

include asking

theorem Asking.ttl_copy : ttl (copy b ns) = ttl b - UInt8.ofNat ns.length := by
  have inside : Inquiry.ttlPos < b.length := Nat.lt_of_lt_of_le (by decide) asking.whole
  rw [ttl, copy, List.getD_eq_getElem?_getD, List.getElem?_set_ne (by decide),
    List.getElem?_set_self inside, Option.getD_some]

theorem Asking.required_copy : required (copy b ns) = required b - UInt8.ofNat ns.sum := by
  have inside : Inquiry.numPos < (b.set Inquiry.ttlPos (ttl b - UInt8.ofNat ns.length)).length := by
    rw [List.length_set]
    exact Nat.lt_of_lt_of_le (by decide) asking.whole
  rw [required, copy, List.getD_eq_getElem?_getD, List.getElem?_set_self inside, Option.getD_some]

theorem Asking.copy : Asking (copy b ns) where
  type := (getD_set_set (by decide) (by decide)).trans asking.type
  whole := by
    rw [copy_length]
    exact asking.whole

theorem Asking.copy_nil : SimpleRldvr.copy b [] = b := by
  have same (i : Nat) (inside : i < b.length) : b.set i (b.getD i 0 - UInt8.ofNat 0) = b := by
    have zero : b.getD i 0 - UInt8.ofNat 0 = b[i] := by
      rw [List.getD_eq_getElem?_getD, List.getElem?_eq_getElem inside]
      exact UInt8.sub_zero _
    rw [zero, List.set_getElem_self]
  have whole : 35 ≤ b.length := asking.whole
  have first := same Inquiry.ttlPos (Nat.lt_of_lt_of_le (by decide) whole)
  have second := same Inquiry.numPos (Nat.lt_of_lt_of_le (by decide) whole)
  exact (congrArg (List.set · _ _) first).trans second

theorem Asking.copy_concat (n : Nat) :
    SimpleRldvr.copy b (ns ++ [n]) = rest (SimpleRldvr.copy b ns) n := by
  have hop (t : UInt8) : t - UInt8.ofNat (ns.length + 1) = t - UInt8.ofNat ns.length - 1 := by
    have sum : UInt8.ofNat (ns.length + 1) = UInt8.ofNat ns.length + 1 := UInt8.ofNat_add _ _
    rw [sum]
    grind
  have more (r : UInt8) :
      r - UInt8.ofNat (ns.sum + n) = r - UInt8.ofNat ns.sum - UInt8.ofNat n := by
    rw [UInt8.ofNat_add]
    grind
  rw [rest, asking.ttl_copy, asking.required_copy, SimpleRldvr.copy, SimpleRldvr.copy,
    List.length_append, List.sum_append, List.length_singleton, List.sum_singleton, hop, more,
    List.set_comm (i := Inquiry.numPos) (j := Inquiry.ttlPos) _ _ (by decide), List.set_set,
    List.set_set]

theorem Asking.advice_copy (nl : List Neighbor) :
    advice (SimpleRldvr.copy b ns) nl = advice b nl := by
  have whole : 35 ≤ b.length := asking.whole
  have same : ∀ i < 18, Mem.padded (SimpleRldvr.copy b ns) (Inquiry.srcPortPos + i) =
      Mem.padded b (Inquiry.srcPortPos + i) := by
    intro i inside
    have position : Inquiry.srcPortPos = 3 := rfl
    have there : Inquiry.srcPortPos + i < b.length := by omega
    have kept : Inquiry.srcPortPos + i < (SimpleRldvr.copy b ns).length := by rwa [copy_length]
    have unset : (SimpleRldvr.copy b ns).getD (Inquiry.srcPortPos + i) 0 =
        b.getD (Inquiry.srcPortPos + i) 0 := by
      refine getD_set_set (Nat.ne_of_lt ?_) (Nat.ne_of_lt ?_)
      · exact Nat.lt_of_lt_of_le (by decide) (Nat.le_add_right _ _)
      · exact Nat.lt_of_lt_of_le (by decide) (Nat.le_add_right _ _)
    have byte {l : Bytes} {i : Nat} (inside : i < l.length) : Mem.padded l i = l.getD i 0 :=
      (Mem.get_u8 _ _).symm.trans (get_received _ inside)
    rw [byte kept, byte there, unset]
  have toClient : client (SimpleRldvr.copy b ns) = client b :=
    Mem.get_congr _ fun i inside => same i (Nat.lt_of_lt_of_le inside (by decide))
  rw [advice, advice, toClient, packRlAdvice_congr (Mem.read_congr same)]

end Copies

end SimpleRldvr

end Cors
