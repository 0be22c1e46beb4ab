import Mathlib.Data.Finset.Sort
import Cors.Lib.Countdown
import Cors.Protocol.Packets

/-! # The messages of the simple relay advisor

`simplerldvr.h`, `simplerldvr.cpp` and the layouts in `corsprotocol.h`: messages are built and
taken apart by hand, with a position for each field. The layout of a filter is that of an inquiry
with an AS number behind each of the two masks.

The parsers count down how many bytes are left. What the fields of the AS numbers take is never
subtracted, nor is the hop count of an advice.
-/

namespace Cors

open ByteFormat

def maxFilterSize : UInt8 := 20

namespace Inquiry

def typePos : Nat := 0
def typeLen : Nat := 1
def ttlPos : Nat := typePos + typeLen
def ttlLen : Nat := 1
def numPos : Nat := ttlPos + ttlLen
def numLen : Nat := 1
def srcPortPos : Nat := numPos + numLen
def srcPortLen : Nat := 2
def srcAddrPos : Nat := srcPortPos + srcPortLen
def srcAddrLen : Nat := 4
def srcMaskPos : Nat := srcAddrPos + srcAddrLen
def srcMaskLen : Nat := 4
def dstAddrPos : Nat := srcMaskPos + srcMaskLen
def dstAddrLen : Nat := 4
def dstMaskPos : Nat := dstAddrPos + dstAddrLen
def dstMaskLen : Nat := 4
def prxPortPos : Nat := dstMaskPos + dstMaskLen
def prxPortLen : Nat := 2
def prxAddrPos : Nat := prxPortPos + prxPortLen
def prxAddrLen : Nat := 4
def updPos : Nat := prxAddrPos + prxAddrLen
def updLen : Nat := 4
def dlyPos : Nat := updPos + updLen
def dlyLen : Nat := 4
def inquiryLen : Nat := dlyPos + dlyLen

end Inquiry

namespace Advice

def typePos : Nat := 0
def typeLen : Nat := 1
def ttlPos : Nat := typePos + typeLen
def ttlLen : Nat := 1
def numPos : Nat := ttlPos + ttlLen
def numLen : Nat := 1
def srcPortPos : Nat := numPos + numLen
def srcPortLen : Nat := 2
def srcAddrPos : Nat := srcPortPos + srcPortLen
def srcAddrLen : Nat := 4
def srcMaskPos : Nat := srcAddrPos + srcAddrLen
def srcMaskLen : Nat := 4
def dstAddrPos : Nat := srcMaskPos + srcMaskLen
def dstAddrLen : Nat := 4
def dstMaskPos : Nat := dstAddrPos + dstAddrLen
def dstMaskLen : Nat := 4
def rlsPos : Nat := dstMaskPos + dstMaskLen

end Advice

namespace Filter

def typePos : Nat := 0
def typeLen : Nat := 1
def ttlPos : Nat := typePos + typeLen
def ttlLen : Nat := 1
def numPos : Nat := ttlPos + ttlLen
def numLen : Nat := 1
def srcPortPos : Nat := numPos + numLen
def srcPortLen : Nat := 2
def srcAddrPos : Nat := srcPortPos + srcPortLen
def srcAddrLen : Nat := 4
def srcMaskPos : Nat := srcAddrPos + srcAddrLen
def srcMaskLen : Nat := 4
def srcAsidPos : Nat := srcMaskPos + srcMaskLen
def srcAsidLen : Nat := 2
def dstAddrPos : Nat := srcAsidPos + srcAsidLen
def dstAddrLen : Nat := 4
def dstMaskPos : Nat := dstAddrPos + dstAddrLen
def dstMaskLen : Nat := 4
def dstAsidPos : Nat := dstMaskPos + dstMaskLen
def dstAsidLen : Nat := 2
def rprtPos : Nat := dstAsidPos + dstAsidLen

end Filter

/-- A relay as an advice lists it. -/
structure RelayUnit where
  addr : UInt32
  mask : UInt32
  port : UInt16
  timeout : UInt8
  reserved : UInt8
  update : Int32
  delay : UInt32
  deriving DecidableEq

def RelayUnit.format : ByteFormat RelayUnit :=
  (u32.seq (u32.seq (u16.seq (u8.seq (u8.seq (i32.seq u32)))))).via
    ⟨fun x => ⟨x.1, x.2.1, x.2.2.1, x.2.2.2.1, x.2.2.2.2.1, x.2.2.2.2.2.1, x.2.2.2.2.2.2⟩,
      fun u => (u.addr, u.mask, u.port, u.timeout, u.reserved, u.update, u.delay),
      fun _ => rfl, fun _ => rfl⟩

@[simp] theorem RelayUnit.format_width : RelayUnit.format.width = 20 := rfl

/-- `std::set<in_addr_t>`. -/
abbrev NetSet := Finset UInt32

/-- The elements in the order of the iterators. -/
def NetSet.elements (netSet : NetSet) : List UInt32 := netSet.sort (· ≤ ·)

namespace SimpleRldvr

open Countdown

/-- The message with a hop count and what an inquiry asks for. -/
def packRlInquiry (rlNum : UInt8) (srcPort : UInt16) (srcIp srcMask dstIp dstMask : UInt32)
    (reqUpdate : Int32) (reqDelay : UInt32) : Bytes :=
  let msg : Mem := fun _ => 0
  let msg := msg.put u8 Inquiry.typePos PacketType.rlyInquiry.code
  let msg := msg.put u8 Inquiry.ttlPos maxTtl
  let msg := msg.put u8 Inquiry.numPos rlNum
  let msg := msg.put u16 Inquiry.srcPortPos srcPort
  let msg := msg.put u32 Inquiry.srcAddrPos srcIp
  let msg := msg.put u32 Inquiry.srcMaskPos srcMask
  let msg := msg.put u32 Inquiry.dstAddrPos dstIp
  let msg := msg.put u32 Inquiry.dstMaskPos dstMask
  let msg := msg.put i32 Inquiry.updPos reqUpdate
  let msg := msg.put u32 Inquiry.dlyPos reqDelay
  msg.read 0 Inquiry.inquiryLen

/-- What `parse_rl_inquiry` puts into its arguments. -/
structure InquiryOut where
  rlNum : UInt8
  srcIp : UInt32
  srcMask : UInt32
  dstIp : UInt32
  dstMask : UInt32
  reqUpdate : Int32
  reqDelay : UInt32

def parseRlInquiry : Countdown InquiryOut :=
  chain [
    check u8 Inquiry.typePos (· = PacketType.rlyInquiry.code),
    skip Inquiry.typeLen,
    skip Inquiry.ttlLen,
    field u8 Inquiry.numPos fun out rlNum => { out with rlNum },
    skip Inquiry.numLen,
    skip Inquiry.srcPortLen,
    field u32 Inquiry.srcAddrPos fun out srcIp => { out with srcIp },
    skip Inquiry.srcAddrLen,
    field u32 Inquiry.srcMaskPos fun out srcMask => { out with srcMask },
    skip Inquiry.srcMaskLen,
    field u32 Inquiry.dstAddrPos fun out dstIp => { out with dstIp },
    skip Inquiry.dstAddrLen,
    field u32 Inquiry.dstMaskPos fun out dstMask => { out with dstMask },
    skip Inquiry.dstMaskLen,
    skip (Inquiry.prxPortLen + Inquiry.prxAddrLen),
    field i32 Inquiry.updPos fun out reqUpdate => { out with reqUpdate },
    skip Inquiry.updLen,
    field u32 Inquiry.dlyPos fun out reqDelay => { out with reqDelay }]

structure AdviceOut where
  rlNum : UInt8
  rlList : List RelayUnit

/-- `rl_list.push_back`. -/
def AdviceOut.push (out : AdviceOut) (rlUnit : RelayUnit) : AdviceOut :=
  { out with rlList := out.rlList ++ [rlUnit] }

def parseRlAdvice : Countdown AdviceOut :=
  chain [
    check u8 Advice.typePos (· = PacketType.rlyAdvice.code),
    skip Advice.typeLen,
    -- the hop count is not skipped
    field u8 Advice.numPos fun out rlNum => { out with rlNum },
    skip Advice.numLen,
    skip (Advice.rlsPos - Advice.srcPortPos),
    given AdviceOut.rlNum fun rlNum =>
      Countdown.elements RelayUnit.format AdviceOut.push rlNum.toNat Advice.rlsPos]

/-- The loop over the networks. -/
def putNets (msg : Mem) (pos : Nat) : List UInt32 → Mem
  | [] => msg
  | net :: nets => putNets (msg.put u32 pos net) (pos + u32.width) nets

/-- The message with what stands in an inquiry where a filter has its end points. -/
def packRlFilter (inquiryMsg : Mem) (netNum : UInt8) (netSet : NetSet) : Bytes :=
  let netNum := if netNum > maxFilterSize then maxFilterSize else netNum
  let netNum := if netNum.toNat > netSet.card then UInt8.ofNat netSet.card else netNum
  let len := Filter.rprtPos + netNum.toNat * u32.width
  let msg : Mem := fun _ => 0
  let msg := msg.put u8 Filter.typePos PacketType.rlyFilter.code
  let msg := msg.put u8 Filter.numPos netNum
  let msg := msg.write Filter.srcPortPos
    (inquiryMsg.read Inquiry.srcPortPos (Filter.rprtPos - Filter.srcPortPos))
  let msg := putNets msg Filter.rprtPos (netSet.elements.take netNum.toNat)
  msg.read 0 len

structure FilterOut where
  netNum : UInt8
  srcPort : UInt16
  srcIp : UInt32
  srcMask : UInt32
  dstIp : UInt32
  dstMask : UInt32
  netSet : NetSet

/-- `net_set.insert`. -/
def FilterOut.insert (out : FilterOut) (relayNet : UInt32) : FilterOut :=
  { out with netSet := Insert.insert relayNet out.netSet }

def parseRlFilter : Countdown FilterOut :=
  chain [
    check u8 Filter.typePos (· = PacketType.rlyFilter.code),
    skip Filter.typeLen,
    skip Filter.ttlLen,
    field u8 Filter.numPos fun out netNum => { out with netNum },
    skip Filter.numLen,
    field u16 Filter.srcPortPos fun out srcPort => { out with srcPort },
    skip Filter.srcPortLen,
    field u32 Filter.srcAddrPos fun out srcIp => { out with srcIp },
    skip Filter.srcAddrLen,
    field u32 Filter.srcMaskPos fun out srcMask => { out with srcMask },
    skip Filter.srcMaskLen,
    -- the AS numbers are not skipped
    field u32 Filter.dstAddrPos fun out dstIp => { out with dstIp },
    skip Filter.dstAddrLen,
    field u32 Filter.dstMaskPos fun out dstMask => { out with dstMask },
    skip Filter.dstMaskLen,
    given FilterOut.netNum fun netNum =>
      Countdown.elements u32 FilterOut.insert netNum.toNat Filter.rprtPos]

/-! ## The guards -/

/-- The guards of an inquiry ask for what their fields take. -/
def inquiryGuards : List (Nat × Nat) :=
  [(1, 1), (3, 3), (9, 9), (13, 13), (17, 17), (21, 21), (31, 31), (35, 35)]

/-- Those of an advice ask for one byte less. -/
def adviceGuards (n : Nat) : List (Nat × Nat) :=
  [(1, 1), (2, 3)] ++ elementGuards 20 Advice.rlsPos RelayUnit.format.width n

/-- With the count below zero they ask for nothing. -/
def blindGuards (len n : Nat) : List (Nat × Nat) :=
  [(1, 1), (2, 3)] ++ (List.range n).map fun i =>
    (len, Advice.rlsPos + (i + 1) * RelayUnit.format.width)

/-- Those of a filter ask for two bytes less for the destination, and for four less for the
    networks. -/
def filterGuards (n : Nat) : List (Nat × Nat) :=
  [(1, 1), (3, 3), (5, 5), (9, 9), (13, 13), (17, 19), (21, 23)] ++
    elementGuards 21 Filter.rprtPos u32.width n

section Walks
variable {m : Mem} {len : Nat}

theorem parseRlInquiry_walks (own : m 0 = PacketType.rlyInquiry.code) (nonempty : 1 ≤ len)
    (out : InquiryOut) :
    Walks parseRlInquiry m len out 0 inquiryGuards
      { rlNum := m.get u8 Inquiry.numPos
        srcIp := m.get u32 Inquiry.srcAddrPos
        srcMask := m.get u32 Inquiry.srcMaskPos
        dstIp := m.get u32 Inquiry.dstAddrPos
        dstMask := m.get u32 Inquiry.dstMaskPos
        reqUpdate := m.get i32 Inquiry.updPos
        reqDelay := m.get u32 Inquiry.dlyPos } 31 := by
  have type : decide (m.get u8 Inquiry.typePos = PacketType.rlyInquiry.code) = true :=
    decide_eq_true ((Mem.get_u8 _ _).trans own)
  unfold parseRlInquiry
  refine .check_cons type nonempty (.skip_cons (.skip_cons (.field_cons fun _ => .skip_cons ?_)))
  refine .skip_cons (.field_cons fun _ => .skip_cons (.field_cons fun _ => .skip_cons ?_))
  refine .field_cons fun _ => .skip_cons (.field_cons fun _ => .skip_cons (.skip_cons ?_))
  exact .field_cons fun _ => .skip_cons (.field_cons fun _ => .nil m len _ 31)

/-- In front of the relays of an advice the count is one too high. -/
theorem parseRlAdvice_walks (own : m 0 = PacketType.rlyAdvice.code) (nonempty : 1 ≤ len)
    (counted : 2 ≤ len → 20 ≤ len) (small : len < 4294967296) (out : AdviceOut) :
    ∃ out' spent', Walks parseRlAdvice m len out 0
      (adviceGuards (m.get u8 Advice.numPos).toNat) out' spent' := by
  have type : decide (m.get u8 Advice.typePos = PacketType.rlyAdvice.code) = true :=
    decide_eq_true ((Mem.get_u8 _ _).trans own)
  have loop (enough : 20 ≤ len) := Walks.elements m RelayUnit.format AdviceOut.push small
    (m.get u8 Advice.numPos).toNat ⟨m.get u8 Advice.numPos, out.rlList⟩ Advice.rlsPos enough
  unfold parseRlAdvice
  exact ⟨_, _, .check_cons type nonempty (.skip_cons (.field_cons fun some => .skip_cons
    (.skip_cons (.last (.given (loop (counted some)))))))⟩

/-- Below zero it lets any number of relays pass. -/
theorem parseRlAdvice_blind (own : m 0 = PacketType.rlyAdvice.code) (some : 2 ≤ len)
    (negative : len < 20) (out : AdviceOut) :
    ∃ out' spent', Walks parseRlAdvice m len out 0
      (blindGuards len (m.get u8 Advice.numPos).toNat) out' spent' := by
  have type : decide (m.get u8 Advice.typePos = PacketType.rlyAdvice.code) = true :=
    decide_eq_true ((Mem.get_u8 _ _).trans own)
  have byte : (m.get u8 Advice.numPos).toNat < 256 := UInt8.toNat_lt _
  obtain ⟨out', spent', loop⟩ := Walks.elements_over m RelayUnit.format AdviceOut.push
    (m.get u8 Advice.numPos).toNat ⟨m.get u8 Advice.numPos, out.rlList⟩ Advice.rlsPos negative
    (by rw [RelayUnit.format_width]; omega) (by decide)
  unfold parseRlAdvice
  exact ⟨_, _, .check_cons type (Nat.le_of_succ_le some) (.skip_cons (.field_cons fun _ =>
    .skip_cons (.skip_cons (.last (.given loop)))))⟩

theorem foldl_insert (out : FilterOut) (nets : List UInt32) :
    nets.foldl FilterOut.insert out = { out with netSet := out.netSet ∪ nets.toFinset } := by
  induction nets generalizing out with
  | nil => simp
  | cons net nets ih =>
      rw [List.foldl_cons, ih]
      simp [FilterOut.insert]

theorem parseRlFilter_walks (own : m 0 = PacketType.rlyFilter.code) (nonempty : 1 ≤ len)
    (small : len < 4294967296) (out : FilterOut) :
    Walks parseRlFilter m len out 0 (filterGuards (m.get u8 Filter.numPos).toNat)
      { netNum := m.get u8 Filter.numPos
        srcPort := m.get u16 Filter.srcPortPos
        srcIp := m.get u32 Filter.srcAddrPos
        srcMask := m.get u32 Filter.srcMaskPos
        dstIp := m.get u32 Filter.dstAddrPos
        dstMask := m.get u32 Filter.dstMaskPos
        netSet := out.netSet ∪ (((List.range (m.get u8 Filter.numPos).toNat).map fun i =>
          m.get u32 (Filter.rprtPos + i * u32.width)).toFinset) }
      (21 + (m.get u8 Filter.numPos).toNat * u32.width) := by
  have type : decide (m.get u8 Filter.typePos = PacketType.rlyFilter.code) = true :=
    decide_eq_true ((Mem.get_u8 _ _).trans own)
  unfold parseRlFilter
  refine .check_cons type nonempty (.skip_cons (.skip_cons (.field_cons fun _ => .skip_cons ?_)))
  refine .field_cons fun _ => .skip_cons (.field_cons fun _ => .skip_cons ?_)
  refine .field_cons fun _ => .skip_cons (.field_cons fun _ => .skip_cons ?_)
  refine .field_cons fun counted => .skip_cons (.last (.given ?_))
  have loop := Walks.elements m u32 FilterOut.insert small (m.get u8 Filter.numPos).toNat
    ⟨m.get u8 Filter.numPos, m.get u16 Filter.srcPortPos, m.get u32 Filter.srcAddrPos,
      m.get u32 Filter.srcMaskPos, m.get u32 Filter.dstAddrPos, m.get u32 Filter.dstMaskPos,
      out.netSet⟩ Filter.rprtPos counted
  rw [foldl_insert] at loop
  exact loop

end Walks

end SimpleRldvr

end Cors
