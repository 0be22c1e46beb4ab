import Cors.Lib.Scan

/-! # Control packets

`corsprotocol.h` and `corsprotocol.cpp`: the packet types, the records that
travel inside packets, and the four packet classes with their hand-written
`Serialize` and `Deserialize`.

Addresses and ports are kept in network order as they stand in memory. Sizes are
those the layout comments of the header give: `time_t` has four bytes, a
`timeval` eight, and no struct on the wire has padding.
-/

namespace Cors

open ByteFormat

def corsMaxMsgSize : Nat := 2048
def maxAdvicedRelays : UInt8 := 20
def maxReportEntrys : UInt8 := 20
def maxTtl : UInt8 := 4

inductive PacketType where
  | probePing
  | probePong
  | rlyInquiry
  | rlyAdvice
  | rlyFilter
  | rlyShare
  | rlyReport
  | fwProbe
  | fwForward
  | fwReply
  | bwReserve
  | bwForward
  | bwReply
  | bwRelease
  | data
  | stat
  deriving Repr, DecidableEq

namespace PacketType

/-- The low byte of the enumerator, which is all that goes on the wire. -/
def code : PacketType → UInt8
  | probePing => 0
  | probePong => 1
  | rlyInquiry => 2
  | rlyAdvice => 3
  | rlyFilter => 4
  | rlyShare => 5
  | rlyReport => 6
  | fwProbe => 7
  | fwForward => 8
  | fwReply => 9
  | bwReserve => 10
  | bwForward => 11
  | bwReply => 12
  | bwRelease => 13
  | data => 14
  | stat => 15

/-- The enumerator a type byte stands for, if it stands for one. -/
def ofCode? (b : UInt8) : Option PacketType :=
  [probePing, probePong, rlyInquiry, rlyAdvice, rlyFilter, rlyShare, rlyReport, fwProbe, fwForward,
    fwReply, bwReserve, bwForward, bwReply, bwRelease, data, stat].find? (·.code == b)

@[simp] theorem ofCode?_code (t : PacketType) : ofCode? t.code = some t := by
  cases t <;> rfl

end PacketType

structure Timeval where
  tvSec : Int32
  tvUsec : Int32
  deriving DecidableEq, Inhabited

def Timeval.format : ByteFormat Timeval :=
  (i32.seq i32).via
    ⟨fun x => ⟨x.1, x.2⟩, fun t => (t.tvSec, t.tvUsec), fun _ => rfl, fun _ => rfl⟩

/-- Information of an overlay node. -/
structure EndPoint where
  asn : UInt16
  port : UInt16
  addr : UInt32
  mask : UInt32
  deriving DecidableEq, Inhabited

def EndPoint.format : ByteFormat EndPoint :=
  (u16.seq (u16.seq (u32.seq u32))).via
    ⟨fun x => ⟨x.1, x.2.1, x.2.2.1, x.2.2.2⟩, fun e => (e.asn, e.port, e.addr, e.mask),
      fun _ => rfl, fun _ => rfl⟩

/-- Entry in `CorsReport`. -/
structure ReportEntry where
  relay : EndPoint
  delay : Timeval
  deriving DecidableEq, Inhabited

def ReportEntry.format : ByteFormat ReportEntry :=
  (EndPoint.format.seq Timeval.format).via
    ⟨fun x => ⟨x.1, x.2⟩, fun e => (e.relay, e.delay), fun _ => rfl, fun _ => rfl⟩

@[simp] theorem Timeval.format_width : Timeval.format.width = 8 := rfl
@[simp] theorem EndPoint.format_width : EndPoint.format.width = 12 := rfl
@[simp] theorem ReportEntry.format_width : ReportEntry.format.width = 20 := rfl

/-! ## Packet classes -/

structure CorsPacket where
  type : PacketType
  ttl : UInt8
  deriving DecidableEq

structure CorsInquiry extends CorsPacket where
  requiredRelays : UInt8
  source : EndPoint
  destination : EndPoint
  proxy : EndPoint
  deriving DecidableEq

structure CorsAdvice extends CorsPacket where
  source : EndPoint
  destination : EndPoint
  relays : List EndPoint
  deriving DecidableEq

structure CorsReport extends CorsPacket where
  source : EndPoint
  destination : EndPoint
  reports : List ReportEntry
  deriving DecidableEq

structure CorsProbe extends CorsPacket where
  source : EndPoint
  relay : EndPoint
  destination : EndPoint
  /-- The sending time of this packet, for RTT calculation. -/
  timestamp : Timeval
  bandwidth : UInt32
  loadNum : UInt32
  deriving DecidableEq

def zeroEndPoint : EndPoint := ⟨0, 0, 0, 0⟩

def CorsInquiry.new : CorsInquiry where
  type := .rlyInquiry
  ttl := maxTtl
  requiredRelays := 0
  source := zeroEndPoint
  destination := zeroEndPoint
  proxy := zeroEndPoint

def CorsAdvice.new : CorsAdvice where
  type := .rlyAdvice
  ttl := maxTtl
  source := zeroEndPoint
  destination := zeroEndPoint
  relays := []

def CorsReport.new : CorsReport where
  type := .rlyReport
  ttl := maxTtl
  source := zeroEndPoint
  destination := zeroEndPoint
  reports := []

def CorsProbe.new : CorsProbe where
  type := .fwProbe
  ttl := maxTtl
  source := zeroEndPoint
  relay := zeroEndPoint
  destination := zeroEndPoint
  timestamp := ⟨0, 0⟩
  bandwidth := 0
  loadNum := 0

/-! ## Serialization -/

def CorsInquiry.serialize (x : CorsInquiry) : Bytes :=
  u8.encode x.type.code ++ u8.encode x.ttl ++ u8.encode x.requiredRelays ++
    EndPoint.format.encode x.source ++ EndPoint.format.encode x.destination ++
    EndPoint.format.encode x.proxy

/-- The element count of a list packet: the length, cut at a limit. -/
def cutSize (limit : UInt8) (xs : List α) : UInt8 :=
  if limit.toNat < xs.length then limit else UInt8.ofNat xs.length

def CorsAdvice.serialize (x : CorsAdvice) : Bytes :=
  let size := cutSize maxAdvicedRelays x.relays
  u8.encode x.type.code ++ u8.encode x.ttl ++ u8.encode size ++
    EndPoint.format.encode x.source ++ EndPoint.format.encode x.destination ++
    (x.relays.take size.toNat).flatMap EndPoint.format.encode

def CorsReport.serialize (x : CorsReport) : Bytes :=
  let size := cutSize maxReportEntrys x.reports
  u8.encode x.type.code ++ u8.encode x.ttl ++ u8.encode size ++
    EndPoint.format.encode x.source ++ EndPoint.format.encode x.destination ++
    (x.reports.take size.toNat).flatMap ReportEntry.format.encode

def CorsProbe.serialize (x : CorsProbe) : Bytes :=
  u8.encode x.type.code ++ u8.encode x.ttl ++ EndPoint.format.encode x.source ++
    EndPoint.format.encode x.relay ++ EndPoint.format.encode x.destination ++
    Timeval.format.encode x.timestamp ++ u32.encode (htonl x.bandwidth) ++
    u32.encode (htonl x.loadNum)

/-! ## Deserialization

Every decoder copies the type byte before it looks at the length, refuses types
that are not its own, and then guards each further field by its first byte.
-/

/-- The type test: the byte stands for one of the accepted types. -/
def recognise (accepted : List PacketType) (b : UInt8) : Option PacketType :=
  (PacketType.ofCode? b).bind fun type => if type ∈ accepted then some type else none

/-- The common opening of the four decoders. -/
def tagged (accepted : List PacketType) (body : PacketType → Scan α) : Scan α := do
  let code ← Scan.raw u8
  match recognise accepted code with
  | some type => body type
  | none => Scan.fail

def CorsInquiry.accepted : List PacketType := [.rlyInquiry]
def CorsAdvice.accepted : List PacketType := [.rlyAdvice, .rlyFilter]
def CorsReport.accepted : List PacketType := [.rlyReport]

def CorsProbe.accepted : List PacketType :=
  [.fwProbe, .fwForward, .fwReply, .bwReserve, .bwForward, .bwReply, .bwRelease]

/-- Every member is overwritten, so the object it is called on does not matter. -/
def CorsInquiry.deserialize : Scan CorsInquiry :=
  tagged CorsInquiry.accepted fun type => do
    let ttl ← Scan.field u8
    let requiredRelays ← Scan.field u8
    let source ← Scan.field EndPoint.format
    let destination ← Scan.field EndPoint.format
    let proxy ← Scan.field EndPoint.format
    pure { type, ttl, requiredRelays, source, destination, proxy }

/-- The decoded relays are appended to those the object already lists. -/
def CorsAdvice.deserialize (self : CorsAdvice) : Scan CorsAdvice :=
  tagged CorsAdvice.accepted fun type => do
    let ttl ← Scan.field u8
    let size ← Scan.field u8
    let source ← Scan.field EndPoint.format
    let destination ← Scan.field EndPoint.format
    let relays ← Scan.fields EndPoint.format size.toNat
    pure { type, ttl, source, destination, relays := self.relays ++ relays }

def CorsReport.deserialize (self : CorsReport) : Scan CorsReport :=
  tagged CorsReport.accepted fun type => do
    let ttl ← Scan.field u8
    let size ← Scan.field u8
    let source ← Scan.field EndPoint.format
    let destination ← Scan.field EndPoint.format
    let reports ← Scan.fields ReportEntry.format size.toNat
    pure { type, ttl, source, destination, reports := self.reports ++ reports }

def CorsProbe.deserialize : Scan CorsProbe :=
  tagged CorsProbe.accepted fun type => do
    let ttl ← Scan.field u8
    let source ← Scan.field EndPoint.format
    let relay ← Scan.field EndPoint.format
    let destination ← Scan.field EndPoint.format
    let timestamp ← Scan.field Timeval.format
    let bandwidth ← Scan.field u32
    let loadNum ← Scan.field u32
    pure { type, ttl, source, relay, destination, timestamp, bandwidth := ntohl bandwidth,
           loadNum := ntohl loadNum }

/-- `Deserialize(buf, len)`: the decoded object when the return value is 0, nothing
    when it is -1. -/
def parse (decoder : Scan α) (buf : Mem) (len : Nat) : Option α :=
  (decoder buf len 0).result.map Prod.fst

/-- One past the last byte of `buf` that `Deserialize(buf, len)` reads. -/
def extent (decoder : Scan α) (buf : Mem) (len : Nat) : Nat := (decoder buf len 0).extent

/-! ## Layouts behind the type byte -/

def CorsInquiry.layout : List Nat := [1, 1, 12, 12, 12]
def CorsAdvice.layout (size : UInt8) : List Nat := [1, 1, 12, 12] ++ List.replicate size.toNat 12
def CorsReport.layout (size : UInt8) : List Nat := [1, 1, 12, 12] ++ List.replicate size.toNat 20
def CorsProbe.layout : List Nat := [1, 12, 12, 12, 8, 4, 4]

@[simp] theorem CorsInquiry.layout_sum : CorsInquiry.layout.sum = 38 := rfl
@[simp] theorem CorsProbe.layout_sum : CorsProbe.layout.sum = 53 := rfl

@[simp] theorem CorsAdvice.layout_sum (size : UInt8) :
    (CorsAdvice.layout size).sum = 26 + size.toNat * 12 := by
  simp only [layout, List.cons_append, List.nil_append, List.sum_cons, List.sum_replicate_nat]
  omega

@[simp] theorem CorsReport.layout_sum (size : UInt8) :
    (CorsReport.layout size).sum = 26 + size.toNat * 20 := by
  simp only [layout, List.cons_append, List.nil_append, List.sum_cons, List.sum_replicate_nat]
  omega

/-- Position of the element count of a list packet. -/
def sizePos : Nat := 2

/-- The consecutive elements a list packet announces. -/
def elements (f : ByteFormat α) (buf : Mem) (pos : Nat) (size : UInt8) : List α :=
  (List.range size.toNat).map fun i => buf.get f (pos + i * f.width)

/-- A recognised packet whose body follows a layout is walked to the first field
    that starts beyond the end; an unrecognised one is left after its type byte. -/
theorem tagged_of_follows {accepted : List PacketType} {body : PacketType → Scan α} {buf : Mem}
    {ws : List Nat} {value : PacketType → α}
    (follows : ∀ type, Scan.Follows buf (body type) 1 ws (value type)) (len : Nat) :
    tagged accepted body buf len 0 =
      match recognise accepted (buf 0) with
      | some type =>
          ⟨if Scan.Fits len 1 ws then some (value type, 1 + ws.sum) else none,
            max 1 (Scan.reach len 1 ws)⟩
      | none => ⟨none, 1⟩ := by
  have tag : buf.get u8 0 = buf 0 := u8_decode (buf 0)
  simp only [tagged, Scan.bind_run, Scan.raw, tag, u8_width]
  cases recognise accepted (buf 0) with
  | none => rfl
  | some type => simp only [follows type len]

theorem CorsInquiry.deserialize_run (buf : Mem) (len : Nat) :
    CorsInquiry.deserialize buf len 0 =
      match recognise CorsInquiry.accepted (buf 0) with
      | some type =>
          ⟨if Scan.Fits len 1 layout then
              some ({ type
                      ttl := buf.get u8 1
                      requiredRelays := buf.get u8 2
                      source := buf.get EndPoint.format 3
                      destination := buf.get EndPoint.format 15
                      proxy := buf.get EndPoint.format 27 }, 1 + layout.sum)
            else none,
            max 1 (Scan.reach len 1 layout)⟩
      | none => ⟨none, 1⟩ := by
  apply tagged_of_follows
  intro type
  iterate 5 apply Scan.Follows.field_bind
  exact Scan.Follows.pure _ _ _

theorem CorsAdvice.deserialize_run (self : CorsAdvice) (buf : Mem) (len : Nat) :
    self.deserialize buf len 0 =
      match recognise CorsAdvice.accepted (buf 0) with
      | some type =>
          let size := buf.get u8 sizePos
          ⟨if Scan.Fits len 1 (layout size) then
              some ({ type
                      ttl := buf.get u8 1
                      source := buf.get EndPoint.format 3
                      destination := buf.get EndPoint.format 15
                      relays := self.relays ++ elements EndPoint.format buf 27 size },
                    1 + (layout size).sum)
            else none,
            max 1 (Scan.reach len 1 (layout size))⟩
      | none => ⟨none, 1⟩ := by
  apply tagged_of_follows
  intro type
  iterate 4 apply Scan.Follows.field_bind
  exact (Scan.Follows.fields _ _ _ _).map _

theorem CorsReport.deserialize_run (self : CorsReport) (buf : Mem) (len : Nat) :
    self.deserialize buf len 0 =
      match recognise CorsReport.accepted (buf 0) with
      | some type =>
          let size := buf.get u8 sizePos
          ⟨if Scan.Fits len 1 (layout size) then
              some ({ type
                      ttl := buf.get u8 1
                      source := buf.get EndPoint.format 3
                      destination := buf.get EndPoint.format 15
                      reports := self.reports ++ elements ReportEntry.format buf 27 size },
                    1 + (layout size).sum)
            else none,
            max 1 (Scan.reach len 1 (layout size))⟩
      | none => ⟨none, 1⟩ := by
  apply tagged_of_follows
  intro type
  iterate 4 apply Scan.Follows.field_bind
  exact (Scan.Follows.fields _ _ _ _).map _

theorem CorsProbe.deserialize_run (buf : Mem) (len : Nat) :
    CorsProbe.deserialize buf len 0 =
      match recognise CorsProbe.accepted (buf 0) with
      | some type =>
          ⟨if Scan.Fits len 1 layout then
              some ({ type
                      ttl := buf.get u8 1
                      source := buf.get EndPoint.format 2
                      relay := buf.get EndPoint.format 14
                      destination := buf.get EndPoint.format 26
                      timestamp := buf.get Timeval.format 38
                      bandwidth := ntohl (buf.get u32 46)
                      loadNum := ntohl (buf.get u32 50) }, 1 + layout.sum)
            else none,
            max 1 (Scan.reach len 1 layout)⟩
      | none => ⟨none, 1⟩ := by
  apply tagged_of_follows
  intro type
  iterate 7 apply Scan.Follows.field_bind
  exact Scan.Follows.pure _ _ _

end Cors
