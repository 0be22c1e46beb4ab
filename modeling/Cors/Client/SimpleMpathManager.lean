import Cors.Protocol.Control

/-! # The client's multipath manager

`simplempathmanager.h` and `simplempathmanager.cpp`: how a payload is sent over the
direct path and over relays, and how a data packet is parsed at the far end.

A data header is the type byte, a byte of bit-fields (version in the low nibble, the
direct flag above it, control in the top three bits) and a reserved byte that
nothing sets. On the relayed path port and address of the far end follow. The
send buffer is an uninitialised local, so what it holds is an argument.

The relays that are sent over are chosen from the list of the relay selector by
`get_requirement`.
-/

namespace Cors

open ByteFormat

def version : UInt8 := 3
def importance : UInt8 := 0
def normal : UInt8 := 1
def portOffset : Nat := 3
def addrOffset : Nat := 5

/-- `sizeof(Directdataheader)`. -/
def directHeaderLen : Nat := 3

/-- `sizeof(Indirectdataheader)`. -/
def indirectHeaderLen : Nat := 9

/-- Information of a relay node. -/
structure RelayNode where
  relay : EndPoint
  delay : UInt64
  lossrate : UInt32
  bandwidth : UInt32
  deriving DecidableEq

/-- The part of a requirement that is read. -/
structure Requirement where
  delay : UInt32
  bandwidth : UInt32
  lossrate : UInt32
  relaynum : UInt8
  deriving DecidableEq

/-- A node of the list has the address. -/
def listed (l : List RelayNode) (addr : UInt32) : Bool := l.any fun node => node.relay.addr = addr

/-- `gain_bw` is an `int`, which the comparison takes for unsigned. -/
def enough (rq : Requirement) (gainBw : UInt32) (goodrelays : List RelayNode) : Bool :=
  gainBw ≥ rq.bandwidth && goodrelays.length ≥ rq.relaynum.toNat

/-- The loop that adds relays of the snapshot, except bad ones and those that are good
    already, until there are enough. -/
def addRelays (rq : Requirement) (badrelays goodrelays : List RelayNode) (gainBw : UInt32) :
    List RelayNode → Bool × List RelayNode
  | [] => (false, goodrelays)
  | it :: rest =>
      if listed badrelays it.relay.addr || listed goodrelays it.relay.addr then
        addRelays rq badrelays goodrelays gainBw rest
      else
        let goodrelays := goodrelays ++ [it]
        let gainBw := gainBw + it.bandwidth
        if enough rq gainBw goodrelays then
          (true, goodrelays)
        else
          addRelays rq badrelays goodrelays gainBw rest

/-- `curChannel` is a static local of `send_packet`, initially zero. -/
structure SimpleMpathManager where
  curChannel : Nat
  goodrelays : List RelayNode

namespace SimpleMpathManager

def flagsPos : Nat := 1

/-- The byte of bit-fields. -/
def packFlags (ver direct control : UInt8) : UInt8 := ver ||| (direct <<< 4) ||| (control <<< 5)

def flagsVer (flags : UInt8) : UInt8 := flags &&& 0x0f
def flagsDirect (flags : UInt8) : UInt8 := (flags >>> 4) &&& 1

def putDirectHeader (sbuf : Mem) (direct : UInt8) : Mem :=
  let sbuf := sbuf.put u8 0 PacketType.data.code
  sbuf.put u8 flagsPos (packFlags version direct 0)

def putIndirectHeader (sbuf : Mem) (dst : SockaddrIn) : Mem :=
  let sbuf := putDirectHeader sbuf 0
  let sbuf := sbuf.put u32 addrOffset dst.addr
  sbuf.put u16 portOffset dst.port

/-- `send_packet`, with the payload as a byte string and the junk in `sbuf`. -/
def sendPacket (s : SimpleMpathManager) (sbuf : Mem) (buff : Bytes) (dst : SockaddrIn)
    (significance : UInt8) : SimpleMpathManager × List Datagram :=
  let nbytes := buff.length
  if significance = importance then
    -- mesh sending
    let sbuf := (putDirectHeader sbuf 1).write directHeaderLen buff
    let direct := ⟨dst, sbuf.read 0 (nbytes + directHeaderLen)⟩
    let sbuf := (putIndirectHeader sbuf dst).write indirectHeaderLen buff
    let relayed := s.goodrelays.map fun node =>
      ⟨node.relay.sockaddr, sbuf.read 0 (nbytes + indirectHeaderLen)⟩
    (s, direct :: relayed)
  else if significance = normal then
    -- round robin sending
    let curChannel := (s.curChannel + 1) % (s.goodrelays.length + 1)
    let s := { s with curChannel }
    match s.goodrelays[curChannel]? with
    -- `cur_channel == goodrelays.size()`
    | none =>
        let sbuf := (putDirectHeader sbuf 1).write directHeaderLen buff
        (s, [⟨dst, sbuf.read 0 (nbytes + directHeaderLen)⟩])
    | some node =>
        -- this branch does not copy the payload into the buffer
        let sbuf := putIndirectHeader sbuf dst
        (s, [⟨node.relay.sockaddr, sbuf.read 0 (nbytes + indirectHeaderLen)⟩])
  else
    (s, [])

/-- What `parse_data_packet` returns when it does not return NULL: where the payload
    starts in the buffer, and its out-parameters. -/
structure Parsed where
  offset : Nat
  bufsize : Int
  saddr : UInt32
  sport : UInt16
  flag : Int
  deriving DecidableEq

def parseDataPacket (buff : Mem) (bufsize : Int) (peeraddr : SockaddrIn) : Option Parsed :=
  let flags := buff.get u8 flagsPos
  if flagsVer flags > version then
    none
  else if flagsDirect flags = 1 then
    some { offset := directHeaderLen
           bufsize := bufsize - directHeaderLen
           saddr := peeraddr.addr
           sport := peeraddr.port
           flag := 0 }
  else
    some { offset := indirectHeaderLen
           bufsize := bufsize - indirectHeaderLen
           saddr := buff.get u32 addrOffset
           sport := buff.get u16 portOffset
           flag := 1 }

/-- The bytes handed to the application. -/
def Parsed.payload (parsed : Parsed) (buff : Mem) : Bytes :=
  buff.read parsed.offset parsed.bufsize.toNat

/-- `get_requirement`, with the snapshot of the selector's list that it takes. -/
def getRequirement (s : SimpleMpathManager) (relaylist : List RelayNode) (rq : Requirement) :
    Bool × SimpleMpathManager :=
  if relaylist.isEmpty then
    (false, s)
  else
    -- check the relay nodes in the goodrelays
    let goodrelays := s.goodrelays.filter fun good => listed relaylist good.relay.addr
    let gainBw := goodrelays.foldl (fun gainBw good => gainBw + good.bandwidth) 0
    if enough rq gainBw goodrelays then
      (true, { s with goodrelays })
    else
      let (met, goodrelays) := addRelays rq [] goodrelays gainBw relaylist
      (met, { s with goodrelays })

def releaseResources (s : SimpleMpathManager) : SimpleMpathManager := { s with goodrelays := [] }

end SimpleMpathManager

end Cors
