import Cors.Lib.Table
import Cors.Client.SimpleMpathManager

/-! # The client's multipath manager with statistics

`statmpathmanager.h` and `statmpathmanager.cpp`: the same two ways to send, with a count of
the packets that go over each relay while a counting window is open. The window is told to
the receiver in the headers; the receiver counts what comes in and reports its count once
the window has closed.
-/

namespace Cors

open ByteFormat

def zero : UInt8 := 0
def four : UInt8 := 4

namespace Stat

/-! `struct stat_header` -/

def typePos : Nat := 0
def portPos : Nat := 1
def addrPos : Nat := 3
def pktPos : Nat := 7
def tsPos : Nat := 11

def msgLen : Nat := 19

end Stat

/-- The last three fields are static locals of `send_packet`, initially zero, true and
    zero. -/
structure StatMpathManager where
  statOn : Int
  statOff : Int
  goodrelays : List RelayNode
  badrelays : List RelayNode
  sndMap : Table UInt32 UInt32
  revMap : Table UInt32 UInt32
  curChannel : Nat
  bstat : Bool
  sendNum : Int

namespace StatMpathManager

open SimpleMpathManager (flagsPos flagsVer flagsDirect packFlags Parsed)

def flagsControl (flags : UInt8) : UInt8 := flags >>> 5

/-- A bit-field of one bit keeps the lowest bit of what it is set to. -/
def directBit (bstat : Bool) : UInt8 := (if bstat then four else zero) &&& 1

/-- The part of the header that both paths have. -/
def putDirectHeader (sbuf : Mem) (bstat : Bool) : Mem :=
  let sbuf := sbuf.put u8 0 PacketType.data.code
  sbuf.put u8 flagsPos (packFlags version (directBit bstat) zero)

def putIndirectHeader (sbuf : Mem) (bstat : Bool) (dst : SockaddrIn) : Mem :=
  let sbuf := putDirectHeader sbuf bstat
  let sbuf := sbuf.put u32 addrOffset dst.addr
  sbuf.put u16 portOffset dst.port

/-- `snd_map[addr]++`, while the window is open. -/
def countSent (s : StatMpathManager) (addr : UInt32) : StatMpathManager :=
  if s.bstat then
    { s with sndMap := s.sndMap.insert addr ((s.sndMap.lookup addr).getD 0 + 1) }
  else
    s

/-- Close or open the window after enough packets. -/
def turnWindow (s : StatMpathManager) : StatMpathManager :=
  let s := { s with sendNum := s.sendNum + 1 }
  if s.bstat && s.sendNum ≥ s.statOn then
    { s with bstat := false, sendNum := 0 }
  else if !s.bstat && s.sendNum ≥ s.statOff then
    { s with sndMap := s.sndMap.mapValues fun _ => 0, bstat := true, sendNum := 0 }
  else
    s

/-- `send_packet` up to the window, with the payload as a byte string and the junk in
    `sbuf`. -/
def transmit (s : StatMpathManager) (sbuf : Mem) (buff : Bytes) (dst : SockaddrIn)
    (significance : UInt8) : StatMpathManager × List Datagram :=
  let nbytes := buff.length
  if significance = importance then
    -- mesh sending
    let sbuf := (putDirectHeader sbuf s.bstat).write directHeaderLen buff
    let direct := ⟨dst, sbuf.read 0 (nbytes + directHeaderLen)⟩
    let sbuf := (putIndirectHeader sbuf s.bstat dst).write indirectHeaderLen buff
    let relayed := s.goodrelays.map fun node =>
      ⟨node.relay.sockaddr, sbuf.read 0 (nbytes + indirectHeaderLen)⟩
    (s.goodrelays.foldl (fun s node => s.countSent node.relay.addr) s, direct :: relayed)
  else if significance = normal then
    -- round robin sending
    let curChannel := (s.curChannel + 1) % (s.goodrelays.length + 1)
    let s := { s with curChannel }
    match s.goodrelays[curChannel]? with
    -- `cur_channel == goodrelays.size()`
    | none =>
        let sbuf := (putDirectHeader sbuf s.bstat).write directHeaderLen buff
        (s, [⟨dst, sbuf.read 0 (nbytes + directHeaderLen)⟩])
    | some node =>
        -- this branch does not copy the payload into the buffer
        let sbuf := putIndirectHeader sbuf s.bstat dst
        (s.countSent node.relay.addr,
          [⟨node.relay.sockaddr, sbuf.read 0 (nbytes + indirectHeaderLen)⟩])
  else
    (s, [])

def sendPacket (s : StatMpathManager) (sbuf : Mem) (buff : Bytes) (dst : SockaddrIn)
    (significance : UInt8) : StatMpathManager × List Datagram :=
  let (s, sent) := s.transmit sbuf buff dst significance
  (s.turnWindow, sent)

/-- The report on a relay; the family of the address it goes to is not set. -/
def statMsg (junk : Mem) (peeraddr : SockaddrIn) (count : UInt32) (curTime : Timeval) : Bytes :=
  let sbuf := junk.put u8 Stat.typePos PacketType.stat.code
  let sbuf := sbuf.put SockaddrIn.format Stat.portPos peeraddr
  let sbuf := sbuf.put u32 Stat.pktPos (htonl count)
  let sbuf := sbuf.put Timeval.format Stat.tsPos curTime
  sbuf.read 0 Stat.msgLen

/-- Count a relayed packet, or report the count once the window has closed. -/
def countReceived (s : StatMpathManager) (junk : Mem) (curTime : Timeval) (control : UInt8)
    (src peeraddr : SockaddrIn) : StatMpathManager × List Datagram :=
  let count := s.revMap.lookup peeraddr.addr
  if control ≥ four then
    let count := match count with
      | some count => count + 1
      | none => 1
    ({ s with revMap := s.revMap.insert peeraddr.addr count }, [])
  else
    match count with
    | none => (s, [])
    | some count =>
        if count > 0 then
          ({ s with revMap := s.revMap.insert peeraddr.addr 0 },
            [⟨src, statMsg junk peeraddr count curTime⟩])
        else
          (s, [])

/-- `parse_data_packet`: nothing stands for NULL. -/
def parseDataPacket (s : StatMpathManager) (junk : Mem) (curTime : Timeval) (buff : Mem)
    (bufsize : Int) (peeraddr : SockaddrIn) : StatMpathManager × List Datagram × Option Parsed :=
  let flags := buff.get u8 flagsPos
  if flagsVer flags > version then
    (s, [], none)
  else if flagsDirect flags = 1 then
    (s, [], some
      { offset := directHeaderLen
        bufsize := bufsize - directHeaderLen
        saddr := peeraddr.addr
        sport := peeraddr.port
        flag := 0 })
  else
    let sport := buff.get u16 portOffset
    let saddr := buff.get u32 addrOffset
    let (s, sent) := s.countReceived junk curTime (flagsControl flags) ⟨sport, saddr⟩ peeraddr
    (s, sent, some
      { offset := indirectHeaderLen
        bufsize := bufsize - indirectHeaderLen
        saddr
        sport
        flag := 1 })

/-- The new loss rate of the first relay that has the address. -/
def recordLoss (addr loss : UInt32) : List RelayNode → List RelayNode
  | [] => []
  | node :: rest =>
      if addr = node.relay.addr then
        let lossrate := if node.lossrate = 0 then loss else (node.lossrate + loss) / 2
        { node with lossrate } :: rest
      else
        node :: recordLoss addr loss rest

/-- `process_path_statistics`. The count is taken into a variable of two bytes, and `ntohl`
    swaps the four bytes that variable is promoted to. The `memcpy` of four bytes writes two behind
    the variable, where nothing that is read any more is taken to stand. -/
def processPathStatistics (s : StatMpathManager) (msg : Mem) : StatMpathManager :=
  let relayAddr := msg.get u32 Stat.addrPos
  let revPkt := (ntohl (msg.get u16 Stat.pktPos).toUInt32).toUInt16
  match s.sndMap.lookup relayAddr with
  | none => s
  | some sent =>
      if sent > 0 then
        let loss := 100 - revPkt.toUInt32 * 100 / sent
        { s with
          goodrelays := recordLoss relayAddr loss s.goodrelays
          sndMap := s.sndMap.insert relayAddr 0 }
      else
        s

/-- `get_requirement`, with the snapshot of the selector's list that it takes. -/
def getRequirement (s : StatMpathManager) (relaylist : List RelayNode) (rq : Requirement) :
    Bool × StatMpathManager :=
  if relaylist.isEmpty then
    (false, s)
  else
    let present := s.goodrelays.filter fun good => listed relaylist good.relay.addr
    let goodrelays := present.filter (·.lossrate < rq.lossrate)
    let badrelays := s.badrelays ++ present.filter fun good => !decide (good.lossrate < rq.lossrate)
    let gainBw := goodrelays.foldl (fun gainBw good => gainBw + good.bandwidth) 0
    if enough rq gainBw goodrelays then
      (true, { s with goodrelays, badrelays })
    else
      let (met, goodrelays) := addRelays rq badrelays goodrelays gainBw relaylist
      (met, { s with goodrelays, badrelays })

def releaseResources (s : StatMpathManager) : StatMpathManager :=
  { s with goodrelays := [], badrelays := [], sndMap := ∅, revMap := ∅ }

end StatMpathManager

end Cors
