import Cors.Client.SimpleRlysltr
import Cors.Client.StatMpathManager

/-! # The client's socket

`corssocket.h`, `corssocket.cpp` and `mmgrfactory.cpp`: one socket and one receive buffer in
front of the relay selector and a multipath manager, which is of one of two classes.

What the application sends is kept apart from what the socket sends on its own account.
-/

namespace Cors

open ByteFormat

open SimpleMpathManager (Parsed)

/-- The classes of multipath managers that `MmgrFactory` creates. -/
inductive MultipathManager where
  | simple (mgr : SimpleMpathManager)
  | stat (mgr : StatMpathManager)

namespace MultipathManager

def goodrelays : MultipathManager → List RelayNode
  | simple mgr => mgr.goodrelays
  | stat mgr => mgr.goodrelays

def sendPacket (sbuf : Mem) (buff : Bytes) (dst : SockaddrIn) (significance : UInt8) :
    MultipathManager → MultipathManager × List Datagram
  | simple mgr =>
      let (mgr, sent) := mgr.sendPacket sbuf buff dst significance
      (simple mgr, sent)
  | stat mgr =>
      let (mgr, sent) := mgr.sendPacket sbuf buff dst significance
      (stat mgr, sent)

def parseDataPacket (junk : Mem) (curTime : Timeval) (buff : Mem) (bufsize : Int)
    (peeraddr : SockaddrIn) :
    MultipathManager → MultipathManager × List Datagram × Option Parsed
  | simple mgr => (simple mgr, [], SimpleMpathManager.parseDataPacket buff bufsize peeraddr)
  | stat mgr =>
      let (mgr, sent, parsed) := mgr.parseDataPacket junk curTime buff bufsize peeraddr
      (stat mgr, sent, parsed)

def processPathStatistics (msg : Mem) : MultipathManager → MultipathManager
  | simple mgr => simple mgr
  | stat mgr => stat (mgr.processPathStatistics msg)

def getRequirement (relaylist : List RelayNode) (rq : Requirement) :
    MultipathManager → Bool × MultipathManager
  | simple mgr =>
      let (met, mgr) := mgr.getRequirement relaylist rq
      (met, simple mgr)
  | stat mgr =>
      let (met, mgr) := mgr.getRequirement relaylist rq
      (met, stat mgr)

def releaseResources : MultipathManager → MultipathManager
  | simple mgr => simple mgr.releaseResources
  | stat mgr => stat mgr.releaseResources

end MultipathManager

/-- The end points of the socket are with the selector. -/
structure CorsSocket where
  rlysltr : SimpleRlysltr
  mpthmgr : MultipathManager
  msg : Mem
  lastQueryTime : Int32

namespace CorsSocket

/-- The constructor and `init`, with the proxies of the selector's configuration file. -/
def init (psk : Endpoints) (boot : List EndPoint) (rq : Requirement) (mpthmgr : MultipathManager)
    (msg : Mem) (created now : Int32) : CorsSocket × List Datagram :=
  let rlysltr := SimpleRlysltr.new psk boot rq created
  (⟨rlysltr, mpthmgr, msg, now⟩, rlysltr.sendRlInquiry rq)

/-- What `sendto` sends: the packets for the application, and an inquiry for relays. -/
structure Sent where
  packets : List Datagram
  inquiry : List Datagram

/-- `sendto`, with the payload as a byte string and the junk in the send buffer. -/
def sendto (s : CorsSocket) (now : Int32) (sbuf : Mem) (buff : Bytes) (daddr : UInt32)
    (dport : UInt16) (significance : UInt8) : CorsSocket × Sent :=
  let dst := s.rlysltr.psk.dst.sockaddr
  let (mpthmgr, packets) :=
    if dst.addr = daddr ∧ dst.port = dport then
      s.mpthmgr.sendPacket sbuf buff dst significance
    else
      (s.mpthmgr, [⟨dst, buff⟩])
  if now.toInt - s.lastQueryTime.toInt > 3 then
    let (met, mpthmgr) := mpthmgr.getRequirement s.rlysltr.relaylist s.rlysltr.req
    if met then
      ({ s with mpthmgr }, ⟨packets, []⟩)
    else
      ({ s with mpthmgr, lastQueryTime := now }, ⟨packets, s.rlysltr.sendRlInquiry s.rlysltr.req⟩)
  else
    ({ s with mpthmgr }, ⟨packets, []⟩)

/-- `memcpy(buff, data, len)` to the application: `data` is what `parse_data_packet`
    returned, which is NULL when there is nothing. -/
structure Copy where
  data : Option Parsed
  len : Int
  deriving DecidableEq

/-- What `recvfrom` does with a datagram. -/
structure Received where
  socket : CorsSocket
  sent : List Datagram
  copy : Option Copy

/-- The readings and the contents of uninitialised variables that a handler may use. -/
structure Ambient where
  tmNow : Timeval
  lossrate : UInt32
  junk : Mem

/-- `recvfrom`, when the datagram comes in from `peeraddr`. -/
def recvfrom (s : CorsSocket) (amb : Ambient) (datagram : Bytes) (peeraddr : SockaddrIn) :
    Received :=
  let msg := s.msg.receive (datagram.take corsMaxMsgSize)
  let len := (datagram.take corsMaxMsgSize).length
  let s := { s with msg }
  if len > 0 then
    match PacketType.ofCode? (msg.get u8 0) with
    | some .data =>
        let (mpthmgr, sent, data) := s.mpthmgr.parseDataPacket amb.junk amb.tmNow msg len peeraddr
        ⟨{ s with mpthmgr }, sent, some ⟨data, (data.map (·.bufsize)).getD len⟩⟩
    | some .stat =>
        ⟨{ s with mpthmgr := s.mpthmgr.processPathStatistics msg }, [], none⟩
    | some .fwProbe | some .fwForward => ⟨s, s.rlysltr.processFwForward msg len, none⟩
    | some .fwReply =>
        let (rlysltr, sent) := s.rlysltr.processFwReply amb.tmNow msg len
        ⟨{ s with rlysltr }, sent, none⟩
    | some .bwForward => ⟨s, s.rlysltr.processBwForward msg len, none⟩
    | some .bwReply =>
        ⟨{ s with rlysltr := s.rlysltr.processBwReply amb.tmNow amb.lossrate msg len }, [], none⟩
    | some .rlyAdvice =>
        ⟨{ s with rlysltr := s.rlysltr.processRlAdvice msg len }, [], none⟩
    | _ => ⟨s, [], none⟩
  else
    ⟨s, [], none⟩

/-- `close`, once the probing thread has ended. -/
def close (s : CorsSocket) : CorsSocket × List Datagram :=
  ({ s with mpthmgr := s.mpthmgr.releaseResources }, s.rlysltr.releaseResources)

end CorsSocket

end Cors
