import Cors.Client.SimpleMpathManager
import Cors.Lib.Run
import Cors.Protocol.Control

/-! # The client's relay selector

`simplerlysltr.h` and `simplerlysltr.cpp`: the candidates a proxy advised, the list of
relays in use, the probing thread and the handlers of probes, reservations and their
replies.

The probing thread is cut at its critical sections; what one section leaves in its
local variables for another is kept in the state. Iterators are positions in their list,
moved as the list is changed around them. A handler takes the receive buffer and the
received length. Clock readings are arguments.
-/

namespace Cors

open ByteFormat

def maxCandLen : Nat := 20

/-- An iterator of a list: the position of its element, the length for the end, and
    nothing once its element was erased. -/
abbrev Cursor := Option Nat

namespace Cursor

def start : Cursor := some 0

/-- Elements were inserted at a position. -/
def inserted (pos n : Nat) (c : Cursor) : Cursor := c.map fun i => if pos ≤ i then i + n else i

/-- The element at a position was erased. -/
def erased (pos : Nat) (c : Cursor) : Cursor :=
  c.bind fun i => if i = pos then none else some (if pos < i then i - 1 else i)

/-- `++`, which leads from the end of a list back to its beginning. -/
def next (length : Nat) (c : Cursor) : Cursor := c.map fun i => if i = length then 0 else i + 1

/-- The element an iterator denotes, if it denotes one. -/
def deref (c : Cursor) (xs : List α) : Option α := c.bind fun i => xs[i]?

end Cursor

/-- The end points of the socket a selector works for. -/
structure Endpoints where
  src : EndPoint
  dst : EndPoint
  deriving DecidableEq

structure SimpleRlysltr where
  psk : Endpoints
  candidates : List EndPoint
  iterCandidates : Cursor
  relaylist : List RelayNode
  iterRelaylist : Cursor
  req : Requirement
  lastReportTime : Int32
  /-- The candidate that the probing thread took last. -/
  cand : EndPoint

namespace SimpleRlysltr

/-- A selector with the proxies of its configuration file as candidates. -/
def new (psk : Endpoints) (boot : List EndPoint) (req : Requirement) (now : Int32) :
    SimpleRlysltr where
  psk := psk
  candidates := boot
  iterCandidates := .start
  relaylist := []
  iterRelaylist := .start
  req := req
  lastReportTime := now
  cand := zeroEndPoint

/-! ## The probing thread -/

/-- `increase_iter` for one list. -/
def advance (c : Cursor) (xs : List α) : Cursor :=
  let c := c.next xs.length
  if c = some xs.length then .start else c

def increaseIter (s : SimpleRlysltr) : SimpleRlysltr :=
  { s with
    iterCandidates := advance s.iterCandidates s.candidates
    iterRelaylist := advance s.iterRelaylist s.relaylist }

/-- The probe that is sent to a candidate or to a relay in use. -/
def probeFor (s : SimpleRlysltr) (relay : EndPoint) (now : Timeval) : CorsProbe where
  type := .fwProbe
  ttl := 2
  source := s.psk.src
  relay := relay
  destination := s.psk.dst
  timestamp := now
  bandwidth := 0
  loadNum := 0

def sendProbe (probe : CorsProbe) : Datagram := ⟨probe.relay.sockaddr, probe.serialize⟩

/-- The part of `cycle_ping` that scans the candidates. -/
def pingCandidate (s : SimpleRlysltr) (now : Timeval) : SimpleRlysltr × List Datagram :=
  match s.iterCandidates.deref s.candidates with
  | some cand => ({ s with cand }, [sendProbe (s.probeFor cand now)])
  | none => (s, [])

def reportEntry (node : RelayNode) : ReportEntry where
  relay := node.relay
  delay := ⟨(node.delay / 1000000).toUInt32.toInt32, (node.delay % 1000000).toUInt32.toInt32⟩

/-- The part that reports on the relays in use to the proxy that was probed. -/
def report (s : SimpleRlysltr) (now : Int32) : SimpleRlysltr × List Datagram :=
  if now.toInt - s.lastReportTime.toInt > 10 then
    let report := { CorsReport.new with
      source := s.psk.src
      destination := s.psk.dst
      reports := s.relaylist.map reportEntry }
    ({ s with lastReportTime := now },
      if report.reports.length > 0 then [⟨s.cand.sockaddr, report.serialize⟩] else [])
  else
    (s, [])

/-- The part that scans the relays in use. -/
def pingRelay (s : SimpleRlysltr) (now : Timeval) : SimpleRlysltr × List Datagram :=
  match s.iterRelaylist.deref s.relaylist with
  | some node =>
      if node.relay.addr = s.cand.addr then
        (s, [])
      else
        (s, [sendProbe (s.probeFor node.relay now)])
  | none => (s, [])

/-! ## Inquiry and advice -/

def sendRlInquiry (s : SimpleRlysltr) (rq : Requirement) : List Datagram :=
  s.candidates.head?.toList.map fun proxy =>
    let inquiry := { CorsInquiry.new with
      requiredRelays := rq.relaynum * 6
      source := s.psk.src
      destination := s.psk.dst
      proxy }
    ⟨proxy.sockaddr, inquiry.serialize⟩

def processRlAdvice (s : SimpleRlysltr) (msg : Mem) (len : Nat) : SimpleRlysltr :=
  match parse CorsAdvice.new.deserialize msg len with
  | none => s
  | some advice =>
      if advice.relays.length = 0 then
        s
      else
        let candidates :=
          if s.candidates.length + advice.relays.length > maxCandLen then [] else s.candidates
        { s with candidates := advice.relays ++ candidates, iterCandidates := .start }

/-! ## Probes and reservations -/

/-- As the destination: the probe is turned back to its source, with the mask and the AS
    number that the destination has itself. -/
def turnBack (s : SimpleRlysltr) (type : PacketType) (probe : CorsProbe) : CorsProbe :=
  { probe with
    type
    ttl := probe.ttl - 1
    destination := { probe.destination with mask := s.psk.src.mask, asn := s.psk.src.asn } }

def processFwForward (s : SimpleRlysltr) (msg : Mem) (len : Nat) : List Datagram :=
  match parse CorsProbe.deserialize msg len with
  | none => []
  | some probe => [⟨probe.source.sockaddr, (s.turnBack .fwReply probe).serialize⟩]

def processBwForward (s : SimpleRlysltr) (msg : Mem) (len : Nat) : List Datagram :=
  match parse CorsProbe.deserialize msg len with
  | none => []
  | some probe => [⟨probe.source.sockaddr, (s.turnBack .bwReply probe).serialize⟩]

/-- The time since a probe was sent, as both reply handlers compute it. -/
def elapsed (now timestamp : Timeval) : Timeval :=
  if now.tvUsec < timestamp.tvUsec then
    ⟨now.tvSec - timestamp.tvSec - 1, 1000000 + now.tvUsec - timestamp.tvUsec⟩
  else
    ⟨now.tvSec - timestamp.tvSec, now.tvUsec - timestamp.tvUsec⟩

/-- `delay <= req.delay * 1.5`, which a floating-point number holds exactly. -/
def meetRequirement (req : Requirement) (tmDelay : Timeval) : Bool :=
  let delay := (tmDelay.tvSec * 1000 + tmDelay.tvUsec / 1000).toUInt32
  2 * delay.toNat ≤ 3 * req.delay.toNat

/-- The relay is in the list already. -/
def inUse (s : SimpleRlysltr) (relay : EndPoint) : Bool :=
  s.relaylist.any fun node => node.relay.addr = relay.addr

/-- Take the first entry for an address out of the list; `iter_relaylist` is moved off it. -/
def remove (s : SimpleRlysltr) (addr : UInt32) : SimpleRlysltr :=
  match s.relaylist.findIdx? fun node => node.relay.addr = addr with
  | none => s
  | some pos =>
      let iter := if s.iterRelaylist = some pos then
          Cursor.next s.relaylist.length s.iterRelaylist
        else s.iterRelaylist
      let relaylist := s.relaylist.eraseIdx pos
      let iter := Cursor.erased pos iter
      { s with
        relaylist
        iterRelaylist := if iter = some relaylist.length then .start else iter }

/-- The reservation that is sent for a relay that answered in time. -/
def reservation (s : SimpleRlysltr) (probe : CorsProbe) : CorsProbe :=
  { probe with type := .bwReserve, ttl := 2, bandwidth := s.req.bandwidth }

def processFwReply (s : SimpleRlysltr) (tmNow : Timeval) (msg : Mem) (len : Nat) :
    SimpleRlysltr × List Datagram :=
  match parse CorsProbe.deserialize msg len with
  | none => (s, [])
  | some probe =>
      let dst := { s.psk.dst with mask := probe.destination.mask, asn := probe.destination.asn }
      let s := { s with psk := { s.psk with dst } }
      if probe.relay.addr = 0 then
        (s, [])
      else if meetRequirement s.req (elapsed tmNow probe.timestamp) then
        if !s.inUse probe.relay && probe.loadNum < 4 then
          (s, [sendProbe (s.reservation probe)])
        else
          (s, [])
      else
        (s.remove probe.relay.addr, [])

/-- Where the loop of `process_bw_reply` inserts an entry: before the first of the first
    `relaynum` entries that is not faster, or at the end if there are fewer. -/
def slot (relaynum : Nat) (delay : UInt64) : Nat → List RelayNode → Option Nat
  | i, [] => if i < relaynum then some i else none
  | i, it :: rest =>
      if i < relaynum then
        if it.delay < delay then slot relaynum delay (i + 1) rest else some i
      else
        none

def insertNode (s : SimpleRlysltr) (node : RelayNode) : SimpleRlysltr :=
  match slot s.req.relaynum.toNat node.delay 0 s.relaylist with
  | none => s
  | some pos =>
      { s with
        relaylist := s.relaylist.insertIdx pos node
        iterRelaylist := Cursor.inserted pos 1 s.iterRelaylist }

/-- An entry too many is taken from the end. -/
def trim (s : SimpleRlysltr) : SimpleRlysltr :=
  if s.relaylist.length > s.req.relaynum.toNat then
    let last := s.relaylist.length - 1
    let iter := if s.iterRelaylist = some last then .start else s.iterRelaylist
    { s with relaylist := s.relaylist.dropLast, iterRelaylist := Cursor.erased last iter }
  else
    s

/-- The delay in microseconds, in 64 bits. -/
def delay64 (tmDelay : Timeval) : UInt64 :=
  tmDelay.tvSec.toInt64.toUInt64 * 1000000 + tmDelay.tvUsec.toInt64.toUInt64

/-- The new entry; its loss rate is never set. -/
def relayNode (probe : CorsProbe) (tmNow : Timeval) (lossrate : UInt32) : RelayNode where
  relay := probe.relay
  delay := delay64 (elapsed tmNow probe.timestamp)
  lossrate := lossrate
  bandwidth := probe.bandwidth

def processBwReply (s : SimpleRlysltr) (tmNow : Timeval) (lossrate : UInt32) (msg : Mem)
    (len : Nat) : SimpleRlysltr :=
  match parse CorsProbe.deserialize msg len with
  | none => s
  | some probe => (s.insertNode (relayNode probe tmNow lossrate)).trim

/-- The release that is sent to a relay in use. -/
def releaseFor (s : SimpleRlysltr) (node : RelayNode) : CorsProbe :=
  { CorsProbe.new with
    type := .bwRelease
    source := s.psk.src
    destination := s.psk.dst
    relay := node.relay }

/-- Called once the probing thread has ended. -/
def releaseResources (s : SimpleRlysltr) : List Datagram :=
  s.relaylist.map fun node => sendProbe (s.releaseFor node)

/-! ## Runs -/

/-- The sections of the probing thread and the handlers, with all that they read. -/
inductive Event where
  | pingCandidate (now : Timeval)
  | report (now : Int32)
  | pingRelay (now : Timeval)
  | increaseIter
  | rlAdvice (msg : Mem) (len : Nat)
  | fwForward (msg : Mem) (len : Nat)
  | bwForward (msg : Mem) (len : Nat)
  | fwReply (tmNow : Timeval) (msg : Mem) (len : Nat)
  | bwReply (tmNow : Timeval) (lossrate : UInt32) (msg : Mem) (len : Nat)

def react (s : SimpleRlysltr) : Event → SimpleRlysltr × List Datagram
  | .pingCandidate now => s.pingCandidate now
  | .report now => s.report now
  | .pingRelay now => s.pingRelay now
  | .increaseIter => (s.increaseIter, [])
  | .rlAdvice msg len => (s.processRlAdvice msg len, [])
  | .fwForward msg len => (s, s.processFwForward msg len)
  | .bwForward msg len => (s, s.processBwForward msg len)
  | .fwReply tmNow msg len => s.processFwReply tmNow msg len
  | .bwReply tmNow lossrate msg len => (s.processBwReply tmNow lossrate msg len, [])

def step (s : SimpleRlysltr) (e : Event) : SimpleRlysltr := (s.react e).1

/-! ## What one section does -/

theorem pingCandidate_cases (s : SimpleRlysltr) (now : Timeval) :
    s.pingCandidate now = (s, []) ∨ ∃ cand ∈ s.candidates,
      s.pingCandidate now = ({ s with cand }, [sendProbe (s.probeFor cand now)]) := by
  unfold pingCandidate
  cases found : s.iterCandidates.deref s.candidates with
  | none => exact .inl rfl
  | some cand =>
      obtain ⟨pos, -, denoted⟩ := Option.bind_eq_some_iff.mp found
      exact .inr ⟨cand, List.mem_of_getElem? denoted, rfl⟩

/-- A relay in use is probed, unless it was as a candidate. -/
theorem pingRelay_cases (s : SimpleRlysltr) (now : Timeval) :
    s.pingRelay now = (s, []) ∨ ∃ node ∈ s.relaylist,
      s.pingRelay now = (s, [sendProbe (s.probeFor node.relay now)]) := by
  unfold pingRelay
  cases found : s.iterRelaylist.deref s.relaylist with
  | none => exact .inl rfl
  | some node =>
      obtain ⟨pos, -, denoted⟩ := Option.bind_eq_some_iff.mp found
      by_cases own : node.relay.addr = s.cand.addr
      · exact .inl (if_pos own)
      · exact .inr ⟨node, List.mem_of_getElem? denoted, if_neg own⟩

theorem report_cases (s : SimpleRlysltr) (now : Int32) :
    ∃ lastReportTime, (s.report now).1 = { s with lastReportTime } := by
  unfold report
  split
  · exact ⟨now, rfl⟩
  · exact ⟨s.lastReportTime, rfl⟩

theorem processRlAdvice_cases (s : SimpleRlysltr) (msg : Mem) (len : Nat) :
    ∃ candidates iterCandidates,
      s.processRlAdvice msg len = { s with candidates, iterCandidates } := by
  unfold processRlAdvice
  cases parse CorsAdvice.new.deserialize msg len with
  | none => exact ⟨s.candidates, s.iterCandidates, rfl⟩
  | some advice =>
      dsimp only
      split
      · exact ⟨s.candidates, s.iterCandidates, rfl⟩
      · exact ⟨_, _, rfl⟩

/-- The answers to probes and to reservations. -/
def Event.isReply : Event → Bool
  | .fwReply _ _ _ | .bwReply _ _ _ _ => true
  | _ => false

theorem step_cases (s : SimpleRlysltr) {e : Event} (quiet : e.isReply = false) :
    ∃ candidates iterCandidates iterRelaylist lastReportTime cand,
      s.step e =
        { s with candidates, iterCandidates, iterRelaylist, lastReportTime, cand } := by
  cases e with
  | pingCandidate now =>
      obtain same | ⟨cand, -, same⟩ := s.pingCandidate_cases now
      · exact ⟨_, _, _, _, s.cand, congrArg Prod.fst same⟩
      · exact ⟨_, _, _, _, cand, congrArg Prod.fst same⟩
  | report now =>
      obtain ⟨lastReportTime, same⟩ := s.report_cases now
      exact ⟨_, _, _, lastReportTime, _, same⟩
  | pingRelay now =>
      obtain same | ⟨node, -, same⟩ := s.pingRelay_cases now
      · exact ⟨_, _, _, _, _, congrArg Prod.fst same⟩
      · exact ⟨_, _, _, _, _, congrArg Prod.fst same⟩
  | increaseIter => exact ⟨_, _, _, _, _, rfl⟩
  | rlAdvice msg len =>
      obtain ⟨candidates, iterCandidates, same⟩ := s.processRlAdvice_cases msg len
      exact ⟨candidates, iterCandidates, _, _, _, same⟩
  | fwForward msg len | bwForward msg len => exact ⟨_, _, _, _, _, rfl⟩
  | fwReply tmNow msg len | bwReply tmNow lossrate msg len => cases quiet

end SimpleRlysltr

end Cors
