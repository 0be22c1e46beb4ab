import Mathlib.Data.Finset.Basic
import Cors.Lib.Run
import Cors.Lib.Table
import Cors.Proxy.SimpleNbmtr

/-! # The relay advisor

`advancerldvr.h` and `advancerldvr.cpp`: inquiries of clients are answered with
neighbours whose AS number a database of measurements recommends for the pair of
AS numbers in question. Recommendations come in as FILTER packets and are cached;
an inquiry without one waits in a queue until a FILTER or the next update.

A handler takes the neighbour list of the moment. Clock readings and the outcomes of
`rand()` are arguments as well.
-/

namespace Cors

open ByteFormat

structure AsnPair where
  srcAsn : UInt16
  dstAsn : UInt16
  deriving DecidableEq

abbrev AsnSet := Finset UInt16

structure Entry where
  timestamp : Int32
  asnSet : AsnSet
  deriving DecidableEq

structure Task where
  timestamp : Timeval
  inquiry : CorsInquiry
  deriving DecidableEq

structure AdvanceRldvr where
  taskQueue : List Task
  asnCache : Table AsnPair Entry
  dbAddr : UInt32
  dbPort : UInt16

/-- The state once `initialize` has read the address of the database. -/
def AdvanceRldvr.new (dbAddr : UInt32) (dbPort : UInt16) : AdvanceRldvr where
  taskQueue := []
  asnCache := ∅
  dbAddr := dbAddr
  dbPort := dbPort

/-- The pair of AS numbers an inquiry is about. -/
def CorsInquiry.key (x : CorsInquiry) : AsnPair := ⟨x.source.asn, x.destination.asn⟩

def CorsAdvice.key (x : CorsAdvice) : AsnPair := ⟨x.source.asn, x.destination.asn⟩

/-- The neighbour as it is listed in an advice. -/
def Neighbor.endPoint (nb : Neighbor) : EndPoint := ⟨nb.asn, nb.port, nb.addr, nb.mask⟩

namespace AdvanceRldvr

/-- One `sendto`, by what is sent. -/
inductive Sent where
  | advice (client : SockaddrIn) (advice : CorsAdvice)
  | forward (proxy : SockaddrIn) (inquiry : CorsInquiry)
  | database (database : SockaddrIn) (bytes : Bytes)
  deriving DecidableEq

def Sent.datagram : Sent → Datagram
  | advice client x => ⟨client, x.serialize⟩
  | forward proxy x => ⟨proxy, x.serialize⟩
  | database dst bytes => ⟨dst, bytes⟩

def database (s : AdvanceRldvr) : SockaddrIn := ⟨s.dbPort, s.dbAddr⟩

/-- The loop that all three handlers run over the neighbours, from the back of the list:
    it collects those that pass a test and breaks when it has `limit` of them. -/
def collect (test : α → Bool) (limit : Nat) : Nat → List α → List α
  | _, [] => []
  | i, x :: xs =>
      if test x then
        x :: if i + 1 ≥ limit then [] else collect test limit (i + 1) xs
      else
        collect test limit i xs

/-- The neighbours whose AS number is in the set. -/
def matching (nl : List Neighbor) (asnSet : AsnSet) (limit : Nat) : List EndPoint :=
  (collect (fun nb : Neighbor => nb.asn ∈ asnSet) limit 0 nl.reverse).map Neighbor.endPoint

/-- The advice that lists `relays`, for the client that sent the inquiry. -/
def advise (inquiry : CorsInquiry) (relays : List EndPoint) : Sent :=
  .advice inquiry.source.sockaddr
    { CorsAdvice.new with source := inquiry.source, destination := inquiry.destination, relays }

/-- If more relays are required than were found, the inquiry is forwarded to the last
    neighbour for the others. The subtraction is one of bytes. -/
def passOn (nl : List Neighbor) (inquiry : CorsInquiry) (relays : List EndPoint) : List Sent :=
  if relays.length < inquiry.requiredRelays.toNat ∧ inquiry.ttl > 0 then
    nl.getLast?.toList.map fun lastNeighbor =>
      .forward lastNeighbor.sockaddr
        { inquiry with requiredRelays := inquiry.requiredRelays - UInt8.ofNat relays.length }
  else
    []

def processRlInquiry (s : AdvanceRldvr) (now : Timeval) (msg : Mem) (len : Nat)
    (nl : List Neighbor) : AdvanceRldvr × List Sent :=
  if nl.length = 0 then
    (s, [])
  else
    match parse CorsInquiry.deserialize msg len with
    | none => (s, [])
    | some inquiry =>
        if inquiry.requiredRelays = 0 then
          (s, [])
        else
          let inquiry := { inquiry with ttl := inquiry.ttl - 1 }
          match s.asnCache.lookup inquiry.key with
          | some entry =>
              let relays := matching nl entry.asnSet inquiry.requiredRelays.toNat
              -- a size is never negative, so the inquiry is never put back in the queue
              let (s, answered) :=
                if relays.length ≥ 0 then
                  (s, [advise inquiry relays])
                else
                  ({ s with
                      taskQueue := s.taskQueue ++ [⟨now, inquiry⟩]
                      asnCache := s.asnCache.erase inquiry.key }, [])
              (s, answered ++ passOn nl inquiry relays)
          | none =>
              ({ s with taskQueue := s.taskQueue ++ [⟨now, inquiry⟩] },
                [.database s.database (msg.read 0 len)])

def processRlReport (s : AdvanceRldvr) (msg : Mem) (len : Nat) : AdvanceRldvr × List Sent :=
  (s, [.database s.database (msg.read 0 len)])

def processRlFilter (s : AdvanceRldvr) (now : Int32) (msg : Mem) (len : Nat)
    (nl : List Neighbor) : AdvanceRldvr × List Sent :=
  if nl.length = 0 then
    (s, [])
  else
    match parse CorsAdvice.new.deserialize msg len with
    | none => (s, [])
    | some queryResult =>
        if queryResult.relays.length = 0 then
          (s, [])
        else
          let entry : Entry := ⟨now, (queryResult.relays.map EndPoint.asn).toFinset⟩
          let relays := matching nl entry.asnSet maxAdvicedRelays.toNat
          if relays.length = 0 then
            (s, [])
          else
            let key := queryResult.key
            ({ s with
                taskQueue := s.taskQueue.filter fun task => task.inquiry.key ≠ key
                asnCache := s.asnCache.insert key entry },
              (s.taskQueue.filter fun task => task.inquiry.key = key).flatMap fun task =>
                advise task.inquiry relays :: passOn nl task.inquiry relays)

/-! ## The update -/

def randMax : Nat := 2147483647

/-- `rnd <= ratio`, for an outcome of `rand()`. Two quotients of such numbers that differ
    are different as floating-point numbers too. -/
def drawn (nl : List Neighbor) (inquiry : CorsInquiry) (outcome : Nat) : Bool :=
  outcome * nl.length ≤ 2 * inquiry.requiredRelays.toNat * randMax

/-- A random selection of neighbours; `rand` is called once for each that is visited. -/
def randomly (nl : List Neighbor) (rand : Nat → Nat) (inquiry : CorsInquiry) : List EndPoint :=
  (collect (fun nb : Neighbor × Nat => drawn nl inquiry (rand nb.2)) maxAdvicedRelays.toNat 0
    nl.reverse.zipIdx).map fun nb => nb.1.endPoint

/-- What is sent for a task nobody answered. -/
def guess (nl : List Neighbor) (rand : Nat → Nat) (task : Task) : List Sent :=
  let relays := randomly nl rand task.inquiry
  if relays.length > 0 then [advise task.inquiry relays] else []

/-- The loop over the front of the queue; `rand` counts the tasks taken from it. -/
def popTasks (now : Int32) (rand : Nat → Nat → Nat) (nl : List Neighbor) :
    List Task → List Task × List Sent
  | [] => ([], [])
  | task :: tasks =>
      if task.timestamp.tvSec < now then
        let (left, sent) := popTasks now (fun i => rand (i + 1)) nl tasks
        (left, if nl.length = 0 then sent else guess nl (rand 0) task ++ sent)
      else
        (task :: tasks, [])

/-- The knowledge is older than two minutes. The sum is exact, which is that of `time_t` as long as
    the knowledge came in two minutes before the end of `time_t` or earlier. -/
def outdated (now : Int32) (entry : Entry) : Bool := entry.timestamp.toInt + 120 < now.toInt

def update (s : AdvanceRldvr) (now : Int32) (rand : Nat → Nat → Nat) (nl : List Neighbor) :
    AdvanceRldvr × List Sent :=
  let (taskQueue, sent) := popTasks now rand nl s.taskQueue
  ({ s with taskQueue, asnCache := s.asnCache.keep fun entry => !outdated now entry }, sent)

/-! ## Runs -/

/-- What can happen to an advisor, with all that a handler reads. -/
inductive Event where
  | rlInquiry (now : Timeval) (msg : Mem) (len : Nat) (nl : List Neighbor)
  | rlReport (msg : Mem) (len : Nat)
  | rlFilter (now : Int32) (msg : Mem) (len : Nat) (nl : List Neighbor)
  | update (now : Int32) (rand : Nat → Nat → Nat) (nl : List Neighbor)

def react (s : AdvanceRldvr) : Event → AdvanceRldvr × List Sent
  | .rlInquiry now msg len nl => s.processRlInquiry now msg len nl
  | .rlReport msg len => s.processRlReport msg len
  | .rlFilter now msg len nl => s.processRlFilter now msg len nl
  | .update now rand nl => s.update now rand nl

def step (s : AdvanceRldvr) (e : Event) : AdvanceRldvr := (s.react e).1

/-! ## What one operation does -/

/-- The neighbours at the moment of an event. -/
def Event.neighbors : Event → List Neighbor
  | .rlInquiry _ _ _ nl | .rlFilter _ _ _ nl | .update _ _ nl => nl
  | .rlReport _ _ => []

/-- The inquiry as it is answered, with one hop less than it was received with. -/
def hop (x : CorsInquiry) : CorsInquiry := { x with ttl := x.ttl - 1 }

/-- The inquiry an event brings in, unless it is ignored. -/
def received : Event → Option CorsInquiry
  | .rlInquiry _ msg len nl =>
      if nl.length = 0 then none
      else (parse CorsInquiry.deserialize msg len).filter fun x => x.requiredRelays ≠ 0
  | _ => none

/-- The AS numbers a query result recommends. -/
def recommended (x : CorsAdvice) : AsnSet := (x.relays.map EndPoint.asn).toFinset

/-- A query result with a relay that matches a neighbour. -/
def useful (nl : List Neighbor) (x : CorsAdvice) : Bool :=
  x.relays.length ≠ 0 ∧ (matching nl (recommended x) maxAdvicedRelays.toNat).length ≠ 0

/-- The knowledge an event brings in, unless it is ignored. -/
def learned : Event → Option (AsnPair × Entry)
  | .rlFilter now msg len nl =>
      if nl.length = 0 then none
      else
        ((parse CorsAdvice.new.deserialize msg len).filter (useful nl)).map fun x =>
          (x.key, ⟨now, recommended x⟩)
  | _ => none

/-- Both ways of answering an inquiry with relays that match. -/
def respond (nl : List Neighbor) (inquiry : CorsInquiry) (relays : List EndPoint) : List Sent :=
  advise inquiry relays :: passOn nl inquiry relays

theorem processRlInquiry_eq (s : AdvanceRldvr) (now : Timeval) (msg : Mem) (len : Nat)
    (nl : List Neighbor) :
    s.processRlInquiry now msg len nl =
      match received (.rlInquiry now msg len nl) with
      | none => (s, [])
      | some x =>
          match s.asnCache.lookup x.key with
          | some entry =>
              (s, respond nl (hop x) (matching nl entry.asnSet x.requiredRelays.toNat))
          | none =>
              ({ s with taskQueue := s.taskQueue ++ [⟨now, hop x⟩] },
                [.database s.database (msg.read 0 len)]) := by
  unfold processRlInquiry received
  by_cases alone : nl.length = 0
  · simp only [if_pos alone]
  · simp only [if_neg alone]
    cases parse CorsInquiry.deserialize msg len with
    | none => rfl
    | some x =>
        by_cases idle : x.requiredRelays = 0
        · have ignored : (some x).filter (fun x => x.requiredRelays ≠ 0) = none := by simp [idle]
          simp only [ignored, if_pos idle]
        · have taken : (some x).filter (fun x => x.requiredRelays ≠ 0) = some x := by simp [idle]
          have key : (hop x).key = x.key := rfl
          simp only [taken, if_neg idle]
          change (match s.asnCache.lookup (hop x).key with | some entry => _ | none => _) = _
          rw [key]
          cases s.asnCache.lookup x.key with
          | none => rfl
          | some entry => rfl

/-- The inquiries a FILTER for a pair of AS numbers answers. -/
def waiting (s : AdvanceRldvr) (key : AsnPair) : List Task :=
  s.taskQueue.filter fun task => task.inquiry.key = key

theorem processRlFilter_eq (s : AdvanceRldvr) (now : Int32) (msg : Mem) (len : Nat)
    (nl : List Neighbor) :
    s.processRlFilter now msg len nl =
      match learned (.rlFilter now msg len nl) with
      | none => (s, [])
      | some (key, entry) =>
          ({ s with
              taskQueue := s.taskQueue.filter fun task => task.inquiry.key ≠ key
              asnCache := s.asnCache.insert key entry },
            (s.waiting key).flatMap fun task =>
              respond nl task.inquiry (matching nl entry.asnSet maxAdvicedRelays.toNat)) := by
  unfold processRlFilter learned
  by_cases alone : nl.length = 0
  · simp only [if_pos alone]
  · simp only [if_neg alone]
    cases parse CorsAdvice.new.deserialize msg len with
    | none => rfl
    | some x =>
        by_cases empty : x.relays.length = 0
        · have ignored : useful nl x = false := decide_eq_false fun both => both.1 empty
          simp only [Option.filter_some, ignored, if_pos empty, Bool.false_eq_true, if_false,
            Option.map_none]
        · simp only [if_neg empty]
          by_cases useless : (matching nl (recommended x) maxAdvicedRelays.toNat).length = 0
          · have ignored : useful nl x = false := decide_eq_false fun both => both.2 useless
            rw [recommended] at useless
            simp only [Option.filter_some, ignored, if_pos useless, Bool.false_eq_true, if_false,
              Option.map_none]
          · have taken : useful nl x = true := decide_eq_true ⟨empty, useless⟩
            rw [recommended] at useless
            simp only [Option.filter_some, taken, if_neg useless, if_true, Option.map_some]
            rfl

/-! ## Sample events -/

/-- An inquiry for two relays, from a client in AS 10 to a destination in AS `dst`. -/
def sampleInquiry (port dst : UInt16) : CorsInquiry :=
  { CorsInquiry.new with
    ttl := 3
    requiredRelays := 2
    source := ⟨10, port, 1, 0⟩
    destination := ⟨dst, 9, 2, 0⟩ }

/-- Three neighbours, in AS 30, 40 and 50. -/
def sampleNeighbors : List Neighbor :=
  [(3, 30), (4, 40), (5, 50)].map fun nb =>
    { Neighbor.learned Neighbor.peer nb.1 7 0 with asn := nb.2 }

def sampleAsk (now : Int32) (port dst : UInt16) : Event :=
  let bytes := (sampleInquiry port dst).serialize
  .rlInquiry ⟨now, 0⟩ (Mem.padded bytes) bytes.length sampleNeighbors

/-- The database recommends AS 50 and AS 30 for the way to a destination in AS `dst`. -/
def sampleFilter (now : Int32) (dst : UInt16) : Event :=
  let bytes := CorsAdvice.serialize
    { CorsAdvice.new with
      type := .rlyFilter
      source := ⟨10, 0, 0, 0⟩
      destination := ⟨dst, 0, 0, 0⟩
      relays := [⟨50, 0, 0, 0⟩, ⟨30, 0, 0, 0⟩] }
  .rlFilter now (Mem.padded bytes) bytes.length sampleNeighbors

end AdvanceRldvr

end Cors
