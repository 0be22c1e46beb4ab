import Cors.Lib.OrderedMap
import Cors.Media.JitterBuffer

/-! # The jitter buffer of two paths

`jitter2.cpp`: direct frames go into the buffer, indirect ones into a map by their numbers, the
bench. A read returns the one with the smallest number of both, once the buffer is ahead of it by
a minimal time, and what it finds on the bench in front of the buffer it moves there.
-/

namespace Cors

/-- `JitterBuffer` of `jitter2.h`. The keys of the bench are the 16-bit numbers. -/
structure TwoPathBuffer where
  buffer : List RTPDataFrame
  bench : OrderedMap Nat RTPDataFrame
  recvPackets : Int32
  sequenceDeadline : UInt16
  timestampDeadline : UInt32
  minLength : Int32

namespace TwoPathBuffer

def number (frame : RTPDataFrame) : Nat := frame.getSequenceNumber.toNat

def timeOf (frame : RTPDataFrame) : UInt32 := convertTimestamp frame.getTimestamp

def new (minLength : Int32) : TwoPathBuffer := ⟨[], .empty, 0, 0, 0, minLength⟩

/-- The scan from the back: a frame whose number is there is not put in again. -/
def enqueue (jb : TwoPathBuffer) (frame : RTPDataFrame) : TwoPathBuffer × Bool :=
  match Insertion.insert number frame jb.buffer with
  | some buffer => ({ jb with buffer, recvPackets := jb.recvPackets + 1 }, true)
  | none => (jb, false)

/-- `bench_.insert`, which leaves alone what is there. -/
def addToBench (jb : TwoPathBuffer) (frame : RTPDataFrame) : TwoPathBuffer :=
  match jb.bench.search (number frame) with
  | some _ => jb
  | none => { jb with bench := jb.bench.insert (number frame) frame }

/-- The second result tells whether `Write` returns 1. -/
def write (jb : TwoPathBuffer) (frame : RTPDataFrame) (path : Int32) : TwoPathBuffer × Bool :=
  if path ≠ 0 then
    if number frame < jb.sequenceDeadline.toNat then (jb, false)
    else (jb.addToBench frame, true)
  else if jb.recvPackets = 0 then
    ({ jb with
       buffer := jb.buffer ++ [frame]
       sequenceDeadline := frame.getSequenceNumber
       recvPackets := jb.recvPackets + 1 }, true)
  else if number frame < jb.sequenceDeadline.toNat ∨ timeOf frame < jb.timestampDeadline then
    (jb, false)
  else
    jb.enqueue frame

/-- The loop over the entries of the bench. -/
def settle (jb : TwoPathBuffer) : List (Nat × RTPDataFrame) → TwoPathBuffer
  | [] => jb
  | (_, frame) :: entries =>
      if jb.sequenceDeadline.toNat ≤ number frame then settle (jb.enqueue frame).1 entries
      else settle jb entries

/-- What a read at the largest time does first: all that is on the bench goes into the buffer. -/
def clear (jb : TwoPathBuffer) : TwoPathBuffer :=
  { jb.settle jb.bench.entries with bench := .empty }

/-- At most `n` rounds of the loop over the numbers from `i` on. -/
def seekFor (bench : OrderedMap Nat RTPDataFrame) : Nat → Nat → Nat × Option RTPDataFrame
  | 0, i => (i, none)
  | n + 1, i =>
      match bench.search i with
      | some frame => (i, some frame)
      | none => seekFor bench n (i + 1)

/-- The loop in front of `stop`: where it ends, and what is on the bench there if it ends before. -/
def seek (bench : OrderedMap Nat RTPDataFrame) (stop i : Nat) : Nat × Option RTPDataFrame :=
  seekFor bench (stop - i) i

def clearing : UInt32 := 0xffffffff

/-- A frame is to be played if the end of the buffer is far enough behind it. -/
def due (jb : TwoPathBuffer) (timestamp last : UInt32) (frame : RTPDataFrame) : Bool :=
  timestamp = clearing || timeOf frame + jb.minLength.toUInt32 ≤ last

/-- After a frame is taken: `*finished`, and the next one is moved to the buffer if it is on the
    bench. -/
def prepare (jb : TwoPathBuffer) (timestamp last : UInt32) : TwoPathBuffer × Bool :=
  match jb.buffer with
  | [] => (jb, true)
  | front :: _ =>
      match seek jb.bench (number front) jb.sequenceDeadline.toNat with
      | (i, none) => ({ jb with bench := jb.bench.remove i }, !jb.due timestamp last front)
      | (i, some frame) =>
          ({ jb with
             buffer := frame :: jb.buffer
             recvPackets := jb.recvPackets + 1
             bench := jb.bench.remove i }, !jb.due timestamp last frame)

/-- The frame that is taken next, if there is one and it is time for it. -/
def take (jb : TwoPathBuffer) (timestamp last : UInt32) (front : RTPDataFrame)
    (buffer : List RTPDataFrame) : TwoPathBuffer × Option RTPDataFrame :=
  if front.getSequenceNumber = jb.sequenceDeadline then
    let jb := { jb with bench := jb.bench.remove (number front) }
    if jb.due timestamp last front then
      ({ jb with sequenceDeadline := front.getSequenceNumber + 1, buffer }, some front)
    else (jb, none)
  else
    match jb.bench.search jb.sequenceDeadline.toNat with
    | some frame =>
        -- expected packet in bench
        if jb.due timestamp last frame then
          ({ jb with
             recvPackets := jb.recvPackets + 1
             sequenceDeadline := frame.getSequenceNumber + 1
             bench := jb.bench.remove jb.sequenceDeadline.toNat }, some frame)
        else (jb, none)
    | none =>
        -- expected packet is lost
        match seek jb.bench (number front) (jb.sequenceDeadline + 1).toNat with
        | (i, none) =>
            let jb := { jb with bench := jb.bench.remove i }
            if jb.due timestamp last front then
              ({ jb with sequenceDeadline := UInt16.ofNat i + 1, buffer }, some front)
            else (jb, none)
        | (i, some frame) =>
            if jb.due timestamp last frame then
              ({ jb with
                 sequenceDeadline := UInt16.ofNat i + 1
                 bench := jb.bench.remove i }, some frame)
            else (jb, none)

/-- The frame that is returned, and `*finished`. -/
def read (jb : TwoPathBuffer) (timestamp : UInt32) :
    TwoPathBuffer × Option RTPDataFrame × Bool :=
  let jb := if timestamp = clearing then jb.clear else jb
  match jb.buffer with
  | [] => (jb, none, true)
  | front :: buffer =>
      let last := timeOf (buffer.getLastD front)
      match jb.take timestamp last front buffer with
      | (jb, none) => (jb, none, true)
      | (jb, some frame) =>
          let (jb, finished) := jb.prepare timestamp last
          (jb, some frame, finished)

/-! ## Runs -/

inductive Event where
  | write (frame : RTPDataFrame) (path : Int32)
  | read (timestamp : UInt32)

def step (jb : TwoPathBuffer) : Event → TwoPathBuffer
  | .write frame path => (jb.write frame path).1
  | .read timestamp => (jb.read timestamp).1

/-- What is accepted in a step. -/
def accepts : TwoPathBuffer × Event → Option RTPDataFrame
  | (jb, .write frame path) => if (jb.write frame path).2 then some frame else none
  | (_, .read _) => none

/-- What is returned in a step. -/
def plays : TwoPathBuffer × Event → Option RTPDataFrame
  | (_, .write _ _) => none
  | (jb, .read timestamp) => (jb.read timestamp).2.1

section Traces
variable (minLength : Int32)

def accepted (es : List Event) : List RTPDataFrame := Run.trace step accepts (new minLength) es

def played (es : List Event) : List RTPDataFrame := Run.trace step plays (new minLength) es

/-- The buffer after some events. -/
def after (es : List Event) : TwoPathBuffer := Run.final step (new minLength) es

theorem accepted_concat (es : List Event) (e : Event) : accepted minLength (es ++ [e]) =
    accepted minLength es ++ (accepts (after minLength es, e)).toList :=
  Run.trace_concat _ _ _ es e

theorem played_concat (es : List Event) (e : Event) : played minLength (es ++ [e]) =
    played minLength es ++ (plays (after minLength es, e)).toList :=
  Run.trace_concat _ _ _ es e

theorem after_concat (es : List Event) (e : Event) :
    after minLength (es ++ [e]) = step (after minLength es) e := by
  rw [after, Run.final_append]
  rfl

theorem written_of_accepted {es : List Event} {f : RTPDataFrame}
    (member : f ∈ accepted minLength es) : ∃ path, .write f path ∈ es := by
  obtain ⟨⟨jb, e⟩, visited, seen⟩ := List.mem_filterMap.mp member
  have there := Run.event_of_visit visited
  cases e with
  | write frame path =>
      rw [accepts] at seen
      split at seen
      · obtain rfl := Option.some.inj seen
        exact ⟨path, there⟩
      · cases seen
  | read timestamp => cases seen

end Traces

end TwoPathBuffer

end Cors
