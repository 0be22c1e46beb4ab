import Cors.Lib.Insertion
import Cors.Lib.Memory
import Cors.Lib.Run

/-! # The jitter buffer

`jitter.cpp`: frames are written as they come in and read in the order of their sequence
numbers. The order is that of the 16-bit numbers, so it is the order of the stream as long as all
frames that are there or come are of the same 65536.
-/

namespace Cors

/-! ## Frames -/

/-- `ptr_`: the bytes of an RTP packet and what is behind them. -/
structure RTPDataFrame where
  ptr : Mem

namespace RTPDataFrame

def getSequenceNumber (frame : RTPDataFrame) : UInt16 :=
  ((frame.ptr 2).toUInt16 <<< 8) + (frame.ptr 3).toUInt16

def getTimestamp (frame : RTPDataFrame) : UInt32 :=
  ((frame.ptr 4).toUInt32 <<< 24) + ((frame.ptr 5).toUInt32 <<< 16) +
    ((frame.ptr 6).toUInt32 <<< 8) + (frame.ptr 7).toUInt32

/-- A frame with a number and nothing else. -/
def numbered (n : Nat) : RTPDataFrame where
  ptr := fun pos => if pos = 2 then UInt8.ofNat (n / 256) else if pos = 3 then UInt8.ofNat n else 0

theorem numbered_toNat (n : Nat) : (numbered n).getSequenceNumber.toNat = n % 65536 := by
  have high : (numbered n).ptr 2 = UInt8.ofNat (n / 256) := rfl
  have low : (numbered n).ptr 3 = UInt8.ofNat n := rfl
  have shift : (8 : UInt16).toNat % 16 = 8 := rfl
  rw [getSequenceNumber, high, low, UInt16.toNat_add, UInt16.toNat_shiftLeft,
    UInt8.toNat_toUInt16, UInt8.toNat_toUInt16, UInt8.toNat_ofNat', UInt8.toNat_ofNat', shift,
    Nat.shiftLeft_eq]
  omega

end RTPDataFrame

def convertTimestamp (timestamp : UInt32) : UInt32 :=
  if timestamp = 0 then 0
  else if timestamp % 3000 = 0 then timestamp / 1000 - 2
  else timestamp / 1000 + 1

/-! ## The buffer -/

/-- What is in the buffer are frames, or whatever stands for frames. -/
structure JitterBuffer (α : Type) where
  buffer : List α
  recvPackets : Int32
  sequenceDeadline : UInt16
  timestampDeadline : UInt32

namespace JitterBuffer

def new : JitterBuffer α := ⟨[], 0, 0, 0⟩

section Operations
variable (frame : α → RTPDataFrame)

/-- What the comparisons of frames compare. -/
def sequenceOf (x : α) : Nat := (frame x).getSequenceNumber.toNat

/-- A too-late-to-enqueue frame. -/
def Late (jb : JitterBuffer α) (x : α) : Prop :=
  sequenceOf frame x < jb.sequenceDeadline.toNat ∨
    convertTimestamp (frame x).getTimestamp < jb.timestampDeadline

instance (jb : JitterBuffer α) (x : α) : Decidable (Late frame jb x) :=
  inferInstanceAs (Decidable (_ ∨ _))

/-- The second result tells whether `Write` returns 1. -/
def write (jb : JitterBuffer α) (x : α) : JitterBuffer α × Bool :=
  if jb.recvPackets = 0 then
    ({ jb with
       buffer := jb.buffer ++ [x]
       sequenceDeadline := (frame x).getSequenceNumber
       recvPackets := jb.recvPackets + 1 }, true)
  else if Late frame jb x then
    (jb, false)
  else
    match Insertion.insert (sequenceOf frame) x jb.buffer with
    | some buffer => ({ jb with buffer, recvPackets := jb.recvPackets + 1 }, true)
    | none => (jb, false)

/-- The frame that is returned, and `*finished`. -/
def read (jb : JitterBuffer α) (timestamp : UInt32) : JitterBuffer α × Option α × Bool :=
  match jb.buffer with
  | [] => (jb, none, true)
  | front :: buffer =>
      if timestamp < convertTimestamp (frame front).getTimestamp then
        (jb, none, true)
      else
        let sequenceDeadline := (frame front).getSequenceNumber + 1
        let finished := buffer.head?.all fun next =>
          timestamp < convertTimestamp (frame next).getTimestamp
        ({ jb with buffer, sequenceDeadline }, some front, finished)

/-- A frame is the first, or refused because it is late or there already, or put in its place. -/
theorem write_cases (jb : JitterBuffer α) (x : α) :
    jb.recvPackets = 0 ∧ jb.write frame x =
        ({ jb with
           buffer := jb.buffer ++ [x]
           sequenceDeadline := (frame x).getSequenceNumber
           recvPackets := jb.recvPackets + 1 }, true) ∨
      jb.recvPackets ≠ 0 ∧
        ((Late frame jb x ∨ Insertion.insert (sequenceOf frame) x jb.buffer = none) ∧
            jb.write frame x = (jb, false) ∨
          ∃ buffer, ¬Late frame jb x ∧
            Insertion.insert (sequenceOf frame) x jb.buffer = some buffer ∧
            jb.write frame x =
              ({ jb with buffer, recvPackets := jb.recvPackets + 1 }, true)) := by
  by_cases first : jb.recvPackets = 0
  · exact .inl ⟨first, by rw [write, if_pos first]⟩
  refine .inr ⟨first, ?_⟩
  by_cases late : Late frame jb x
  · exact .inl ⟨.inl late, by rw [write, if_neg first, if_pos late]⟩
  rw [write, if_neg first, if_neg late]
  cases Insertion.insert (sequenceOf frame) x jb.buffer with
  | none => exact .inl ⟨.inr rfl, rfl⟩
  | some buffer => exact .inr ⟨buffer, late, rfl, rfl⟩

theorem read_nil {jb : JitterBuffer α} (empty : jb.buffer = []) (timestamp : UInt32) :
    jb.read frame timestamp = (jb, none, true) := by
  rw [read, empty]

theorem read_cons {jb : JitterBuffer α} {front : α} {buffer : List α}
    (there : jb.buffer = front :: buffer) (timestamp : UInt32) :
    jb.read frame timestamp =
      if timestamp < convertTimestamp (frame front).getTimestamp then (jb, none, true)
      else ({ jb with buffer, sequenceDeadline := (frame front).getSequenceNumber + 1 }, some front,
        buffer.head?.all fun next => timestamp < convertTimestamp (frame next).getTimestamp) := by
  rw [read, there]

/-! ## Runs -/

inductive Event (α : Type) where
  | write (x : α)
  | read (timestamp : UInt32)

def step (jb : JitterBuffer α) : Event α → JitterBuffer α
  | .write x => (jb.write frame x).1
  | .read timestamp => (jb.read frame timestamp).1

/-- What is accepted in a step. -/
def accepts : JitterBuffer α × Event α → Option α
  | (jb, .write x) => if (jb.write frame x).2 then some x else none
  | (_, .read _) => none

/-- What is returned in a step. -/
def plays : JitterBuffer α × Event α → Option α
  | (_, .write _) => none
  | (jb, .read timestamp) => (jb.read frame timestamp).2.1

def accepted (es : List (Event α)) : List α :=
  Run.trace (step frame) (accepts frame) new es

def played (es : List (Event α)) : List α :=
  Run.trace (step frame) (plays frame) new es

/-- The buffer after some events. -/
def after (es : List (Event α)) : JitterBuffer α := Run.final (step frame) new es

theorem accepted_concat (es : List (Event α)) (e : Event α) :
    accepted frame (es ++ [e]) = accepted frame es ++ (accepts frame (after frame es, e)).toList :=
  Run.trace_concat _ _ _ es e

theorem played_concat (es : List (Event α)) (e : Event α) :
    played frame (es ++ [e]) = played frame es ++ (plays frame (after frame es, e)).toList :=
  Run.trace_concat _ _ _ es e

theorem after_concat (es : List (Event α)) (e : Event α) :
    after frame (es ++ [e]) = step frame (after frame es) e := by
  rw [after, Run.final_append]
  rfl

end Operations

/-- What was accepted was returned or is there, once. -/
theorem conserved (frame : α → RTPDataFrame) (es : List (Event α)) :
    (accepted frame es).Perm (played frame es ++ (after frame es).buffer) := by
  induction es using List.reverseRecOn with
  | nil => exact .nil
  | append_singleton es e ih =>
      rw [accepted_concat, played_concat, after_concat]
      cases e with
      | write x =>
          have none_ : plays frame (after frame es, .write x) = none := rfl
          rw [none_, Option.toList_none, List.append_nil, step, accepts]
          obtain ⟨-, same⟩ | ⟨-, ⟨-, same⟩ | ⟨buffer, -, inserted, same⟩⟩ :=
            write_cases frame (after frame es) x
          · rw [same, if_pos rfl, Option.toList_some, ← List.append_assoc]
            exact ih.append_right [x]
          · rw [same, if_neg Bool.false_ne_true, Option.toList_none, List.append_nil]
            exact ih
          · rw [same, if_pos rfl, Option.toList_some]
            calc (accepted frame es ++ [x])
              List.Perm _ (x :: (played frame es ++ (after frame es).buffer)) :=
                (List.perm_append_singleton x _).trans (ih.cons x)
              List.Perm _ (played frame es ++ x :: (after frame es).buffer) := List.perm_middle.symm
              List.Perm _ (played frame es ++ buffer) :=
                (Insertion.perm_insert inserted).symm.append_left _
      | read timestamp =>
          have none_ : accepts frame (after frame es, .read timestamp) = none := rfl
          rw [none_, Option.toList_none, List.append_nil, step, plays]
          cases there : (after frame es).buffer with
          | nil =>
              rw [read_nil frame there, Option.toList_none, List.append_nil, there]
              exact there ▸ ih
          | cons front buffer =>
              rw [read_cons frame there]
              by_cases early : timestamp < convertTimestamp (frame front).getTimestamp
              · rw [if_pos early, Option.toList_none, List.append_nil]
                exact ih
              · rw [if_neg early, Option.toList_some, List.append_assoc, List.singleton_append]
                exact there ▸ ih

/-! ## What stands for frames -/

section Standing
variable (frame : β → RTPDataFrame) (f : α → β)

protected def map (jb : JitterBuffer α) : JitterBuffer β := { jb with buffer := jb.buffer.map f }

protected def Event.map : Event α → Event β
  | .write x => .write (f x)
  | .read timestamp => .read timestamp

theorem write_map (jb : JitterBuffer α) (x : α) :
    (jb.map f).write frame (f x) =
      ((jb.write (fun x => frame (f x)) x).1.map f, (jb.write (fun x => frame (f x)) x).2) := by
  unfold write
  by_cases first : jb.recvPackets = 0
  · simp [JitterBuffer.map, first]
  have other : ¬(jb.map f).recvPackets = 0 := first
  by_cases late : Late (fun x => frame (f x)) jb x
  · have moved : Late frame (jb.map f) (f x) := late
    rw [if_neg other, if_pos moved, if_neg first, if_pos late]
  · have punctual : ¬Late frame (jb.map f) (f x) := late
    rw [if_neg other, if_neg punctual, if_neg first, if_neg late]
    have moved : Insertion.insert (sequenceOf frame) (f x) (jb.map f).buffer =
        (Insertion.insert (sequenceOf fun x => frame (f x)) x jb.buffer).map (List.map f) :=
      Insertion.insert_map f x jb.buffer
    rw [moved]
    cases Insertion.insert (sequenceOf fun x => frame (f x)) x jb.buffer with
    | none => rfl
    | some buffer => rfl

theorem read_map (jb : JitterBuffer α) (timestamp : UInt32) :
    (jb.map f).read frame timestamp =
      ((jb.read (fun x => frame (f x)) timestamp).1.map f,
        (jb.read (fun x => frame (f x)) timestamp).2.1.map f,
        (jb.read (fun x => frame (f x)) timestamp).2.2) := by
  cases there : jb.buffer with
  | nil =>
      have empty : (jb.map f).buffer = [] := congrArg (List.map f) there
      rw [read_nil frame empty, read_nil _ there]
      rfl
  | cons front buffer =>
      have moved : (jb.map f).buffer = f front :: buffer.map f := congrArg (List.map f) there
      rw [read_cons frame moved, read_cons _ there]
      by_cases early : timestamp < convertTimestamp (frame (f front)).getTimestamp
      · rw [if_pos early, if_pos early]
        rfl
      · rw [if_neg early, if_neg early, List.head?_map, Option.all_map]
        rfl

theorem step_map (jb : JitterBuffer α) (e : Event α) :
    (jb.map f).step frame (e.map f) = (jb.step (fun x => frame (f x)) e).map f := by
  cases e with
  | write x => exact congrArg Prod.fst (write_map frame f jb x)
  | read timestamp => exact congrArg Prod.fst (read_map frame f jb timestamp)

theorem plays_map (jb : JitterBuffer α) (e : Event α) :
    plays frame (jb.map f, e.map f) = (plays (fun x => frame (f x)) (jb, e)).map f := by
  cases e with
  | write x => rfl
  | read timestamp => exact congrArg (fun r => r.2.1) (read_map frame f jb timestamp)

theorem after_map (es : List (Event α)) :
    after frame (es.map (Event.map f)) = (after (fun x => frame (f x)) es).map f := by
  induction es using List.reverseRecOn with
  | nil => rfl
  | append_singleton es e ih =>
      rw [List.map_append, List.map_singleton, after_concat, after_concat, ih, step_map]

theorem played_map (es : List (Event α)) :
    played frame (es.map (Event.map f)) = (played (fun x => frame (f x)) es).map f := by
  induction es using List.reverseRecOn with
  | nil => rfl
  | append_singleton es e ih =>
      rw [List.map_append, List.map_singleton, played_concat, played_concat, ih, after_map,
        plays_map, List.map_append, Option.toList_map]

end Standing

end JitterBuffer

end Cors
