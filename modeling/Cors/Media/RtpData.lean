import Cors.Lib.OrderedMap
import Cors.Protocol.Packets

/-! # Files of RTP data

`rtpreceiver.cpp` writes what it receives to a file, and `rtpsender.cpp` and `predecoder.cpp` read
such a file in one and the same loop. `fread` says how much it has read, but nobody asks.
-/

namespace Cors

namespace RtpData

open ByteFormat

def maxLen : Nat := 2048

/-- Both members are `MAX_TIME`. -/
def endMark : Timeval := ⟨-1, -1⟩

/-! ## Writing -/

def writeRtpData (ts : Timeval) (len : Int32) (pkt : Mem) : Bytes :=
  Timeval.format.encode ts ++ (i32.encode len ++ pkt.read 0 len.toUInt32.toNat)

/-! ## Reading -/

structure Event where
  ts : Timeval
  len : Int32
  pkt : Mem

/-- What a variable becomes of which the file holds only some bytes; the standard does not say. -/
structure Cut where
  ts : Timeval → Bytes → Timeval
  len : Int32 → Bytes → Int32

/-- `fread` of one element: it is not changed at the end of the file. -/
def freadOne (f : ByteFormat α) (cut : α → Bytes → α) (x : α) (file : Bytes) : α × Bytes :=
  if f.width ≤ file.length then
    (f.decode (file.take f.width), file.drop f.width)
  else
    (if file = [] then x else cut x file, [])

/-- The rest of the file, the event that is filled again and again, and what is stored. -/
structure Reader (σ : Type) where
  file : Bytes
  event : Event
  stored : σ

section Loop
variable {σ : Type} (cut : Cut) (store : σ → Event → σ)

def readTs (reader : Reader σ) : Reader σ :=
  let (ts, file) := freadOne Timeval.format cut.ts reader.event.ts reader.file
  { reader with file, event := { reader.event with ts } }

/-- The body of the loop, except where it writes behind `pkt`. -/
def readRecord (reader : Reader σ) : Option (Reader σ) :=
  let (len, file) := freadOne i32 cut.len reader.event.len reader.file
  let size := len.toUInt32.toNat
  if maxLen < (file.take size).length then
    none
  else
    let event := { reader.event with len, pkt := reader.event.pkt.write 0 (file.take size) }
    some (readTs cut { file := file.drop size, event, stored := store reader.stored event })

/-- So many rounds of the loop, none if it has not ended by then. -/
def readLoop : Nat → Reader σ → Option σ
  | 0, _ => none
  | n + 1, reader =>
      if reader.event.ts = endMark then
        some reader.stored
      else
        (readRecord cut store reader).bind (readLoop n)

/-- The loop ends with this stored; the event was not initialized. -/
def Reads (init : σ) (file : Bytes) (event : Event) (result : σ) : Prop :=
  ∃ n, readLoop cut store n (readTs cut ⟨file, event, init⟩) = some result

end Loop

/-- `rtpsender.cpp` -/
def pushBack (events : List Event) (event : Event) : List Event := events ++ [event]

def getSeq (pkt : Mem) (len : Int32) : Int :=
  if len ≤ 4 then -1 else (ntohs (pkt.get u16 2)).toNat

/-- `predecoder.cpp`: nothing is inserted where there is an event. -/
def insertSeq (events : OrderedMap Int Event) (event : Event) : OrderedMap Int Event :=
  match events.search (getSeq event.pkt event.len) with
  | some _ => events
  | none => events.insert (getSeq event.pkt event.len) event

end RtpData

end Cors
