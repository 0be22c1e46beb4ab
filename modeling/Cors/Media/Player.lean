import Cors.Lib.Memory

/-! # The player

`myplayer.c`: what comes in is parsed into blocks, and the blocks of one picture, which have the
same timestamp, are joined with a start code in front of each. All lengths and offsets are `int`s.
-/

namespace Cors

/-- `block_t`. The size is an `int` and tells the length of the data. -/
structure Block where
  data : Bytes
  mark : Int32
  seq : Int32
  ts : Int32
  short : data.length < 2147483648

namespace Block

def size (block : Block) : Int32 := Int32.ofNat block.data.length

theorem size_toInt (block : Block) : block.size.toInt = block.data.length := by
  rw [size, Int32.toInt_ofNat_of_lt block.short]

end Block

/-! ## Parsing -/

def rtpHeaderLen : Nat := 12

/-- The block, and one past the last position that is read. -/
def parseRTP (rawdata : Mem) (rawlen : Int32) : Option Block × Nat :=
  if rawlen.toInt < rtpHeaderLen then
    (none, 0)
  else
    let csrcCount := (rawdata 0 &&& 0x0F).toNat
    let extensionFlag := rawdata 0 &&& 0x10
    let mark := rawdata 1 &&& 0x80
    let sequenceNumber := ((rawdata 2).toUInt16 <<< 8) + (rawdata 3).toUInt16
    let timestamp := ((rawdata 4).toUInt32 <<< 24) + ((rawdata 5).toUInt32 <<< 16) +
      ((rawdata 6).toUInt32 <<< 8) + (rawdata 7).toUInt32
    let extensionLength :=
      if extensionFlag ≠ 0 then 4 + 4 * ((rawdata 14).toNat * 256 + (rawdata 15).toNat) else 0
    let headerEnd := if extensionFlag ≠ 0 then 16 else 8
    let skip := rtpHeaderLen + 4 * csrcCount + extensionLength
    if rawlen.toInt ≤ skip then
      (none, headerEnd)
    else
      (some {
        data := rawdata.read skip (rawlen.toInt.toNat - skip)
        mark := Int32.ofNat mark.toNat
        seq := Int32.ofNat sequenceNumber.toNat
        ts := timestamp.toInt32
        short := by
          have bound := rawlen.toInt_lt
          rw [Mem.read_length]
          omega }, max headerEnd rawlen.toInt.toNat)

/-! ## Joining -/

/-- What is allocated, by positions from its start: nothing where nothing was written yet. -/
abbrev Store := Int → Option UInt8

namespace Store

def empty : Store := fun _ => none

/-- `memcpy(data + pos, l, |l|)`. -/
def write (store : Store) (pos : Int) (l : Bytes) : Store := fun p =>
  if pos ≤ p then (l[(p - pos).toNat]?).or (store p) else store p

end Store

/-- A joined block. -/
structure Joined where
  allocated : Int32
  size : Int32
  ts : Int32
  data : Store

/-- The blocks from `first` to `last`, and `size_in_queue`. -/
structure BlockQueue where
  blocks : List Block
  sizeInQueue : Int32

namespace BlockQueue

def empty : BlockQueue := ⟨[], 0⟩

/-- A start code and the data. -/
def room (block : Block) : Int32 := if block.mark ≠ 0 then 4 + block.size else 3 + block.size

/-- The loop over the queue, from an offset on. -/
def drain (data : Store) (offset : Int32) : List Block → Store
  | [] => data
  | block :: blocks =>
      if block.mark ≠ 0 then
        let data := data.write offset.toInt [0, 0, 0]
        let data := data.write (offset + 3).toInt [1]
        let data := data.write (offset + 4).toInt block.data
        drain data (offset + (4 + block.size)) blocks
      else
        let data := data.write offset.toInt [0, 0]
        let data := data.write (offset + 2).toInt [1]
        let data := data.write (offset + 3).toInt block.data
        drain data (offset + (3 + block.size)) blocks

/-- `*finished` is set if a block is returned. -/
def joinRTP (queue : BlockQueue) (block : Option Block) : BlockQueue × Option Joined :=
  match queue.blocks.getLast?, block with
  | none, none => (queue, none)
  | none, some block => (⟨[block], room block⟩, none)
  | some last, block =>
      match block.filter (·.ts = last.ts) with
      | some block => (⟨queue.blocks ++ [block], queue.sizeInQueue + room block⟩, none)
      | none =>
          let joined : Joined := {
            allocated := queue.sizeInQueue
            size := queue.sizeInQueue
            ts := last.ts
            data := drain .empty 0 queue.blocks }
          match block with
          | some block => (⟨[block], room block⟩, some joined)
          | none => (⟨[], queue.sizeInQueue⟩, some joined)

/-- All blocks are fed one by one, and then the queue is flushed. -/
def feed (queue : BlockQueue) : List Block → BlockQueue × List Joined
  | [] =>
      let (queue, joined) := queue.joinRTP none
      (queue, joined.toList)
  | block :: blocks =>
      let (queue, joined) := queue.joinRTP (some block)
      let (queue, later) := feed queue blocks
      (queue, joined.toList ++ later)

end BlockQueue

end Cors
