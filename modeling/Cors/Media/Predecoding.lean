import Cors.Media.JitterBuffer
import Cors.Media.Recording

/-! # Predecoding

`predecoder.cpp` brings a recording into the order of the sequence numbers and leaves out what
comes twice. The stamps stay with their packets, so the result is replayed only if the packets came
in order. `streamdump.cpp` writes a file of that kind itself, with all stamps zero.
-/

namespace Cors

namespace RtpData

open ByteFormat

/-! ## `predecoder.cpp` -/

/-- `WriteRtpData` of the map. -/
def writeEvents (events : OrderedMap Int Event) : Bytes :=
  events.entries.flatMap (fun e => writeRtpData e.2.ts e.2.len e.2.pkt) ++
    Timeval.format.encode endMark

/-- `main`: the file is read to its end, whatever was left open, and written anew. -/
def Predecodes (input output : Bytes) : Prop :=
  ∀ cut event, ∃ events, Reads cut insertSeq .empty input event events ∧
    writeEvents events = output

/-- The number of a record; all that are too short have one. -/
def Record.seq (record : Record) : Int := getSeq (Mem.padded record.pkt) record.len

/-- Of the records with one number the first, in the order of the numbers. -/
def predecoded (records : List Record) : OrderedMap Int Record :=
  OrderedMap.firsts Record.seq records

theorem len_of_holds {record : Record} {event : Event} (holds : record.Holds event) :
    event.len = record.len := by
  rw [← Int32.toInt_inj, holds.len]
  exact (Record.holds_fill event record).len.symm

theorem written_of_holds {record : Record} {event : Event} (holds : record.Holds event) :
    writeRtpData event.ts event.len event.pkt = record.written := by
  have body : event.pkt.read 0 record.pkt.length = record.pkt := holds.pkt
  rw [record.written_eq, writeRtpData, len_of_holds holds, record.len_toNat, body, holds.ts]

/-- The number does not depend on what is behind the packet. -/
theorem seq_of_holds {record : Record} {event : Event} (holds : record.Holds event) :
    getSeq event.pkt event.len = record.seq := by
  rw [Record.seq, getSeq, getSeq, len_of_holds holds]
  by_cases short : record.len ≤ 4
  · rw [if_pos short, if_pos short]
  · have four : (4 : Int32).toInt = 4 := rfl
    have long := Int32.lt_iff_toInt_lt.mp (Int32.not_le.mp short)
    rw [four, ← len_of_holds holds, holds.len] at long
    have here : event.pkt.read 0 record.pkt.length = record.pkt := holds.pkt
    have there : (Mem.padded record.pkt).read 0 record.pkt.length = record.pkt :=
      Mem.receive_holds _ _
    have agree : Mem.Agree record.pkt.length event.pkt (Mem.padded record.pkt) := fun i inside => by
      simpa only [Nat.zero_add] using Mem.eq_of_read_eq (here.trans there.symm) inside
    rw [if_neg short, if_neg short, agree.get u16 (by rw [u16_width]; omega)]

theorem insertSeq_eq (events : OrderedMap Int Event) (event : Event) :
    insertSeq events event = events.offer (getSeq event.pkt event.len) event := by
  rw [insertSeq, OrderedMap.offer]
  cases events.search (getSeq event.pkt event.len) with
  | none => rfl
  | some _ => rfl

theorem related_of_holds {records : List Record} {events : List Event}
    (holds : List.Forall₂ Record.Holds records events) {m : OrderedMap Int Record}
    {m' : OrderedMap Int Event} (related : OrderedMap.Related Record.Holds m m') :
    OrderedMap.Related Record.Holds (m.offers Record.seq records) (events.foldl insertSeq m') := by
  induction holds generalizing m m' with
  | nil => exact related
  | @cons record event _ _ own _ ih =>
      have step : OrderedMap.Related Record.Holds (m.offer record.seq record)
          (insertSeq m' event) := by
        rw [insertSeq_eq, seq_of_holds own]
        exact related.offer record.seq own
      exact ih step

theorem writeEvents_of_related {m : OrderedMap Int Record} {m' : OrderedMap Int Event}
    (related : OrderedMap.Related Record.Holds m m') :
    writeEvents m' = dump (m.entries.map Prod.snd) := by
  rw [writeEvents, dump]
  congr 1
  obtain ⟨entries, ascending⟩ := m
  obtain ⟨entries', ascending'⟩ := m'
  dsimp only [OrderedMap.Related] at related ⊢
  clear ascending ascending'
  induction related with
  | nil => rfl
  | cons own _ ih =>
      rw [List.flatMap_cons, List.map_cons, List.flatMap_cons, written_of_holds own.2, ih]

theorem predecodes_dump (records : List Record) (rest : Bytes) :
    Predecodes (dump records ++ rest) (dump (predecoded records).values) := by
  intro cut event
  have loop := readLoop_dump cut insertSeq records rest event .empty
  refine ⟨_, ⟨_, loop⟩, ?_⟩
  exact writeEvents_of_related (related_of_holds (Record.holds_events event records) .nil)

theorem predecodes_of_ascending {records : List Record}
    (ascending : records.Pairwise fun a b => a.seq < b.seq) :
    Predecodes (dump records) (dump records) := by
  have written := predecodes_dump records []
  rwa [List.append_nil, predecoded, OrderedMap.values_of_ascending _ ascending] at written

/-- A recording is predecoded into one with the first packet of each number, in the order of the
    numbers, and predecoding that again changes nothing. -/
theorem predecoding_orders (records : List Record) (rest : Bytes) :
    ∃ chosen : List Record, Predecodes (dump records ++ rest) (dump chosen) ∧
      chosen.Pairwise (fun a b => a.seq < b.seq) ∧
      (∀ k, chosen.find? (fun record => record.seq = k) =
        records.find? fun record => record.seq = k) ∧
      Predecodes (dump chosen) (dump chosen) := by
  have ascending := OrderedMap.values_ascending Record.seq records
  exact ⟨_, predecodes_dump records rest, ascending, OrderedMap.find?_values _ _,
    predecodes_of_ascending ascending⟩

theorem chosen_of_mem {records : List Record} {x : Record} (member : x ∈ records) :
    ∃ y ∈ (predecoded records).values, y.seq = x.seq := by
  have found := OrderedMap.find?_values Record.seq records x.seq
  have there : (records.find? fun record => record.seq = x.seq).isSome := by
    rw [List.find?_isSome]
    exact ⟨x, member, by simp⟩
  rw [← found] at there
  obtain ⟨y, same⟩ := Option.isSome_iff_exists.mp there
  exact ⟨y, List.mem_of_find?_eq_some same, by simpa using List.find?_some same⟩

theorem chosen_nil_iff (records : List Record) :
    (predecoded records).values = [] ↔ records = [] := by
  constructor
  · intro none_
    refine List.eq_nil_iff_forall_not_mem.mpr fun x member => ?_
    obtain ⟨y, inside, -⟩ := chosen_of_mem member
    rw [none_] at inside
    cases inside
  · rintro rfl
    rfl

theorem two_chosen_iff (records : List Record) :
    2 ≤ (predecoded records).values.length ↔
      ∃ a ∈ records, ∃ b ∈ records, a.seq ≠ b.seq := by
  have ascending := OrderedMap.values_ascending Record.seq records
  constructor
  · intro two
    obtain ⟨a, b, rest, found⟩ : ∃ a b rest, (predecoded records).values = a :: b :: rest := by
      match found : (predecoded records).values with
      | [] | [_] => simp [found] at two
      | a :: b :: rest => exact ⟨a, b, rest, rfl⟩
    have inside {x : Record} (member : x ∈ a :: b :: rest) : x ∈ records :=
      OrderedMap.mem_of_values Record.seq _ (found ▸ member)
    rw [← predecoded, found] at ascending
    have less := (List.pairwise_cons.mp ascending).1 b List.mem_cons_self
    exact ⟨a, inside List.mem_cons_self, b, inside (List.mem_cons_of_mem _ List.mem_cons_self),
      Int.ne_of_lt less⟩
  · rintro ⟨a, first, b, second, other⟩
    obtain ⟨x, inside, same⟩ := chosen_of_mem first
    obtain ⟨y, inside', same'⟩ := chosen_of_mem second
    by_contra short
    have apart : x ≠ y := by
      rintro rfl
      exact other (same.symm.trans same')
    match found : (predecoded records).values with
    | [] => simp [found] at inside
    | [z] =>
        rw [found, List.mem_singleton] at inside inside'
        exact apart (inside.trans inside'.symm)
    | _ :: _ :: rest => simp [found] at short

theorem chosen_ordered_iff (records : List Record) :
    ((predecoded records).values.Pairwise fun a b => a.ts.micros ≤ b.ts.micros) ↔
      ¬∃ k k' a b, k < k' ∧ records.find? (fun record => record.seq = k) = some a ∧
        records.find? (fun record => record.seq = k') = some b ∧ b.ts.micros < a.ts.micros := by
  have ordered_iff := OrderedMap.pairwise_iff (m := predecoded records)
    (R := fun e f => e.2.ts.micros ≤ f.2.ts.micros)
  simp only [predecoded, OrderedMap.search_firsts] at ordered_iff
  rw [OrderedMap.values, List.pairwise_map, predecoded, ordered_iff]
  constructor
  · rintro all ⟨k, k', a, b, less, first, second, back⟩
    exact Int.not_le.mpr back (all k k' a b less first second)
  · intro none_ k k' a b less first second
    by_contra back
    exact none_ ⟨k, k', a, b, less, first, second, Int.not_le.mp back⟩

/-- The sender does not get through a predecoded recording that is empty, or that has two numbers of
    which the larger one came first. Otherwise all that it sleeps is defined if there are two. -/
theorem predecoded_refused_iff {records : List Record}
    (read : ∀ record ∈ records, record.ts.Read) (cut : Cut) (event : Event) :
    let back := ∃ k k' a b, k < k' ∧ records.find? (fun record => record.seq = k) = some a ∧
      records.find? (fun record => record.seq = k') = some b ∧ b.ts.micros < a.ts.micros
    ∃ output events, Predecodes (dump records) output ∧
      Reads cut pushBack [] output event events ∧
      (∀ uninitialized, withDeltas uninitialized events = none ↔ records = [] ∨ back) ∧
      ((∃ spaced, Replayable events spaced) ↔
        (∃ a ∈ records, ∃ b ∈ records, a.seq ≠ b.seq) ∧ ¬back) := by
  intro back
  let chosen := (predecoded records).values
  have chosenRead : ∀ record ∈ chosen, record.ts.Read := fun record member =>
    read record (OrderedMap.mem_of_values _ _ member)
  have ordered : (chosen.Pairwise fun a b => a.ts.micros ≤ b.ts.micros) ↔ ¬back :=
    chosen_ordered_iff records
  have empty : chosen = [] ↔ records = [] := chosen_nil_iff records
  obtain ⟨events, reads, holds, normal⟩ := reads_dump chosenRead cut event
  have written := predecodes_dump records []
  rw [List.append_nil] at written
  refine ⟨_, events, written, reads, fun uninitialized => ?_, ?_⟩
  · rw [withDeltas_none_iff holds normal, ordered, empty, not_not]
  · rw [replayable_iff holds normal, ordered, two_chosen_iff]

/-- The first packet has the larger number, and the other way round. -/
theorem predecoded_refused_iff_sample :
    (∃ output events, Predecodes (dump sampleRecords) output ∧
      Reads zeroCut pushBack [] output ⟨⟨0, 0⟩, 0, fun _ => 0⟩ events ∧
      withDeltas ⟨0, 0⟩ events = none) ∧
    ∃ output events spaced, Predecodes (dump sampleRecords.reverse) output ∧
      Reads zeroCut pushBack [] output ⟨⟨0, 0⟩, 0, fun _ => 0⟩ events ∧
      Replayable events spaced := by
  constructor
  · obtain ⟨output, events, written, reads, refused, -⟩ :=
      predecoded_refused_iff sampleRecords_read zeroCut ⟨⟨0, 0⟩, 0, fun _ => 0⟩
    refine ⟨output, events, written, reads, (refused _).mpr (.inr ?_)⟩
    exact ⟨1, 2, _, _, by decide, rfl, rfl, by decide⟩
  · have read : ∀ record ∈ sampleRecords.reverse, record.ts.Read := by
      simpa only [List.mem_reverse] using sampleRecords_read
    obtain ⟨output, events, written, reads, -, replayable⟩ :=
      predecoded_refused_iff read zeroCut ⟨⟨0, 0⟩, 0, fun _ => 0⟩
    obtain ⟨spaced, replays⟩ := replayable.mpr
      ⟨by decide, (chosen_ordered_iff sampleRecords.reverse).mp (by decide +kernel)⟩
    exact ⟨output, events, spaced, written, reads, replays⟩

/-! ## `streamdump.cpp` -/

/-- A packet, what is behind it where the frame is made of it, and where it came from. In the
    source each copy of a frame has bytes of its own there, which matters only where a packet is
    too short for a header. -/
structure Received where
  rbuf : Packet
  beyond : Mem
  addr : UInt32

/-- `frame(rlen)` with the packet copied to it. -/
def Received.frame (x : Received) : RTPDataFrame := ⟨x.beyond.receive x.rbuf.val⟩

/-- The number that `frames_` keeps it under. -/
def Received.number (x : Received) : Int := x.frame.getSequenceNumber.toNat

/-- `frames_` and `recv_packets`. -/
structure StreamDump where
  frames : OrderedMap Int Received
  recvPackets : Int32

namespace StreamDump

def start : StreamDump := ⟨.empty, 0⟩

/-- What `ListenStream` does with a packet. -/
def store (remote : UInt32) (s : StreamDump) (x : Received) : Option StreamDump :=
  if x.addr ≠ remote then some s
  else some ⟨s.frames.offer x.number x, s.recvPackets + 1⟩

/-- What it writes at the end. -/
def finish (s : StreamDump) : Bytes :=
  s.frames.entries.flatMap (fun e => writeRtpData ⟨0, 0⟩ (Int32.ofNat e.2.rbuf.val.length)
    e.2.frame.ptr) ++ Timeval.format.encode endMark

/-- The packets that are taken. -/
def taken (remote : UInt32) (xs : List Received) : List Received :=
  xs.filter fun x => x.addr = remote

theorem attempt_store (remote : UInt32) (s : StreamDump) (xs : List Received) :
    Run.attempt (store remote) s xs = some
      ⟨s.frames.offers Received.number (taken remote xs),
        s.recvPackets + Int32.ofNat (taken remote xs).length⟩ := by
  induction xs generalizing s with
  | nil =>
      have none_ : s.recvPackets + Int32.ofNat 0 = s.recvPackets := Int32.add_zero _
      exact congrArg (fun n => some (StreamDump.mk s.frames n)) none_.symm
  | cons x xs ih =>
      rw [Run.attempt_cons, store, taken, List.filter_cons]
      by_cases other : x.addr = remote
      · rw [if_neg (not_not.mpr other), if_pos (decide_eq_true other), Option.bind_some, ih,
          List.length_cons, Int32.ofNat_add, Int32.add_comm (Int32.ofNat _), ← Int32.add_assoc]
        rfl
      · rw [if_pos other, if_neg (by simpa using other), Option.bind_some, ih]
        rfl

/-- The record that is written of a packet. -/
def record (x : Received) : Record := stamp ⟨0, 0⟩ zero_read x.rbuf

theorem finish_eq (s : StreamDump) : s.finish = dump (s.frames.values.map record) := by
  rw [finish, dump, OrderedMap.values, List.map_map]
  congr 1
  rw [List.flatMap_map]
  refine List.flatMap_congr fun e _ => ?_
  have body : e.2.frame.ptr.read 0 e.2.rbuf.val.length = e.2.rbuf.val := Mem.receive_holds _ _
  have size : (Int32.ofNat e.2.rbuf.val.length).toUInt32.toNat = e.2.rbuf.val.length :=
    (record e.2).len_toNat
  rw [Record.written_eq, writeRtpData, size, body]
  rfl

theorem record_seq {x : Received} (long : 4 < x.rbuf.val.length) : (record x).seq = x.number := by
  have four : (4 : Int32).toInt = 4 := rfl
  have size : (record x).len.toInt = x.rbuf.val.length :=
    Int32.toInt_ofNat_of_lt (Nat.lt_of_le_of_lt x.rbuf.property (by decide))
  have wide : ¬(record x).len ≤ 4 := by
    rw [Int32.le_iff_toInt_le, four, size]
    omega
  have high : x.frame.ptr 2 = x.rbuf.val.get ⟨2, by omega⟩ := Mem.receive_inside _ _
  have low : x.frame.ptr 3 = x.rbuf.val.get ⟨3, by omega⟩ := Mem.receive_inside _ _
  have high' : Mem.padded x.rbuf.val 2 = x.rbuf.val.get ⟨2, by omega⟩ := Mem.receive_inside _ _
  have low' : Mem.padded x.rbuf.val 3 = x.rbuf.val.get ⟨3, by omega⟩ := Mem.receive_inside _ _
  have pkt : (record x).pkt = x.rbuf.val := rfl
  rw [Record.seq, getSeq, if_neg wide, Received.number, RTPDataFrame.getSequenceNumber,
    Mem.shifted_short, Mem.netShort_get, pkt, high, low, high', low']

/-- The file is a recording of the first packet of each number that came from the remote side before
    the loop ended. Unless packets are too short to have a number, there is nothing to predecode. -/
theorem streamdump_file {useCors : Bool} (remote : UInt32) {arrivals : List (Arrival Received)}
    (served : useCors = true ∨ .nothing ∉ arrivals) :
    ((∃ s, Arrival.listen useCors (store remote) 0 start arrivals = .waits s) ∧
        Arrival.Goes useCors arrivals) ∨
      ∃ s before, ∃ chosen : List Received,
        Arrival.listen useCors (store remote) 0 start arrivals = .ends s ∧
        Arrival.StopsAfter useCors before arrivals ∧
        s.recvPackets = Int32.ofNat (taken remote (Arrival.heard before)).length ∧
        s.finish = dump (chosen.map record) ∧
        chosen.Pairwise (fun a b => a.number < b.number) ∧
        (∀ k, chosen.find? (fun x => x.number = k) =
          (taken remote (Arrival.heard before)).find? fun x => x.number = k) ∧
        ((∀ x ∈ chosen, 4 < x.rbuf.val.length) → Predecodes s.finish s.finish) := by
  obtain ⟨waits, goes⟩ | ⟨before, s, ended, stops, reached⟩ :=
    Arrival.listen_spec (attempt_store remote start (Arrival.heard arrivals)) served
  · exact .inl ⟨⟨_, waits⟩, goes⟩
  · obtain rfl := Option.some.inj (reached.symm.trans (attempt_store remote start _))
    refine .inr ⟨_, before, _, ended, stops, Int32.zero_add _, finish_eq _,
      OrderedMap.values_ascending _ _, OrderedMap.find?_values _ _, fun long => ?_⟩
    rw [finish_eq]
    refine predecodes_of_ascending (List.pairwise_map.mpr ?_)
    refine List.Pairwise.imp_of_mem (fun first second less => ?_) (OrderedMap.values_ascending _ _)
    rw [record_seq (long _ first), record_seq (long _ second)]
    exact less

/-- A packet that comes twice, an earlier one, and one from elsewhere. -/
def sampleReceived : List (Arrival Received) :=
  [.packet ⟨⟨[128, 0, 0, 2, 0], by decide⟩, fun _ => 0, 9⟩,
    .packet ⟨⟨[128, 0, 0, 3, 0], by decide⟩, fun _ => 0, 8⟩, .nothing,
    .packet ⟨⟨[128, 0, 0, 1, 0], by decide⟩, fun _ => 0, 9⟩,
    .packet ⟨⟨[128, 0, 0, 2, 1], by decide⟩, fun _ => 0, 9⟩, .timeout]

theorem streamdump_file_sample :
    ∃ s, ∃ chosen : List Received,
      Arrival.listen true (store 9) 0 start sampleReceived = .ends s ∧ s.recvPackets = 3 ∧
        s.finish = dump (chosen.map record) ∧
        chosen.Pairwise fun a b => a.number < b.number := by
  obtain ⟨s, ended, counted⟩ :
      ∃ s, Arrival.listen true (store 9) 0 start sampleReceived = .ends s ∧ s.recvPackets = 3 :=
    ⟨_, rfl, rfl⟩
  obtain ⟨⟨s', waits⟩, -⟩ | ⟨s', before, chosen, ends, -, -, file, ascending, -⟩ :=
    @streamdump_file true 9 sampleReceived (.inl rfl)
  · cases waits.symm.trans ended
  · obtain rfl := Arrival.Outcome.ends.inj (ends.symm.trans ended)
    exact ⟨s', chosen, ended, counted, file, ascending⟩

end StreamDump

end RtpData

end Cors
