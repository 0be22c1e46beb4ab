import Cors.Lib.Wrapping
import Cors.Media.RtpData

/-! # Reading RTP data back

What is left of a file at the head of the loop is either the rest of the records and the end mark,
or the loop comes to the end of the file and never leaves it.
-/

namespace Cors

namespace RtpData

open ByteFormat

/-! ## Reading one element -/

theorem freadOne_encode (f : ByteFormat α) (cut : α → Bytes → α) (x y : α) (rest : Bytes) :
    freadOne f cut x (f.encode y ++ rest) = (y, rest) := by
  have size := f.encode_length y
  have enough : f.width ≤ (f.encode y ++ rest).length := by
    rw [List.length_append]
    omega
  rw [freadOne, if_pos enough, List.take_left' size, List.drop_left' size, f.decode_encode]

theorem freadOne_nil (f : ByteFormat α) (cut : α → Bytes → α) (x : α) (wide : 0 < f.width) :
    freadOne f cut x [] = (x, []) := by
  have short : ¬f.width ≤ ([] : Bytes).length := Nat.not_le.2 wide
  rw [freadOne, if_neg short, if_pos rfl]

theorem freadOne_cases (f : ByteFormat α) (cut : α → Bytes → α) (x : α) (file : Bytes) :
    (∃ y rest, file = f.encode y ++ rest) ∨
      freadOne f cut x file = (if file = [] then x else cut x file, []) := by
  by_cases enough : f.width ≤ file.length
  · have size : (file.take f.width).length = f.width := List.length_take_of_le enough
    refine .inl ⟨f.decode (file.take f.width), file.drop f.width, ?_⟩
    rw [f.encode_decode _ size, List.take_append_drop]
  · exact .inr (if_neg enough)

section Loop
variable {σ : Type} {cut : Cut} {store : σ → Event → σ}

theorem readTs_encode (cut : Cut) (ts : Timeval) (rest : Bytes) (event : Event) (stored : σ) :
    readTs cut ⟨Timeval.format.encode ts ++ rest, event, stored⟩ =
      ⟨rest, { event with ts }, stored⟩ := by
  rw [readTs, freadOne_encode]

theorem readTs_nil (cut : Cut) (event : Event) (stored : σ) :
    readTs cut ⟨[], event, stored⟩ = ⟨[], event, stored⟩ := by
  rw [readTs, freadOne_nil _ _ _ (by decide)]

/-! ## The end of the file -/

/-- A round at the end of the file changes no variable that the loop looks at. -/
theorem readRecord_nil (event : Event) (stored : σ) :
    ∃ event' stored', event'.ts = event.ts ∧
      readRecord cut store ⟨[], event, stored⟩ = some ⟨[], event', stored'⟩ := by
  rw [readRecord, freadOne_nil _ _ _ (by decide)]
  simp only [List.take_nil, List.drop_nil, List.length_nil, Nat.not_lt_zero, if_false, readTs_nil]
  exact ⟨_, _, rfl, rfl⟩

theorem readLoop_nil {event : Event} (other : event.ts ≠ endMark) (stored : σ) (n : Nat) :
    readLoop cut store n ⟨[], event, stored⟩ = none := by
  induction n generalizing event stored with
  | zero => rfl
  | succ n ih =>
      obtain ⟨event', stored', same, next⟩ := @readRecord_nil _ cut store event stored
      rw [readLoop, if_neg other, next]
      exact ih (same ▸ other) stored'

theorem readRecord_encode (len : Int32) (body : Bytes) (event : Event) (stored : σ) :
    readRecord cut store ⟨i32.encode len ++ body, event, stored⟩ =
      if maxLen < (body.take len.toUInt32.toNat).length then
        none
      else
        let event := { event with
          len, pkt := event.pkt.write 0 (body.take len.toUInt32.toNat) }
        some (readTs cut ⟨body.drop len.toUInt32.toNat, event, store stored event⟩) := by
  rw [readRecord, freadOne_encode]

end Loop

/-! ## Records -/

/-- What can be written, so that the end mark is none of the timestamps. -/
structure Record where
  ts : Timeval
  pkt : Bytes
  other : ts ≠ endMark
  short : pkt.length ≤ maxLen

namespace Record

def len (record : Record) : Int32 := Int32.ofNat record.pkt.length

def written (record : Record) : Bytes :=
  writeRtpData record.ts record.len (Mem.padded record.pkt)

theorem len_toNat (record : Record) : record.len.toUInt32.toNat = record.pkt.length := by
  have small : record.pkt.length < 2147483648 := Nat.lt_of_le_of_lt record.short (by decide)
  have value := Wrapping.toUInt32_toNat record.len
  rw [len, Int32.toInt_ofNat_of_lt small] at value
  rw [len]
  omega

theorem written_eq (record : Record) : record.written =
    Timeval.format.encode record.ts ++ (i32.encode record.len ++ record.pkt) := by
  have stands : (Mem.padded record.pkt).read 0 record.pkt.length = record.pkt :=
    Mem.receive_holds _ _
  rw [written, writeRtpData, len_toNat, stands]

/-- What the event is after the record. -/
def fill (event : Event) (record : Record) : Event where
  ts := record.ts
  len := record.len
  pkt := event.pkt.write 0 record.pkt

/-- The events that the records are read as. -/
def events (event : Event) : List Record → List Event
  | [] => []
  | record :: records => fill event record :: events (fill event record) records

/-- The event holds the record. -/
structure Holds (record : Record) (event : Event) : Prop where
  ts : event.ts = record.ts
  len : event.len.toInt = record.pkt.length
  pkt : event.pkt.Holds 0 record.pkt

theorem holds_fill (event : Event) (record : Record) : record.Holds (fill event record) where
  ts := rfl
  len := Int32.toInt_ofNat_of_lt (Nat.lt_of_le_of_lt record.short (by decide))
  pkt := Mem.holds_write event.pkt 0 record.pkt

theorem holds_events (event : Event) (records : List Record) :
    List.Forall₂ Holds records (events event records) := by
  induction records generalizing event with
  | nil => exact .nil
  | cons record records ih => exact .cons (holds_fill event record) (ih _)

end Record

/-- The records and the end mark. -/
def dump (records : List Record) : Bytes :=
  records.flatMap Record.written ++ Timeval.format.encode endMark

theorem dump_cons (record : Record) (records : List Record) (rest : Bytes) :
    dump (record :: records) ++ rest = Timeval.format.encode record.ts ++
      (i32.encode record.len ++ (record.pkt ++ (dump records ++ rest))) := by
  simp only [dump, List.flatMap_cons, record.written_eq, List.append_assoc]

section Loop
variable {σ : Type} (cut : Cut) (store : σ → Event → σ)

theorem readLoop_written (record : Record) (behind : Bytes) (event : Event) (stored : σ) (n : Nat) :
    readLoop cut store (n + 1) (readTs cut ⟨Timeval.format.encode record.ts ++
      (i32.encode record.len ++ (record.pkt ++ behind)), event, stored⟩) =
      readLoop cut store n (readTs cut ⟨behind, Record.fill event record,
        store stored (Record.fill event record)⟩) := by
  have taken : (record.pkt ++ behind).take record.len.toUInt32.toNat = record.pkt :=
    List.take_left' record.len_toNat.symm
  have left : (record.pkt ++ behind).drop record.len.toUInt32.toNat = behind :=
    List.drop_left' record.len_toNat.symm
  rw [readTs_encode, readLoop, if_neg record.other, readRecord_encode, taken, left,
    if_neg (Nat.not_lt.2 record.short)]
  rfl

theorem readLoop_dump (records : List Record) (rest : Bytes) (event : Event) (stored : σ) :
    readLoop cut store (records.length + 1) (readTs cut ⟨dump records ++ rest, event, stored⟩) =
      some ((Record.events event records).foldl store stored) := by
  induction records generalizing event stored with
  | nil =>
      rw [dump, List.flatMap_nil, List.nil_append, readTs_encode, readLoop, if_pos rfl]
      rfl
  | cons record records ih =>
      rw [dump_cons, readLoop_written]
      exact ih (Record.fill event record) _

/-- Without an end mark the loop stays at the end of the file. -/
theorem readLoop_unfinished (records : List Record) {event : Event} (other : event.ts ≠ endMark)
    (stored : σ) (n : Nat) :
    readLoop cut store n (readTs cut ⟨records.flatMap Record.written, event, stored⟩) = none := by
  induction records generalizing event stored n with
  | nil =>
      rw [List.flatMap_nil, readTs_nil]
      exact readLoop_nil other stored n
  | cons record records ih =>
      cases n with
      | zero => rfl
      | succ n =>
          rw [List.flatMap_cons, record.written_eq, List.append_assoc, List.append_assoc,
            readLoop_written]
          exact @ih (Record.fill event record) record.other _ n

end Loop

/-! ## Whole files -/

/-- Records, the end mark, and anything behind it. -/
def Complete (file : Bytes) : Prop := ∃ records rest, file = dump records ++ rest

/-- The loop ends, whatever is left open. -/
def Ends {σ : Type} (store : σ → Event → σ) (init : σ) (file : Bytes) : Prop :=
  ∀ cut event, ∃ result, Reads cut store init file event result

/-- Elements that are cut off become zero. -/
def zeroCut : Cut where
  ts _ _ := ⟨0, 0⟩
  len _ _ := 0

section Loop
variable {σ : Type} {store : σ → Event → σ}

theorem ts_of_ends {file : Bytes} {event : Event} (other : event.ts ≠ endMark)
    {stored result : σ} {n : Nat}
    (ends : readLoop zeroCut store n (readTs zeroCut ⟨file, event, stored⟩) = some result) :
    ∃ ts rest, file = Timeval.format.encode ts ++ rest := by
  rcases freadOne_cases Timeval.format zeroCut.ts event.ts file with there | missing
  · exact there
  · rw [readTs, missing] at ends
    have still : (if file = [] then event.ts else zeroCut.ts event.ts file) ≠ endMark := by
      split
      · exact other
      · exact (by decide : (⟨0, 0⟩ : Timeval) ≠ endMark)
    rw [readLoop_nil still] at ends
    cases ends

theorem record_of_ends {file : Bytes} {event : Event} (other : event.ts ≠ endMark)
    {stored result : σ} {n : Nat}
    (ends : readLoop zeroCut store (n + 1) ⟨file, event, stored⟩ = some result) :
    ∃ (record : Record) (rest : Bytes) (event' : Event) (stored' : σ),
      record.ts = event.ts ∧ event'.ts = event.ts ∧
      file = i32.encode record.len ++ (record.pkt ++ rest) ∧
      readLoop zeroCut store n (readTs zeroCut ⟨rest, event', stored'⟩) = some result := by
  rw [readLoop, if_neg other] at ends
  rcases freadOne_cases i32 zeroCut.len event.len file with ⟨len, body, rfl⟩ | missing
  · rw [readRecord_encode] at ends
    by_cases large : maxLen < (body.take len.toUInt32.toNat).length
    · rw [if_pos large] at ends
      cases ends
    · rw [if_neg large, Option.bind_some] at ends
      by_cases whole : len.toUInt32.toNat ≤ body.length
      · have size := List.length_take_of_le whole
        let record : Record := ⟨event.ts, body.take len.toUInt32.toNat, other, Nat.not_lt.1 large⟩
        have same : record.len = len := by
          rw [Record.len, size]
          exact congrArg Int32.ofUInt32 UInt32.ofNat_toNat
        refine ⟨record, _, _, _, rfl, ?_, ?_, ends⟩
        · rfl
        · rw [same, List.take_append_drop]
      · rw [List.drop_of_length_le (Nat.le_of_not_le whole), readTs_nil, readLoop_nil] at ends
        · cases ends
        · exact other
  · rw [readRecord, missing] at ends
    simp only [List.take_nil, List.drop_nil, List.length_nil, Nat.not_lt_zero, if_false,
      readTs_nil, Option.bind_some] at ends
    rw [readLoop_nil] at ends
    · cases ends
    · exact other

theorem complete_of_ends (n : Nat) {file : Bytes} {event : Event} (other : event.ts ≠ endMark)
    {stored result : σ}
    (ends : readLoop zeroCut store n (readTs zeroCut ⟨file, event, stored⟩) = some result) :
    Complete file := by
  induction n generalizing file event stored with
  | zero => cases ends
  | succ n ih =>
      obtain ⟨ts, rest, rfl⟩ := ts_of_ends other ends
      rw [readTs_encode] at ends
      by_cases mark : ts = endMark
      · exact ⟨[], rest, by rw [mark]; rfl⟩
      · obtain ⟨record, rest, event', stored', same, still, rfl, later⟩ := record_of_ends mark ends
        obtain ⟨records, behind, rfl⟩ := ih (still ▸ mark) later
        refine ⟨record :: records, behind, ?_⟩
        rw [dump_cons, same]

end Loop

/-- The loop ends just in case it comes to the end mark. -/
theorem ends_iff {σ : Type} (store : σ → Event → σ) (init : σ) (file : Bytes) :
    Ends store init file ↔ Complete file := by
  constructor
  · intro ends
    obtain ⟨result, n, reads⟩ := ends zeroCut ⟨⟨0, 0⟩, 0, fun _ => 0⟩
    exact complete_of_ends n (by decide) reads
  · rintro ⟨records, rest, rfl⟩ cut event
    exact ⟨_, records.length + 1, readLoop_dump cut store records rest event init⟩

theorem foldl_pushBack (before events : List Event) :
    events.foldl pushBack before = before ++ events := by
  induction events generalizing before with
  | nil => exact (List.append_nil before).symm
  | cons event events ih =>
      rw [List.foldl_cons, ih, pushBack, List.append_assoc, List.singleton_append]

/-- Both programs see the records that were written, and end where the end mark is there. -/
theorem dump_read_back (records : List Record) (cut : Cut) (event : Event) (file : Bytes) :
    (∃ events, List.Forall₂ Record.Holds records events ∧
      Reads cut pushBack [] (dump records) event events ∧
      Reads cut insertSeq .empty (dump records) event (events.foldl insertSeq .empty)) ∧
    (Ends pushBack [] file ↔ Complete file) ∧ (Ends insertSeq .empty file ↔ Complete file) := by
  refine ⟨?_, ends_iff _ _ file, ends_iff _ _ file⟩
  have reads {σ : Type} (store : σ → Event → σ) (init : σ) :=
    readLoop_dump cut store records [] event init
  simp only [List.append_nil] at reads
  refine ⟨Record.events event records, Record.holds_events event records, ?_, ?_⟩
  · have all := reads pushBack []
    rw [foldl_pushBack, List.nil_append] at all
    exact ⟨_, all⟩
  · exact ⟨_, reads insertSeq .empty⟩

def emptyRecord : Record := ⟨⟨0, 0⟩, [], by decide, by decide⟩

/-- A file that was cut off in front of its end mark. -/
theorem cut_dump_never_ends : ¬Ends pushBack [] ([emptyRecord].flatMap Record.written) := by
  intro ends
  obtain ⟨result, n, reads⟩ := ends zeroCut ⟨⟨0, 0⟩, 0, fun _ => 0⟩
  rw [readLoop_unfinished _ _ _ (by decide)] at reads
  cases reads

end RtpData

end Cors
