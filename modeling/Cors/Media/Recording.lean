import Mathlib.Data.List.Chain
import Cors.Client.DelayCheck
import Cors.Media.Listening
import Cors.Media.ReadingBack

/-! # Recording and replaying

`rtpreceiver.cpp` stamps each packet with the time since the first one, and `rtpsender.cpp` sleeps
before each packet for the time between its stamp and the one before it. A recorded stream is so
replayed with the gaps that it was received with, as long as the clock does not go back.
-/

namespace Cors

/-- A time that `gettimeofday` gives. -/
structure Timeval.Read (t : Timeval) : Prop where
  seconds : 0 ≤ t.tvSec.toInt
  normal : t.Normal

instance (t : Timeval) : Decidable t.Read :=
  decidable_of_iff (0 ≤ t.tvSec.toInt ∧ t.Normal)
    ⟨fun both => ⟨both.1, both.2⟩, fun read => ⟨read.seconds, read.normal⟩⟩

namespace RtpData

open ByteFormat

/-! ## The difference of two times -/

/-- `CalcDelta`, which is one and the same in all programs; none where the assertion fails. -/
def calcDelta (tm1 tm2 : Timeval) : Option Timeval :=
  if tm2.tvSec < tm1.tvSec ∨ tm1.tvSec = tm2.tvSec ∧ tm2.tvUsec ≤ tm1.tvUsec then
    if tm2.tvUsec ≤ tm1.tvUsec then
      some ⟨tm1.tvSec - tm2.tvSec, tm1.tvUsec - tm2.tvUsec⟩
    else
      some ⟨tm1.tvSec - tm2.tvSec - 1, 1000000 + tm1.tvUsec - tm2.tvUsec⟩
  else
    none

section Delta
variable {tm1 tm2 : Timeval}

/-- Where the assertion holds this is what the relay selector computes. -/
theorem calcDelta_eq (tm1 tm2 : Timeval) :
    calcDelta tm1 tm2 =
      if tm2.tvSec < tm1.tvSec ∨ tm1.tvSec = tm2.tvSec ∧ tm2.tvUsec ≤ tm1.tvUsec then
        some (SimpleRlysltr.elapsed tm1 tm2)
      else none := by
  rw [calcDelta, SimpleRlysltr.elapsed]
  by_cases less : tm1.tvUsec < tm2.tvUsec
  · rw [if_neg (Int32.not_le.mpr less), if_pos less]
  · rw [if_pos (Int32.not_lt.mp less), if_neg less]

theorem asserted_iff (first : tm1.Normal) (second : tm2.Normal) :
    (tm2.tvSec < tm1.tvSec ∨ tm1.tvSec = tm2.tvSec ∧ tm2.tvUsec ≤ tm1.tvUsec) ↔
      tm2.micros ≤ tm1.micros := by
  obtain ⟨low, high⟩ := first
  obtain ⟨low', high'⟩ := second
  rw [Int32.lt_iff_toInt_lt, Int32.le_iff_toInt_le, ← Int32.toInt_inj, Timeval.micros,
    Timeval.micros]
  omega

theorem calcDelta_of_lt (first : tm1.Normal) (second : tm2.Normal)
    (back : tm1.micros < tm2.micros) : calcDelta tm1 tm2 = none := by
  rw [calcDelta, if_neg]
  rw [asserted_iff first second]
  exact Int.not_le.mpr back

theorem calcDelta_of_le (first : tm1.Read) (second : tm2.Read) (le : tm2.micros ≤ tm1.micros) :
    ∃ delta, calcDelta tm1 tm2 = some delta ∧ delta.Read ∧
      delta.micros = tm1.micros - tm2.micros := by
  have normal := SimpleRlysltr.elapsed_normal first.normal second.normal
  have microseconds := SimpleRlysltr.elapsed_tvUsec first.normal second.normal
  have below := tm1.tvSec.toInt_lt
  obtain ⟨seconds, low, high⟩ := first
  obtain ⟨seconds', low', high'⟩ := second
  have order := le
  rw [Timeval.micros, Timeval.micros] at order
  have difference : (tm1.tvSec - tm2.tvSec).toInt = tm1.tvSec.toInt - tm2.tvSec.toInt :=
    Wrapping.sub_toInt ⟨by omega, by omega⟩
  have borrowed := SimpleRlysltr.borrow_cases tm1 tm2
  have exactly := SimpleRlysltr.elapsed_tvSec difference ⟨by omega, by omega⟩
  refine ⟨SimpleRlysltr.elapsed tm1 tm2, ?_, ⟨by omega, normal⟩, ?_⟩
  · rw [calcDelta_eq, if_pos]
    exact (asserted_iff ⟨low, high⟩ ⟨low', high'⟩).mpr le
  · rw [Timeval.micros, Timeval.micros, Timeval.micros, exactly, microseconds]
    omega

theorem other_of_normal {t : Timeval} (normal : t.Normal) : t ≠ endMark := by
  rintro rfl
  exact absurd normal.1 (by decide)

end Delta

/-! ## `rtpreceiver.cpp` -/

/-- What fits into `rbuff`. -/
abbrev Packet : Type := { pkt : Bytes // pkt.length ≤ maxLen }

/-- The file, and `tm_start` unless the first packet is still to come. -/
structure Receiver where
  fp : Bytes
  tmStart : Option Timeval

namespace Receiver

def start : Receiver := ⟨[], none⟩

def write (r : Receiver) (ts : Timeval) (rbuff : Packet) : Receiver :=
  { r with fp := r.fp ++ writeRtpData ts (Int32.ofNat rbuff.val.length) (Mem.padded rbuff.val) }

/-- What is done with a packet. -/
def store (r : Receiver) (x : Packet × Timeval) : Option Receiver :=
  let (rbuff, timestamp) := x
  match r.tmStart with
  | none => some ({ r with tmStart := some timestamp }.write ⟨0, 0⟩ rbuff)
  | some tmStart => (calcDelta timestamp tmStart).map fun delta => r.write delta rbuff

def finish (r : Receiver) : Bytes := r.fp ++ Timeval.format.encode endMark

end Receiver

/-! ## `rtpsender.cpp` -/

/-- The differences to the time before. -/
def deltas : List Timeval → Option (List Timeval)
  | [] => some []
  | [_] => some []
  | a :: b :: rest =>
      (calcDelta b a).bind fun delta => (deltas (b :: rest)).map fun ds => delta :: ds

/-- The events with their `delta`. That of an only event is not initialized, and without an event
    the program writes in front of the vector. -/
def withDeltas (uninitialized : Timeval) : List Event → Option (List (Event × Timeval))
  | [] => none
  | event :: events => (deltas ((event :: events).map Event.ts)).map fun ds =>
      (event :: events).zip (ds.getLast?.getD uninitialized :: ds)

/-- All deltas are defined. -/
def Replayable (events : List Event) (spaced : List (Event × Timeval)) : Prop :=
  ∀ uninitialized, withDeltas uninitialized events = some spaced

/-- What is sent, each packet after its delta. -/
def replays (replay : Int32) (events : List (Event × Timeval)) : List (Event × Timeval) :=
  (List.replicate replay.toInt.toNat events).flatten

/-! ## What is recorded -/

/-- The clock does not go back. -/
structure Clocked (hs : List (Packet × Timeval)) : Prop where
  read : ∀ h ∈ hs, h.2.Read
  ordered : hs.Pairwise fun a b => a.2.micros ≤ b.2.micros

/-- The record of a packet is stamped with the time since the first one. -/
structure Stamped (first : Timeval) (record : Record) (h : Packet × Timeval) : Prop where
  pkt : record.pkt = h.1.val
  read : record.ts.Read
  micros : record.ts.micros = h.2.micros - first.micros

/-- The time of the first packet. -/
def origin (hs : List (Packet × Timeval)) : Timeval := (hs.head?.map Prod.snd).getD ⟨0, 0⟩

/-- The file holds the records of what was heard. -/
structure Receiver.Holds (r : Receiver) (hs : List (Packet × Timeval)) : Prop where
  file : ∃ records, r.fp = records.flatMap Record.written ∧
    List.Forall₂ (Stamped (origin hs)) records hs
  tmStart : r.tmStart = hs.head?.map Prod.snd

theorem zero_read : (⟨0, 0⟩ : Timeval).Read := ⟨by decide, by decide⟩

/-- A record of a packet. -/
def stamp (delta : Timeval) (read : delta.Read) (rbuff : Packet) : Record :=
  ⟨delta, rbuff.val, other_of_normal read.normal, rbuff.property⟩

section Receiver
variable {r : Receiver} {hs : List (Packet × Timeval)}

theorem Receiver.Holds.store (holds : r.Holds hs) {x : Packet × Timeval}
    (clocked : Clocked (hs ++ [x])) :
    ∃ r', r.store x = some r' ∧ r'.Holds (hs ++ [x]) := by
  obtain ⟨⟨records, file, stamped⟩, tmStart⟩ := holds
  obtain ⟨rbuff, timestamp⟩ := x
  cases hs with
  | nil =>
      cases stamped
      let begun : Receiver := { r with tmStart := some timestamp }
      refine ⟨begun.write ⟨0, 0⟩ rbuff, by rw [Receiver.store, tmStart]; rfl,
        ⟨[stamp ⟨0, 0⟩ zero_read rbuff], ?_, ?_⟩, rfl⟩
      · rw [List.flatMap_singleton]
        change r.fp ++ _ = _
        rw [file]
        rfl
      · have zero : (⟨0, 0⟩ : Timeval).micros = 0 := rfl
        exact .cons ⟨rfl, zero_read, zero.trans (Int.sub_self timestamp.micros).symm⟩ .nil
  | cons h hs =>
      obtain ⟨reads, ordered⟩ := clocked
      have begun : r.tmStart = some h.2 := tmStart
      have first : h.2.micros ≤ timestamp.micros := (List.pairwise_append.mp ordered).2.2 h
        List.mem_cons_self (rbuff, timestamp) (List.mem_singleton_self _)
      obtain ⟨delta, computed, normal, exactly⟩ := calcDelta_of_le
        (reads (rbuff, timestamp) (List.mem_append_right _ (List.mem_singleton_self _)))
        (reads h List.mem_cons_self) first
      have stored : r.store (rbuff, timestamp) = some (r.write delta rbuff) := by
        simp only [Receiver.store, begun, computed, Option.map_some]
      refine ⟨_, stored, ⟨records ++ [stamp delta normal rbuff], ?_, ?_⟩, tmStart⟩
      · rw [List.flatMap_append, List.flatMap_singleton, ← file]
        rfl
      · exact List.rel_append stamped (.cons ⟨rfl, normal, exactly⟩ .nil)

theorem Receiver.holds_of_attempt (clocked : Clocked hs) :
    ∃ r, Run.attempt Receiver.store Receiver.start hs = some r ∧ r.Holds hs := by
  induction hs using List.reverseRecOn with
  | nil => exact ⟨_, rfl, ⟨[], rfl, .nil⟩, rfl⟩
  | append_singleton hs x ih =>
      obtain ⟨reads, ordered⟩ := clocked
      obtain ⟨r, ran, holds⟩ := ih ⟨fun h member => reads h (List.mem_append_left _ member),
        (List.pairwise_append.mp ordered).1⟩
      obtain ⟨r', stored, next⟩ := holds.store ⟨reads, ordered⟩
      refine ⟨r', ?_, next⟩
      rw [Run.attempt_append, ran, Option.bind_some, Run.attempt_cons, stored]
      rfl

end Receiver

/-! ## What is replayed -/

/-- The steps from each number to the next. -/
def gaps (xs : List Int) : List Int := xs.tail.zipWith (· - ·) xs

theorem gaps_cons (x y : Int) (xs : List Int) : gaps (x :: y :: xs) = (y - x) :: gaps (y :: xs) :=
  rfl

/-- It does not matter from when on the time is counted. -/
theorem gaps_shift (xs : List Int) (origin : Int) : gaps (xs.map (· - origin)) = gaps xs := by
  induction xs with
  | nil => rfl
  | cons x xs ih =>
      cases xs with
      | nil => rfl
      | cons y xs =>
          have head : y - origin - (x - origin) = y - x := by omega
          rw [List.map_cons, List.map_cons, gaps_cons, gaps_cons, head]
          exact congrArg _ ih

theorem deltas_spec {stamps : List Timeval} (read : ∀ t ∈ stamps, t.Read) :
    if stamps.IsChain (fun a b => a.micros ≤ b.micros) then
      ∃ ds, deltas stamps = some ds ∧ ds.map Timeval.micros = gaps (stamps.map Timeval.micros) ∧
        (∀ d ∈ ds, d.Read) ∧ ds.length = stamps.length - 1
    else deltas stamps = none := by
  induction stamps with
  | nil => exact (if_pos .nil).mpr ⟨[], rfl, rfl, List.forall_mem_nil _, rfl⟩
  | cons a stamps ih =>
      cases stamps with
      | nil => exact (if_pos (.singleton a)).mpr ⟨[], rfl, rfl, List.forall_mem_nil _, rfl⟩
      | cons b stamps =>
          have rest := ih fun t member => read t (List.mem_cons_of_mem a member)
          have first := read a List.mem_cons_self
          have second := read b (List.mem_cons_of_mem a List.mem_cons_self)
          simp only [List.isChain_cons_cons]
          by_cases le : a.micros ≤ b.micros
          · obtain ⟨delta, computed, normal, exactly⟩ := calcDelta_of_le second first le
            by_cases chain : (b :: stamps).IsChain fun a b => a.micros ≤ b.micros
            · rw [if_pos chain] at rest
              obtain ⟨ds, later, same, reads, length⟩ := rest
              rw [if_pos ⟨le, chain⟩]
              refine ⟨delta :: ds, ?_, ?_, List.forall_mem_cons.mpr ⟨normal, reads⟩, ?_⟩
              · rw [deltas, computed, Option.bind_some, later, Option.map_some]
              · rw [List.map_cons, same, exactly]
                rfl
              · rw [List.length_cons, length]
                rfl
            · rw [if_neg chain] at rest
              rw [if_neg fun both => chain both.2, deltas, computed, Option.bind_some, rest]
              rfl
          · rw [if_neg fun both => le both.1, deltas,
              calcDelta_of_lt second.normal first.normal (Int.not_le.mp le)]
            rfl

/-- The events with the gaps in front of them; the first one has the last gap. -/
structure Spaced (events : List Event) (spaced : List (Event × Timeval)) : Prop where
  same : spaced.map Prod.fst = events
  gaps : spaced.tail.map (fun e => e.2.micros) = gaps (events.map fun e => e.ts.micros)
  first : spaced.head?.map Prod.snd = spaced.getLast?.map Prod.snd

theorem withDeltas_spec (uninitialized : Timeval) {events : List Event}
    (read : ∀ e ∈ events, e.ts.Read) :
    if events ≠ [] ∧ (events.map Event.ts).IsChain fun a b => a.micros ≤ b.micros then
      ∃ spaced, withDeltas uninitialized events = some spaced ∧ Spaced events spaced
    else withDeltas uninitialized events = none := by
  cases events with
  | nil => exact (if_neg fun both => both.1 rfl).mpr rfl
  | cons event events =>
      have stamps : ∀ t ∈ (event :: events).map Event.ts, t.Read := List.forall_mem_map.mpr read
      have spec := deltas_spec stamps
      by_cases chain : ((event :: events).map Event.ts).IsChain fun a b => a.micros ≤ b.micros
      · rw [if_pos chain] at spec
        obtain ⟨ds, computed, same, -, length⟩ := spec
        rw [List.length_map, List.length_cons, Nat.add_sub_cancel] at length
        have equal : (event :: events).length = (ds.getLast?.getD uninitialized :: ds).length := by
          rw [List.length_cons, List.length_cons, length]
        rw [if_pos ⟨List.cons_ne_nil event events, chain⟩]
        refine ⟨_, by rw [withDeltas, computed, Option.map_some], ?_, ?_, ?_⟩
        · exact List.map_fst_zip (Nat.le_of_eq equal)
        · calc (events.zip ds).map (fun e => e.2.micros)
            _ = ((events.zip ds).map Prod.snd).map Timeval.micros := by rw [List.map_map]; rfl
            _ = ds.map Timeval.micros := by rw [List.map_snd_zip (Nat.le_of_eq length)]
            _ = gaps ((event :: events).map fun e => e.ts.micros) := by rw [same, List.map_map]; rfl
        · rw [← List.head?_map, ← List.getLast?_map, List.map_snd_zip (Nat.le_of_eq equal.symm),
            List.head?_cons, List.getLast?_cons]
          cases ds.getLast? <;> rfl
      · rw [if_neg chain] at spec
        rw [if_neg fun both => chain both.2, withDeltas, spec, Option.map_none]

/-- The last delta of at least two events is computed, and it is that of the first one. -/
theorem replayable_spec {events : List Event} (read : ∀ e ∈ events, e.ts.Read) :
    if 2 ≤ events.length ∧ (events.map Event.ts).IsChain fun a b => a.micros ≤ b.micros then
      ∃ spaced, Replayable events spaced ∧ Spaced events spaced ∧ ∀ e ∈ spaced, e.2.Read
    else ∀ spaced, ¬Replayable events spaced := by
  match events with
  | [] =>
      rw [if_neg fun both => absurd both.1 (by simp)]
      intro spaced replayable
      cases replayable ⟨0, 0⟩
  | [event] =>
      rw [if_neg fun both => absurd both.1 (by simp)]
      intro spaced replayable
      cases Option.some.inj ((replayable ⟨0, 0⟩).trans (replayable ⟨1, 0⟩).symm)
  | a :: b :: rest =>
      have stamps : ∀ t ∈ (a :: b :: rest).map Event.ts, t.Read := List.forall_mem_map.mpr read
      have long : 2 ≤ (a :: b :: rest).length := Nat.le_add_left 2 rest.length
      have spec := deltas_spec stamps
      have spaces := withDeltas_spec ⟨0, 0⟩ read
      by_cases chain : ((a :: b :: rest).map Event.ts).IsChain fun a b => a.micros ≤ b.micros
      · rw [if_pos chain] at spec
        rw [if_pos ⟨List.cons_ne_nil _ _, chain⟩] at spaces
        rw [if_pos ⟨long, chain⟩]
        obtain ⟨ds, computed, -, reads, length⟩ := spec
        obtain ⟨spaced, computed', spaced_⟩ := spaces
        have some_ : ds ≠ [] := by
          rintro rfl
          cases length
        have last := List.getLast?_eq_some_getLast some_
        have defined (uninitialized : Timeval) :
            withDeltas uninitialized (a :: b :: rest) =
              some ((a :: b :: rest).zip (ds.getLast some_ :: ds)) := by
          rw [withDeltas, computed, Option.map_some, last, Option.getD_some]
        obtain rfl := Option.some.inj ((defined ⟨0, 0⟩).symm.trans computed')
        refine ⟨_, defined, spaced_, fun e member => ?_⟩
        obtain first | later := List.mem_cons.mp (List.of_mem_zip member).2
        · exact first ▸ reads _ (List.getLast_mem some_)
        · exact reads _ later
      · rw [if_neg chain] at spec
        rw [if_neg fun both => chain both.2]
        intro spaced replayable
        have computed := replayable ⟨0, 0⟩
        rw [withDeltas, spec] at computed
        cases computed

theorem spaced_of_replayable {events : List Event} (read : ∀ e ∈ events, e.ts.Read)
    {spaced : List (Event × Timeval)} (replayable : Replayable events spaced) :
    Spaced events spaced ∧ ∀ e ∈ spaced, e.2.Read := by
  have spec := replayable_spec read
  split at spec
  · obtain ⟨other, computed, spaces⟩ := spec
    obtain rfl := Option.some.inj ((replayable ⟨0, 0⟩).symm.trans (computed ⟨0, 0⟩))
    exact spaces
  · exact absurd replayable (spec spaced)

theorem replays_getElem? (replay : Int32) (events : List (Event × Timeval)) (k : Nat) :
    (replays replay events)[k]? =
      if k < replay.toInt.toNat * events.length then events[k % events.length]? else none := by
  rw [replays]
  generalize replay.toInt.toNat = n
  induction n generalizing k with
  | zero => rw [Nat.zero_mul, if_neg (Nat.not_lt_zero k)]; rfl
  | succ n ih =>
      rw [List.replicate_succ, List.flatten_cons, Nat.succ_mul]
      by_cases own : k < events.length
      · rw [List.getElem?_append_left own, Nat.mod_eq_of_lt own, if_pos (by omega)]
      · have past := Nat.le_of_not_lt own
        rw [List.getElem?_append_right past, ih, ← Nat.mod_eq_sub_mod past]
        by_cases inside : k - events.length < n * events.length
        · rw [if_pos inside, if_pos (by omega)]
        · rw [if_neg inside, if_neg (by omega)]

theorem map_ts {records : List Record} {events : List Event}
    (holds : List.Forall₂ Record.Holds records events) :
    events.map Event.ts = records.map Record.ts := by
  induction holds with
  | nil => rfl
  | cons holds _ ih => rw [List.map_cons, List.map_cons, holds.ts, ih]

theorem isChain_iff_pairwise (records : List Record) :
    ((records.map Record.ts).IsChain fun a b => a.micros ≤ b.micros) ↔
      records.Pairwise fun a b => a.ts.micros ≤ b.ts.micros := by
  have ascending := List.isChain_iff_pairwise (R := (· ≤ ·))
    (l := records.map fun record => record.ts.micros)
  rw [List.isChain_map, List.pairwise_map] at ascending
  rw [List.isChain_map]
  exact ascending

theorem reads_dump {records : List Record} (read : ∀ record ∈ records, record.ts.Read)
    (cut : Cut) (event : Event) :
    ∃ events, Reads cut pushBack [] (dump records) event events ∧
      List.Forall₂ Record.Holds records events ∧ ∀ e ∈ events, e.ts.Read := by
  have holds := Record.holds_events event records
  have loop := readLoop_dump cut pushBack records [] event []
  rw [List.append_nil, foldl_pushBack, List.nil_append] at loop
  refine ⟨_, ⟨_, loop⟩, holds, ?_⟩
  rw [← List.forall_mem_map (f := Event.ts) (P := Timeval.Read), map_ts holds, List.forall_mem_map]
  exact read

section Sender
variable {records : List Record} {events : List Event}
  (holds : List.Forall₂ Record.Holds records events) (normal : ∀ e ∈ events, e.ts.Read)
include holds normal

theorem withDeltas_of_holds (uninitialized : Timeval) :
    if records ≠ [] ∧ records.Pairwise fun a b => a.ts.micros ≤ b.ts.micros then
      ∃ spaced, withDeltas uninitialized events = some spaced ∧ Spaced events spaced
    else withDeltas uninitialized events = none := by
  have empty : events = [] ↔ records = [] := by
    rw [← List.length_eq_zero_iff, ← holds.length_eq, List.length_eq_zero_iff]
  have spec := withDeltas_spec uninitialized normal
  simp only [map_ts holds, isChain_iff_pairwise, ne_eq, empty] at spec
  exact spec

theorem withDeltas_none_iff (uninitialized : Timeval) :
    withDeltas uninitialized events = none ↔
      records = [] ∨ ¬records.Pairwise fun a b => a.ts.micros ≤ b.ts.micros := by
  have spec := withDeltas_of_holds holds normal uninitialized
  by_cases good : records ≠ [] ∧ records.Pairwise fun a b => a.ts.micros ≤ b.ts.micros
  · rw [if_pos good] at spec
    obtain ⟨spaced, computed, -⟩ := spec
    rw [computed]
    exact iff_of_false (Option.some_ne_none spaced) fun bad =>
      bad.elim good.1 fun back => back good.2
  · rw [if_neg good] at spec
    refine iff_of_true spec ?_
    by_contra neither
    obtain ⟨some_, ordered⟩ := not_or.mp neither
    exact good ⟨some_, not_not.mp ordered⟩

theorem replayable_iff :
    (∃ spaced, Replayable events spaced) ↔
      2 ≤ records.length ∧ records.Pairwise fun a b => a.ts.micros ≤ b.ts.micros := by
  have spec := replayable_spec normal
  simp only [map_ts holds, isChain_iff_pairwise, ← holds.length_eq] at spec
  by_cases good : 2 ≤ records.length ∧ records.Pairwise fun a b => a.ts.micros ≤ b.ts.micros
  · rw [if_pos good] at spec
    obtain ⟨spaced, replayable, -⟩ := spec
    exact iff_of_true ⟨spaced, replayable⟩ good
  · rw [if_neg good] at spec
    exact iff_of_false (fun both => spec _ both.choose_spec) good

end Sender

/-- Any records are read back, but they can be replayed only if there are two and their times do
    not go back. Then each comes after the gap between its time and the one before it. -/
theorem replays_of_dump {records : List Record} (read : ∀ record ∈ records, record.ts.Read)
    (cut : Cut) (event : Event) :
    ∃ events, Reads cut pushBack [] (dump records) event events ∧
      List.Forall₂ Record.Holds records events ∧
      ((∃ spaced, Replayable events spaced) ↔
        2 ≤ records.length ∧ records.Pairwise fun a b => a.ts.micros ≤ b.ts.micros) ∧
      ∀ spaced, Replayable events spaced →
        Spaced events spaced ∧ ∀ e ∈ spaced, e.2.Read := by
  obtain ⟨events, reads, holds, normal⟩ := reads_dump read cut event
  exact ⟨events, reads, holds, replayable_iff holds normal, fun _ => spaced_of_replayable normal⟩

/-- Three packets of which the last is the first once more. -/
def sampleRecords : List Record :=
  [⟨⟨0, 0⟩, [128, 0, 0, 2, 7], nofun, by decide⟩,
    ⟨⟨1, 500⟩, [128, 0, 0, 1, 8], nofun, by decide⟩,
    ⟨⟨4, 0⟩, [128, 0, 0, 2, 7], nofun, by decide⟩]

theorem sampleRecords_read : ∀ record ∈ sampleRecords, record.ts.Read := by decide

theorem replays_of_dump_sample :
    ∃ events spaced, Reads zeroCut pushBack [] (dump sampleRecords) ⟨⟨0, 0⟩, 0, fun _ => 0⟩ events ∧
      Replayable events spaced ∧ Spaced events spaced := by
  obtain ⟨events, reads, -, exactly, spaces⟩ :=
    replays_of_dump sampleRecords_read zeroCut ⟨⟨0, 0⟩, 0, fun _ => 0⟩
  obtain ⟨spaced, replayable⟩ := exactly.mpr (by decide)
  exact ⟨events, spaced, reads, replayable, (spaces spaced replayable).1⟩

/-! ## From the one to the other -/

/-- The event holds the packet. -/
def Carries (h : Packet × Timeval) (event : Event) : Prop :=
  event.len.toInt = h.1.val.length ∧ event.pkt.Holds 0 h.1.val

/-- The file is read as what was heard, and if that is not nothing it is replayed so often, with
    the same gaps. -/
def Replayed (hs : List (Packet × Timeval)) (file : Bytes) : Prop :=
  ∀ cut event uninitialized, ∃ events, Reads cut pushBack [] file event events ∧
    List.Forall₂ Carries hs events ∧
    (hs ≠ [] → ∃ spaced, withDeltas uninitialized events = some spaced ∧
      spaced.map Prod.fst = events ∧
      spaced.tail.map (fun e => e.2.micros) = gaps (hs.map fun h => h.2.micros) ∧
      spaced.head?.map Prod.snd = spaced.getLast?.map Prod.snd ∧
      ∀ replay k, (replays replay spaced)[k]? =
        if k < replay.toInt.toNat * spaced.length then spaced[k % spaced.length]? else none)

theorem micros_of_stamped {first : Timeval} {records : List Record}
    {hs : List (Packet × Timeval)} (stamped : List.Forall₂ (Stamped first) records hs) :
    (records.map fun record => record.ts.micros) =
      (hs.map fun h => h.2.micros).map (· - first.micros) := by
  induction stamped with
  | nil => rfl
  | cons stamped _ ih => simp only [List.map_cons, stamped.micros, ih]

theorem read_of_stamped {first : Timeval} {records : List Record}
    {hs : List (Packet × Timeval)} (stamped : List.Forall₂ (Stamped first) records hs) :
    ∀ record ∈ records, record.ts.Read := by
  induction stamped with
  | nil => exact List.forall_mem_nil _
  | cons stamped _ ih => exact List.forall_mem_cons.mpr ⟨stamped.read, ih⟩

theorem carries_of_stamped {first : Timeval} {records : List Record}
    {hs : List (Packet × Timeval)} {events : List Event}
    (stamped : List.Forall₂ (Stamped first) records hs)
    (holds : List.Forall₂ Record.Holds records events) : List.Forall₂ Carries hs events := by
  induction stamped generalizing events with
  | nil => cases holds; exact .nil
  | cons stamped _ ih =>
      cases holds with
      | cons held rest =>
          refine .cons ⟨?_, ?_⟩ (ih rest)
          · rw [held.len, stamped.pkt]
          · rw [← stamped.pkt]
            exact held.pkt

theorem replayed_of_stamped {first : Timeval} {records : List Record}
    {hs : List (Packet × Timeval)} (stamped : List.Forall₂ (Stamped first) records hs)
    (ordered : hs.Pairwise fun a b => a.2.micros ≤ b.2.micros) : Replayed hs (dump records) := by
  intro cut event uninitialized
  obtain ⟨events, reads, holds, normal⟩ := reads_dump (read_of_stamped stamped) cut event
  have spec := withDeltas_of_holds holds normal uninitialized
  have micros := micros_of_stamped stamped
  refine ⟨events, reads, carries_of_stamped stamped holds, fun some_ => ?_⟩
  have nonempty : records ≠ [] := by
    rintro rfl
    cases stamped
    exact some_ rfl
  have ascending : records.Pairwise fun a b => a.ts.micros ≤ b.ts.micros := by
    have all : (records.map fun record => record.ts.micros).Pairwise (· ≤ ·) := by
      rw [micros, List.map_map, List.pairwise_map]
      exact ordered.imp fun le => Int.sub_le_sub_right le _
    exact List.pairwise_map.mp all
  rw [if_pos ⟨nonempty, ascending⟩] at spec
  obtain ⟨spaced, computed, same, steps, cyclic⟩ := spec
  refine ⟨spaced, computed, same, ?_, cyclic, fun replay k => replays_getElem? replay spaced k⟩
  have stamps : (events.map fun e => e.ts.micros) = records.map fun record => record.ts.micros := by
    have all := congrArg (List.map Timeval.micros) (map_ts holds)
    rwa [List.map_map, List.map_map] at all
  rw [steps, stamps, micros, gaps_shift]

/-- Where the clock does not go back, the receiver goes on or ends at the first failure, timeout or
    twentieth call in a row without a packet, and the sender replays what was heard until then. -/
theorem recording_replayed {useCors : Bool} {arrivals : List (Arrival (Packet × Timeval))}
    (clocked : Clocked (Arrival.heard arrivals))
    (served : useCors = true ∨ .nothing ∉ arrivals) :
    ((∃ r, Arrival.listen useCors Receiver.store 0 .start arrivals = .waits r) ∧
        Arrival.Goes useCors arrivals) ∨
      ∃ r before, Arrival.listen useCors Receiver.store 0 .start arrivals = .ends r ∧
        Arrival.StopsAfter useCors before arrivals ∧
        Replayed (Arrival.heard before) r.finish := by
  obtain ⟨all, ran, -⟩ := Receiver.holds_of_attempt clocked
  obtain ⟨waits, goes⟩ | ⟨before, r, ended, stops, reached⟩ := Arrival.listen_spec ran served
  · exact .inl ⟨⟨all, waits⟩, goes⟩
  · refine .inr ⟨r, before, ended, stops, ?_⟩
    obtain ⟨-, last, after, split, -⟩ := stops
    obtain ⟨read, ordered⟩ := clocked
    rw [split, Arrival.heard_append] at read ordered
    have early : Clocked (Arrival.heard before) :=
      ⟨fun h member => read h (List.mem_append_left _ member), (List.pairwise_append.mp ordered).1⟩
    obtain ⟨r', same, ⟨records, file, stamped⟩, -⟩ := Receiver.holds_of_attempt early
    obtain rfl := Option.some.inj (reached.symm.trans same)
    rw [Receiver.finish, file]
    exact replayed_of_stamped stamped early.ordered

/-- Three packets, and then no more. -/
def sampleArrivals : List (Arrival (Packet × Timeval)) :=
  [.packet (⟨[7], by decide⟩, ⟨5, 999999⟩), .nothing,
    .packet (⟨emptyRecord.pkt, emptyRecord.short⟩, ⟨6, 0⟩),
    .packet (⟨[8, 9], by decide⟩, ⟨8, 5⟩), .timeout]

theorem recording_replayed_sample :
    ∃ r before, Arrival.listen true Receiver.store 0 .start sampleArrivals = .ends r ∧
      Arrival.StopsAfter true before sampleArrivals ∧ Replayed (Arrival.heard before) r.finish := by
  obtain ⟨⟨r, waits⟩, -⟩ | ends :=
    @recording_replayed true sampleArrivals ⟨by decide, by decide⟩ (.inl rfl)
  · have ended : ∃ r, Arrival.listen true Receiver.store 0 .start sampleArrivals = .ends r :=
      ⟨_, rfl⟩
    obtain ⟨r', ends⟩ := ended
    cases waits.symm.trans ends
  · exact ends

end RtpData

end Cors
