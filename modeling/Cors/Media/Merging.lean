import Mathlib.Data.List.Nodup
import Mathlib.Data.List.Perm.Basic
import Cors.Lib.Wrapping
import Cors.Media.TwoPathBuffer

/-! # Merging two paths

Every number that was accepted is played, in the buffer or on the bench, and those that are not
played are behind those that are. This breaks where the first direct frame leaves smaller numbers
on the bench behind, and where something is written after the last number was played.
-/

namespace Cors

namespace TwoPathBuffer

/-- The numbers of all frames. -/
def numbers (frames : List RTPDataFrame) : List Nat := frames.map number

/-- What was played and accepted, and what is there. -/
structure Sound (jb : TwoPathBuffer) (played accepted : List RTPDataFrame) : Prop where
  filed : ∀ e ∈ jb.bench.entries, number e.2 = e.1
  ascending : Insertion.Ascending number (played ++ jb.buffer)
  beyond : ∀ e ∈ jb.bench.entries, ∀ p ∈ played, number p < e.1
  bufferFloor : ∀ f ∈ jb.buffer, jb.sequenceDeadline.toNat ≤ number f
  benchFloor : ∀ e ∈ jb.bench.entries, jb.sequenceDeadline.toNat ≤ e.1
  last : ∀ p ∈ played.getLast?, jb.sequenceDeadline.toNat = (number p + 1) % 65536
  untimed : jb.timestampDeadline = 0
  counter : 0 ≤ jb.recvPackets.toInt ∧ jb.recvPackets.toInt ≤ (played ++ jb.buffer).length
  started : jb.recvPackets = 0 → played ++ jb.buffer = []
  accounted : ∀ n, n ∈ numbers accepted ↔
    n ∈ numbers (played ++ jb.buffer) ∨ ∃ e ∈ jb.bench.entries, e.1 = n
  frames : ∀ f ∈ played ++ jb.buffer, f ∈ accepted
  benched : ∀ e ∈ jb.bench.entries, e.2 ∈ accepted

theorem number_lt (frame : RTPDataFrame) : number frame < 65536 := frame.getSequenceNumber.toNat_lt

theorem length_le_of_ascending {frames : List RTPDataFrame}
    (ascending : Insertion.Ascending number frames) : frames.length ≤ 65536 := by
  have distinct : (numbers frames).Nodup :=
    List.pairwise_map.mpr (ascending.imp fun less => Nat.ne_of_lt less)
  have inside : numbers frames ⊆ List.range 65536 := by
    intro n member
    obtain ⟨f, -, rfl⟩ := List.mem_map.mp member
    exact List.mem_range.mpr (number_lt f)
  have fits := (List.subperm_of_subset distinct inside).length_le
  rwa [numbers, List.length_map, List.length_range] at fits

theorem counter_succ {c : Int32} {n : Nat} (low : 0 ≤ c.toInt) (high : c.toInt ≤ n)
    (small : n ≤ 65536) : (c + 1).toInt = c.toInt + 1 ∧ c + 1 ≠ 0 := by
  have one : (1 : Int32).toInt = 1 := rfl
  have sum := Wrapping.add_toInt (a := c) (b := 1) (by
    rw [one]
    exact ⟨by omega, by omega⟩)
  rw [one] at sum
  refine ⟨sum, fun zero => ?_⟩
  rw [zero] at sum
  have none : (0 : Int32).toInt = 0 := rfl
  omega

theorem new_sound (minLength : Int32) : Sound (new minLength) [] [] where
  filed := fun _ none => nomatch none
  ascending := .nil
  beyond := fun _ none => nomatch none
  bufferFloor := fun _ none => nomatch none
  benchFloor := fun _ none => nomatch none
  last := fun _ none => nomatch none
  untimed := rfl
  counter := ⟨Int.le_refl 0, Int.le_refl 0⟩
  started := fun _ => rfl
  accounted := fun _ => ⟨fun none => (nomatch none), fun none =>
    none.elim (fun none => nomatch none) fun ⟨_, none, _⟩ => nomatch none⟩
  frames := fun _ none => nomatch none
  benched := fun _ none => nomatch none

section Sound
variable {jb : TwoPathBuffer} {played accepted : List RTPDataFrame}

/-- The last number was not played. -/
def Open (played : List RTPDataFrame) : Prop := ∀ p ∈ played, number p ≠ 65535

theorem Sound.played_lt (sound : Sound jb played accepted) (opened : Open played) :
    ∀ p ∈ played, number p < jb.sequenceDeadline.toNat := by
  intro p member
  have nonempty := List.ne_nil_of_mem member
  have split := List.dropLast_append_getLast nonempty
  have other := opened _ (List.getLast_mem nonempty)
  have small := number_lt (played.getLast nonempty)
  have deadline := sound.last _ (List.getLast?_eq_some_getLast nonempty)
  have ascending := (List.pairwise_append.mp sound.ascending).1
  rw [← split] at member ascending
  cases List.mem_append.mp member with
  | inl earlier =>
      have less := (List.pairwise_append.mp ascending).2.2 p earlier _ (List.mem_singleton_self _)
      omega
  | inr last =>
      rw [List.mem_singleton.mp last]
      omega

/-- Frames on the bench that are in the buffer too can be taken away. -/
theorem Sound.shrink (sound : Sound jb played accepted) {bench : OrderedMap Nat RTPDataFrame}
    (fewer : ∀ e ∈ bench.entries, e ∈ jb.bench.entries)
    (twice : ∀ e ∈ jb.bench.entries, e ∈ bench.entries ∨ e.1 ∈ numbers jb.buffer) :
    Sound { jb with bench } played accepted where
  filed := fun e member => sound.filed e (fewer e member)
  ascending := sound.ascending
  beyond := fun e member => sound.beyond e (fewer e member)
  bufferFloor := sound.bufferFloor
  benchFloor := fun e member => sound.benchFloor e (fewer e member)
  last := sound.last
  untimed := sound.untimed
  counter := sound.counter
  started := sound.started
  accounted := by
    intro n
    rw [sound.accounted n]
    constructor
    · rintro (there | ⟨e, member, rfl⟩)
      · exact .inl there
      · cases twice e member with
        | inl kept => exact .inr ⟨e, kept, rfl⟩
        | inr same =>
            rw [numbers, List.map_append]
            exact .inl (List.mem_append_right _ same)
    · rintro (there | ⟨e, member, rfl⟩)
      · exact .inl there
      · exact .inr ⟨e, fewer e member, rfl⟩
  frames := sound.frames
  benched := fun e member => sound.benched e (fewer e member)

theorem Sound.drop (sound : Sound jb played accepted) {k : Nat} (twice : k ∈ numbers jb.buffer) :
    Sound { jb with bench := jb.bench.remove k } played accepted := by
  refine sound.shrink (fun e member => (List.mem_filter.mp member).1) fun e member => ?_
  by_cases own : e.1 = k
  · exact .inr (own ▸ twice)
  · exact .inl (List.mem_filter.mpr ⟨member, by simpa using own⟩)

theorem Sound.enter (sound : Sound jb played accepted) {f : RTPDataFrame}
    {buffer accepted' : List RTPDataFrame} (later : ∀ p ∈ played, number p < number f)
    (floor : jb.sequenceDeadline.toNat ≤ number f) (ordered : Insertion.Ascending number buffer)
    (members : ∀ g, g ∈ buffer ↔ g = f ∨ g ∈ jb.buffer)
    (longer : buffer.length = jb.buffer.length + 1) (own : f ∈ accepted')
    (more : ∀ g ∈ accepted, g ∈ accepted')
    (counted : ∀ n, n ∈ numbers accepted' ↔ n = number f ∨ n ∈ numbers accepted) :
    Sound { jb with buffer, recvPackets := jb.recvPackets + 1 } played accepted' := by
  have old := List.pairwise_append.mp sound.ascending
  have total := length_le_of_ascending sound.ascending
  have next := counter_succ sound.counter.1 sound.counter.2 total
  constructor
  case filed => exact sound.filed
  case ascending =>
    refine List.pairwise_append.mpr ⟨old.1, ordered, fun p before g member => ?_⟩
    cases (members g).mp member with
    | inl new => exact new ▸ later p before
    | inr there => exact old.2.2 p before g there
  case beyond => exact sound.beyond
  case bufferFloor =>
    intro g member
    cases (members g).mp member with
    | inl new => exact new ▸ floor
    | inr there => exact sound.bufferFloor g there
  case benchFloor => exact sound.benchFloor
  case last => exact sound.last
  case untimed => exact sound.untimed
  case counter =>
    have low := sound.counter.1
    have high := sound.counter.2
    rw [List.length_append] at high ⊢
    dsimp only
    rw [next.1, longer]
    omega
  case started => exact fun zero => absurd zero next.2
  case accounted =>
    intro n
    rw [counted, sound.accounted]
    simp only [numbers, List.map_append, List.mem_append, List.mem_map]
    constructor
    · rintro (rfl | (played | ⟨g, there, rfl⟩) | bench)
      · exact .inl (.inr ⟨f, (members f).mpr (.inl rfl), rfl⟩)
      · exact .inl (.inl played)
      · exact .inl (.inr ⟨g, (members g).mpr (.inr there), rfl⟩)
      · exact .inr bench
    · rintro ((played | ⟨g, there, rfl⟩) | bench)
      · exact .inr (.inl (.inl played))
      · cases (members g).mp there with
        | inl new => exact .inl (congrArg number new)
        | inr old => exact .inr (.inl (.inr ⟨g, old, rfl⟩))
      · exact .inr (.inr bench)
  case frames =>
    intro g member
    cases List.mem_append.mp member with
    | inl before => exact more g (sound.frames g (List.mem_append_left _ before))
    | inr there =>
        cases (members g).mp there with
        | inl new => exact new ▸ own
        | inr old => exact more g (sound.frames g (List.mem_append_right _ old))
  case benched => exact fun e member => more _ (sound.benched e member)

theorem Sound.play (sound : Sound jb played accepted) {front : RTPDataFrame}
    {buffer : List RTPDataFrame} (there : jb.buffer = front :: buffer)
    (least : ∀ e ∈ jb.bench.entries, number front < e.1) {deadline : UInt16}
    (behind : deadline.toNat = (number front + 1) % 65536) :
    Sound { jb with buffer, sequenceDeadline := deadline } (played ++ [front]) accepted := by
  have whole : played ++ [front] ++ buffer = played ++ jb.buffer := by
    rw [there, List.append_assoc, List.singleton_append]
  have small := number_lt front
  have tail : ∀ f ∈ buffer, number front < number f := by
    have ascending := (List.pairwise_append.mp sound.ascending).2.1
    rw [there] at ascending
    exact (List.pairwise_cons.mp ascending).1
  constructor
  case filed => exact sound.filed
  case ascending =>
    rw [whole]
    exact sound.ascending
  case beyond =>
    intro e member p before
    cases List.mem_append.mp before with
    | inl earlier => exact sound.beyond e member p earlier
    | inr last => exact List.mem_singleton.mp last ▸ least e member
  case bufferFloor =>
    intro f member
    have less := tail f member
    have bound := number_lt f
    dsimp only
    omega
  case benchFloor =>
    intro e member
    have less := least e member
    have bound := number_lt e.2
    rw [sound.filed e member] at bound
    dsimp only
    omega
  case last =>
    intro p own
    rw [List.getLast?_concat] at own
    obtain rfl := Option.some.inj own
    exact behind
  case untimed => exact sound.untimed
  case counter =>
    rw [whole]
    exact sound.counter
  case started =>
    rw [whole]
    exact sound.started
  case accounted =>
    rw [whole]
    exact sound.accounted
  case frames =>
    rw [whole]
    exact sound.frames
  case benched => exact sound.benched

theorem Sound.recount (sound : Sound jb played accepted) {c : Int32} (low : 0 ≤ c.toInt)
    (high : c.toInt ≤ (played ++ jb.buffer).length) (some : c ≠ 0) :
    Sound { jb with recvPackets := c } played accepted :=
  { sound with counter := ⟨low, high⟩, started := fun zero => absurd zero some }

theorem numbers_concat (frames : List RTPDataFrame) (f : RTPDataFrame) (n : Nat) :
    n ∈ numbers (frames ++ [f]) ↔ n = number f ∨ n ∈ numbers frames := by
  rw [numbers, List.map_append, List.mem_append, List.map_singleton, List.mem_singleton, or_comm]
  rfl

/-- The first direct frame, where no smaller number is on the bench. -/
theorem Sound.first (sound : Sound jb played accepted) (none : jb.recvPackets = 0)
    {f : RTPDataFrame} (least : ∀ e ∈ jb.bench.entries, number f ≤ e.1) :
    Sound { jb with
      buffer := jb.buffer ++ [f]
      sequenceDeadline := f.getSequenceNumber
      recvPackets := jb.recvPackets + 1 } played (accepted ++ [f]) := by
  obtain ⟨unplayed, empty⟩ := List.append_eq_nil_iff.mp (sound.started none)
  have accounted := sound.accounted
  have one : 0 ≤ ((0 : Int32) + 1).toInt := by decide
  have other : (0 : Int32) + 1 ≠ 0 := by decide
  rw [unplayed, empty] at accounted ⊢
  rw [none]
  constructor
  case filed => exact sound.filed
  case ascending => exact List.pairwise_singleton _ f
  case beyond => exact fun _ _ _ none => nomatch none
  case bufferFloor =>
    intro g own
    exact Nat.le_of_eq (congrArg number (List.mem_singleton.mp own).symm)
  case benchFloor => exact least
  case last => exact fun _ none => nomatch none
  case untimed => exact sound.untimed
  case counter => exact ⟨one, Int.le_refl 1⟩
  case started => exact fun zero => absurd zero other
  case accounted =>
    intro n
    rw [numbers_concat, accounted]
    simp [numbers, eq_comm]
  case frames =>
    intro g own
    exact List.mem_append_right _ own
  case benched => exact fun e member => List.mem_append_left _ (sound.benched e member)

theorem Sound.insertBench (sound : Sound jb played accepted) {f : RTPDataFrame}
    (later : ∀ p ∈ played, number p < number f) (punctual : jb.sequenceDeadline.toNat ≤ number f)
    (found : jb.bench.search (number f) = none) :
    Sound { jb with bench := jb.bench.insert (number f) f } played (accepted ++ [f]) := by
  have members := OrderedMap.mem_insert_of_none found f
  have more : ∀ g ∈ accepted, g ∈ accepted ++ [f] := fun _ => List.mem_append_left _
  constructor
  case filed =>
    intro e member
    cases (members e).mp member with
    | inl new => exact new ▸ rfl
    | inr old => exact sound.filed e old
  case ascending => exact sound.ascending
  case beyond =>
    intro e member
    cases (members e).mp member with
    | inl new => exact new ▸ later
    | inr old => exact sound.beyond e old
  case bufferFloor => exact sound.bufferFloor
  case benchFloor =>
    intro e member
    cases (members e).mp member with
    | inl new => exact new ▸ punctual
    | inr old => exact sound.benchFloor e old
  case last => exact sound.last
  case untimed => exact sound.untimed
  case counter => exact sound.counter
  case started => exact sound.started
  case accounted =>
    intro n
    rw [numbers_concat, sound.accounted]
    constructor
    · rintro (rfl | there | ⟨e, member, rfl⟩)
      · exact .inr ⟨_, (members _).mpr (.inl rfl), rfl⟩
      · exact .inl there
      · exact .inr ⟨e, (members e).mpr (.inr member), rfl⟩
    · rintro (there | ⟨e, member, rfl⟩)
      · exact .inr (.inl there)
      · cases (members e).mp member with
        | inl new => exact .inl (congrArg Prod.fst new)
        | inr old => exact .inr (.inr ⟨e, old, rfl⟩)
  case frames => exact fun g member => more g (sound.frames g member)
  case benched =>
    intro e member
    cases (members e).mp member with
    | inl new => exact new ▸ List.mem_append_right _ (List.mem_singleton_self f)
    | inr old => exact more _ (sound.benched e old)

theorem Sound.addToBench (sound : Sound jb played accepted) (opened : Open played)
    {f : RTPDataFrame} (punctual : jb.sequenceDeadline.toNat ≤ number f) :
    Sound (jb.addToBench f) played (accepted ++ [f]) := by
  rw [TwoPathBuffer.addToBench]
  cases found : jb.bench.search (number f) with
  | some old =>
      have entry := OrderedMap.mem_of_search found
      have more : ∀ g ∈ accepted, g ∈ accepted ++ [f] := fun _ => List.mem_append_left _
      refine { sound with accounted := fun n => ?_, frames := fun g member => ?_, benched := ?_ }
      · rw [numbers_concat, ← sound.accounted]
        refine or_iff_right_of_imp fun own => (sound.accounted n).mpr (.inr ?_)
        exact ⟨_, entry, own.symm⟩
      · exact more g (sound.frames g member)
      · exact fun e member => more _ (sound.benched e member)
  | none =>
      have later : ∀ p ∈ played, number p < number f := fun p member =>
        Nat.lt_of_lt_of_le (sound.played_lt opened p member) punctual
      exact sound.insertBench later punctual found

theorem Sound.enqueue (sound : Sound jb played accepted) {f : RTPDataFrame}
    {accepted' : List RTPDataFrame} (later : ∀ p ∈ played, number p < number f)
    (floor : jb.sequenceDeadline.toNat ≤ number f) (own : f ∈ accepted')
    (more : ∀ g ∈ accepted, g ∈ accepted')
    (counted : ∀ n, n ∈ numbers accepted' ↔ n = number f ∨ n ∈ numbers accepted) :
    number f ∈ numbers jb.buffer ∧ jb.enqueue f = (jb, false) ∨
      Sound (jb.enqueue f).1 played accepted' ∧ (jb.enqueue f).2 = true ∧
        number f ∈ numbers (jb.enqueue f).1.buffer ∧ (jb.enqueue f).1.bench = jb.bench ∧
        ∀ n ∈ numbers jb.buffer, n ∈ numbers (jb.enqueue f).1.buffer := by
  have ordered := (List.pairwise_append.mp sound.ascending).2.1
  rw [TwoPathBuffer.enqueue]
  cases inserted : Insertion.insert number f jb.buffer with
  | none =>
      obtain ⟨g, member, same⟩ := Insertion.insert_none inserted
      exact .inl ⟨List.mem_map.mpr ⟨g, member, same⟩, rfl⟩
  | some buffer =>
      have members := Insertion.mem_of_insert ordered inserted
      have entered := sound.enter later floor (Insertion.ascending_of_insert ordered inserted)
        members (Insertion.length_of_insert ordered inserted) own more counted
      refine .inr ⟨entered, rfl, List.mem_map_of_mem ((members f).mpr (.inl rfl)), rfl, ?_⟩
      intro n there
      obtain ⟨g, member, rfl⟩ := List.mem_map.mp there
      exact List.mem_map_of_mem ((members g).mpr (.inr member))

/-- A frame of the bench goes into the buffer and is taken off the bench. -/
theorem Sound.move (sound : Sound jb played accepted) {e : Nat × RTPDataFrame}
    (member : e ∈ jb.bench.entries) {jb' : TwoPathBuffer}
    (moved : Sound jb' played accepted) (there : number e.2 ∈ numbers jb'.buffer)
    (same : jb'.bench = jb.bench) :
    Sound { jb' with bench := jb.bench.remove e.1 } played accepted := by
  rw [sound.filed e member] at there
  rw [← same]
  exact moved.drop there

theorem Sound.counted (sound : Sound jb played accepted) {e : Nat × RTPDataFrame}
    (member : e ∈ jb.bench.entries) (n : Nat) :
    n ∈ numbers accepted ↔ n = number e.2 ∨ n ∈ numbers accepted := by
  refine (or_iff_right_of_imp fun own => ?_).symm
  rw [own]
  exact (sound.accounted _).mpr (.inr ⟨e, member, (sound.filed e member).symm⟩)

theorem Sound.settle (sound : Sound jb played accepted) {entries : List (Nat × RTPDataFrame)}
    (inside : ∀ e ∈ entries, e ∈ jb.bench.entries) :
    Sound (jb.settle entries) played accepted ∧ (jb.settle entries).bench = jb.bench ∧
      (∀ n ∈ numbers jb.buffer, n ∈ numbers (jb.settle entries).buffer) ∧
      ∀ e ∈ entries, e.1 ∈ numbers (jb.settle entries).buffer := by
  induction entries generalizing jb with
  | nil => exact ⟨sound, rfl, fun _ => id, List.forall_mem_nil _⟩
  | cons e entries ih =>
      obtain ⟨member, others⟩ := List.forall_mem_cons.mp inside
      obtain ⟨k, frame⟩ := e
      have own : number frame = k := sound.filed (k, frame) member
      have later : ∀ p ∈ played, number p < number frame := by
        rw [own]
        exact sound.beyond (k, frame) member
      have floor : jb.sequenceDeadline.toNat ≤ number frame := by
        rw [own]
        exact sound.benchFloor (k, frame) member
      have taken : frame ∈ accepted := sound.benched (k, frame) member
      have counted (n : Nat) : n ∈ numbers accepted ↔ n = number frame ∨ n ∈ numbers accepted :=
        sound.counted member n
      rw [TwoPathBuffer.settle, if_pos floor]
      obtain ⟨twice, refused⟩ | ⟨entered, -, there, same, kept⟩ :=
        sound.enqueue later floor taken (fun _ => id) counted
      · rw [refused]
        obtain ⟨settled, bench, stay, all⟩ := ih sound others
        exact ⟨settled, bench, stay, List.forall_mem_cons.mpr ⟨stay k (own ▸ twice), all⟩⟩
      · obtain ⟨settled, bench, stay, all⟩ := ih entered (same ▸ others)
        exact ⟨settled, bench.trans same, fun n before => stay n (kept n before),
          List.forall_mem_cons.mpr ⟨stay k (own ▸ there), all⟩⟩

theorem Sound.clear (sound : Sound jb played accepted) : Sound jb.clear played accepted := by
  have inside : ∀ e ∈ jb.bench.entries, e ∈ jb.bench.entries := fun _ => id
  obtain ⟨settled, bench, -, all⟩ := sound.settle inside
  refine settled.shrink (fun e none => nomatch none) fun e member => .inr ?_
  rw [bench] at member
  exact all e member

theorem search_none {bench : OrderedMap Nat RTPDataFrame} {k : Nat} (none : bench.search k = none) :
    ∀ e ∈ bench.entries, e.1 ≠ k := by
  intro e member
  have absent := List.find?_eq_none.mp (Option.map_eq_none_iff.mp none) e member
  simpa using absent

/-- The loop ends at the first number on the bench, or else in front of the buffer. -/
theorem seek_cases (bench : OrderedMap Nat RTPDataFrame) {stop i : Nat} (le : i ≤ stop) :
    (∃ k frame, seek bench stop i = (k, some frame) ∧ k < stop ∧ (k, frame) ∈ bench.entries ∧
        ∀ e ∈ bench.entries, i ≤ e.1 → k ≤ e.1) ∨
      seek bench stop i = (stop, none) ∧ ∀ e ∈ bench.entries, i ≤ e.1 → stop ≤ e.1 := by
  obtain ⟨n, rfl⟩ := Nat.exists_eq_add_of_le le
  rw [seek, Nat.add_sub_cancel_left]
  induction n generalizing i with
  | zero => exact .inr ⟨rfl, fun _ _ => id⟩
  | succ n ih =>
      rw [seekFor]
      cases found : bench.search i with
      | some frame =>
          exact .inl ⟨i, frame, rfl, by omega, OrderedMap.mem_of_search found, fun _ _ => id⟩
      | none =>
          have other := search_none found
          have step : i + 1 + n = i + (n + 1) := by omega
          have later := ih (i := i + 1) (by omega)
          rw [step] at later
          rcases later with ⟨k, frame, ends, before, member, least⟩ | ⟨ends, least⟩
          · refine .inl ⟨k, frame, ends, before, member, fun e there le => least e there ?_⟩
            have differs := other e there
            omega
          · refine .inr ⟨ends, fun e there le => least e there ?_⟩
            have differs := other e there
            omega

theorem Sound.lift (sound : Sound jb played accepted) {k : Nat} {frame front : RTPDataFrame}
    {buffer : List RTPDataFrame} (there : jb.buffer = front :: buffer)
    (entry : (k, frame) ∈ jb.bench.entries) (ahead : k < number front) :
    Sound { jb with
      buffer := frame :: jb.buffer
      recvPackets := jb.recvPackets + 1
      bench := jb.bench.remove k } played accepted := by
  have own : number frame = k := sound.filed (k, frame) entry
  have ordered := (List.pairwise_append.mp sound.ascending).2.1
  have later : ∀ p ∈ played, number p < number frame := by
    rw [own]
    exact sound.beyond (k, frame) entry
  have above : jb.sequenceDeadline.toNat ≤ number frame := by
    rw [own]
    exact sound.benchFloor (k, frame) entry
  have first : Insertion.Ascending number (frame :: jb.buffer) := by
    rw [there] at ordered ⊢
    rw [← own] at ahead
    refine List.pairwise_cons.mpr ⟨List.forall_mem_cons.mpr ⟨ahead, fun f rest => ?_⟩, ordered⟩
    exact Nat.lt_trans ahead ((List.pairwise_cons.mp ordered).1 f rest)
  have taken : frame ∈ accepted := sound.benched (k, frame) entry
  have counted (n : Nat) : n ∈ numbers accepted ↔ n = number frame ∨ n ∈ numbers accepted :=
    sound.counted entry n
  have members (g : RTPDataFrame) : g ∈ frame :: jb.buffer ↔ g = frame ∨ g ∈ jb.buffer :=
    List.mem_cons
  have entered := sound.enter later above first members rfl taken (fun _ => id) counted
  exact sound.move entry entered (List.mem_map_of_mem List.mem_cons_self) rfl

theorem Sound.prepare (sound : Sound jb played accepted) (timestamp last : UInt32) :
    Sound (jb.prepare timestamp last).1 played accepted := by
  rw [TwoPathBuffer.prepare]
  cases there : jb.buffer with
  | nil => exact sound
  | cons front buffer =>
      have first : front ∈ jb.buffer := by
        rw [there]
        exact List.mem_cons_self
      have floor := sound.bufferFloor front first
      obtain ⟨k, frame, ends, before, entry, -⟩ | ⟨ends, -⟩ := seek_cases jb.bench floor
      · dsimp only
        rw [ends, ← there]
        exact sound.lift there entry before
      · dsimp only
        rw [ends, ← there]
        exact sound.drop (List.mem_map_of_mem first)

theorem succ_toNat (x : UInt16) : (x + 1).toNat = (x.toNat + 1) % 65536 := UInt16.toNat_add x 1

theorem Sound.playFront (sound : Sound jb played accepted) {front : RTPDataFrame}
    {buffer : List RTPDataFrame} (there : jb.buffer = front :: buffer)
    (least : ∀ e ∈ jb.bench.entries, number front ≤ e.1) :
    Sound { jb with
      bench := jb.bench.remove (number front)
      sequenceDeadline := front.getSequenceNumber + 1
      buffer } (played ++ [front]) accepted := by
  have twice : number front ∈ numbers jb.buffer := by
    rw [there]
    exact List.mem_map_of_mem List.mem_cons_self
  refine (sound.drop twice).play there (fun e member => ?_) (succ_toNat _)
  obtain ⟨entry, other⟩ := List.mem_filter.mp member
  exact Nat.lt_of_le_of_ne (least e entry) fun same => of_decide_eq_true other same.symm

/-- The first frame of the bench is played, if it is in front of the buffer. -/
theorem Sound.playBench (sound : Sound jb played accepted) {k : Nat} {frame front : RTPDataFrame}
    {buffer : List RTPDataFrame} (there : jb.buffer = front :: buffer)
    (entry : (k, frame) ∈ jb.bench.entries) (ahead : k < number front)
    (least : ∀ e ∈ jb.bench.entries, k ≤ e.1) {c : Int32}
    (counts : c = jb.recvPackets ∨ c = jb.recvPackets + 1) {deadline : UInt16}
    (behind : deadline.toNat = (k + 1) % 65536) :
    Sound { jb with
      recvPackets := c
      sequenceDeadline := deadline
      bench := jb.bench.remove k } (played ++ [frame]) accepted := by
  have own : number frame = k := sound.filed (k, frame) entry
  have playing := (sound.lift there entry ahead).play rfl (fun e member => ?_) (own ▸ behind)
  · have total := length_le_of_ascending sound.ascending
    have next := counter_succ sound.counter.1 sound.counter.2 total
    have some : jb.recvPackets ≠ 0 := fun zero => by
      have empty := sound.started zero
      rw [there] at empty
      exact absurd (List.append_eq_nil_iff.mp empty).2 (List.cons_ne_nil _ _)
    have low := sound.counter.1
    have high := sound.counter.2
    refine playing.recount ?_ ?_ ?_
    · rcases counts with rfl | rfl
      · exact low
      · omega
    · simp only [List.length_append, List.length_singleton] at high ⊢
      rcases counts with rfl | rfl <;> omega
    · rcases counts with rfl | rfl
      · exact some
      · exact next.2
  · obtain ⟨there, other⟩ := List.mem_filter.mp member
    rw [own]
    exact Nat.lt_of_le_of_ne (least e there) fun same => of_decide_eq_true other same.symm

theorem sound_ite {due : Bool} {taken left : TwoPathBuffer} {f : RTPDataFrame}
    (plays : Sound taken (played ++ [f]) accepted) (stays : Sound left played accepted) :
    Sound (if due then (taken, some f) else (left, none)).1
      (played ++ (if due then (taken, some f) else (left, none)).2.toList) accepted := by
  cases due with
  | true => exact plays
  | false => simpa using stays

theorem Sound.take (sound : Sound jb played accepted) {front : RTPDataFrame}
    {buffer : List RTPDataFrame} (there : jb.buffer = front :: buffer) (timestamp last : UInt32) :
    Sound (jb.take timestamp last front buffer).1
      (played ++ (jb.take timestamp last front buffer).2.toList) accepted := by
  have first : front ∈ jb.buffer := by
    rw [there]
    exact List.mem_cons_self
  have floor := sound.bufferFloor front first
  have twice : number front ∈ numbers jb.buffer := List.mem_map_of_mem first
  have bound := number_lt front
  rw [TwoPathBuffer.take]
  by_cases expected : front.getSequenceNumber = jb.sequenceDeadline
  · rw [if_pos expected]
    have least : ∀ e ∈ jb.bench.entries, number front ≤ e.1 := by
      rw [number, expected]
      exact sound.benchFloor
    exact sound_ite (sound.playFront there least) (sound.drop twice)
  · rw [if_neg expected]
    have before : jb.sequenceDeadline.toNat < number front := by
      refine Nat.lt_of_le_of_ne floor fun same => expected (UInt16.toNat_inj.mp same.symm)
    cases benched : jb.bench.search jb.sequenceDeadline.toNat with
    | some frame =>
        have entry := OrderedMap.mem_of_search benched
        have own : number frame = jb.sequenceDeadline.toNat :=
          sound.filed (jb.sequenceDeadline.toNat, frame) entry
        have behind : (frame.getSequenceNumber + 1).toNat =
            (jb.sequenceDeadline.toNat + 1) % 65536 := by
          rw [succ_toNat, ← own]
          rfl
        exact sound_ite
          (sound.playBench there entry before sound.benchFloor (.inr rfl) behind) sound
    | none =>
        have other := search_none benched
        have start : (jb.sequenceDeadline + 1).toNat = jb.sequenceDeadline.toNat + 1 := by
          rw [succ_toNat]
          omega
        have above : ∀ e ∈ jb.bench.entries, jb.sequenceDeadline.toNat + 1 ≤ e.1 := fun e member =>
          Nat.lt_of_le_of_ne (sound.benchFloor e member) (other e member).symm
        have next (i : Nat) : (UInt16.ofNat i + 1).toNat = (i + 1) % 65536 := by
          rw [succ_toNat, UInt16.toNat_ofNat']
          omega
        dsimp only
        rw [start]
        obtain ⟨k, frame, ends, ahead, entry, least⟩ | ⟨ends, least⟩ :=
          seek_cases jb.bench (Nat.succ_le_of_lt before)
        · have first : ∀ e ∈ jb.bench.entries, k ≤ e.1 := fun e member =>
            least e member (above e member)
          rw [ends]
          exact sound_ite (sound.playBench there entry ahead first (.inl rfl) (next k)) sound
        · have same : UInt16.ofNat (number front) = front.getSequenceNumber :=
            UInt16.ofNat_toNat
          have first : ∀ e ∈ jb.bench.entries, number front ≤ e.1 := fun e member =>
            least e member (above e member)
          rw [ends]
          dsimp only
          rw [same]
          exact sound_ite (sound.playFront there first) (sound.drop twice)

theorem Sound.read (sound : Sound jb played accepted) (timestamp : UInt32) :
    Sound (jb.read timestamp).1 (played ++ (jb.read timestamp).2.1.toList) accepted := by
  have cleared : Sound (if timestamp = clearing then jb.clear else jb) played accepted := by
    split
    · exact sound.clear
    · exact sound
  rw [TwoPathBuffer.read]
  generalize (if timestamp = clearing then jb.clear else jb) = jb at cleared
  dsimp only
  cases there : jb.buffer with
  | nil =>
      rw [Option.toList_none, List.append_nil]
      exact cleared
  | cons front buffer =>
      dsimp only
      generalize timeOf (buffer.getLastD front) = last
      have taken := cleared.take there timestamp last
      generalize jb.take timestamp last front buffer = result at taken
      obtain ⟨left, out⟩ := result
      cases out with
      | none => exact taken
      | some frame => exact taken.prepare timestamp last

theorem Sound.write (sound : Sound jb played accepted) (opened : Open played)
    {f : RTPDataFrame} {path : Int32}
    (first : path = 0 → jb.recvPackets = 0 → ∀ e ∈ jb.bench.entries, number f ≤ e.1) :
    Sound (jb.write f path).1 played (accepted ++ if (jb.write f path).2 then [f] else []) := by
  rw [TwoPathBuffer.write]
  by_cases indirect : path ≠ 0
  · rw [if_pos indirect]
    by_cases late : number f < jb.sequenceDeadline.toNat
    · rw [if_pos late]
      simpa using sound
    · rw [if_neg late]
      exact sound.addToBench opened (Nat.le_of_not_lt late)
  rw [if_neg indirect]
  by_cases none : jb.recvPackets = 0
  · rw [if_pos none]
    exact sound.first none (first (not_not.mp indirect) none)
  rw [if_neg none]
  by_cases late : number f < jb.sequenceDeadline.toNat ∨ timeOf f < jb.timestampDeadline
  · rw [if_pos late]
    simpa using sound
  · rw [if_neg late]
    have floor := Nat.le_of_not_lt fun less => late (.inl less)
    have later : ∀ p ∈ played, number p < number f := fun p member =>
      Nat.lt_of_lt_of_le (sound.played_lt opened p member) floor
    obtain ⟨-, refused⟩ | ⟨entered, taken, -⟩ := sound.enqueue later floor
      (List.mem_append_right accepted (List.mem_singleton_self f))
      (fun g member => List.mem_append_left [f] member) (numbers_concat accepted f)
    · rw [refused]
      simpa using sound
    · rw [taken]
      exact entered

end Sound

/-! ## Runs -/

section Runs
variable (minLength : Int32)

/-- The last number was not played before, and the first direct frame leaves no smaller number on
    the bench behind. -/
def Mergeable (es : List Event) : Event → Prop
  | .write f path => Open (played minLength es) ∧ (path = 0 →
      (after minLength es).recvPackets = 0 →
        ∀ e ∈ (after minLength es).bench.entries, number f ≤ e.1)
  | .read _ => True

theorem sound_of_kept {es : List Event} (kept : Run.Meets (Mergeable minLength) es) :
    Sound (after minLength es) (played minLength es) (accepted minLength es) := by
  let Holds (es : List Event) : Prop :=
    Sound (after minLength es) (played minLength es) (accepted minLength es)
  have start : Holds [] := new_sound minLength
  refine Run.history_of_kept start (fun es e sound meets => ?_) es kept
  change Sound _ _ _
  rw [after_concat, played_concat, accepted_concat]
  cases e with
  | write f path =>
      have wrote := sound.write meets.1 meets.2
      have taken : (accepts (after minLength es, .write f path)).toList =
          if ((after minLength es).write f path).2 then [f] else [] := by
        rw [accepts]
        split <;> rfl
      rw [taken]
      exact (List.append_nil (played minLength es)).symm ▸ wrote
  | read timestamp =>
      exact (List.append_nil (accepted minLength es)).symm ▸ sound.read timestamp

/-- Every number that was accepted is played, once and in order. -/
structure Merged (es : List Event) : Prop where
  increasing : (numbers (played minLength es)).Pairwise (· < ·)
  written : ∀ f ∈ played minLength es, ∃ path, .write f path ∈ es
  once : ∀ f ∈ accepted minLength es, (numbers (played minLength es)).count (number f) = 1

/-- The last event is a read at the largest time, and it finished. -/
def Ended (es : List Event) : Prop :=
  ∃ before, es = before ++ [.read clearing] ∧ ((after minLength before).read clearing).2.2 = true

end Runs

/-! ## Reading to the end -/

section Clearing
variable {jb : TwoPathBuffer}

theorem due_clearing (last : UInt32) (frame : RTPDataFrame) :
    jb.due clearing last frame = true := by
  simp [due]

theorem seek_bare {bench : OrderedMap Nat RTPDataFrame} (bare : bench.entries = []) (stop i : Nat) :
    (seek bench stop i).2 = none := by
  rw [seek]
  generalize stop - i = n
  induction n generalizing i with
  | zero => rfl
  | succ n ih =>
      have absent : bench.search i = none := by rw [OrderedMap.search, bare]; rfl
      rw [seekFor, absent]
      exact ih (i + 1)

theorem remove_bare {bench : OrderedMap Nat RTPDataFrame} (bare : bench.entries = []) (k : Nat) :
    (bench.remove k).entries = [] := by
  have kept : (bench.remove k).entries = bench.entries.filter fun e => e.1 ≠ k := rfl
  rw [kept, bare]
  rfl

theorem clear_bare (bare : jb.bench.entries = []) : jb.clear.buffer = jb.buffer := by
  rw [clear, bare]
  rfl

/-- Without a bench the front of the buffer is taken. -/
theorem take_clearing (bare : jb.bench.entries = []) (last : UInt32) (front : RTPDataFrame)
    (buffer : List RTPDataFrame) :
    (jb.take clearing last front buffer).1.buffer = buffer ∧
      (jb.take clearing last front buffer).1.bench.entries = [] ∧
      (jb.take clearing last front buffer).2 = some front := by
  have absent : jb.bench.search jb.sequenceDeadline.toNat = none := by
    rw [OrderedMap.search, bare]
    rfl
  rw [take]
  split
  · rw [if_pos (due_clearing last front)]
    exact ⟨rfl, remove_bare bare _, rfl⟩
  · rw [absent]
    have nothing := seek_bare bare (number front) (jb.sequenceDeadline + 1).toNat
    generalize seek jb.bench (number front) (jb.sequenceDeadline + 1).toNat = found at nothing
    obtain ⟨i, out⟩ := found
    obtain rfl : out = none := nothing
    dsimp only
    rw [if_pos (due_clearing last front)]
    exact ⟨rfl, remove_bare bare i, rfl⟩

theorem prepare_clearing (bare : jb.bench.entries = []) (last : UInt32) :
    (jb.prepare clearing last).1.buffer = jb.buffer ∧
      (jb.prepare clearing last).1.bench.entries = [] ∧
      (jb.prepare clearing last).2 = jb.buffer.isEmpty := by
  rw [prepare]
  cases there : jb.buffer with
  | nil => exact ⟨there, bare, rfl⟩
  | cons front buffer =>
      dsimp only
      have nothing := seek_bare bare (number front) jb.sequenceDeadline.toNat
      generalize seek jb.bench (number front) jb.sequenceDeadline.toNat = found at nothing
      obtain ⟨i, out⟩ := found
      obtain rfl : out = none := nothing
      dsimp only
      rw [due_clearing]
      exact ⟨rfl, remove_bare bare i, rfl⟩

/-- A read at the largest time clears the bench, and finishes when the buffer is empty. -/
theorem read_clearing (jb : TwoPathBuffer) :
    (jb.read clearing).1.buffer = jb.clear.buffer.tail ∧
      (jb.read clearing).1.bench.entries = [] ∧
      (jb.read clearing).2.2 = jb.clear.buffer.tail.isEmpty := by
  have bare : jb.clear.bench.entries = [] := rfl
  rw [read, if_pos rfl]
  generalize jb.clear = jb at bare
  dsimp only
  cases there : jb.buffer with
  | nil => exact ⟨there, bare, rfl⟩
  | cons front buffer =>
      dsimp only
      generalize timeOf (buffer.getLastD front) = last
      obtain ⟨rest, empty, taken⟩ := take_clearing bare last front buffer
      generalize jb.take clearing last front buffer = result at rest empty taken
      obtain ⟨left, out⟩ := result
      obtain rfl : out = some front := taken
      obtain ⟨kept, none, finished⟩ := prepare_clearing empty last
      exact ⟨kept.trans rest, none, finished.trans (congrArg List.isEmpty rest)⟩

end Clearing

section Ends
variable (minLength : Int32)

theorem reads_end (es : List Event) :
    ∃ k, Ended minLength (es ++ List.replicate k (.read clearing)) := by
  generalize size : (after minLength es).clear.buffer.length = n
  induction n using Nat.strong_induction_on generalizing es with
  | _ n ih =>
      obtain ⟨rest, bare, finished⟩ := read_clearing (after minLength es)
      by_cases last : (after minLength es).clear.buffer.tail = []
      · refine ⟨1, es, rfl, ?_⟩
        rw [finished, last]
        rfl
      · have next : after minLength (es ++ [.read clearing]) =
            ((after minLength es).read clearing).1 := after_concat minLength es _
        have shorter : (after minLength (es ++ [.read clearing])).clear.buffer.length < n := by
          rw [next, clear_bare bare, rest, List.length_tail]
          have some := List.length_pos_of_ne_nil last
          rw [List.length_tail] at some
          omega
        obtain ⟨k, ended⟩ := ih _ shorter (es ++ [.read clearing]) rfl
        refine ⟨k + 1, ?_⟩
        rw [List.replicate_succ]
        rwa [List.append_assoc, List.singleton_append] at ended

theorem empty_of_ended {es : List Event} (ended : Ended minLength es) :
    (after minLength es).buffer = [] ∧ (after minLength es).bench.entries = [] := by
  obtain ⟨before, rfl, finished⟩ := ended
  obtain ⟨rest, bare, tail⟩ := read_clearing (after minLength before)
  rw [after_concat, step]
  refine ⟨?_, bare⟩
  rw [rest]
  exact List.isEmpty_iff.mp (tail.symm.trans finished)

theorem merged_of_ended {es : List Event} (kept : Run.Meets (Mergeable minLength) es)
    (ended : Ended minLength es) : Merged minLength es := by
  have sound := sound_of_kept minLength kept
  obtain ⟨empty, bare⟩ := empty_of_ended minLength ended
  have ascending := sound.ascending
  have accounted := sound.accounted
  rw [empty, List.append_nil] at ascending accounted
  have increasing : (numbers (played minLength es)).Pairwise (· < ·) :=
    List.pairwise_map.mpr ascending
  refine ⟨increasing, fun f member => ?_, fun f member => ?_⟩
  · exact written_of_accepted minLength (sound.frames f (List.mem_append_left _ member))
  · refine List.count_eq_one_of_mem (increasing.imp fun less => Nat.ne_of_lt less) ?_
    cases (accounted _).mp (List.mem_map_of_mem member) with
    | inl there => exact there
    | inr benched =>
        obtain ⟨e, entry, -⟩ := benched
        rw [bare] at entry
        cases entry

/-- If every step is mergeable, reading to the end returns all that was accepted. -/
theorem merged_of_kept {es : List Event} (kept : Run.Meets (Mergeable minLength) es) :
    (∃ k, Ended minLength (es ++ List.replicate k (.read clearing))) ∧
      ∀ k, Ended minLength (es ++ List.replicate k (.read clearing)) →
        Merged minLength (es ++ List.replicate k (.read clearing)) := by
  refine ⟨reads_end minLength es, fun k ended => merged_of_ended minLength ?_ ended⟩
  clear ended
  induction k with
  | zero =>
      rw [List.replicate_zero, List.append_nil]
      exact kept
  | succ k ih =>
      rw [List.replicate_succ', ← List.append_assoc]
      exact Run.meets_concat.mpr ⟨ih, trivial⟩

end Ends

/-- A direct frame, and an indirect one with the next number. -/
def sampleRun : List Event := [.write (.numbered 1) 0, .write (.numbered 2) 1]

theorem sampleRun_merged :
    (∃ k, Ended 5 (sampleRun ++ List.replicate k (.read clearing))) ∧
      ∀ k, Ended 5 (sampleRun ++ List.replicate k (.read clearing)) →
        Merged 5 (sampleRun ++ List.replicate k (.read clearing)) := by
  refine merged_of_kept 5 ?_
  have first : Mergeable 5 [] (.write (.numbered 1) 0) :=
    ⟨List.forall_mem_nil _, fun _ _ => List.forall_mem_nil _⟩
  have second : Mergeable 5 [.write (.numbered 1) 0] (.write (.numbered 2) 1) :=
    ⟨List.forall_mem_nil _, fun direct => absurd direct (by decide)⟩
  have direct : Run.Meets (Mergeable 5) ([] ++ [.write (.numbered 1) 0]) :=
    Run.meets_concat.mpr ⟨Run.meets_nil, first⟩
  have both : Run.Meets (Mergeable 5) ([.write (.numbered 1) 0] ++ [.write (.numbered 2) 1]) :=
    Run.meets_concat.mpr ⟨direct, second⟩
  exact both

/-- An indirect frame with a smaller number than the first direct one is accepted and lost. -/
theorem early_indirect_lost :
    ¬ ∀ (minLength : Int32) (es : List Event), Ended minLength es → Merged minLength es := by
  intro always
  let es : List Event := [.write (.numbered 3) 1, .write (.numbered 5) 0, .read clearing]
  have ended : Ended 5 es := ⟨[.write (.numbered 3) 1, .write (.numbered 5) 0], rfl, by decide⟩
  have taken : .numbered 3 ∈ accepted 5 es := List.mem_cons_self
  have once := (always 5 es ended).once _ taken
  have returned : numbers (played 5 es) = [5] := by decide
  rw [returned] at once
  exact absurd once (by decide)

end TwoPathBuffer

end Cors
