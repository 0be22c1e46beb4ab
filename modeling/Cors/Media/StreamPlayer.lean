import Cors.Media.Predecoding

/-! # The threads of the stream player

In `streamplayer.cpp` one thread receives frames, one gives the time, and one plays what is due.
They share the jitter buffer, `timer_` and `running_`; every access to one of these is a step here.
A signal that is overwritten loses no tick, and after `running_` is set to false all threads end.
What stands behind a frame is the same in each of its copies here; the source leaves it open, and
looks at it only where a frame is too short for a header.
-/

namespace Cors

open RtpData (Received)

/-- Where `PlayThread` is: at the condition of its loop, in front of the condition variable, in
    front of a read of the jitter buffer for a tick and with those up to another to follow, or at
    its end. -/
inductive PlayThread where
  | check
  | wait
  | reading (i tsToPlay : UInt32)
  | done
  deriving DecidableEq

/-- What stands behind the frames in the file. -/
def PlayThread.ending : PlayThread → Bytes
  | .done => Timeval.format.encode RtpData.endMark
  | _ => []

/-- Where `TimerThread` is: at the condition of its loop, after it slept; in front of a tick; in
    front of the last signal; or at its end. -/
inductive TimerThread where
  | check
  | tick
  | last
  | done
  deriving DecidableEq

/-- The variables of all threads, and what was done: the calls of the jitter buffer, the frames that
    were sent with their ticks, the ticks that were finished, and how many were given. -/
structure StreamPlayer where
  jitter : JitterBuffer Received
  timer : UInt32
  running : Bool
  play : PlayThread
  tsPlayed : UInt32
  fp : Bytes
  timerAt : TimerThread
  i : UInt32
  log : List (JitterBuffer.Event Received)
  sent : List (UInt32 × Received)
  ticks : List Nat
  signals : Nat

namespace StreamPlayer

/-- `timer_ = -1` -/
def noSignal : UInt32 := 0xffffffff

/-- `timer_ = -2` -/
def termination : UInt32 := 0xfffffffe

/-- After the first frame, when `StartPlay` has made the threads. -/
def start (x : Received) : StreamPlayer where
  jitter := (JitterBuffer.new.write Received.frame x).1
  timer := noSignal
  running := true
  play := .check
  tsPlayed := 0
  fp := []
  timerAt := .check
  i := 0
  log := [.write x]
  sent := []
  ticks := []
  signals := 0

inductive Move where
  | receive (x : Received)
  | stop
  | checkTimer
  | setTimer
  | terminate
  | checkPlay
  | wake
  | read

/-- A frame is sent to the player and written to the file. -/
def send (s : StreamPlayer) (i : UInt32) (x : Received) : StreamPlayer :=
  { s with
    sent := s.sent ++ [(i, x)]
    fp := s.fp ++ RtpData.writeRtpData ⟨0, 0⟩ (Int32.ofNat x.rbuf.val.length) x.frame.ptr }

/-- The end of a tick. -/
def finish (s : StreamPlayer) (i tsToPlay : UInt32) : StreamPlayer :=
  { s with
    tsPlayed := s.tsPlayed + 1
    ticks := s.ticks ++ [i.toNat]
    play := if i + 1 ≤ tsToPlay then .reading (i + 1) tsToPlay else .check }

/-- One round of the inner loop. -/
def readFrame (s : StreamPlayer) (i tsToPlay : UInt32) : StreamPlayer :=
  let (jitter, pframe, finished) := s.jitter.read Received.frame i
  let s := { s with jitter, log := s.log ++ [.read i] }
  let s := match pframe with
    | none => s
    | some x => s.send i x
  if finished then s.finish i tsToPlay else s

/-- What is done with a signal. -/
def take (s : StreamPlayer) : StreamPlayer :=
  let tsToPlay := s.timer
  let s := { s with timer := noSignal }
  if tsToPlay = termination then { s with play := .check }
  else if s.tsPlayed ≤ tsToPlay then { s with play := .reading s.tsPlayed tsToPlay }
  else { s with play := .check }

def step (s : StreamPlayer) : Move → Option StreamPlayer
  | .receive x =>
      if s.running then
        some { s with
          jitter := (s.jitter.write Received.frame x).1
          log := s.log ++ [.write x] }
      else none
  | .stop => if s.running then some { s with running := false } else none
  | .checkTimer =>
      match s.timerAt with
      | .check => some { s with timerAt := if s.running then .tick else .last }
      | _ => none
  | .setTimer =>
      match s.timerAt with
      | .tick =>
          some { s with timer := s.i, i := s.i + 1, signals := s.signals + 1, timerAt := .check }
      | _ => none
  | .terminate =>
      match s.timerAt with
      | .last => some { s with timer := termination, timerAt := .done }
      | _ => none
  | .checkPlay =>
      match s.play with
      | .check =>
          if s.running then some { s with play := .wait }
          else
            some { s with
              play := .done
              fp := s.fp ++ Timeval.format.encode RtpData.endMark }
      | _ => none
  | .wake =>
      match s.play with
      | .wait => if s.timer = noSignal then none else some s.take
      | _ => none
  | .read =>
      match s.play with
      | .reading i tsToPlay => some (s.readFrame i tsToPlay)
      | _ => none

/-! ## The steps -/

/-- A read of the jitter buffer is over when the front of what is left is not due. -/
theorem finished_eq (jb : JitterBuffer Received) (i : UInt32) :
    (jb.read Received.frame i).2.2 = (jb.read Received.frame i).1.buffer.head?.all fun next =>
      decide (i < convertTimestamp next.frame.getTimestamp) := by
  cases there : jb.buffer with
  | nil =>
      rw [JitterBuffer.read_nil _ there, there]
      rfl
  | cons front buffer =>
      rw [JitterBuffer.read_cons _ there]
      by_cases early : i < convertTimestamp front.frame.getTimestamp
      · rw [if_pos early]
        simp only [there, List.head?_cons, Option.all_some, early, decide_true]
      · rw [if_neg early]

theorem lt_termination {t : UInt32} (signal : t ≠ noSignal) (other : t ≠ termination) :
    t < termination := by
  have most := t.toNat_lt
  have value : noSignal.toNat = 4294967295 := rfl
  have value' : termination.toNat = 4294967294 := rfl
  rw [← UInt32.toNat_inj.ne, value] at signal
  rw [← UInt32.toNat_inj.ne, value'] at other
  rw [UInt32.lt_iff_toNat_lt, value']
  omega

/-- What a step can be. -/
inductive Steps (s : StreamPlayer) : StreamPlayer → Prop where
  | receive (x : Received) (running : s.running = true) :
      Steps s { s with
        jitter := (s.jitter.write Received.frame x).1
        log := s.log ++ [.write x] }
  | stop (running : s.running = true) : Steps s { s with running := false }
  | checkTimer (here : s.timerAt = .check) :
      Steps s { s with timerAt := if s.running then .tick else .last }
  | setTimer (here : s.timerAt = .tick) :
      Steps s { s with timer := s.i, i := s.i + 1, signals := s.signals + 1, timerAt := .check }
  | terminate (here : s.timerAt = .last) :
      Steps s { s with timer := termination, timerAt := .done }
  | goesOn (here : s.play = .check) (running : s.running = true) : Steps s { s with play := .wait }
  | ends (here : s.play = .check) (stopped : s.running = false) :
      Steps s { s with
        play := .done
        fp := s.fp ++ Timeval.format.encode RtpData.endMark }
  | skip (here : s.play = .wait) (signal : s.timer ≠ noSignal)
      (past : s.timer = termination ∨ s.timer < s.tsPlayed) :
      Steps s { s with timer := noSignal, play := .check }
  | begin (here : s.play = .wait) (signal : s.timer ≠ noSignal) (other : s.timer ≠ termination)
      (due : s.tsPlayed ≤ s.timer) :
      Steps s { s with timer := noSignal, play := .reading s.tsPlayed s.timer }
  | read {i tsToPlay : UInt32} (here : s.play = .reading i tsToPlay) :
      Steps s (s.readFrame i tsToPlay)

variable {s s' : StreamPlayer} {move : Move}

theorem steps_of_step (stepped : s.step move = some s') : Steps s s' := by
  cases move with
  | receive x =>
      by_cases running : s.running = true
      · rw [step, if_pos running] at stepped
        exact Option.some.inj stepped ▸ .receive x running
      · rw [step, if_neg running] at stepped
        cases stepped
  | stop =>
      by_cases running : s.running = true
      · rw [step, if_pos running] at stepped
        exact Option.some.inj stepped ▸ .stop running
      · rw [step, if_neg running] at stepped
        cases stepped
  | checkTimer =>
      cases here : s.timerAt <;> simp only [step, here, reduceCtorEq, Option.some.injEq] at stepped
      exact stepped ▸ .checkTimer here
  | setTimer =>
      cases here : s.timerAt <;> simp only [step, here, reduceCtorEq, Option.some.injEq] at stepped
      exact stepped ▸ .setTimer here
  | terminate =>
      cases here : s.timerAt <;> simp only [step, here, reduceCtorEq, Option.some.injEq] at stepped
      exact stepped ▸ .terminate here
  | checkPlay =>
      cases here : s.play <;> simp only [step, here, reduceCtorEq] at stepped
      by_cases running : s.running = true
      · rw [if_pos running] at stepped
        exact Option.some.inj stepped ▸ .goesOn here running
      · rw [if_neg running] at stepped
        exact Option.some.inj stepped ▸ .ends here (Bool.eq_false_of_not_eq_true running)
  | wake =>
      cases here : s.play <;> simp only [step, here, reduceCtorEq] at stepped
      by_cases none_ : s.timer = noSignal
      · rw [if_pos none_] at stepped
        cases stepped
      · rw [if_neg none_, Option.some.injEq, take] at stepped
        by_cases last : s.timer = termination
        · rw [if_pos last] at stepped
          exact stepped ▸ .skip here none_ (.inl last)
        · rw [if_neg last] at stepped
          by_cases due : s.tsPlayed ≤ s.timer
          · simp only [due, if_true] at stepped
            exact stepped ▸ .begin here none_ last due
          · simp only [due, if_false] at stepped
            exact stepped ▸ .skip here none_ (.inr (UInt32.not_le.mp due))
  | read =>
      cases here : s.play <;> simp only [step, here, reduceCtorEq, Option.some.injEq] at stepped
      exact stepped ▸ .read here

/-! ## What is played -/

/-- The times of the reads. -/
def readTimes (log : List (JitterBuffer.Event Received)) : List UInt32 :=
  log.filterMap fun
    | .write _ => none
    | .read timestamp => some timestamp

/-- The frame at the front of what these calls leave in the buffer, at which the next read would
    look, is not due at a tick. -/
def Over (log : List (JitterBuffer.Event Received)) (tick : Nat) : Prop :=
  ((JitterBuffer.after Received.frame log).buffer.head?.all fun next =>
    decide (tick < (convertTimestamp next.frame.getTimestamp).toNat)) = true

/-- The last read for a tick, with which the tick is over. -/
def EndsTick (log : List (JitterBuffer.Event Received)) (tick : Nat) : Prop :=
  ∃ before t behind, log = before ++ .read t :: behind ∧ t.toNat = tick ∧
    Over (before ++ [.read t]) tick ∧ ∀ t' ∈ readTimes behind, t < t'

/-- The file of the frames that were sent. -/
def saved (sent : List (UInt32 × Received)) : List RtpData.Record :=
  sent.map fun e => RtpData.StreamDump.record e.2

/-- The buffer is what the calls have made of it, what was sent is what was read of it, each at its
    time, and the ticks are played one after the other. -/
structure Kept (s : StreamPlayer) : Prop where
  jitter : s.jitter = JitterBuffer.after Received.frame s.log
  sent : s.sent.map Prod.snd = JitterBuffer.played Received.frame s.log
  due : ∀ e ∈ s.sent, convertTimestamp e.2.frame.getTimestamp ≤ e.1
  file : s.fp = (saved s.sent).flatMap RtpData.Record.written ++ s.play.ending
  ticks : s.ticks = List.range s.tsPlayed.toNat
  reading : ∀ i tsToPlay, s.play = .reading i tsToPlay →
    i = s.tsPlayed ∧ i ≤ tsToPlay ∧ tsToPlay < termination
  through : ∀ tick ∈ s.ticks, EndsTick s.log tick
  times : (readTimes s.log).Pairwise (· ≤ ·) ∧ ∀ t ∈ readTimes s.log, t ≤ s.tsPlayed

theorem start_kept (x : Received) : (start x).Kept where
  jitter := rfl
  sent := rfl
  due := List.forall_mem_nil _
  file := rfl
  ticks := rfl
  reading := fun _ _ none_ => nomatch none_
  through := List.forall_mem_nil _
  times := ⟨.nil, List.forall_mem_nil _⟩

theorem times_write {log : List (JitterBuffer.Event Received)} (x : Received) :
    readTimes (log ++ [.write x]) = readTimes log :=
  List.filterMap_append.trans (List.append_nil _)

theorem EndsTick.write {log : List (JitterBuffer.Event Received)} {tick : Nat}
    (ends : EndsTick log tick) (x : Received) : EndsTick (log ++ [.write x]) tick := by
  obtain ⟨before, t, behind, rfl, own, left, later⟩ := ends
  refine ⟨before, t, behind ++ [.write x], ?_, own, left, ?_⟩
  · rw [List.append_assoc, List.cons_append]
  · rw [times_write]
    exact later

theorem EndsTick.read {log : List (JitterBuffer.Event Received)} {tick : Nat}
    (ends : EndsTick log tick) {ts : UInt32} (past : tick < ts.toNat) :
    EndsTick (log ++ [.read ts]) tick := by
  obtain ⟨before, t, behind, rfl, rfl, left, later⟩ := ends
  refine ⟨before, t, behind ++ [.read ts], ?_, rfl, left, fun t' member => ?_⟩
  · rw [List.append_assoc, List.cons_append]
  · have step : readTimes (behind ++ [.read ts]) = readTimes behind ++ [ts] :=
      List.filterMap_append
    rw [step] at member
    cases List.mem_append.mp member with
    | inl earlier => exact later t' earlier
    | inr last => exact List.mem_singleton.mp last ▸ UInt32.lt_iff_toNat_lt.mpr past

theorem saved_send (sent : List (UInt32 × Received)) (i : UInt32) (x : Received) :
    (saved (sent ++ [(i, x)])).flatMap RtpData.Record.written =
      (saved sent).flatMap RtpData.Record.written ++
        RtpData.writeRtpData ⟨0, 0⟩ (Int32.ofNat x.rbuf.val.length) x.frame.ptr := by
  have body : x.frame.ptr.read 0 x.rbuf.val.length = x.rbuf.val := Mem.receive_holds _ _
  have size : (Int32.ofNat x.rbuf.val.length).toUInt32.toNat = x.rbuf.val.length :=
    (RtpData.StreamDump.record x).len_toNat
  rw [saved, List.map_append, List.flatMap_append, List.map_singleton, List.flatMap_singleton,
    RtpData.Record.written_eq, RtpData.writeRtpData, size, body]
  rfl

/-- A read before it is asked whether it is the last one. -/
def midRead (s : StreamPlayer) (i : UInt32) : StreamPlayer :=
  let s' := { s with
    jitter := (s.jitter.read Received.frame i).1
    log := s.log ++ [.read i] }
  match (s.jitter.read Received.frame i).2.1 with
  | none => s'
  | some x => s'.send i x

theorem readFrame_eq (s : StreamPlayer) (i tsToPlay : UInt32) :
    s.readFrame i tsToPlay =
      if (s.jitter.read Received.frame i).2.2 then (s.midRead i).finish i tsToPlay
      else s.midRead i := rfl

theorem played_due {jb : JitterBuffer Received} {i : UInt32} {x : Received}
    (read : (jb.read Received.frame i).2.1 = some x) :
    convertTimestamp x.frame.getTimestamp ≤ i := by
  cases there : jb.buffer with
  | nil => rw [JitterBuffer.read_nil _ there] at read; cases read
  | cons front buffer =>
      rw [JitterBuffer.read_cons _ there] at read
      by_cases early : i < convertTimestamp front.frame.getTimestamp
      · rw [if_pos early] at read
        cases read
      · rw [if_neg early] at read
        obtain rfl := Option.some.inj read
        exact UInt32.not_lt.mp early

theorem times_read {log : List (JitterBuffer.Event Received)} {ts : UInt32}
    (times : (readTimes log).Pairwise (· ≤ ·) ∧ ∀ t ∈ readTimes log, t ≤ ts) :
    (readTimes (log ++ [.read ts])).Pairwise (· ≤ ·) ∧
      ∀ t ∈ readTimes (log ++ [.read ts]), t ≤ ts := by
  obtain ⟨ascending, below⟩ := times
  have step : readTimes (log ++ [.read ts]) = readTimes log ++ [ts] := List.filterMap_append
  rw [step]
  constructor
  · refine List.pairwise_append.mpr
      ⟨ascending, List.pairwise_singleton _ _, fun t member u last => ?_⟩
    exact List.mem_singleton.mp last ▸ below t member
  · intro t member
    obtain earlier | last := List.mem_append.mp member
    · exact below t earlier
    · exact List.mem_singleton.mp last ▸ UInt32.le_refl ts

theorem Kept.midRead (kept : s.Kept) {tsToPlay : UInt32}
    (here : s.play = .reading s.tsPlayed tsToPlay) : (s.midRead s.tsPlayed).Kept := by
  have jitter : (s.jitter.read Received.frame s.tsPlayed).1 =
      JitterBuffer.after Received.frame (s.log ++ [.read s.tsPlayed]) := by
    rw [JitterBuffer.after_concat, ← kept.jitter]
    rfl
  have played := JitterBuffer.played_concat Received.frame s.log (.read s.tsPlayed)
  rw [← kept.jitter, ← kept.sent] at played
  have through : ∀ tick ∈ s.ticks, EndsTick (s.log ++ [.read s.tsPlayed]) tick := by
    intro tick member
    have past := member
    rw [kept.ticks, List.mem_range] at past
    exact (kept.through tick member).read past
  have busy : s.play.ending = [] := congrArg PlayThread.ending here
  have file := kept.file
  rw [busy, List.append_nil] at file
  unfold StreamPlayer.midRead
  cases read : (s.jitter.read Received.frame s.tsPlayed).2.1 with
  | none =>
      have none_ : JitterBuffer.plays Received.frame (s.jitter, .read s.tsPlayed) = none := read
      rw [none_, Option.toList_none, List.append_nil] at played
      refine ⟨jitter, played.symm, kept.due, ?_, kept.ticks, kept.reading, through,
        times_read kept.times⟩
      rw [busy, List.append_nil]
      exact file
  | some x =>
      have some_ : JitterBuffer.plays Received.frame (s.jitter, .read s.tsPlayed) = some x := read
      rw [some_, Option.toList_some] at played
      refine ⟨jitter, ?_, fun e member => ?_, ?_, kept.ticks, kept.reading, through,
        times_read kept.times⟩
      · exact List.map_append.trans played.symm
      · obtain earlier | last := List.mem_append.mp member
        · exact kept.due e earlier
        · exact List.mem_singleton.mp last ▸ played_due read
      · dsimp only [send]
        rw [busy, List.append_nil, saved_send, ← file]

theorem Kept.finish (kept : s.Kept) {tsToPlay : UInt32}
    (here : s.play = .reading s.tsPlayed tsToPlay) (through : EndsTick s.log s.tsPlayed.toNat) :
    (s.finish s.tsPlayed tsToPlay).Kept := by
  obtain ⟨-, within, bounded⟩ := kept.reading _ _ here
  have small : s.tsPlayed.toNat + 1 < 4294967296 := by
    have low := UInt32.le_iff_toNat_le.mp within
    have high := UInt32.lt_iff_toNat_lt.mp bounded
    have value : termination.toNat = 4294967294 := rfl
    omega
  have next : (s.tsPlayed + 1).toNat = s.tsPlayed.toNat + 1 := by
    have one : (1 : UInt32).toNat = 1 := rfl
    rw [UInt32.toNat_add, one]
    exact Nat.mod_eq_of_lt small
  have busy : s.play.ending = [] := congrArg PlayThread.ending here
  have file := kept.file
  rw [busy] at file
  have still : (s.finish s.tsPlayed tsToPlay).play.ending = [] := by
    rw [StreamPlayer.finish]
    dsimp only
    split <;> rfl
  refine ⟨kept.jitter, kept.sent, kept.due, ?_, ?_, fun i t reading => ?_, fun tick member => ?_,
    kept.times.1, fun t member => ?_⟩
  · rw [still]
    exact file
  · rw [StreamPlayer.finish]
    dsimp only
    rw [next, List.range_succ, kept.ticks]
  · rw [StreamPlayer.finish] at reading
    dsimp only at reading
    by_cases more : s.tsPlayed + 1 ≤ tsToPlay
    · rw [if_pos more] at reading
      obtain ⟨rfl, rfl⟩ := PlayThread.reading.inj reading
      exact ⟨rfl, more, bounded⟩
    · rw [if_neg more] at reading
      cases reading
  · obtain earlier | last := List.mem_append.mp member
    · exact kept.through tick earlier
    · obtain rfl := List.mem_singleton.mp last
      exact through
  · have below := UInt32.le_iff_toNat_le.mp (kept.times.2 t member)
    exact UInt32.le_iff_toNat_le.mpr (by rw [StreamPlayer.finish]; dsimp only; omega)

theorem Kept.read (kept : s.Kept) {i tsToPlay : UInt32} (here : s.play = .reading i tsToPlay) :
    (s.readFrame i tsToPlay).Kept := by
  obtain ⟨rfl, -, -⟩ := kept.reading i tsToPlay here
  have mid := kept.midRead here
  rw [readFrame_eq]
  by_cases finished : (s.jitter.read Received.frame s.tsPlayed).2.2 = true
  · rw [if_pos finished]
    have same : (s.midRead s.tsPlayed).tsPlayed = s.tsPlayed ∧
        (s.midRead s.tsPlayed).play = s.play ∧
        (s.midRead s.tsPlayed).log = s.log ++ [.read s.tsPlayed] ∧
        (s.midRead s.tsPlayed).jitter = (s.jitter.read Received.frame s.tsPlayed).1 := by
      unfold StreamPlayer.midRead
      cases (s.jitter.read Received.frame s.tsPlayed).2.1 <;> exact ⟨rfl, rfl, rfl, rfl⟩
    obtain ⟨played, still, log, buffer⟩ := same
    have through : EndsTick (s.midRead s.tsPlayed).log s.tsPlayed.toNat := by
      refine ⟨s.log, s.tsPlayed, [], log, rfl, ?_, List.forall_mem_nil _⟩
      rw [Over, ← log, ← mid.jitter, buffer]
      rw [finished_eq] at finished
      simpa only [UInt32.lt_iff_toNat_lt] using finished
    have busy :
        (s.midRead s.tsPlayed).play = .reading (s.midRead s.tsPlayed).tsPlayed tsToPlay := by
      rw [still, played, here]
    have ends := mid.finish busy
    rw [played] at ends
    exact ends through
  · rw [if_neg finished]
    exact mid

theorem step_kept (kept : s.Kept) (stepped : Steps s s') : s'.Kept := by
  have file := kept.file
  cases stepped with
  | receive x running =>
      have same : JitterBuffer.played Received.frame (s.log ++ [.write x]) =
          JitterBuffer.played Received.frame s.log := by
        rw [JitterBuffer.played_concat]
        exact List.append_nil _
      refine ⟨?_, kept.sent.trans same.symm, kept.due, file, kept.ticks, kept.reading,
        fun tick member => ?_, ?_⟩
      · rw [JitterBuffer.after_concat, ← kept.jitter]
        rfl
      · exact (kept.through tick member).write x
      · rw [times_write]
        exact kept.times
  | stop | checkTimer | setTimer | terminate =>
      exact ⟨kept.jitter, kept.sent, kept.due, file, kept.ticks, kept.reading, kept.through,
        kept.times⟩
  | goesOn here running =>
      rw [here] at file
      exact ⟨kept.jitter, kept.sent, kept.due, file, kept.ticks,
        (fun _ _ none_ => nomatch none_), kept.through, kept.times⟩
  | ends here stopped =>
      have before : s.play.ending = [] := congrArg PlayThread.ending here
      rw [before, List.append_nil] at file
      refine ⟨kept.jitter, kept.sent, kept.due, ?_, kept.ticks,
        (fun _ _ none_ => nomatch none_), kept.through, kept.times⟩
      rw [file]
      rfl
  | skip here signal past =>
      rw [here] at file
      exact ⟨kept.jitter, kept.sent, kept.due, file, kept.ticks,
        (fun _ _ none_ => nomatch none_), kept.through, kept.times⟩
  | begin here signal other due =>
      rw [here] at file
      refine ⟨kept.jitter, kept.sent, kept.due, file, kept.ticks, fun i t reading => ?_,
        kept.through, kept.times⟩
      obtain ⟨rfl, rfl⟩ := PlayThread.reading.inj reading
      exact ⟨rfl, due, lt_termination signal other⟩
  | read here => exact kept.read here

/-! ## The signals -/

/-- As many ticks as a 32-bit counter can give before it comes to the values that mean something
    else. -/
def maxSignals : Nat := 4294967294

/-- How many ticks are played when `PlayThread` has done what it was told. -/
def target (s : StreamPlayer) : Nat :=
  match s.play with
  | .reading _ tsToPlay => tsToPlay.toNat + 1
  | _ => s.tsPlayed.toNat

/-- `timer_` holds no signal, the last tick that was given, or the last signal of all; and where it
    holds none, the last tick is played or being played unless it was lost to the last signal. -/
structure Signalled (s : StreamPlayer) : Prop where
  count : s.i.toNat = s.signals
  timer : s.timer = noSignal ∨ s.timer.toNat + 1 = s.signals ∨
    s.timer = termination ∧ s.timerAt = .done
  bounded : s.tsPlayed.toNat ≤ s.signals ∧ s.target ≤ s.signals
  caught : s.timer = noSignal → s.timerAt ≠ .done → s.target = s.signals

/-- The threads know that the player was stopped, and the last signal is not lost. -/
structure Stopped (s : StreamPlayer) : Prop where
  timer : s.timerAt = .last ∨ s.timerAt = .done → s.running = false
  play : s.play = .done → s.running = false
  last : s.timerAt = .done → s.play = .wait → s.timer ≠ noSignal

theorem start_stopped (x : Received) : (start x).Stopped where
  timer := nofun
  play := nofun
  last := nofun

theorem start_signalled (x : Received) : (start x).Signalled where
  count := rfl
  timer := .inl rfl
  bounded := ⟨Nat.le_refl 0, Nat.le_refl 0⟩
  caught := fun _ _ => rfl

/-- What a read changes for the other threads. -/
theorem readFrame_frame (s : StreamPlayer) (i tsToPlay : UInt32) :
    (s.readFrame i tsToPlay).timer = s.timer ∧ (s.readFrame i tsToPlay).running = s.running ∧
      (s.readFrame i tsToPlay).timerAt = s.timerAt ∧ (s.readFrame i tsToPlay).i = s.i ∧
      (s.readFrame i tsToPlay).signals = s.signals := by
  rw [readFrame_eq]
  unfold finish midRead
  cases (s.jitter.read Received.frame i).2.1 <;> split <;> exact ⟨rfl, rfl, rfl, rfl, rfl⟩

theorem readFrame_play (s : StreamPlayer) (i tsToPlay : UInt32) :
    ((s.jitter.read Received.frame i).2.2 = true ∧
        (s.readFrame i tsToPlay).tsPlayed = s.tsPlayed + 1 ∧
        (s.readFrame i tsToPlay).play =
          if i + 1 ≤ tsToPlay then .reading (i + 1) tsToPlay else .check) ∨
      (s.jitter.read Received.frame i).2.2 = false ∧
        (s.readFrame i tsToPlay).tsPlayed = s.tsPlayed ∧
          (s.readFrame i tsToPlay).play = s.play := by
  rw [readFrame_eq]
  unfold finish midRead
  cases finished : (s.jitter.read Received.frame i).2.2 with
  | true =>
      cases (s.jitter.read Received.frame i).2.1 <;> exact .inl ⟨rfl, rfl, rfl⟩
  | false =>
      cases (s.jitter.read Received.frame i).2.1 <;> exact .inr ⟨rfl, rfl, rfl⟩

theorem step_stopped (stopped : s.Stopped) (stepped : Steps s s') : s'.Stopped := by
  obtain ⟨timer, play, last⟩ := stopped
  cases stepped with
  | receive x running => exact ⟨timer, play, last⟩
  | stop running => exact ⟨fun _ => rfl, fun _ => rfl, last⟩
  | checkTimer here =>
      refine ⟨fun ends => ?_, play, fun ends => ?_⟩
      · cases running : s.running with
        | false => rfl
        | true => simp [running] at ends
      · cases running : s.running <;> simp [running] at ends
  | setTimer here => exact ⟨nofun, play, nofun⟩
  | terminate here =>
      exact ⟨fun _ => timer (.inl here), play, fun _ _ => (by decide : termination ≠ noSignal)⟩
  | goesOn here running =>
      refine ⟨timer, nofun, fun ends _ => ?_⟩
      rw [timer (.inr ends)] at running
      cases running
  | ends here stopped => exact ⟨timer, fun _ => stopped, fun _ => nofun⟩
  | skip here signal past => exact ⟨timer, nofun, fun _ => nofun⟩
  | begin here signal other due =>
      exact ⟨timer, nofun, fun _ => nofun⟩
  | @read i tsToPlay here =>
      obtain ⟨sameTimer, sameRunning, sameAt, -, -⟩ := readFrame_frame s i tsToPlay
      have busy : (s.readFrame i tsToPlay).play ≠ .done ∧
          (s.readFrame i tsToPlay).play ≠ .wait := by
        obtain ⟨-, -, next⟩ | ⟨-, -, next⟩ := readFrame_play s i tsToPlay
        · rw [next]
          split <;> exact ⟨nofun, nofun⟩
        · rw [next, here]
          exact ⟨nofun, nofun⟩
      refine ⟨?_, fun ends => absurd ends busy.1, fun _ waits => absurd waits busy.2⟩
      rw [sameAt, sameRunning]
      exact timer

theorem target_of_other (other : ∀ i tsToPlay, s.play ≠ .reading i tsToPlay) :
    s.target = s.tsPlayed.toNat := by
  unfold target
  cases here : s.play with
  | reading i tsToPlay => exact absurd here (other i tsToPlay)
  | check | wait | done => rfl

theorem next_toNat {t : UInt32} {n : Nat} (below : t.toNat < n) (small : n ≤ 4294967295) :
    (t + 1).toNat = t.toNat + 1 := by
  have one : (1 : UInt32).toNat = 1 := rfl
  rw [UInt32.toNat_add, one]
  omega

theorem target_readFrame (kept : s.Kept) {i tsToPlay : UInt32}
    (here : s.play = .reading i tsToPlay) :
    (s.readFrame i tsToPlay).target = s.target ∧
      (s.readFrame i tsToPlay).tsPlayed.toNat ≤ s.target := by
  obtain ⟨rfl, within, bounded⟩ := kept.reading i tsToPlay here
  have told : s.target = tsToPlay.toNat + 1 := by rw [target, here]
  have value : termination.toNat = 4294967294 := rfl
  rw [UInt32.le_iff_toNat_le] at within
  rw [UInt32.lt_iff_toNat_lt, value] at bounded
  have next : (s.tsPlayed + 1).toNat = s.tsPlayed.toNat + 1 :=
    next_toNat (Nat.lt_of_le_of_lt within bounded) (by decide)
  obtain ⟨-, played, play⟩ | ⟨-, played, play⟩ := readFrame_play s s.tsPlayed tsToPlay
  · rw [played, told, next]
    refine ⟨?_, by omega⟩
    by_cases more : s.tsPlayed + 1 ≤ tsToPlay
    · rw [target, play, if_pos more]
    · rw [target, play, if_neg more]
      rw [UInt32.le_iff_toNat_le, next] at more
      dsimp only
      rw [played, next]
      omega
  · rw [played, told, target, play, here]
    exact ⟨rfl, by omega⟩

theorem step_signalled (kept : s.Kept) (signalled : s.Signalled) (stepped : Steps s s')
    (few : s'.signals ≤ maxSignals) : s'.Signalled := by
  obtain ⟨count, timer, bounded, caught⟩ := signalled
  have value : noSignal.toNat = 4294967295 := rfl
  have value' : termination.toNat = 4294967294 := rfl
  cases stepped with
  | receive x running => exact ⟨count, timer, bounded, caught⟩
  | stop running => exact ⟨count, timer, bounded, caught⟩
  | checkTimer here =>
      refine ⟨count, ?_, bounded, fun none_ _ => caught none_ (by rw [here]; exact nofun)⟩
      obtain none_ | last | ⟨-, ends⟩ := timer
      · exact .inl none_
      · exact .inr (.inl last)
      · rw [here] at ends
        cases ends
  | setTimer here =>
      have room : s.signals + 1 ≤ 4294967294 := few
      have next : (s.i + 1).toNat = s.i.toNat + 1 := next_toNat (Nat.lt_succ_self _) (by omega)
      refine ⟨next.trans (congrArg (· + 1) count), .inr (.inl (congrArg (· + 1) count)),
        ⟨Nat.le_succ_of_le bounded.1, Nat.le_succ_of_le bounded.2⟩, fun none_ => ?_⟩
      have same : s.i = noSignal := none_
      rw [same, value] at count
      omega
  | terminate here =>
      refine ⟨count, .inr (.inr ⟨rfl, rfl⟩), bounded, fun _ running => absurd rfl running⟩
  | goesOn here running =>
      have same := target_of_other (s := s) (by rw [here]; exact nofun)
      exact ⟨count, timer, ⟨bounded.1, bounded.1⟩,
        fun none_ on => same.symm.trans (caught none_ on)⟩
  | ends here stopped =>
      have same := target_of_other (s := s) (by rw [here]; exact nofun)
      exact ⟨count, timer, ⟨bounded.1, bounded.1⟩,
        fun none_ on => same.symm.trans (caught none_ on)⟩
  | skip here signal past =>
      refine ⟨count, .inl rfl, ⟨bounded.1, bounded.1⟩, fun _ on => ?_⟩
      have last : s.timer.toNat + 1 = s.signals := by
        obtain none_ | last | ⟨-, ends⟩ := timer
        · exact absurd none_ signal
        · exact last
        · exact absurd ends on
      have most : s.signals ≤ 4294967294 := few
      change s.tsPlayed.toNat = s.signals
      obtain ends | early := past
      · rw [ends, value'] at last
        omega
      · rw [UInt32.lt_iff_toNat_lt] at early
        omega
  | begin here signal other due =>
      have last : s.timer.toNat + 1 = s.signals := by
        obtain none_ | last | ⟨ends, -⟩ := timer
        · exact absurd none_ signal
        · exact last
        · exact absurd ends other
      exact ⟨count, .inl rfl, ⟨bounded.1, Nat.le_of_eq last⟩, fun _ _ => last⟩
  | @read i tsToPlay here =>
      obtain ⟨sameTimer, -, sameAt, sameI, sameSignals⟩ := readFrame_frame s i tsToPlay
      obtain ⟨sameTarget, below⟩ := target_readFrame kept here
      refine ⟨by rw [sameI, sameSignals, count], ?_, ?_, ?_⟩
      · rw [sameTimer, sameSignals, sameAt]
        exact timer
      · rw [sameTarget, sameSignals]
        exact ⟨Nat.le_trans below bounded.2, bounded.2⟩
      · rw [sameTimer, sameAt, sameTarget, sameSignals]
        exact caught

theorem signals_step (stepped : Steps s s') : s.signals ≤ s'.signals := by
  cases stepped with
  | setTimer here => exact Nat.le_succ _
  | @read i tsToPlay here => exact Nat.le_of_eq (readFrame_frame s i tsToPlay).2.2.2.2.symm
  | receive | stop | checkTimer | terminate | goesOn | ends | skip | begin => exact Nat.le_refl _

/-! ## Runs -/

theorem run_kept {x : Received} {moves : List Move}
    (ran : Run.attempt step (start x) moves = some s) : s.Kept ∧ s.Stopped :=
  Run.attempt_keeps (P := fun s => s.Kept ∧ s.Stopped)
    (fun _ _ _ both stepped =>
      ⟨step_kept both.1 (steps_of_step stepped), step_stopped both.2 (steps_of_step stepped)⟩)
    ⟨start_kept x, start_stopped x⟩ ran

theorem run_signalled {x : Received} {moves : List Move}
    (ran : Run.attempt step (start x) moves = some s) (few : s.signals ≤ maxSignals) :
    s.Signalled := by
  have all := Run.attempt_keeps
    (P := fun s => s.Kept ∧ (s.signals ≤ maxSignals → s.Signalled))
    (fun t _ t' both stepped => ⟨step_kept both.1 (steps_of_step stepped), fun few =>
      step_signalled both.1 (both.2 (Nat.le_trans (signals_step (steps_of_step stepped)) few))
        (steps_of_step stepped) few⟩)
    ⟨start_kept x, fun _ => start_signalled x⟩ ran
  exact all.2 few

/-- A frame for the first tick. -/
def sampleFrame : Received := ⟨⟨[128, 96, 0, 1, 0, 0, 0, 0], by decide⟩, fun _ => 0, 9⟩

/-- The second signal takes the place of the first. -/
def sampleMoves : List Move :=
  [.checkTimer, .setTimer, .checkPlay, .checkTimer, .setTimer, .wake, .read, .read, .stop,
    .checkTimer]

theorem sampleMoves_ran : ∃ s, Run.attempt step (start sampleFrame) sampleMoves = some s ∧
    s.signals ≤ maxSignals ∧ s.running = false := by
  refine ⟨_, rfl, ?_, rfl⟩
  decide +kernel

/-- However the threads are interleaved, the ticks are played one after the other, none before it
    was given; and when the thread waits with no signal there, it has played all that were given. -/
theorem ticks_in_order {x : Received} {moves : List Move}
    (ran : Run.attempt step (start x) moves = some s) (few : s.signals ≤ maxSignals) :
    s.ticks = List.range s.tsPlayed.toNat ∧ s.tsPlayed.toNat ≤ s.signals ∧
      (s.play = .wait → s.timer = noSignal → s.tsPlayed.toNat = s.signals) := by
  obtain ⟨kept, stopped⟩ := run_kept ran
  obtain ⟨-, -, bounded, caught⟩ := run_signalled ran few
  refine ⟨kept.ticks, bounded.1, fun waits none_ => ?_⟩
  have on : s.timerAt ≠ .done := fun ends => stopped.last ends waits none_
  have same := target_of_other (s := s) (by rw [waits]; exact nofun)
  exact same.symm.trans (caught none_ on)

theorem ticks_in_order_sample : ∃ s, Run.attempt step (start sampleFrame) sampleMoves = some s ∧
    s.ticks = List.range s.tsPlayed.toNat := by
  obtain ⟨s, ran, few, -⟩ := sampleMoves_ran
  exact ⟨s, ran, (ticks_in_order ran few).1⟩

/-- What is sent to the player and written to the file is what the jitter buffer gives, no frame
    before its tick, and the last read for a tick leaves none at the front of the buffer that is
    due at it. What was accepted and not sent is in the buffer. -/
theorem frames_of_run {x : Received} {moves : List Move}
    (ran : Run.attempt step (start x) moves = some s) :
    s.sent.map Prod.snd = JitterBuffer.played Received.frame s.log ∧
      (JitterBuffer.accepted Received.frame s.log).Perm (s.sent.map Prod.snd ++ s.jitter.buffer) ∧
      (readTimes s.log).Pairwise (· ≤ ·) ∧
      (∀ e ∈ s.sent, convertTimestamp e.2.frame.getTimestamp ≤ e.1) ∧
      (∀ tick ∈ s.ticks, EndsTick s.log tick) ∧
      (s.play = .done → s.fp = RtpData.dump (saved s.sent)) := by
  obtain ⟨kept, -⟩ := run_kept ran
  refine ⟨kept.sent, ?_, kept.times.1, kept.due, kept.through, fun ends => ?_⟩
  · rw [kept.sent, kept.jitter]
    exact JitterBuffer.conserved _ _
  · rw [kept.file, ends]
    rfl

theorem frames_of_run_sample :
    ∃ s, Run.attempt step (start sampleFrame) (sampleMoves ++ [.checkPlay]) = some s ∧
      EndsTick s.log 0 ∧ EndsTick s.log 1 ∧
      s.fp = RtpData.dump [RtpData.StreamDump.record sampleFrame] := by
  obtain ⟨s, ran, ends, ticks, sent⟩ : ∃ s,
      Run.attempt step (start sampleFrame) (sampleMoves ++ [.checkPlay]) = some s ∧
        s.play = .done ∧ s.ticks = [0, 1] ∧ s.sent = [(0, sampleFrame)] :=
    ⟨_, rfl, rfl, rfl, rfl⟩
  obtain ⟨-, -, -, -, through, file⟩ := frames_of_run ran
  rw [ticks] at through
  have saved := file ends
  rw [sent] at saved
  exact ⟨s, ran, through 0 (by decide), through 1 (by decide), saved⟩

/-! ## The end -/

/-- How many steps are left to `PlayThread` at most, with so many frames in the buffer. -/
def leftToPlay (frames : Nat) : PlayThread → Nat
  | .check => 1
  | .wait => 4294967299 + frames
  | .reading i tsToPlay => tsToPlay.toNat - i.toNat + frames + 2
  | .done => 0

def leftToGive : TimerThread → Nat
  | .check => 2
  | .tick => 3
  | .last => 1
  | .done => 0

def left (s : StreamPlayer) : Nat := leftToPlay s.jitter.buffer.length s.play + leftToGive s.timerAt

/-- The player was stopped after such a run. -/
def Ending (s : StreamPlayer) : Prop := s.Kept ∧ s.Stopped ∧ s.running = false

/-- A read takes a frame out, or it was the last one for the tick. -/
theorem read_length (jb : JitterBuffer Received) (i : UInt32) :
    (jb.read Received.frame i).1.buffer.length < jb.buffer.length ∨
      (jb.read Received.frame i).2.2 = true ∧
        (jb.read Received.frame i).1.buffer.length ≤ jb.buffer.length := by
  cases there : jb.buffer with
  | nil =>
      rw [JitterBuffer.read_nil _ there, there]
      exact .inr ⟨rfl, Nat.le_refl _⟩
  | cons front buffer =>
      rw [JitterBuffer.read_cons _ there]
      by_cases early : i < convertTimestamp front.frame.getTimestamp
      · rw [if_pos early]
        exact .inr ⟨rfl, Nat.le_of_eq (congrArg List.length there)⟩
      · rw [if_neg early]
        exact .inl (Nat.lt_succ_self _)

theorem readFrame_buffer (s : StreamPlayer) (i tsToPlay : UInt32) :
    (s.readFrame i tsToPlay).jitter = (s.jitter.read Received.frame i).1 := by
  rw [readFrame_eq]
  unfold finish midRead
  cases (s.jitter.read Received.frame i).2.1 <;> split <;> rfl

theorem left_readFrame (kept : s.Kept) {i tsToPlay : UInt32}
    (here : s.play = .reading i tsToPlay) :
    leftToPlay (s.readFrame i tsToPlay).jitter.buffer.length (s.readFrame i tsToPlay).play <
      leftToPlay s.jitter.buffer.length s.play := by
  obtain ⟨rfl, within, bounded⟩ := kept.reading i tsToPlay here
  have value : termination.toNat = 4294967294 := rfl
  rw [UInt32.le_iff_toNat_le] at within
  rw [UInt32.lt_iff_toNat_lt, value] at bounded
  have next : (s.tsPlayed + 1).toNat = s.tsPlayed.toNat + 1 :=
    next_toNat (Nat.lt_of_le_of_lt within bounded) (by decide)
  have shorter := read_length s.jitter s.tsPlayed
  rw [readFrame_buffer, here, leftToPlay]
  obtain ⟨finished, -, play⟩ | ⟨unfinished, -, play⟩ := readFrame_play s s.tsPlayed tsToPlay
  · rw [play]
    by_cases more : s.tsPlayed + 1 ≤ tsToPlay
    · rw [if_pos more, leftToPlay, next]
      rw [UInt32.le_iff_toNat_le, next] at more
      obtain less | ⟨-, le⟩ := shorter <;> omega
    · rw [if_neg more, leftToPlay]
      omega
  · rw [play, here, leftToPlay]
    obtain less | ⟨finished, -⟩ := shorter
    · omega
    · rw [finished] at unfinished
      cases unfinished

theorem left_step (ending : s.Ending) (stepped : Steps s s') : s'.Ending ∧ s'.left < s.left := by
  obtain ⟨kept, stopped, ends⟩ := ending
  have again := step_kept kept stepped
  have still := step_stopped stopped stepped
  cases stepped with
  | receive x running | stop running | goesOn here running =>
      rw [ends] at running
      cases running
  | checkTimer here =>
      refine ⟨⟨again, still, ends⟩, ?_⟩
      simp only [left, here, ends, leftToGive, Bool.false_eq_true, if_false]
      omega
  | setTimer here | terminate here =>
      refine ⟨⟨again, still, ends⟩, ?_⟩
      simp only [left, here, leftToGive]
      omega
  | ends here _ =>
      refine ⟨⟨again, still, ends⟩, ?_⟩
      simp only [left, here, leftToPlay]
      omega
  | skip here signal past =>
      refine ⟨⟨again, still, ends⟩, ?_⟩
      simp only [left, here, leftToPlay]
      omega
  | begin here signal other due =>
      refine ⟨⟨again, still, ends⟩, ?_⟩
      have most := s.timer.toNat_lt
      simp only [left, here, leftToPlay]
      omega
  | @read i tsToPlay here =>
      obtain ⟨-, sameRunning, sameAt, -, -⟩ := readFrame_frame s i tsToPlay
      refine ⟨⟨again, still, sameRunning.trans ends⟩, ?_⟩
      rw [left, left, sameAt]
      exact Nat.add_lt_add_right (left_readFrame kept here) _

/-- Unless both threads are at their end, one of them can take a step. -/
theorem progress (ending : s.Ending) (open_ : ¬(s.play = .done ∧ s.timerAt = .done)) :
    ∃ move s', s.step move = some s' := by
  obtain ⟨kept, stopped, ends⟩ := ending
  cases timer : s.timerAt with
  | check => exact ⟨.checkTimer, _, by rw [step, timer]⟩
  | tick => exact ⟨.setTimer, _, by rw [step, timer]⟩
  | last => exact ⟨.terminate, _, by rw [step, timer]⟩
  | done =>
      cases play : s.play with
      | check => exact ⟨.checkPlay, _, by rw [step, play, if_neg (by rw [ends]; decide)]⟩
      | wait => exact ⟨.wake, _, by rw [step, play, if_neg (stopped.last timer play)]⟩
      | reading i tsToPlay => exact ⟨.read, _, by rw [step, play]⟩
      | done => exact absurd ⟨play, timer⟩ open_

/-- Once the player was stopped the threads end: whatever their order, only so many steps are left,
    and where none is, both are at their end, so the joins return. -/
theorem threads_end {x : Received} {moves : List Move}
    (ran : Run.attempt step (start x) moves = some s) (stopped : s.running = false) :
    (∃ more s', Run.attempt step s more = some s' ∧ s'.play = .done ∧ s'.timerAt = .done) ∧
      ∀ more s', Run.attempt step s more = some s' → more.length ≤ s.left ∧
        ((∀ move, s'.step move = none) → s'.play = .done ∧ s'.timerAt = .done) := by
  obtain ⟨kept, told⟩ := run_kept ran
  have descend (s : StreamPlayer) (move : Move) (s' : StreamPlayer) (ending : s.Ending)
      (stepped : s.step move = some s') := left_step ending (steps_of_step stepped)
  constructor
  · exact Run.attempt_reaches left descend (fun _ => progress) ⟨kept, told, stopped⟩
  · intro more s' later
    obtain ⟨ending, short⟩ := Run.attempt_length_le left descend ⟨kept, told, stopped⟩ later
    refine ⟨by omega, fun stuck => ?_⟩
    by_contra open_
    obtain ⟨move, s'', stepped⟩ := progress ending open_
    rw [stuck move] at stepped
    cases stepped

theorem threads_end_sample : ∃ s, Run.attempt step (start sampleFrame) sampleMoves = some s ∧
    ∃ more s', Run.attempt step s more = some s' ∧ s'.play = .done ∧ s'.timerAt = .done := by
  obtain ⟨s, ran, -, stopped⟩ := sampleMoves_ran
  exact ⟨s, ran, (threads_end ran stopped).1⟩

end StreamPlayer

end Cors
