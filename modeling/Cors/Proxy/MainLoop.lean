import Mathlib.Data.List.Flatten
import Cors.Proxy.EventQueue

/-! # The main loop of the proxy

`CorsProxy::start` sets the timers of its parts, and then runs the queue, sleeps in `select` and
dispatches what came in, over and over. A timer is an event that does its work and adds the next
one, an interval after that. Nothing else adds events. Two of the intervals are parameters.
-/

namespace Cors

open EventQueue

inductive Timer where
  | probe
  | save
  | update
  deriving DecidableEq

/-- `probe_interval`, `save_interval`, and whether the relay advisor is one with updates. -/
structure Timers where
  probeInterval : Int
  saveInterval : Int
  updates : Bool

namespace Timers

def interval (c : Timers) : Timer → Int
  | .probe => c.probeInterval
  | .save => c.saveInterval
  | .update => 1

/-- The timers in the order in which they are set. -/
def all (c : Timers) : List Timer := .probe :: .save :: if c.updates then [.update] else []

end Timers

/-- Where the program is: outside of `run`, with the timers that were not set yet; in `run`; in the
    handler of a timer; or in front of `select`. -/
inductive Phase where
  | outside (unset : List Timer)
  | inside
  | handling (timer : Timer)
  | select
  deriving DecidableEq

/-- The queue in use, and of which timer each event is that was added. -/
structure MainLoop where
  machine : Machine
  kinds : List Timer
  phase : Phase

namespace MainLoop

inductive Move where
  | arm (reading : Int)
  | run (reading : Int)
  | execute
  | rearm (reading : Int)
  | again (reading : Int)
  | dispatch
  deriving DecidableEq

def start (c : Timers) (time : Int) : MainLoop := ⟨.start time, [], .outside c.all⟩

def kind (s : MainLoop) (e : Event) : Timer := s.kinds.getD e.serial .probe

/-- The next event of a timer is added. The sum is exact, which is that of `time_t` as long as the
    reading is an interval before the end of `time_t` or earlier. -/
def add (c : Timers) (s : MainLoop) (timer : Timer) (reading : Int) : Option MainLoop :=
  (s.machine.step (.add reading (reading + c.interval timer))).map fun machine =>
    { s with machine, kinds := s.kinds ++ [timer] }

/-- `run` goes on with the first entry, or returns. -/
def looked (s : MainLoop) (machine : Machine) : MainLoop :=
  { s with machine, phase := if machine.control = .idle then .select else .inside }

def step (c : Timers) (s : MainLoop) : Move → Option MainLoop
  | .arm reading =>
      match s.phase with
      | .outside (timer :: unset) =>
          (s.add c timer reading).map fun s => { s with phase := .outside unset }
      | _ => none
  | .run reading =>
      match s.phase with
      | .outside [] => (s.machine.step (.run reading)).map s.looked
      | _ => none
  | .execute =>
      match s.phase, s.machine.control with
      | .inside, .entry (e :: _) =>
          (s.machine.step .execute).map fun machine =>
            { s with machine, phase := .handling (s.kind e) }
      | _, _ => none
  | .rearm reading =>
      match s.phase with
      | .handling timer =>
          (s.add c timer reading).bind fun s => (s.machine.step .finish).map fun machine =>
            { s with machine, phase := .inside }
      | _ => none
  | .again reading =>
      match s.phase with
      | .inside => (s.machine.step (.again reading)).map s.looked
      | _ => none
  | .dispatch =>
      match s.phase with
      | .select => some { s with phase := .outside [] }
      | _ => none

/-- The clock does not go back. -/
def Allowed (s : MainLoop) : Move → Prop
  | .arm reading | .run reading | .rearm reading | .again reading => s.machine.time ≤ reading
  | .execute | .dispatch => True

instance (s : MainLoop) : (move : Move) → Decidable (s.Allowed move)
  | .arm reading | .run reading | .rearm reading | .again reading =>
      inferInstanceAs (Decidable (s.machine.time ≤ reading))
  | .execute | .dispatch => .isTrue trivial

/-- The timers of which no event is pending. -/
def unarmed : Phase → List Timer
  | .outside unset => unset
  | .handling timer => [timer]
  | .inside | .select => []

/-- How often a timer was executed. -/
def count (s : MainLoop) (timer : Timer) : Nat :=
  (s.machine.executed.map fun x => s.kind x.1).count timer

/-! ## What a step does -/

/-- A timer is armed, `run` looks at the first entry, an event is executed, its handler arms the
    timer again, or what came in is dispatched. -/
inductive Turn (c : Timers) (s : MainLoop) : Move → MainLoop → Prop
  | arm (reading : Int) {timer : Timer} {unset : List Timer}
      (phase : s.phase = .outside (timer :: unset)) :
      Turn c s (.arm reading)
        ⟨s.machine.add reading (reading + c.interval timer), s.kinds ++ [timer], .outside unset⟩
  | run (reading : Int) (phase : s.phase = .outside []) (done : s.machine.control.rest = []) :
      Turn c s (.run reading) (s.looked (s.machine.look reading))
  | execute {e : Event} {rest : List Event} (phase : s.phase = .inside)
      (control : s.machine.control = .entry (e :: rest)) :
      Turn c s .execute
        ⟨{ s.machine with
            control := .handler rest
            executed := s.machine.executed ++ [(e, s.machine.time)] },
          s.kinds, .handling (s.kind e)⟩
  | rearm (reading : Int) {timer : Timer} {rest : List Event} (phase : s.phase = .handling timer)
      (control : s.machine.control = .handler rest) :
      Turn c s (.rearm reading)
        ⟨{ s.machine.add reading (reading + c.interval timer) with control := .entry rest },
          s.kinds ++ [timer], .inside⟩
  | again (reading : Int) (phase : s.phase = .inside) (done : s.machine.control.rest = []) :
      Turn c s (.again reading) (s.looked (s.machine.look reading))
  | dispatch (phase : s.phase = .select) :
      Turn c s .dispatch { s with phase := .outside [] }

theorem add_eq {c : Timers} {s s' : MainLoop} {timer : Timer} {reading : Int}
    (added : s.add c timer reading = some s') :
    s' = { s with
      machine := s.machine.add reading (reading + c.interval timer)
      kinds := s.kinds ++ [timer] } := by
  obtain ⟨machine, stepped, rfl⟩ := Option.map_eq_some_iff.mp added
  cases control : s.machine.control with
  | entry rest => simp [Machine.step, control] at stepped
  | idle => simp [← show _ = machine by simpa [Machine.step, control] using stepped]
  | handler rest => simp [← show _ = machine by simpa [Machine.step, control] using stepped]

theorem step_turn {c : Timers} {s s' : MainLoop} {move : Move} (stepped : s.step c move = some s') :
    Turn c s move s' := by
  obtain ⟨machine, kinds, phase⟩ := s
  cases move with
  | arm reading =>
      cases phase with
      | outside unset =>
          cases unset with
          | nil => cases stepped
          | cons timer unset =>
              obtain ⟨next, added, rfl⟩ := Option.map_eq_some_iff.mp stepped
              obtain rfl := add_eq added
              exact .arm reading rfl
      | inside | handling timer | select => cases stepped
  | run reading =>
      cases phase with
      | outside unset =>
          cases unset with
          | nil =>
              obtain ⟨next, ran, rfl⟩ := Option.map_eq_some_iff.mp stepped
              obtain ⟨done, rfl⟩ := Machine.run_looks ran
              exact .run reading rfl done
          | cons timer unset => cases stepped
      | inside | handling timer | select => cases stepped
  | execute =>
      cases phase with
      | inside =>
          cases control : machine.control with
          | idle => simp [step, control] at stepped
          | handler rest => simp [step, control] at stepped
          | entry rest =>
              cases rest with
              | nil => simp [step, control] at stepped
              | cons e rest =>
                  simp only [step, control, Machine.step, Option.map_some,
                    Option.some.injEq] at stepped
                  exact stepped ▸ .execute rfl control
      | outside unset | handling timer | select => simp [step] at stepped
  | rearm reading =>
      cases phase with
      | handling timer =>
          obtain ⟨next, added, rest⟩ := Option.bind_eq_some_iff.mp stepped
          obtain rfl := add_eq added
          obtain ⟨machine', finished, rfl⟩ := Option.map_eq_some_iff.mp rest
          obtain ⟨_, _, other, -⟩ | ⟨_, other | other, -⟩ | ⟨_, _, other, -⟩ |
            ⟨rest, -, control, rfl⟩ := Machine.step_cases finished
          · cases other
          · cases other
          · cases other
          · cases other
          · exact .rearm reading rfl control
      | outside unset | inside | select => cases stepped
  | again reading =>
      cases phase with
      | inside =>
          obtain ⟨next, ran, rfl⟩ := Option.map_eq_some_iff.mp stepped
          obtain ⟨done, rfl⟩ := Machine.again_looks ran
          exact .again reading rfl done
      | outside unset | handling timer | select => cases stepped
  | dispatch =>
      cases phase with
      | select => exact Option.some.inj stepped ▸ .dispatch rfl
      | outside unset | inside | handling timer => cases stepped

/-! ## What the queue does -/

theorem add_queue {m : Machine} (scheduled : m.Scheduled) (reading : Int) {ts : Int}
    (nonnegative : 0 ≤ ts) :
    (m.add reading ts).q.queue = m.q.queue.push ts ⟨ts, m.added.length⟩ := by
  have kept : ¬ts < m.q.clock := by
    rw [scheduled.clock]
    exact Int.not_lt.mpr nonnegative
  exact congrArg EventQueue.queue (if_neg kept)

theorem add_pending {m : Machine} (scheduled : m.Scheduled) (reading : Int) {ts : Int}
    (nonnegative : 0 ≤ ts) :
    (m.add reading ts).pending.Perm (⟨ts, m.added.length⟩ :: m.pending) := by
  let e : Event := ⟨ts, m.added.length⟩
  obtain ⟨l, r, items, pushed, -, -⟩ := OrderedMap.push_items scheduled.filed e
  have after : (m.add reading ts).pending = m.control.rest ++ (l ++ e :: r) := by
    rw [← pushed, Machine.pending, add_queue scheduled reading nonnegative]
    rfl
  rw [after, Machine.pending, items, ← List.append_assoc, ← List.append_assoc]
  exact List.perm_middle

theorem look_pending {m : Machine} (done : m.control.rest = []) (reading : Int) :
    (m.look reading).pending = m.pending ∧ (m.look reading).executed = m.executed ∧
      (m.look reading).added = m.added ∧ (m.look reading).time = reading := by
  unfold Machine.look
  cases first : m.q.queue.first with
  | none => exact ⟨by rw [Machine.pending, Machine.pending, done]; rfl, rfl, rfl, rfl⟩
  | some etr =>
      by_cases isDue : etr.1 ≤ reading
      · simp only [if_pos isDue, and_true]
        rw [Machine.pending, Machine.pending, done, OrderedMap.items_of_first first]
        rfl
      · simp only [if_neg isDue, and_true]
        rw [Machine.pending, Machine.pending, done]
        rfl

/-! ## The timers that are set -/

theorem look_occupied {m : Machine} (occupied : m.q.queue.Occupied) (reading : Int) :
    (m.look reading).q.queue.Occupied := by
  unfold Machine.look
  cases m.q.queue.first with
  | none => exact occupied
  | some etr =>
      by_cases isDue : etr.1 ≤ reading
      · simp only [if_pos isDue]
        exact occupied.remove etr.1
      · simp only [if_neg isDue]
        exact occupied

theorem look_control (m : Machine) (reading : Int) :
    (m.look reading).control = .idle ∨ ∃ rest, (m.look reading).control = .entry rest := by
  unfold Machine.look
  cases m.q.queue.first with
  | none => exact .inl rfl
  | some etr =>
      by_cases isDue : etr.1 ≤ reading
      · exact .inr ⟨etr.2, by simp only [if_pos isDue]⟩
      · exact .inl (by simp only [if_neg isDue])

/-- Where the queue is, according to where the program is; in front of `select` nothing is due. -/
def Coherent (s : MainLoop) : Prop :=
  match s.phase with
  | .outside _ => s.machine.control = .idle
  | .inside => ∃ rest, s.machine.control = .entry rest
  | .handling _ => ∃ rest, s.machine.control = .handler rest
  | .select => s.machine.control = .idle ∧ ∀ e ∈ s.machine.pending, s.machine.time < e.ts

/-- One event of each timer is pending, but for those that are not armed. It is due an interval
    after the timer was armed, and each one before it took at least as long. -/
structure Armed (c : Timers) (time : Int) (s : MainLoop) : Prop where
  scheduled : s.machine.Scheduled
  occupied : s.machine.q.queue.Occupied
  counted : s.kinds.length = s.machine.added.length
  coherent : s.Coherent
  armed : (unarmed s.phase ++ s.machine.pending.map s.kind).Perm c.all
  forward : time ≤ s.machine.time
  rate : ∀ timer, time + s.count timer * c.interval timer ≤ s.machine.time
  early : ∀ e ∈ s.machine.pending,
    time + (s.count (s.kind e) + 1) * c.interval (s.kind e) ≤ e.ts
  late : ∀ e ∈ s.machine.pending, e.ts ≤ s.machine.time + c.interval (s.kind e)

section Steps
variable {c : Timers} {time : Int} {s s' : MainLoop}

theorem start_armed (c : Timers) (time : Int) : Armed c time (start c time) where
  scheduled := Machine.start_scheduled time
  occupied := OrderedMap.empty_occupied
  counted := rfl
  coherent := rfl
  armed := by
    have nothing : (start c time).machine.pending = [] := rfl
    rw [nothing, List.map_nil, List.append_nil]
    rfl
  forward := Int.le_refl time
  rate timer := by
    have zero : (start c time).count timer = 0 := rfl
    rw [zero, Int.natCast_zero, Int.zero_mul, Int.add_zero]
    exact Int.le_refl time
  early := fun _ member => by cases member
  late := fun _ member => by cases member

theorem kind_old (s : MainLoop) (machine : Machine) (timer : Timer) (phase : Phase) {e : Event}
    (old : e.serial < s.kinds.length) :
    kind ⟨machine, s.kinds ++ [timer], phase⟩ e = s.kind e := by
  rw [kind, kind, List.getD_eq_getElem?_getD, List.getElem?_append_left old,
    List.getD_eq_getElem?_getD]

theorem kind_new (s : MainLoop) (machine : Machine) (timer : Timer) (phase : Phase) {e : Event}
    (last : e.serial = s.kinds.length) :
    kind ⟨machine, s.kinds ++ [timer], phase⟩ e = timer := by
  rw [kind, List.getD_eq_getElem?_getD, last, List.getElem?_concat_length, Option.getD_some]

theorem Armed.serial_lt (armed : Armed c time s) {e : Event} (member : e ∈ s.machine.schedule) :
    e.serial < s.kinds.length := by
  rw [armed.counted]
  exact armed.scheduled.serial_lt e member

theorem Armed.add (armed : Armed c time s) {timer : Timer} {reading : Int}
    (nonnegative : 0 ≤ c.interval timer) (late : s.machine.time ≤ reading) (epoch : 0 ≤ time)
    {machine : Machine} (scheduled : machine.Scheduled)
    (queue : machine.q = (s.machine.add reading (reading + c.interval timer)).q)
    (pending : machine.pending =
      (s.machine.add reading (reading + c.interval timer)).pending)
    (executed : machine.executed = s.machine.executed) (now : machine.time = reading)
    (added : machine.added.length = s.machine.added.length + 1) {phase : Phase}
    (coherent : Coherent ⟨machine, s.kinds ++ [timer], phase⟩)
    (unset : (timer :: unarmed phase).Perm (unarmed s.phase)) :
    Armed c time ⟨machine, s.kinds ++ [timer], phase⟩ := by
  let s' : MainLoop := ⟨machine, s.kinds ++ [timer], phase⟩
  let new : Event := ⟨reading + c.interval timer, s.machine.added.length⟩
  have whole := armed.forward
  have positive : 0 ≤ reading + c.interval timer := by omega
  have perm := add_pending armed.scheduled reading positive
  rw [← pending] at perm
  have old : ∀ e ∈ s.machine.pending, s'.kind e = s.kind e := fun e member =>
    kind_old s machine timer phase (armed.serial_lt (List.mem_append_right _ member))
  have own : s'.kind new = timer := kind_new s machine timer phase armed.counted.symm
  have counts (t : Timer) : s'.count t = s.count t := by
    have same : (s.machine.executed.map fun x => s'.kind x.1) =
        s.machine.executed.map fun x => s.kind x.1 :=
      List.map_congr_left fun x member => kind_old s machine timer phase
        (armed.serial_lt (List.mem_append_left _ (List.mem_map_of_mem member)))
    rw [count, count, executed, same]
  have cases_ : ∀ e ∈ machine.pending, e = new ∨ e ∈ s.machine.pending := fun e member =>
    List.mem_cons.mp (perm.mem_iff.mp member)
  have clock : s.machine.time ≤ machine.time := by rwa [now]
  refine ⟨scheduled, ?_, ?_, coherent, ?_, Int.le_trans whole clock, fun t => ?_,
    fun e member => ?_, fun e member => ?_⟩
  · rw [queue, add_queue armed.scheduled reading positive]
    exact armed.occupied.push _ _
  · rw [List.length_append, List.length_singleton, armed.counted, added]
  · have kinds : (machine.pending.map s'.kind).Perm (timer :: s.machine.pending.map s.kind) := by
      refine (perm.map s'.kind).trans ?_
      rw [List.map_cons, own, List.map_congr_left old]
    refine ((kinds.append_left _).trans List.perm_middle).trans ?_
    exact (unset.append_right _).trans armed.armed
  · rw [counts]
    exact Int.le_trans (armed.rate t) clock
  · obtain rfl | before := cases_ e member
    · have taken := armed.rate timer
      rw [own, counts, Int.add_mul, Int.one_mul]
      change _ ≤ reading + c.interval timer
      omega
    · rw [old e before, counts]
      exact armed.early e before
  · obtain rfl | before := cases_ e member
    · rw [own]
      exact Int.le_of_eq (congrArg (· + c.interval timer) now.symm)
    · have least := armed.late e before
      rw [old e before]
      exact Int.le_trans least (Int.add_le_add_right clock _)

theorem Armed.look (armed : Armed c time s) {reading : Int} (late : s.machine.time ≤ reading)
    (done : s.machine.control.rest = []) (outside : unarmed s.phase = []) :
    Armed c time (s.looked (s.machine.look reading)) := by
  obtain ⟨pending, executed, added, now⟩ := look_pending done reading
  have clock : s.machine.time ≤ (s.machine.look reading).time := by rwa [now]
  have unset : unarmed (s.looked (s.machine.look reading)).phase = [] := by
    unfold looked
    dsimp only
    split <;> rfl
  have counts (t : Timer) : (s.looked (s.machine.look reading)).count t = s.count t :=
    congrArg (fun xs => (xs.map fun x => s.kind x.1).count t) executed
  refine ⟨Machine.look_scheduled armed.scheduled done late,
    look_occupied armed.occupied reading, ?_, ?_, ?_, Int.le_trans armed.forward clock,
    fun t => ?_, fun e member => ?_, fun e member => ?_⟩
  · exact armed.counted.trans (congrArg List.length added).symm
  · obtain idle | ⟨rest, entry⟩ := look_control s.machine reading
    · obtain ⟨same, future⟩ := Machine.look_idle armed.scheduled.filed idle
      have phase : s.looked (s.machine.look reading) =
          ⟨s.machine.look reading, s.kinds, .select⟩ := by rw [looked, if_pos idle]
      rw [phase]
      refine ⟨idle, fun e member => ?_⟩
      rw [now]
      rw [pending, Machine.pending, done] at member
      exact future e member
    · have phase : s.looked (s.machine.look reading) =
          ⟨s.machine.look reading, s.kinds, .inside⟩ := by
        simp only [looked, entry, reduceCtorEq, if_false]
      rw [phase]
      exact ⟨rest, entry⟩
  · have same := armed.armed
    rw [outside] at same
    rw [unset]
    exact (congrArg (List.map s.kind) pending).symm ▸ same
  · rw [counts]
    exact Int.le_trans (armed.rate t) clock
  · rw [counts]
    exact armed.early e (pending ▸ member)
  · exact Int.le_trans (armed.late e (pending ▸ member)) (Int.add_le_add_right clock _)

/-- The handler of a timer is the only place where its event is not pending. -/
theorem Armed.execute (armed : Armed c time s) (nodup : c.all.Nodup) {e : Event}
    {rest : List Event} (phase : s.phase = .inside)
    (control : s.machine.control = .entry (e :: rest)) :
    Armed c time
      ⟨{ s.machine with
          control := .handler rest
          executed := s.machine.executed ++ [(e, s.machine.time)] },
        s.kinds, .handling (s.kind e)⟩ := by
  let s' : MainLoop :=
    ⟨{ s.machine with
        control := .handler rest
        executed := s.machine.executed ++ [(e, s.machine.time)] }, s.kinds, .handling (s.kind e)⟩
  have pending : s.machine.pending = e :: s'.machine.pending := by
    rw [Machine.pending, control]
    rfl
  have kinds : (s.kind e :: s'.machine.pending.map s.kind).Perm c.all := by
    have same := armed.armed
    rw [phase, pending] at same
    exact same
  have other : ∀ x ∈ s'.machine.pending, s.kind x ≠ s.kind e := by
    intro x member same
    refine (List.nodup_cons.mp (kinds.nodup_iff.mpr nodup)).1 ?_
    exact same ▸ List.mem_map_of_mem member
  have counts (t : Timer) : s'.count t = s.count t + if s.kind e = t then 1 else 0 := by
    have executed : s'.machine.executed = s.machine.executed ++ [(e, s.machine.time)] := rfl
    rw [count, executed, List.map_append, List.count_append, List.map_singleton,
      List.count_singleton]
    simp only [beq_iff_eq]
    rfl
  have due : e.ts ≤ s.machine.time := by
    refine armed.scheduled.passed e (List.mem_append_right _ ?_)
    rw [control]
    exact List.mem_cons_self
  refine ⟨Machine.execute_scheduled armed.scheduled control, armed.occupied, armed.counted,
    ⟨rest, rfl⟩, kinds, armed.forward, fun t => ?_, fun x member => ?_, fun x member => ?_⟩
  · rw [counts]
    by_cases same : s.kind e = t
    · subst same
      have early := armed.early e (pending ▸ List.mem_cons_self)
      rw [if_pos rfl, Int.natCast_add]
      exact Int.le_trans early due
    · rw [if_neg same]
      exact armed.rate t
  · have same : s'.count (s.kind x) = s.count (s.kind x) := by
      rw [counts, if_neg (Ne.symm (other x member)), Nat.add_zero]
    have early := armed.early x (pending ▸ List.mem_cons_of_mem e member)
    rw [← same] at early
    exact early
  · exact armed.late x (pending ▸ List.mem_cons_of_mem e member)

theorem all_nodup (c : Timers) : c.all.Nodup := by
  unfold Timers.all
  split <;> decide

theorem Armed.allowed (armed : Armed c time s) (epoch : 0 ≤ time) {timer : Timer} {reading : Int}
    (nonnegative : 0 ≤ c.interval timer) (late : s.machine.time ≤ reading) :
    s.machine.Allowed (.add reading (reading + c.interval timer)) := by
  have whole := armed.forward
  refine ⟨late, ?_, ?_⟩ <;> omega

theorem step_armed (nonnegative : ∀ timer, 0 ≤ c.interval timer) (epoch : 0 ≤ time) {move : Move}
    (allowed : s.Allowed move) (armed : Armed c time s) (stepped : s.step c move = some s') :
    Armed c time s' := by
  have coherent := armed.coherent
  unfold Coherent at coherent
  cases step_turn stepped with
  | @arm reading timer unset phase =>
      have permitted := armed.allowed epoch (nonnegative timer) allowed
      rw [phase] at coherent
      exact armed.add (nonnegative _) allowed epoch
        (Machine.add_scheduled armed.scheduled permitted) rfl rfl rfl rfl
        (List.length_append.trans rfl) coherent (phase ▸ .refl _)
  | run reading phase done => exact armed.look allowed done (congrArg unarmed phase)
  | execute phase control => exact armed.execute (all_nodup c) phase control
  | @rearm reading timer rest phase control =>
      have permitted := armed.allowed epoch (nonnegative timer) allowed
      let added := s.machine.add reading (reading + c.interval timer)
      have free : added.Allowed .finish := trivial
      have finishes : added.step .finish = some { added with control := .entry rest } := by
        simp [added, Machine.step, Machine.add, control]
      have scheduled := Machine.step_scheduled free
        (Machine.add_scheduled armed.scheduled permitted) finishes
      have pending : ({ added with control := .entry rest } : Machine).pending =
          added.pending := by
        have left : added.control.rest = rest := congrArg Control.rest control
        rw [Machine.pending, Machine.pending, left]
        rfl
      exact armed.add (nonnegative timer) allowed epoch scheduled rfl pending rfl rfl
        (List.length_append.trans rfl) ⟨rest, rfl⟩ (phase ▸ .refl _)
  | again reading phase done => exact armed.look allowed done (congrArg unarmed phase)
  | dispatch phase =>
      rw [phase] at coherent
      have same := armed.armed
      rw [phase] at same
      exact ⟨armed.scheduled, armed.occupied, armed.counted, coherent.1, same, armed.forward,
        armed.rate, armed.early, armed.late⟩

theorem run_armed (nonnegative : ∀ timer, 0 ≤ c.interval timer) (epoch : 0 ≤ time)
    {moves : List Move} (allowed : ∀ visit ∈ Run.tries (step c) (start c time) moves,
      Allowed visit.1 visit.2)
    (ran : Run.attempt (step c) (start c time) moves = some s) : Armed c time s :=
  Run.attempt_of_kept (C := Allowed) (fun _ _ _ => step_armed nonnegative epoch)
    (start_armed c time) allowed ran

end Steps

/-! ## Within a second -/

/-- The entries of the queue that are due. -/
def dues (s : MainLoop) : List (Int × List Event) :=
  s.machine.q.queue.entries.filter fun e => e.1 ≤ s.machine.time

/-- How many moves are left until `select` is called, if the clock stands still. -/
def left (s : MainLoop) : Nat :=
  2 * (s.machine.control.rest.length + (s.dues.flatMap Prod.snd).length) + s.dues.length +
    match s.phase with
    | .outside unset => unset.length + 2
    | .inside => 1
    | .handling _ => 2
    | .select => 0

/-- The moves up to the next `select`, all within the second that was read last. -/
def Prompt (s : MainLoop) : Move → Prop
  | .arm reading | .run reading | .rearm reading | .again reading => reading = s.machine.time
  | .execute => True
  | .dispatch => False

instance (s : MainLoop) : (move : Move) → Decidable (s.Prompt move)
  | .arm reading | .run reading | .rearm reading | .again reading =>
      inferInstanceAs (Decidable (reading = s.machine.time))
  | .execute => .isTrue trivial
  | .dispatch => .isFalse id

def stand (c : Timers) (s : MainLoop) (move : Move) : Option MainLoop :=
  if s.Prompt move then s.step c move else none

section Standing
variable {c : Timers} {time : Int} {s s' : MainLoop}

theorem stand_step {move : Move} (stood : s.stand c move = some s') :
    s.Prompt move ∧ s.step c move = some s' := by
  by_cases prompt : s.Prompt move
  · exact ⟨prompt, by rwa [stand, if_pos prompt] at stood⟩
  · rw [stand, if_neg prompt] at stood
    cases stood

theorem allowed_of_prompt {move : Move} (prompt : s.Prompt move) : s.Allowed move := by
  cases move with
  | arm reading | run reading | rearm reading | again reading => exact Int.le_of_eq prompt.symm
  | execute => exact trivial
  | dispatch => exact absurd prompt id

theorem Armed.dues_add (armed : Armed c time s) (epoch : 0 ≤ time) {ts : Int}
    (future : s.machine.time < ts) (kinds : List Timer) (phase : Phase) :
    dues ⟨s.machine.add s.machine.time ts, kinds, phase⟩ = s.dues := by
  have whole := armed.forward
  have nonnegative : 0 ≤ ts := by omega
  have queue := add_queue armed.scheduled s.machine.time nonnegative
  rw [dues, queue]
  exact OrderedMap.filter_push (p := (· ≤ s.machine.time)) _ (Int.not_le.mpr future) _

/-- A look at the queue takes the first entry out, unless it is not due. -/
theorem look_dues (m : Machine) :
    (m.look m.time).control = .idle ∧ (m.look m.time).q = m.q ∨
      ∃ etr, (m.look m.time).control = .entry etr.2 ∧
        (m.q.queue.entries.filter fun e => e.1 ≤ m.time) =
          etr :: (m.look m.time).q.queue.entries.filter fun e => e.1 ≤ m.time := by
  unfold Machine.look
  cases first : m.q.queue.first with
  | none => exact .inl ⟨rfl, rfl⟩
  | some etr =>
      by_cases isDue : etr.1 ≤ m.time
      · refine .inr ⟨etr, by simp only [if_pos isDue], ?_⟩
        simp only [if_pos isDue]
        rw [OrderedMap.entries_of_first first, List.filter_cons_of_pos (by simpa using isDue)]
      · refine .inl ⟨?_, ?_⟩ <;> simp only [if_neg isDue]

theorem left_look (s : MainLoop) (done : s.machine.control.rest = []) :
    (s.looked (s.machine.look s.machine.time)).left ≤
      2 * (s.dues.flatMap Prod.snd).length + s.dues.length := by
  have now : (s.machine.look s.machine.time).time = s.machine.time := (look_pending done _).2.2.2
  obtain ⟨idle, queue⟩ | ⟨etr, entry, dues⟩ := look_dues s.machine
  · simp [looked, left, MainLoop.dues, idle, queue, now, Control.rest]
  · rw [MainLoop.dues, dues, List.flatMap_cons, List.length_append, List.length_cons]
    simp only [looked, left, MainLoop.dues, entry, now, Control.rest, reduceCtorEq, if_false]
    omega

/-- Every move within a second brings `select` nearer. -/
theorem stand_left (positive : ∀ timer, 0 < c.interval timer) (epoch : 0 ≤ time) {move : Move}
    (armed : Armed c time s) (stood : s.stand c move = some s') :
    Armed c time s' ∧ s'.left < s.left := by
  obtain ⟨prompt, stepped⟩ := stand_step stood
  have nonnegative : ∀ timer, 0 ≤ c.interval timer := fun timer => Int.le_of_lt (positive timer)
  refine ⟨step_armed nonnegative epoch (allowed_of_prompt prompt) armed stepped, ?_⟩
  cases step_turn stepped with
  | @arm reading timer unset phase =>
      obtain rfl : reading = s.machine.time := prompt
      have future : s.machine.time < s.machine.time + c.interval timer :=
        Int.lt_add_of_pos_right _ (positive timer)
      have dues := armed.dues_add epoch future (s.kinds ++ [timer]) (.outside unset)
      have control : (s.machine.add s.machine.time (s.machine.time + c.interval timer)).control =
        s.machine.control := rfl
      simp only [left, dues, control, phase, List.length_cons]
      omega
  | run reading phase done =>
      obtain rfl : reading = s.machine.time := prompt
      have nearer := left_look s done
      simp only [left, done, phase, List.length_nil] at nearer ⊢
      omega
  | @execute e rest phase control =>
      have dues : dues ⟨{ s.machine with
          control := .handler rest
          executed := s.machine.executed ++ [(e, s.machine.time)] },
        s.kinds, .handling (s.kind e)⟩ = s.dues := rfl
      simp only [left, dues, control, phase, Control.rest, List.length_cons]
      omega
  | @rearm reading timer rest phase control =>
      obtain rfl : reading = s.machine.time := prompt
      have future : s.machine.time < s.machine.time + c.interval timer :=
        Int.lt_add_of_pos_right _ (positive timer)
      have dues : dues ⟨{ s.machine.add s.machine.time (s.machine.time + c.interval timer) with
          control := .entry rest }, s.kinds ++ [timer], .inside⟩ = s.dues :=
        armed.dues_add epoch future (s.kinds ++ [timer]) .inside
      simp only [left, dues, control, phase, Control.rest]
      omega
  | again reading phase done =>
      obtain rfl : reading = s.machine.time := prompt
      have nearer := left_look s done
      simp only [left, done, phase, List.length_nil] at nearer ⊢
      omega
  | dispatch phase => exact absurd prompt id

theorem stand_progress (armed : Armed c time s) (running : s.phase ≠ .select) :
    ∃ move s', s.stand c move = some s' := by
  let now := s.machine.time
  have coherent := armed.coherent
  unfold Coherent at coherent
  cases phase : s.phase with
  | select => exact absurd phase running
  | outside unset =>
      rw [phase] at coherent
      cases unset with
      | nil =>
          have looks : s.machine.step (.run now) = some (s.machine.look now) := by
            simp [Machine.step, coherent]
          refine ⟨.run now, s.looked (s.machine.look now), ?_⟩
          simp [stand, Prompt, step, phase, looks, now]
      | cons timer unset =>
          have adds : s.machine.step (.add now (now + c.interval timer)) =
              some (s.machine.add now (now + c.interval timer)) := by
            simp [Machine.step, coherent]
          refine ⟨.arm now, ⟨s.machine.add now (now + c.interval timer), s.kinds ++ [timer],
            .outside unset⟩, ?_⟩
          simp [stand, Prompt, step, add, phase, adds, now]
  | inside =>
      rw [phase] at coherent
      obtain ⟨rest, control⟩ := coherent
      cases rest with
      | nil =>
          have looks : s.machine.step (.again now) = some (s.machine.look now) := by
            simp [Machine.step, control]
          refine ⟨.again now, s.looked (s.machine.look now), ?_⟩
          simp [stand, Prompt, step, phase, looks, now]
      | cons e rest =>
          refine ⟨.execute, ⟨{ s.machine with
            control := .handler rest
            executed := s.machine.executed ++ [(e, now)] }, s.kinds, .handling (s.kind e)⟩, ?_⟩
          simp [stand, Prompt, step, phase, control, Machine.step, now]
  | handling timer =>
      rw [phase] at coherent
      obtain ⟨rest, control⟩ := coherent
      let added := s.machine.add now (now + c.interval timer)
      have adds : s.machine.step (.add now (now + c.interval timer)) = some added := by
        simp [Machine.step, control, added]
      have finishes : added.step .finish = some { added with control := .entry rest } := by
        simp [added, Machine.step, Machine.add, control]
      refine ⟨.rearm now,
        ⟨{ added with control := .entry rest }, s.kinds ++ [timer], .inside⟩, ?_⟩
      have prompt : s.Prompt (.rearm now) := rfl
      rw [stand, if_pos prompt]
      simp only [step, phase, add, adds, Option.map_some, Option.bind_some, finishes]

/-- Each timer can be due once. -/
theorem left_le (armed : Armed c time s) : s.left ≤ 3 * c.all.length + 2 := by
  have entries : s.dues.length ≤ (s.dues.flatMap Prod.snd).length := armed.occupied.length_le _
  have part : (s.dues.flatMap Prod.snd).length ≤ s.machine.q.queue.items.length :=
    (List.filter_sublist.flatMap Prod.snd).length_le
  have whole := armed.armed.length_eq
  rw [List.length_append, List.length_map, Machine.pending, List.length_append] at whole
  unfold left
  cases phase : s.phase <;>
    simp only [phase, unarmed, List.length_nil, List.length_singleton] at whole ⊢ <;>
    omega

end Standing

/-! ## What follows -/

section Results
variable {c : Timers} {time : Int}

/-- However late the program is: in every run one event of each timer is pending or about to be
    added, never more than an interval ahead, and a timer has not been executed more often than
    its intervals fit into the time. Nothing is due when `select` is called. -/
theorem timers_of_run (nonnegative : ∀ timer, 0 ≤ c.interval timer) (epoch : 0 ≤ time)
    {moves : List Move} {s : MainLoop}
    (allowed : ∀ visit ∈ Run.tries (step c) (start c time) moves, Allowed visit.1 visit.2)
    (ran : Run.attempt (step c) (start c time) moves = some s) :
    (unarmed s.phase ++ s.machine.pending.map s.kind).Perm c.all ∧
      (∀ e ∈ s.machine.pending, e.ts ≤ s.machine.time + c.interval (s.kind e)) ∧
        (∀ timer, time + s.count timer * c.interval timer ≤ s.machine.time) ∧
          (s.phase = .select → ∀ e ∈ s.machine.pending, s.machine.time < e.ts) := by
  have armed := run_armed nonnegative epoch allowed ran
  refine ⟨armed.armed, armed.late, armed.rate, fun phase => ?_⟩
  have coherent := armed.coherent
  rw [Coherent, phase] at coherent
  exact coherent.2

/-- Two timers, of which the second one is late once. -/
def sampleTimers : Timers := ⟨2, 3, false⟩

def sampleMoves : List Move :=
  [.arm 10, .arm 10, .run 10, .dispatch, .run 12, .execute, .rearm 13, .again 13, .execute,
    .rearm 13, .again 13]

theorem sample_intervals : ∀ timer, 0 < sampleTimers.interval timer := by
  intro timer
  cases timer <;> decide

theorem sample_allowed :
    ∀ visit ∈ Run.tries (step sampleTimers) (start sampleTimers 10) sampleMoves,
      Allowed visit.1 visit.2 := by
  decide +kernel

theorem timers_of_run_sample : ∃ s,
    Run.attempt (step sampleTimers) (start sampleTimers 10) sampleMoves = some s ∧
      ∀ timer, 10 + s.count timer * sampleTimers.interval timer ≤ s.machine.time := by
  obtain ⟨s, ran⟩ :
      ∃ s, Run.attempt (step sampleTimers) (start sampleTimers 10) sampleMoves = some s := ⟨_, rfl⟩
  exact ⟨s, ran, (timers_of_run (fun timer => Int.le_of_lt (sample_intervals timer)) (by decide)
    sample_allowed ran).2.2.1⟩

/-- A timer without an interval is due again as soon as it was executed: `run` never returns, and
    nothing that comes in is ever dispatched. -/
theorem starved_of_run (nonnegative : ∀ timer, 0 ≤ c.interval timer) (epoch : 0 ≤ time)
    {timer : Timer} (member : timer ∈ c.all) (none : c.interval timer = 0) {moves : List Move}
    {s : MainLoop}
    (allowed : ∀ visit ∈ Run.tries (step c) (start c time) moves, Allowed visit.1 visit.2)
    (ran : Run.attempt (step c) (start c time) moves = some s) : s.phase ≠ .select := by
  intro phase
  have armed := run_armed nonnegative epoch allowed ran
  have kinds := armed.armed
  have coherent := armed.coherent
  rw [phase] at kinds
  rw [Coherent, phase] at coherent
  obtain ⟨e, pending, rfl⟩ := List.mem_map.mp (kinds.mem_iff.mpr member)
  have late := armed.late e pending
  have future := coherent.2 e pending
  rw [none] at late
  omega

def saving : Timers := ⟨2, 0, false⟩

def savingMoves : List Move := [.arm 10, .arm 10, .run 10, .execute, .rearm 11, .again 11]

theorem starved_of_run_sample : ∃ s,
    Run.attempt (step saving) (start saving 10) savingMoves = some s ∧ s.phase ≠ .select := by
  obtain ⟨s, ran⟩ : ∃ s, Run.attempt (step saving) (start saving 10) savingMoves = some s :=
    ⟨_, rfl⟩
  have member : Timer.save ∈ saving.all := by decide
  refine ⟨s, ran, starved_of_run ?_ ?_ member rfl ?_ ran⟩
  · intro timer
    cases timer <;> decide
  · decide
  · decide +kernel

/-- If all intervals are positive, `run` returns within the second if the clock lets it: whatever
    happened before, at most three moves for each timer and two more lead to `select`. -/
theorem served_of_run (positive : ∀ timer, 0 < c.interval timer) (epoch : 0 ≤ time)
    {moves : List Move} {s : MainLoop}
    (allowed : ∀ visit ∈ Run.tries (step c) (start c time) moves, Allowed visit.1 visit.2)
    (ran : Run.attempt (step c) (start c time) moves = some s) :
    (∃ more s', Run.attempt (stand c) s more = some s' ∧ s'.phase = .select) ∧
      ∀ more s', Run.attempt (stand c) s more = some s' →
        more.length ≤ 3 * c.all.length + 2 := by
  have nonnegative : ∀ timer, 0 ≤ c.interval timer := fun timer => Int.le_of_lt (positive timer)
  have armed := run_armed nonnegative epoch allowed ran
  refine ⟨?_, fun more s' stood => ?_⟩
  · refine Run.attempt_reaches (P := Armed c time) left (fun _ _ _ => stand_left positive epoch)
      (fun s armed running => stand_progress armed running) armed
  · have most := Run.attempt_length_le left (fun _ _ _ => stand_left positive epoch) armed stood
    have least := left_le armed
    omega

theorem served_of_run_sample : ∃ s,
    Run.attempt (step sampleTimers) (start sampleTimers 10) sampleMoves = some s ∧
      ∃ more s', Run.attempt (stand sampleTimers) s more = some s' ∧ s'.phase = .select := by
  obtain ⟨s, ran⟩ :
      ∃ s, Run.attempt (step sampleTimers) (start sampleTimers 10) sampleMoves = some s := ⟨_, rfl⟩
  exact ⟨s, ran, (served_of_run sample_intervals (by decide) sample_allowed ran).1⟩

end Results

end MainLoop

end Cors
