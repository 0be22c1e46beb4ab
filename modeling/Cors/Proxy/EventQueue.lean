import Mathlib.Data.Int.Order.Basic
import Cors.Lib.OrderedMap
import Cors.Lib.Run

/-! # The timer queue

`EventQueue` keeps the events of one second in one entry. `run` takes the first entry out as
long as it is due and executes its events; their handlers add further events while it does. A
run of the machine is any interleaving of that: what is executed and what is pending is always
one list in the order of the times, and of the additions where times are equal. Times are whole
numbers: what holds of them holds of those in `time_t` that no sum takes out of it.
-/

namespace Cors

/-- An event, and how many were added before it. -/
structure Event where
  ts : Int
  serial : Nat
  deriving DecidableEq

structure EventQueue where
  queue : OrderedMap Int (List Event)
  clock : Int

namespace EventQueue

/-- `EventQueue()`. -/
def new : EventQueue := ⟨.empty, 0⟩

/-- `add_event`. The clock it compares with is never set. -/
def addEvent (q : EventQueue) (e : Event) : EventQueue :=
  if e.ts < q.clock then q else { q with queue := q.queue.push e.ts e }

/-! ## The machine -/

/-- Where the program is: not in `run`; in the loop over the events of an entry; or in the
    handler of one of them, with the ones that follow it. -/
inductive Control where
  | idle
  | entry (rest : List Event)
  | handler (rest : List Event)
  deriving DecidableEq

/-- The events of the current entry that were not executed. -/
def Control.rest : Control → List Event
  | idle => []
  | entry rest => rest
  | handler rest => rest

/-- The queue in use: the last reading of the clock, all events that were added, and those that
    were executed, each with the reading at that time. -/
structure Machine where
  q : EventQueue
  control : Control
  time : Int
  added : List Event
  executed : List (Event × Int)

inductive Move where
  | add (reading ts : Int)
  | run (reading : Int)
  | execute
  | finish
  | again (reading : Int)
  deriving DecidableEq

namespace Machine

def start (time : Int) : Machine := ⟨.new, .idle, time, [], []⟩

/-- The condition of the loop: the first entry is unlinked if it is due. -/
def look (m : Machine) (reading : Int) : Machine :=
  match m.q.queue.first with
  | some etr =>
      if etr.1 ≤ reading then
        { m with
          q := { m.q with queue := m.q.queue.remove etr.1 }
          control := .entry etr.2
          time := reading }
      else
        { m with control := .idle, time := reading }
  | none => { m with control := .idle, time := reading }

/-- A new event, as handlers and the program outside of `run` make them. -/
def add (m : Machine) (reading ts : Int) : Machine :=
  let e : Event := ⟨ts, m.added.length⟩
  { m with q := m.q.addEvent e, time := reading, added := m.added ++ [e] }

def step (m : Machine) : Move → Option Machine
  | .add reading ts =>
      match m.control with
      | .entry _ => none
      | _ => some (m.add reading ts)
  | .run reading =>
      match m.control with
      | .idle => some (m.look reading)
      | _ => none
  | .execute =>
      match m.control with
      | .entry (e :: rest) =>
          some { m with control := .handler rest, executed := m.executed ++ [(e, m.time)] }
      | _ => none
  | .finish =>
      match m.control with
      | .handler rest => some { m with control := .entry rest }
      | _ => none
  | .again reading =>
      match m.control with
      | .entry [] => some (m.look reading)
      | _ => none

/-- The clock does not go back, and events are not stamped with a time before the reading. -/
def Allowed (m : Machine) : Move → Prop
  | .add reading ts => m.time ≤ reading ∧ 0 ≤ ts ∧ reading ≤ ts
  | .run reading => m.time ≤ reading
  | .execute => True
  | .finish => True
  | .again reading => m.time ≤ reading

instance (m : Machine) (move : Move) : Decidable (m.Allowed move) := by
  cases move <;> unfold Allowed <;> infer_instance

/-- `run` returns, having read the clock last. -/
def Returns (m : Machine) (reading : Int) (m' : Machine) : Prop :=
  (m.step (.run reading) = some m' ∨ m.step (.again reading) = some m') ∧ m'.control = .idle

def pending (m : Machine) : List Event := m.control.rest ++ m.q.queue.items

end Machine

/-- The order of the events. -/
def Before (a b : Event) : Prop := a.ts < b.ts ∨ a.ts = b.ts ∧ a.serial < b.serial

namespace Machine

/-- Everything that was executed was executed once, not too early and in order, and all else
    that was added is pending. -/
structure Orderly (m : Machine) : Prop where
  once : (m.executed.map fun x => x.1.serial).Nodup
  due : ∀ x ∈ m.executed, x.1.ts ≤ x.2
  ordered : m.executed.Pairwise fun x y => Before x.1 y.1
  account : (m.executed.map Prod.fst ++ m.pending).Perm m.added

/-- All that was due has been executed. -/
structure Drained (m : Machine) (reading : Int) : Prop where
  late : ∀ e ∈ m.pending, reading < e.ts
  executed : ∀ e ∈ m.added, e.ts ≤ reading → e ∈ m.executed.map Prod.fst

/-! ## The invariant -/

/-- The events in the order in which they were or would be executed. -/
def schedule (m : Machine) : List Event := m.executed.map Prod.fst ++ m.pending

structure Scheduled (m : Machine) : Prop where
  clock : m.q.clock = 0
  filed : m.q.queue.Filed Event.ts
  ordered : m.schedule.Pairwise Before
  passed : ∀ e ∈ m.executed.map Prod.fst ++ m.control.rest, e.ts ≤ m.time
  account : m.schedule.Perm m.added
  serial : m.added.map Event.serial = List.range m.added.length
  due : ∀ x ∈ m.executed, x.1.ts ≤ x.2

theorem start_scheduled (time : Int) : (start time).Scheduled where
  clock := rfl
  filed := OrderedMap.empty_filed
  ordered := .nil
  passed := fun _ member => by cases member
  account := .nil
  serial := rfl
  due := fun _ member => by cases member

theorem Scheduled.serial_lt {m : Machine} (scheduled : m.Scheduled) :
    ∀ e ∈ m.schedule, e.serial < m.added.length := by
  intro e member
  have present : e.serial ∈ m.added.map Event.serial :=
    List.mem_map_of_mem (scheduled.account.mem_iff.mp member)
  rw [scheduled.serial] at present
  exact List.mem_range.mp present

theorem before_of_le {a b : Event} (time : a.ts ≤ b.ts) (serial : a.serial < b.serial) :
    Before a b := by
  cases Int.lt_or_eq_of_le time with
  | inl less => exact .inl less
  | inr same => exact .inr ⟨same, serial⟩

theorem pairwise_insert {R : α → α → Prop} {l r : List α} {x : α} (ordered : (l ++ r).Pairwise R)
    (front : ∀ y ∈ l, R y x) (back : ∀ y ∈ r, R x y) : (l ++ x :: r).Pairwise R := by
  obtain ⟨left, right, apart⟩ := List.pairwise_append.mp ordered
  refine List.pairwise_append.mpr ⟨left, List.pairwise_cons.mpr ⟨back, right⟩, ?_⟩
  intro y member z after
  cases List.mem_cons.mp after with
  | inl own => exact own ▸ front y member
  | inr later => exact apart y member z later

theorem add_scheduled {m : Machine} (scheduled : m.Scheduled) {reading ts : Int}
    (allowed : m.Allowed (.add reading ts)) : (m.add reading ts).Scheduled := by
  obtain ⟨forward, nonnegative, stamped⟩ := allowed
  let e : Event := ⟨ts, m.added.length⟩
  obtain ⟨l, r, items, pushed, low, high⟩ := OrderedMap.push_items scheduled.filed e
  have kept : ¬e.ts < m.q.clock := by
    rw [scheduled.clock]
    exact Int.not_lt.mpr nonnegative
  have queue : (m.add reading ts).q = { m.q with queue := m.q.queue.push e.ts e } := if_neg kept
  let front := m.executed.map Prod.fst ++ m.control.rest ++ l
  have before : m.schedule = front ++ r := by
    simp only [schedule, pending, items, front, List.append_assoc]
  have after : (m.add reading ts).schedule = front ++ e :: r := by
    have same : (m.add reading ts).schedule =
        m.executed.map Prod.fst ++ (m.control.rest ++ (m.add reading ts).q.queue.items) := rfl
    rw [same, queue]
    simp only [pushed, front, List.append_assoc]
  have serial := scheduled.serial_lt
  have early : ∀ y ∈ front, y.ts ≤ ts := by
    intro y member
    cases List.mem_append.mp member with
    | inl gone =>
        have passed := scheduled.passed y gone
        omega
    | inr under => exact low y under
  refine ⟨?_, ?_, ?_, fun y member => ?_, ?_, ?_, scheduled.due⟩
  · rw [queue]
    exact scheduled.clock
  · rw [queue]
    exact scheduled.filed.push e
  · rw [after]
    rw [before] at serial
    refine pairwise_insert (before ▸ scheduled.ordered) (fun y member => ?_) fun y member => ?_
    · exact before_of_le (early y member) (serial y (List.mem_append_left _ member))
    · exact .inl (high y member)
  · exact Int.le_trans (scheduled.passed y member) forward
  · rw [after]
    have account := scheduled.account
    rw [before] at account
    exact List.perm_middle.trans
      ((account.cons e).trans (List.perm_append_singleton e m.added).symm)
  · have added : (m.add reading ts).added = m.added ++ [e] := rfl
    rw [added, List.map_append, scheduled.serial, List.length_append, List.length_singleton,
      List.range_succ]
    rfl

/-- When the loop asks, all events of the last entry have been executed. -/
theorem look_scheduled {m : Machine} (scheduled : m.Scheduled) (done : m.control.rest = [])
    {reading : Int} (forward : m.time ≤ reading) : (m.look reading).Scheduled := by
  obtain ⟨clock, filed, ordered, passed, account, serial, due⟩ := scheduled
  have stays : ({ m with control := .idle, time := reading } : Machine).Scheduled := by
    have same : ({ m with control := .idle, time := reading } : Machine).schedule = m.schedule := by
      simp only [schedule, pending, done]
      rfl
    refine ⟨clock, filed, same ▸ ordered, fun e member => ?_, same ▸ account, serial, due⟩
    have gone : e ∈ m.executed.map Prod.fst ++ m.control.rest := by
      rw [done]
      exact member
    exact Int.le_trans (passed e gone) forward
  cases first : m.q.queue.first with
  | none =>
      simp only [look, first]
      exact stays
  | some etr =>
      by_cases isDue : etr.1 ≤ reading
      · simp only [look, first, if_pos isDue]
        have items := OrderedMap.items_of_first first
        have same : m.schedule = m.executed.map Prod.fst ++
            (etr.2 ++ (m.q.queue.remove etr.1).items) := by
          rw [schedule, pending, done, items, List.nil_append]
        rw [same] at ordered account
        refine ⟨clock, filed.remove etr.1, ordered, fun e member => ?_, account, serial, due⟩
        cases List.mem_append.mp member with
        | inl executed =>
            exact Int.le_trans (passed e (List.mem_append_left _ executed)) forward
        | inr taken =>
            have own : etr ∈ m.q.queue.entries := by
              rw [OrderedMap.entries_of_first first]
              exact List.mem_cons_self
            exact Int.le_trans (Int.le_of_eq (filed etr own e taken)) isDue
      · simp only [look, first, if_neg isDue]
        exact stays

theorem execute_scheduled {m : Machine} (scheduled : m.Scheduled) {e : Event} {rest : List Event}
    (control : m.control = .entry (e :: rest)) :
    ({ m with control := .handler rest, executed := m.executed ++ [(e, m.time)] } :
      Machine).Scheduled := by
  obtain ⟨clock, filed, ordered, passed, account, serial, due⟩ := scheduled
  have gone : m.executed.map Prod.fst ++ m.control.rest =
      (m.executed ++ [(e, m.time)]).map Prod.fst ++ rest := by
    rw [control, List.map_append]
    exact List.append_cons _ _ _
  have same : m.schedule = (m.executed ++ [(e, m.time)]).map Prod.fst ++
      (rest ++ m.q.queue.items) := by
    rw [schedule, pending, ← List.append_assoc, gone, List.append_assoc]
  rw [same] at ordered account
  rw [gone] at passed
  refine ⟨clock, filed, ordered, passed, account, serial, fun x member => ?_⟩
  cases List.mem_append.mp member with
  | inl before => exact due x before
  | inr now =>
      obtain rfl := List.mem_singleton.mp now
      exact passed e (by simp)

theorem run_looks {m m' : Machine} {reading : Int} (stepped : m.step (.run reading) = some m') :
    m.control.rest = [] ∧ m' = m.look reading := by
  cases control : m.control with
  | entry rest => simp [step, control] at stepped
  | handler rest => simp [step, control] at stepped
  | idle => exact ⟨rfl, by simpa [step, control] using stepped.symm⟩

theorem again_looks {m m' : Machine} {reading : Int}
    (stepped : m.step (.again reading) = some m') :
    m.control.rest = [] ∧ m' = m.look reading := by
  cases control : m.control with
  | idle => simp [step, control] at stepped
  | handler rest => simp [step, control] at stepped
  | entry rest =>
      cases rest with
      | cons e rest => simp [step, control] at stepped
      | nil => exact ⟨rfl, by simpa [step, control] using stepped.symm⟩

/-- What a step can be: an addition, a look at the first entry when none is left to execute of
    the last one, or the next event of the entry or the end of its handler. -/
theorem step_cases {m m' : Machine} {move : Move} (stepped : m.step move = some m') :
    (∃ reading ts, move = .add reading ts ∧ m' = m.add reading ts) ∨
      (∃ reading, (move = .run reading ∨ move = .again reading) ∧ m.control.rest = [] ∧
        m' = m.look reading) ∨
      (∃ e rest, move = .execute ∧ m.control = .entry (e :: rest) ∧
        m' = { m with control := .handler rest, executed := m.executed ++ [(e, m.time)] }) ∨
      ∃ rest, move = .finish ∧ m.control = .handler rest ∧
        m' = { m with control := .entry rest } := by
  cases move with
  | add reading ts =>
      refine .inl ⟨reading, ts, rfl, ?_⟩
      cases control : m.control with
      | entry rest => simp [step, control] at stepped
      | idle => simpa [step, control] using stepped.symm
      | handler rest => simpa [step, control] using stepped.symm
  | run reading => exact .inr (.inl ⟨reading, .inl rfl, run_looks stepped⟩)
  | execute =>
      refine .inr (.inr (.inl ?_))
      cases control : m.control with
      | idle => simp [step, control] at stepped
      | handler rest => simp [step, control] at stepped
      | entry rest =>
          cases rest with
          | nil => simp [step, control] at stepped
          | cons e rest => exact ⟨e, rest, rfl, rfl, by simpa [step, control] using stepped.symm⟩
  | finish =>
      refine .inr (.inr (.inr ?_))
      cases control : m.control with
      | idle => simp [step, control] at stepped
      | entry rest => simp [step, control] at stepped
      | handler rest => exact ⟨rest, rfl, rfl, by simpa [step, control] using stepped.symm⟩
  | again reading => exact .inr (.inl ⟨reading, .inr rfl, again_looks stepped⟩)

theorem step_scheduled {m m' : Machine} {move : Move} (allowed : m.Allowed move)
    (scheduled : m.Scheduled) (stepped : m.step move = some m') : m'.Scheduled := by
  obtain ⟨reading, ts, rfl, rfl⟩ | ⟨reading, looks, done, rfl⟩ | ⟨e, rest, rfl, control, rfl⟩ |
    ⟨rest, rfl, control, rfl⟩ := step_cases stepped
  · exact add_scheduled scheduled allowed
  · obtain rfl | rfl := looks
    · exact look_scheduled scheduled done allowed
    · exact look_scheduled scheduled done allowed
  · exact execute_scheduled scheduled control
  · have left : m.control.rest = rest := congrArg Control.rest control
    obtain ⟨clock, filed, ordered, passed, account, serial, due⟩ := scheduled
    rw [schedule, pending, left] at ordered account
    rw [left] at passed
    exact ⟨clock, filed, ordered, passed, account, serial, due⟩

/-! ## What follows -/

theorem Scheduled.orderly {m : Machine} (scheduled : m.Scheduled) : m.Orderly where
  once := by
    have serials : (m.schedule.map Event.serial).Nodup := by
      have perm := scheduled.account.map Event.serial
      rw [scheduled.serial] at perm
      exact perm.nodup_iff.mpr List.nodup_range
    rw [schedule, List.map_append, List.map_map] at serials
    exact (List.nodup_append.mp serials).1
  due := scheduled.due
  ordered := List.pairwise_map.mp (List.pairwise_append.mp scheduled.ordered).1
  account := scheduled.account

theorem look_idle {m : Machine} (filed : m.q.queue.Filed Event.ts) {reading : Int}
    (idle : (m.look reading).control = .idle) :
    m.look reading = { m with control := .idle, time := reading } ∧
      ∀ e ∈ m.q.queue.items, reading < e.ts := by
  cases first : m.q.queue.first with
  | none =>
      refine ⟨by simp only [look, first], fun e member => ?_⟩
      rw [OrderedMap.items_of_none first] at member
      cases member
  | some etr =>
      by_cases isDue : etr.1 ≤ reading
      · simp [look, first, if_pos isDue] at idle
      · refine ⟨by simp only [look, first, if_neg isDue], fun e member => ?_⟩
        exact Int.lt_of_lt_of_le (Int.not_le.mp isDue) (OrderedMap.first_le filed first e member)

theorem returns_drained {m m' : Machine} (scheduled : m.Scheduled) {reading : Int}
    (returns : m.Returns reading m') : m'.Drained reading := by
  obtain ⟨stepped, idle⟩ := returns
  obtain ⟨done, rfl⟩ : m.control.rest = [] ∧ m' = m.look reading :=
    stepped.elim run_looks again_looks
  obtain ⟨stopped, late⟩ := look_idle scheduled.filed idle
  rw [stopped]
  have account := scheduled.account
  rw [schedule, pending, done, List.nil_append] at account
  refine ⟨late, fun e member isDue => ?_⟩
  cases List.mem_append.mp (account.mem_iff.mpr member) with
  | inl executed => exact executed
  | inr waits => exact absurd (late e waits) (Int.not_lt.mpr isDue)

/-- In every run in which the clock does not go back and no event is stamped too early, the
    events are executed in order, and when `run` returns none of those that are due is left. -/
theorem events_orderly (time : Int) {moves : List Move} {m : Machine}
    (allowed : ∀ visit ∈ Run.tries step (start time) moves, Allowed visit.1 visit.2)
    (ran : Run.attempt step (start time) moves = some m) :
    m.Orderly ∧ ∀ reading m', m.Returns reading m' → m'.Drained reading := by
  have scheduled : m.Scheduled :=
    Run.attempt_of_kept (C := Allowed) (fun _ _ _ => step_scheduled) (start_scheduled time) allowed
      ran
  exact ⟨scheduled.orderly, fun _ _ => returns_drained scheduled⟩

/-- A handler that adds an event for the same second as its own. -/
def rearming : List Move := [.add 0 1, .run 1, .execute, .add 1 1, .finish, .again 1, .execute]

theorem rearming_orderly : ∃ m, Run.attempt step (start 0) rearming = some m ∧ m.Orderly := by
  obtain ⟨m, ran⟩ : ∃ m, Run.attempt step (start 0) rearming = some m := ⟨_, rfl⟩
  exact ⟨m, ran, (events_orderly 0 (by decide) ran).1⟩

end Machine

end EventQueue

end Cors
