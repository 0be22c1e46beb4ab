import Cors.Proxy.Settling

/-! # What the update clears

The update takes tasks from the front of the queue while they were queued in an earlier
second. It finds all of those because the queue is ordered by time: tasks are put at its
back, at readings of a clock that does not go backwards, and neither a FILTER nor an earlier
update moves one. The cache is swept entry by entry, whatever its order.
-/

namespace Cors

namespace AdvanceRldvr

/-! ## The order of the queue -/

/-- The second an event reads from the clock. -/
def Event.clock : Event → Option Int32
  | .rlInquiry now _ _ _ => some now.tvSec
  | .rlReport _ _ => none
  | .rlFilter now _ _ _ => some now
  | .update now _ _ => some now

/-- The readings of a clock that does not go backwards. -/
def Monotone (es : List Event) : Prop := (es.filterMap Event.clock).Pairwise (· ≤ ·)

instance (es : List Event) : Decidable (Monotone es) :=
  inferInstanceAs (Decidable (List.Pairwise _ _))

/-- Tasks in the order of the seconds they were queued in. -/
def Ordered (tasks : List Task) : Prop :=
  tasks.Pairwise fun earlier later => earlier.timestamp.tvSec ≤ later.timestamp.tvSec

theorem step_taskQueue_sublist (s : AdvanceRldvr) (e : Event) :
    (s.step e).taskQueue.Sublist (s.taskQueue ++ s.enqueued e) := by
  cases e with
  | rlInquiry now msg len nl =>
      by_cases nothing : s.enqueued (.rlInquiry now msg len nl) = []
      · rw [nothing, List.append_nil, step, react, processRlInquiry_eq]
        unfold enqueued at nothing
        cases taken : received (.rlInquiry now msg len nl) with
        | none => exact List.Sublist.refl _
        | some x =>
            cases found : s.asnCache.lookup x.key with
            | none => simp only [taken, found, if_true, List.cons_ne_nil] at nothing
            | some entry =>
                simp only [found]
                exact List.Sublist.refl _
      · have pushed := ((s.react_accounted (.rlInquiry now msg len nl)).queued nothing).1
        rw [pushed]
  | rlReport msg len => exact List.sublist_append_left _ _
  | rlFilter now msg len nl =>
      rw [step, react, processRlFilter_eq]
      cases learned (.rlFilter now msg len nl) with
      | none => exact List.sublist_append_left _ _
      | some knowledge => exact List.filter_sublist.trans (List.sublist_append_left _ _)
  | update now rand nl =>
      have suffix := popTasks_suffix now rand nl s.taskQueue
      exact suffix.sublist.trans (List.sublist_append_left _ _)

theorem enqueued_cases (s : AdvanceRldvr) (e : Event) :
    s.enqueued e = [] ∨
      ∃ task, s.enqueued e = [task] ∧ e.clock = some task.timestamp.tvSec := by
  cases e with
  | rlInquiry now msg len nl =>
      simp only [enqueued]
      cases received (.rlInquiry now msg len nl) with
      | none => exact .inl rfl
      | some x =>
          by_cases unknown : s.asnCache.lookup x.key = none
          · exact .inr ⟨⟨now, hop x⟩, if_pos unknown, rfl⟩
          · exact .inl (if_neg unknown)
  | rlReport msg len => exact .inl rfl
  | rlFilter now msg len nl => exact .inl rfl
  | update now rand nl => exact .inl rfl

/-- While the clock does not go backwards the queue is ordered, and every task in it was
    queued at one of the readings. -/
structure Timely (es : List Event) (s : AdvanceRldvr) : Prop where
  ordered : Ordered s.taskQueue
  read : ∀ task ∈ s.taskQueue, task.timestamp.tvSec ∈ es.filterMap Event.clock

theorem step_timely {es : List Event} {s : AdvanceRldvr} {e : Event} (timely : Timely es s)
    (monotone : Monotone (es ++ [e])) : Timely (es ++ [e]) (s.step e) := by
  have kept := s.step_taskQueue_sublist e
  have readings : (es ++ [e]).filterMap Event.clock =
      es.filterMap Event.clock ++ [e].filterMap Event.clock := List.filterMap_append
  rw [Monotone, readings, List.pairwise_append] at monotone
  cases s.enqueued_cases e with
  | inl nothing =>
      rw [nothing, List.append_nil] at kept
      refine ⟨timely.ordered.sublist kept, fun task queued => ?_⟩
      rw [readings]
      exact List.mem_append_left _ (timely.read task (kept.mem queued))
  | inr pushed =>
      obtain ⟨task, alone, reading⟩ := pushed
      have now : [e].filterMap Event.clock = [task.timestamp.tvSec] := by
        rw [List.filterMap_cons_some reading, List.filterMap_nil]
      rw [alone] at kept
      rw [now] at readings monotone
      constructor
      · refine List.Pairwise.sublist kept (List.pairwise_append.mpr ⟨timely.ordered, ?_, ?_⟩)
        · exact List.pairwise_singleton _ _
        · intro earlier queued later last
          obtain rfl := List.mem_singleton.mp last
          exact monotone.2.2 _ (timely.read earlier queued) _ (List.mem_singleton_self _)
      · intro other queued
        rw [readings]
        cases List.mem_append.mp (kept.mem queued) with
        | inl old => exact List.mem_append_left _ (timely.read other old)
        | inr new =>
            obtain rfl := List.mem_singleton.mp new
            exact List.mem_append_right _ (List.mem_singleton_self _)

theorem final_timely (dbAddr : UInt32) (dbPort : UInt16) (es : List Event) :
    Monotone es → Timely es (Run.final step (new dbAddr dbPort) es) := by
  apply Run.final_of_history (P := fun es s => Monotone es → Timely es s)
  · exact fun _ => ⟨.nil, fun _ queued => absurd queued List.not_mem_nil⟩
  · intro es e timely monotone
    refine step_timely (timely ?_) monotone
    rw [Monotone, List.filterMap_append, List.pairwise_append] at monotone
    exact monotone.1

/-! ## The update -/

/-- In an ordered queue the expired tasks are all at the front. -/
theorem popTasks_of_ordered (now : Int32) (rand : Nat → Nat → Nat) (nl : List Neighbor)
    {tasks : List Task} (ordered : Ordered tasks) :
    (popTasks now rand nl tasks).1 = tasks.filter fun task => now ≤ task.timestamp.tvSec := by
  induction tasks generalizing rand with
  | nil => rfl
  | cons task tasks ih =>
      obtain ⟨first, rest⟩ := List.pairwise_cons.mp ordered
      unfold popTasks
      by_cases expired : task.timestamp.tvSec < now
      · have late : ¬now ≤ task.timestamp.tvSec := Int32.not_le.mpr expired
        simp only [if_pos expired, List.filter_cons, late, decide_false, Bool.false_eq_true,
          if_false]
        exact ih (fun i => rand (i + 1)) rest
      · rw [if_neg expired]
        have present : now ≤ task.timestamp.tvSec := Int32.not_lt.mp expired
        refine (List.filter_eq_self.mpr fun other member => decide_eq_true ?_).symm
        cases List.mem_cons.mp member with
        | inl same => exact same ▸ present
        | inr later => exact Int32.le_trans present (first other later)

/-- The loop over the cache that erases as it goes. -/
def clearKnowledge (now : Int32) (asnCache : Table AsnPair Entry) : Table AsnPair Entry :=
  asnCache.entries.foldl
    (fun cache e => if outdated now e.2 then cache.erase e.1 else cache) asnCache

theorem clearKnowledge_eq (now : Int32) (asnCache : Table AsnPair Entry) :
    clearKnowledge now asnCache = asnCache.keep fun entry => !outdated now entry :=
  (Table.sweep (P := fun _ => True) id _ (outdated now) (fun _ _ _ _ => ⟨trivial, rfl⟩)
    trivial).2

/-- An update clears the tasks of earlier seconds and the knowledge older than two minutes,
    and leaves everything else as it was. -/
theorem update_clears_expired (dbAddr : UInt32) (dbPort : UInt16) (es : List Event)
    (monotone : Monotone es) (now : Int32) (rand : Nat → Nat → Nat) (nl : List Neighbor) :
    let s := Run.final step (new dbAddr dbPort) es
    let s' := (s.update now rand nl).1
    s'.taskQueue = (s.taskQueue.filter fun task => now ≤ task.timestamp.tvSec) ∧
      s'.asnCache = clearKnowledge now s.asnCache ∧
        ∀ key entry, s'.asnCache.lookup key = some entry ↔
          s.asnCache.lookup key = some entry ∧
            now.toInt ≤ entry.timestamp.toInt + 120 := by
  intro s s'
  have timely := final_timely dbAddr dbPort es monotone
  refine ⟨popTasks_of_ordered now rand nl timely.ordered, (clearKnowledge_eq now _).symm, ?_⟩
  intro key entry
  have swept : s'.asnCache = s.asnCache.keep fun entry => !outdated now entry := rfl
  rw [swept, Table.lookup_keep, Option.filter_eq_some_iff]
  simp only [outdated, Bool.not_eq_true', decide_eq_false_iff_not, Int.not_lt]

/-- Of two tasks the one of this second stays, and knowledge lasts exactly two minutes. -/
theorem update_clears_expired_sample :
    let run (learned : Int32) :=
      Run.final step (new 0 0) [sampleFilter learned 20, sampleAsk 121 5 40, sampleAsk 122 6 40]
    let updated (learned : Int32) := ((run learned).update 122 (fun _ _ => 0) sampleNeighbors).1
    (run 1).taskQueue.length = 2 ∧ (updated 1).taskQueue.length = 1 ∧
      ((run 1).asnCache.lookup ⟨10, 20⟩).isSome ∧
        (updated 1).asnCache.lookup ⟨10, 20⟩ = none ∧
          (updated 2).asnCache.lookup ⟨10, 20⟩ = some ⟨2, {50, 30}⟩ := by
  intro run updated
  have cleared (learned : Int32) (monotone : Monotone
      [sampleFilter learned 20, sampleAsk 121 5 40, sampleAsk 122 6 40]) :=
    update_clears_expired 0 0 _ monotone 122 (fun _ _ => 0) sampleNeighbors
  have older : ([1, 121, 122] : List Int32).Pairwise (· ≤ ·) := by decide
  have later : ([2, 121, 122] : List Int32).Pairwise (· ≤ ·) := by decide
  refine ⟨by decide +kernel, ?_, by decide +kernel, ?_, ?_⟩
  · refine (congrArg List.length (cleared 1 older).1).trans ?_
    decide +kernel
  · rw [Option.eq_none_iff_forall_ne_some]
    intro entry kept
    obtain ⟨found, young⟩ := ((cleared 1 older).2.2 ⟨10, 20⟩ entry).mp kept
    have first : (run 1).asnCache.lookup ⟨10, 20⟩ = some ⟨1, {50, 30}⟩ := by decide +kernel
    obtain rfl := Option.some.inj (found.symm.trans first)
    exact absurd young (by decide)
  · exact ((cleared 2 later).2.2 ⟨10, 20⟩ ⟨2, {50, 30}⟩).mpr ⟨by decide +kernel, by decide⟩

end AdvanceRldvr

end Cors
