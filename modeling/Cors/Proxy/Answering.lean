import Cors.Proxy.AdvanceRldvr

/-! # How the advisor answers

What the handlers of the advisor send and keep, in terms of the answers they give. An
inquiry is answered by a list of relays, from the cache when it comes in or from the
queue when knowledge comes in. What is in the queue and in the cache is traced back to
the events that brought it there.
-/

namespace Cors

namespace AdvanceRldvr

/-! ## Collecting neighbours -/

theorem collect_eq (test : α → Bool) {limit i : Nat} (more : i < limit) (xs : List α) :
    collect test limit i xs = (xs.filter test).take (limit - i) := by
  induction xs generalizing i with
  | nil => simp only [collect, List.filter_nil, List.take_nil]
  | cons x xs ih =>
      by_cases hit : test x = true
      · obtain ⟨left, split⟩ := Nat.exists_eq_add_of_lt more
        have room : limit - i = left + 1 := by omega
        simp only [collect, hit, if_true, List.filter_cons, room, List.take_succ_cons]
        by_cases last : i + 1 ≥ limit
        · have done : left = 0 := by omega
          simp only [if_pos last, done, List.take_zero]
        · have rest : limit - (i + 1) = left := by omega
          simp only [if_neg last, ih (Nat.lt_of_not_le last), rest]
      · simp only [collect, hit, List.filter_cons, Bool.false_eq_true, if_false, ih more]

theorem collect_sublist (test : α → Bool) (limit i : Nat) (xs : List α) :
    (collect test limit i xs).Sublist xs := by
  induction xs generalizing i with
  | nil => exact .slnil
  | cons x xs ih =>
      unfold collect
      split
      · split
        · exact (List.nil_sublist xs).cons_cons x
        · exact (ih _).cons_cons x
      · exact (ih _).cons x

theorem collect_passes (test : α → Bool) (limit i : Nat) {xs : List α} {x : α}
    (collected : x ∈ collect test limit i xs) : test x = true := by
  induction xs generalizing i with
  | nil => cases collected
  | cons y ys ih =>
      unfold collect at collected
      split at collected
      · rename_i hit
        cases List.mem_cons.mp collected with
        | inl same => exact same ▸ hit
        | inr later =>
            split at later
            · cases later
            · exact ih _ later
      · exact ih _ collected

/-- How many neighbours have an AS number of the set. -/
def matchCount (nl : List Neighbor) (asnSet : AsnSet) : Nat := nl.countP fun nb => nb.asn ∈ asnSet

theorem matching_length (nl : List Neighbor) (asnSet : AsnSet) {limit : Nat}
    (positive : 0 < limit) :
    (matching nl asnSet limit).length = min limit (matchCount nl asnSet) := by
  simp only [matching, collect_eq _ positive, List.length_map, List.length_take, matchCount,
    List.countP_eq_length_filter, List.filter_reverse, List.length_reverse, Nat.sub_zero]

theorem matching_sublist (nl : List Neighbor) (asnSet : AsnSet) (limit : Nat) :
    (matching nl asnSet limit).Sublist (nl.reverse.map Neighbor.endPoint) :=
  (collect_sublist _ _ _ _).map _

theorem matching_asn {nl : List Neighbor} {asnSet : AsnSet} {limit : Nat} {relay : EndPoint}
    (listed : relay ∈ matching nl asnSet limit) : relay.asn ∈ asnSet := by
  obtain ⟨nb, collected, rfl⟩ := List.mem_map.mp listed
  have passes := collect_passes _ _ _ collected
  exact of_decide_eq_true passes

theorem randomly_sublist (nl : List Neighbor) (rand : Nat → Nat) (inquiry : CorsInquiry) :
    (randomly nl rand inquiry).Sublist (nl.reverse.map Neighbor.endPoint) := by
  have drawn := (collect_sublist (fun nb : Neighbor × Nat => drawn nl inquiry (rand nb.2))
    maxAdvicedRelays.toNat 0 nl.reverse.zipIdx).map fun nb => nb.1.endPoint
  have all : (nl.reverse.zipIdx.map fun nb => nb.1.endPoint) =
      nl.reverse.map Neighbor.endPoint := by
    calc
      _ = (nl.reverse.zipIdx.map Prod.fst).map Neighbor.endPoint := by rw [List.map_map]; rfl
      _ = nl.reverse.map Neighbor.endPoint := by rw [List.zipIdx_map_fst]
  rwa [all] at drawn

/-! ## Answers -/

/-- An inquiry, with one hop less, and the relays it is answered with. -/
structure Answer where
  inquiry : CorsInquiry
  relays : List EndPoint
  deriving DecidableEq

/-- The inquiries an event answers with relays that match: from the cache the one that
    comes in, from the queue those that wait for the knowledge that comes in. -/
def answers (s : AdvanceRldvr) (e : Event) : List Answer :=
  match received e, learned e with
  | some x, _ =>
      match s.asnCache.lookup x.key with
      | some entry => [⟨hop x, matching e.neighbors entry.asnSet x.requiredRelays.toNat⟩]
      | none => []
  | none, some (key, entry) =>
      let relays := matching e.neighbors entry.asnSet maxAdvicedRelays.toNat
      (s.waiting key).map fun task => ⟨task.inquiry, relays⟩
  | none, none => []

/-- All that is sent for an answer. -/
def Answer.sent (answer : Answer) (nl : List Neighbor) : List Sent :=
  respond nl answer.inquiry answer.relays

/-- What is sent for a task that ran out of time. -/
def Guessed (s : AdvanceRldvr) (e : Event) (d : Sent) : Prop :=
  (∃ now rand nl, e = .update now rand nl) ∧
    ∃ task ∈ s.taskQueue, ∃ outcomes, d ∈ guess e.neighbors outcomes task

theorem mem_sent_forward {answer : Answer} {nl : List Neighbor} {proxy : SockaddrIn}
    {copy : CorsInquiry} (sent : .forward proxy copy ∈ answer.sent nl) :
    answer.relays.length < answer.inquiry.requiredRelays.toNat ∧ 0 < answer.inquiry.ttl ∧
      copy = { answer.inquiry with
        requiredRelays := answer.inquiry.requiredRelays - UInt8.ofNat answer.relays.length } := by
  have passed : .forward proxy copy ∈ passOn nl answer.inquiry answer.relays := by
    simpa [Answer.sent, respond, advise] using sent
  unfold passOn at passed
  split at passed
  · rename_i more
    obtain ⟨last, -, same⟩ := List.mem_map.mp passed
    obtain ⟨-, rfl⟩ := Sent.forward.inj same
    exact ⟨more.1, more.2, rfl⟩
  · cases passed

theorem mem_sent_advice {answer : Answer} {nl : List Neighbor} {client : SockaddrIn}
    {x : CorsAdvice} (sent : .advice client x ∈ answer.sent nl) :
    .advice client x = advise answer.inquiry answer.relays := by
  cases List.mem_cons.mp sent with
  | inl same => exact same
  | inr passed =>
      unfold passOn at passed
      split at passed
      · obtain ⟨last, -, other⟩ := List.mem_map.mp passed
        cases other
      · cases passed

theorem popTasks_suffix (now : Int32) (rand : Nat → Nat → Nat) (nl : List Neighbor)
    (tasks : List Task) : (popTasks now rand nl tasks).1 <:+ tasks := by
  induction tasks generalizing rand with
  | nil => exact List.suffix_rfl
  | cons task tasks ih =>
      unfold popTasks
      split
      · exact (ih _).trans (List.suffix_cons task tasks)
      · exact List.suffix_rfl

theorem mem_guess {nl : List Neighbor} {outcomes : Nat → Nat} {task : Task} {d : Sent}
    (sent : d ∈ guess nl outcomes task) :
    randomly nl outcomes task.inquiry ≠ [] ∧
      d = advise task.inquiry (randomly nl outcomes task.inquiry) := by
  unfold guess at sent
  dsimp only at sent
  split at sent
  · rename_i some_drawn
    exact ⟨List.ne_nil_of_length_pos some_drawn, List.mem_singleton.mp sent⟩
  · cases sent

theorem mem_popTasks {now : Int32} {rand : Nat → Nat → Nat} {nl : List Neighbor}
    {tasks : List Task} {d : Sent} (sent : d ∈ (popTasks now rand nl tasks).2) :
    ∃ task ∈ tasks, ∃ outcomes, d ∈ guess nl outcomes task := by
  induction tasks generalizing rand with
  | nil => cases sent
  | cons task tasks ih =>
      have later : d ∈ (popTasks now (fun i => rand (i + 1)) nl tasks).2 →
          ∃ other ∈ task :: tasks, ∃ outcomes, d ∈ guess nl outcomes other := by
        intro behind
        obtain ⟨other, member, guessed⟩ := ih behind
        exact ⟨other, List.mem_cons_of_mem task member, guessed⟩
      unfold popTasks at sent
      split at sent
      · dsimp only at sent
        split at sent
        · exact later sent
        · cases List.mem_append.mp sent with
          | inl first => exact ⟨task, List.mem_cons_self, rand 0, first⟩
          | inr behind => exact later behind
      · cases sent

/-- The two ways an answer comes about. -/
theorem mem_answers {s : AdvanceRldvr} {e : Event} {answer : Answer}
    (answered : answer ∈ s.answers e) :
    (∃ x entry, received e = some x ∧ s.asnCache.lookup x.key = some entry ∧
      answer = ⟨hop x, matching e.neighbors entry.asnSet x.requiredRelays.toNat⟩) ∨
    ∃ task ∈ s.taskQueue, ∃ entry, learned e = some (task.inquiry.key, entry) ∧
      answer = ⟨task.inquiry, matching e.neighbors entry.asnSet maxAdvicedRelays.toNat⟩ := by
  unfold answers at answered
  split at answered
  · rename_i x taken
    split at answered
    · rename_i entry found
      exact .inl ⟨x, entry, taken, found, List.mem_singleton.mp answered⟩
    · cases answered
  · rename_i key entry _ taken
    obtain ⟨task, waits, rfl⟩ := List.mem_map.mp answered
    obtain ⟨queued, own⟩ := List.mem_filter.mp waits
    obtain rfl := of_decide_eq_true own
    exact .inr ⟨task, queued, entry, taken, rfl⟩
  · cases answered

/-- An inquiry that is not ignored asks for relays and finds neighbours. -/
theorem received_some {e : Event} {x : CorsInquiry} (taken : received e = some x) :
    0 < x.requiredRelays.toNat ∧ e.neighbors ≠ [] := by
  cases e with
  | rlInquiry now msg len nl =>
      unfold received at taken
      dsimp only at taken
      split at taken
      · cases taken
      · rename_i some_neighbors
        obtain ⟨-, asks⟩ := Option.filter_eq_some_iff.mp taken
        have positive : x.requiredRelays ≠ 0 := of_decide_eq_true asks
        refine ⟨Nat.pos_of_ne_zero fun zero => positive (UInt8.toNat_inj.mp zero), ?_⟩
        exact List.ne_nil_of_length_pos (Nat.pos_of_ne_zero some_neighbors)
  | rlReport msg len => cases taken
  | rlFilter now msg len nl => cases taken
  | update now rand nl => cases taken

theorem learned_some {e : Event} {key : AsnPair} {entry : Entry}
    (taken : learned e = some (key, entry)) :
    matching e.neighbors entry.asnSet maxAdvicedRelays.toNat ≠ [] := by
  cases e with
  | rlInquiry now msg len nl => cases taken
  | rlReport msg len => cases taken
  | rlFilter now msg len nl =>
      unfold learned at taken
      dsimp only at taken
      split at taken
      · cases taken
      · obtain ⟨x, accepted, same⟩ := Option.map_eq_some_iff.mp taken
        obtain ⟨-, good⟩ := Option.filter_eq_some_iff.mp accepted
        obtain ⟨-, some_match⟩ := of_decide_eq_true good
        obtain ⟨-, rfl⟩ := Prod.mk.inj same
        exact List.ne_nil_of_length_pos (Nat.pos_of_ne_zero some_match)
  | update now rand nl => cases taken

/-- Everything sent is a query to the database, part of an answer, or a guess. -/
theorem mem_react {s : AdvanceRldvr} {e : Event} {d : Sent} (sent : d ∈ (s.react e).2) :
    (∃ bytes, d = .database s.database bytes) ∨
      (∃ answer ∈ s.answers e, d ∈ answer.sent e.neighbors) ∨ s.Guessed e d := by
  cases e with
  | rlInquiry now msg len nl =>
      simp only [react, processRlInquiry_eq] at sent
      cases taken : received (.rlInquiry now msg len nl) with
      | none =>
          simp only [taken] at sent
          cases sent
      | some x =>
          cases found : s.asnCache.lookup x.key with
          | none =>
              simp only [taken, found] at sent
              exact .inl ⟨_, List.mem_singleton.mp sent⟩
          | some entry =>
              simp only [taken, found] at sent
              simp only [answers, taken, found, List.mem_singleton]
              exact .inr (.inl ⟨_, rfl, sent⟩)
  | rlReport msg len => exact .inl ⟨_, List.mem_singleton.mp sent⟩
  | rlFilter now msg len nl =>
      simp only [react, processRlFilter_eq] at sent
      cases taken : learned (.rlFilter now msg len nl) with
      | none =>
          simp only [taken] at sent
          cases sent
      | some knowledge =>
          simp only [taken] at sent
          obtain ⟨task, waits, responded⟩ := List.mem_flatMap.mp sent
          simp only [answers, received, taken]
          exact .inr (.inl ⟨_, List.mem_map_of_mem waits, responded⟩)
  | update now rand nl => exact .inr (.inr ⟨⟨now, rand, nl, rfl⟩, mem_popTasks sent⟩)

theorem react_answers {s : AdvanceRldvr} {e : Event} (answered : s.answers e ≠ []) :
    (s.react e).2 = (s.answers e).flatMap fun answer => answer.sent e.neighbors := by
  cases e with
  | rlInquiry now msg len nl =>
      simp only [react, processRlInquiry_eq]
      cases taken : received (.rlInquiry now msg len nl) with
      | none => simp [answers, taken, learned] at answered
      | some x =>
          cases found : s.asnCache.lookup x.key with
          | none => simp [answers, taken, found] at answered
          | some entry =>
              simp only [answers, taken, found, List.flatMap_cons, List.flatMap_nil,
                List.append_nil]
              rfl
  | rlReport msg len => exact absurd rfl answered
  | rlFilter now msg len nl =>
      simp only [react, processRlFilter_eq]
      cases taken : learned (.rlFilter now msg len nl) with
      | none => simp [answers, taken, received] at answered
      | some knowledge =>
          simp only [answers, received, taken, List.flatMap_map]
          rfl
  | update now rand nl => exact absurd rfl answered

/-! ## Where tasks and knowledge come from -/

theorem step_taskQueue {s : AdvanceRldvr} {e : Event} {task : Task}
    (queued : task ∈ (s.step e).taskQueue) :
    task ∈ s.taskQueue ∨ ∃ x, received e = some x ∧ task.inquiry = hop x := by
  cases e with
  | rlInquiry now msg len nl =>
      simp only [step, react, processRlInquiry_eq] at queued
      cases taken : received (.rlInquiry now msg len nl) with
      | none =>
          simp only [taken] at queued
          exact .inl queued
      | some x =>
          cases found : s.asnCache.lookup x.key with
          | some entry =>
              simp only [taken, found] at queued
              exact .inl queued
          | none =>
              simp only [taken, found, List.mem_append, List.mem_singleton] at queued
              cases queued with
              | inl old => exact .inl old
              | inr new => exact .inr ⟨x, rfl, congrArg Task.inquiry new⟩
  | rlReport msg len => exact .inl queued
  | rlFilter now msg len nl =>
      simp only [step, react, processRlFilter_eq] at queued
      cases taken : learned (.rlFilter now msg len nl) with
      | none =>
          simp only [taken] at queued
          exact .inl queued
      | some knowledge =>
          simp only [taken] at queued
          exact .inl (List.mem_of_mem_filter queued)
  | update now rand nl => exact .inl ((popTasks_suffix now rand nl s.taskQueue).mem queued)

/-- The knowledge an event brings in for a pair of AS numbers. -/
def learnedFor (key : AsnPair) (e : Event) : Option Entry :=
  (learned e).bind fun knowledge => if knowledge.1 = key then some knowledge.2 else none

theorem step_asnCache {s : AdvanceRldvr} {e : Event} {key : AsnPair} {entry : Entry}
    (cached : (s.step e).asnCache.lookup key = some entry) :
    (learnedFor key e).or (s.asnCache.lookup key) = some entry := by
  cases e with
  | rlInquiry now msg len nl =>
      simp only [step, react, processRlInquiry_eq] at cached
      have kept : s.asnCache.lookup key = some entry := by
        cases taken : received (.rlInquiry now msg len nl) with
        | none => simpa only [taken] using cached
        | some x =>
            cases found : s.asnCache.lookup x.key with
            | none => simpa only [taken, found] using cached
            | some other => simpa only [taken, found] using cached
      exact kept
  | rlReport msg len => exact cached
  | rlFilter now msg len nl =>
      simp only [step, react, processRlFilter_eq] at cached
      cases taken : learned (.rlFilter now msg len nl) with
      | none =>
          simp only [taken] at cached
          simp only [learnedFor, taken, Option.bind_none, Option.none_or, cached]
      | some knowledge =>
          simp only [taken] at cached
          simp only [learnedFor, taken, Option.bind_some]
          by_cases own : knowledge.1 = key
          · rw [own, AList.lookup_insert] at cached
            simp only [if_pos own, cached, Option.some_or]
          · rw [AList.lookup_insert_ne (Ne.symm own)] at cached
            simp only [if_neg own, cached, Option.none_or]
  | update now rand nl =>
      have kept : (s.asnCache.keep fun entry => !outdated now entry).lookup key = some entry :=
        cached
      rw [Table.lookup_keep, Option.filter_eq_some_iff] at kept
      exact kept.1

/-- Every task in the queue is an inquiry that came in, and every cached entry is the
    last knowledge that came in for its pair. -/
structure Traced (es : List Event) (s : AdvanceRldvr) : Prop where
  queued : ∀ task ∈ s.taskQueue, ∃ e ∈ es, ∃ x, received e = some x ∧ task.inquiry = hop x
  cached : ∀ key entry, s.asnCache.lookup key = some entry →
    Run.latest (learnedFor key) es = some entry

theorem step_traced {es : List Event} {s : AdvanceRldvr} (traced : Traced es s) (e : Event) :
    Traced (es ++ [e]) (s.step e) where
  queued := by
    intro task queued
    cases step_taskQueue queued with
    | inl old =>
        obtain ⟨origin, before, outcome⟩ := traced.queued task old
        exact ⟨origin, List.mem_append_left _ before, outcome⟩
    | inr new => exact ⟨e, List.mem_concat_self, new⟩
  cached := by
    intro key entry cached
    rw [Run.latest_concat]
    have origin := step_asnCache cached
    cases fresh : learnedFor key e with
    | some _ => simpa only [fresh, Option.some_or] using origin
    | none =>
        rw [fresh, Option.none_or] at origin
        rw [Option.none_or]
        exact traced.cached key entry origin

theorem final_traced (dbAddr : UInt32) (dbPort : UInt16) (es : List Event) :
    Traced es (Run.final step (new dbAddr dbPort) es) := by
  apply Run.final_of_history (P := Traced)
  · exact ⟨fun _ queued => absurd queued List.not_mem_nil, fun _ _ cached => by cases cached⟩
  · intro es e traced
    exact step_traced traced e

end AdvanceRldvr

end Cors
