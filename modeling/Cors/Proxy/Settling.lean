import Cors.Lib.Erasing
import Cors.Proxy.Answering

/-! # Settling the queue

The loop of `process_rl_filter` erases the tasks it answers as it goes over the queue, and
fills in one advice object again for each of them. It answers the tasks with the pair of AS
numbers that the knowledge is about, in their order, and leaves the others in theirs. A task
that was answered is no longer in the queue, so over a run no inquiry that was queued is
answered more than once.
-/

namespace Cors

namespace AdvanceRldvr

/-! ## The loop over the queue -/

/-- One turn of the loop, with the advice object and what was sent so far. -/
def settleTask (nl : List Neighbor) (key : AsnPair) (acc : CorsAdvice × List Sent) (task : Task) :
    CorsAdvice × List Sent :=
  if task.inquiry.source.asn ≠ key.srcAsn ∨ task.inquiry.destination.asn ≠ key.dstAsn then
    acc
  else
    let advice := { acc.1 with
      source := task.inquiry.source
      destination := task.inquiry.destination }
    (advice, acc.2 ++
      .advice task.inquiry.source.sockaddr advice :: passOn nl task.inquiry advice.relays)

/-- The loop that erases the tasks it answers. -/
def settle (nl : List Neighbor) (key : AsnPair) (relays : List EndPoint) (tasks : List Task) :
    List Task × List Sent :=
  let (tasks, _, sent) := eraseLoop
    (fun task => task.inquiry.source.asn ≠ key.srcAsn ∨ task.inquiry.destination.asn ≠ key.dstAsn)
    (settleTask nl key) 0 tasks ({ CorsAdvice.new with relays }, [])
  (tasks, sent)

theorem other_pair_iff (task : Task) (key : AsnPair) :
    (task.inquiry.source.asn ≠ key.srcAsn ∨ task.inquiry.destination.asn ≠ key.dstAsn) ↔
      task.inquiry.key ≠ key := by
  cases key with
  | mk srcAsn dstAsn =>
      rw [CorsInquiry.key, ne_eq, ne_eq, ne_eq, AsnPair.mk.injEq, not_and_or]

/-- Whoever the advice object was filled in for before, the next client gets its own. -/
theorem settleTask_foldl (nl : List Neighbor) (key : AsnPair) (relays : List EndPoint)
    (tasks : List Task) (advice : CorsAdvice) (sent : List Sent)
    (blank : ∀ source destination, { advice with source, destination } =
      { CorsAdvice.new with source, destination, relays }) :
    (tasks.foldl (settleTask nl key) (advice, sent)).2 =
      sent ++ (tasks.filter fun task => task.inquiry.key = key).flatMap fun task =>
        respond nl task.inquiry relays := by
  induction tasks generalizing advice sent with
  | nil => simp
  | cons task tasks ih =>
      rw [List.foldl_cons, settleTask]
      by_cases own : task.inquiry.key = key
      · have same := mt (other_pair_iff task key).mp (not_not.mpr own)
        have filled := blank task.inquiry.source task.inquiry.destination
        have listed : advice.relays = relays := congrArg CorsAdvice.relays filled
        have again := ih { advice with
            source := task.inquiry.source
            destination := task.inquiry.destination }
          (sent ++ respond nl task.inquiry relays) blank
        simp only [List.filter_cons, own, decide_true, if_true, List.flatMap_cons]
        rw [if_neg same, ← List.append_assoc, ← again, respond, advise, ← filled, listed]
      · have apart := (other_pair_iff task key).mpr own
        simp only [List.filter_cons, own, decide_false, Bool.false_eq_true, if_false]
        rw [if_pos apart]
        exact ih advice sent blank

theorem settle_eq (nl : List Neighbor) (key : AsnPair) (relays : List EndPoint)
    (tasks : List Task) :
    settle nl key relays tasks =
      (tasks.filter fun task => task.inquiry.key ≠ key,
        (tasks.filter fun task => task.inquiry.key = key).flatMap fun task =>
          respond nl task.inquiry relays) := by
  simp only [settle, eraseLoop_eq]
  have sent := settleTask_foldl nl key relays tasks { CorsAdvice.new with relays } []
    fun _ _ => rfl
  rw [List.nil_append] at sent
  refine Prod.ext ?_ sent
  simp only [other_pair_iff]

/-! ## What a FILTER does -/

def Sent.isAdvice : Sent → Bool
  | .advice _ _ => true
  | _ => false

/-- Whom an advice answers, and about which path. -/
def Sent.answered : Sent → Option (SockaddrIn × EndPoint × EndPoint)
  | .advice client x => some (client, x.source, x.destination)
  | _ => none

/-- The same of the advice that answers an inquiry. -/
def header (inquiry : CorsInquiry) : SockaddrIn × EndPoint × EndPoint :=
  (inquiry.source.sockaddr, inquiry.source, inquiry.destination)

theorem passOn_isAdvice (nl : List Neighbor) (inquiry : CorsInquiry) (relays : List EndPoint) :
    (passOn nl inquiry relays).filter Sent.isAdvice = [] := by
  unfold passOn
  split
  · rw [List.filter_map, List.map_eq_nil_iff]
    exact List.filter_eq_nil_iff.mpr fun _ _ => Bool.false_ne_true
  · rfl

theorem respond_isAdvice (nl : List Neighbor) (inquiry : CorsInquiry) (relays : List EndPoint) :
    (respond nl inquiry relays).filter Sent.isAdvice = [advise inquiry relays] := by
  rw [respond, List.filter_cons_of_pos rfl, passOn_isAdvice]

theorem flatMap_respond_isAdvice (nl : List Neighbor) (relays : List EndPoint)
    (tasks : List Task) :
    (tasks.flatMap fun task => respond nl task.inquiry relays).filter Sent.isAdvice =
      tasks.map fun task => advise task.inquiry relays := by
  simp only [List.filter_flatMap, respond_isAdvice, List.map_eq_flatMap]

theorem respond_answered (nl : List Neighbor) (inquiry : CorsInquiry) (relays : List EndPoint) :
    (respond nl inquiry relays).filterMap Sent.answered = [header inquiry] := by
  unfold respond passOn
  split
  · cases nl.getLast? with
    | none => rfl
    | some lastNeighbor => rfl
  · rfl

theorem matching_eq_nil_iff (nl : List Neighbor) (asnSet : AsnSet) {limit : Nat}
    (positive : 0 < limit) : matching nl asnSet limit = [] ↔ ∀ nb ∈ nl, nb.asn ∉ asnSet := by
  have count := matching_length nl asnSet positive
  rw [← List.length_eq_zero_iff, count, Nat.min_eq_zero_iff, matchCount, List.countP_eq_zero]
  simp only [decide_eq_true_eq]
  constructor
  · intro either
    cases either with
    | inl zero => omega
    | inr none_matches => exact none_matches
  · exact .inr

/-- A query result is ignored when it lists no relay or matches no neighbour. -/
def Ignored (nl : List Neighbor) (x : CorsAdvice) : Prop :=
  x.relays = [] ∨ ∀ nb ∈ nl, nb.asn ∉ recommended x

theorem useful_iff (nl : List Neighbor) (x : CorsAdvice) :
    useful nl x = true ↔ ¬Ignored nl x := by
  have limit : 0 < maxAdvicedRelays.toNat := by decide
  rw [useful, decide_eq_true_eq, Ignored, not_or, ne_eq, ne_eq, List.length_eq_zero_iff,
    List.length_eq_zero_iff, matching_eq_nil_iff nl (recommended x) limit]

theorem learned_of_ignored {now : Int32} {msg : Mem} {len : Nat} {nl : List Neighbor}
    {x : CorsAdvice} (decoded : parse CorsAdvice.new.deserialize msg len = some x)
    (ignored : Ignored nl x) : learned (.rlFilter now msg len nl) = none := by
  have useless : ¬useful nl x = true := fun good => (useful_iff nl x).mp good ignored
  simp only [learned, decoded, Option.filter_some, if_neg useless, Option.map_none, ite_self]

theorem learned_of_not_ignored {now : Int32} {msg : Mem} {len : Nat} {nl : List Neighbor}
    {x : CorsAdvice} (decoded : parse CorsAdvice.new.deserialize msg len = some x)
    (matched : ¬Ignored nl x) :
    learned (.rlFilter now msg len nl) = some (x.key, ⟨now, recommended x⟩) := by
  have good : useful nl x = true := (useful_iff nl x).mpr matched
  have some_neighbors : nl.length ≠ 0 := by
    intro alone
    obtain rfl := List.length_eq_zero_iff.mp alone
    exact matched (.inr fun nb none => absurd none List.not_mem_nil)
  simp only [learned, if_neg some_neighbors, decoded, Option.filter_some, if_pos good,
    Option.map_some]

/-- The state and the datagrams a query result leads to that is not ignored. -/
structure Settles (s : AdvanceRldvr) (now : Int32) (nl : List Neighbor) (x : CorsAdvice)
    (s' : AdvanceRldvr) (sent : List Sent) : Prop where
  cached : s'.asnCache.lookup x.key = some ⟨now, recommended x⟩
  otherPairs : ∀ key ≠ x.key, s'.asnCache.lookup key = s.asnCache.lookup key
  advised : sent.filter Sent.isAdvice = (s.waiting x.key).map fun task =>
    advise task.inquiry (matching nl (recommended x) maxAdvicedRelays.toNat)
  left : s'.taskQueue = s.taskQueue.filter fun task => task.inquiry.key ≠ x.key
  looped : (s'.taskQueue, sent) =
    settle nl x.key (matching nl (recommended x) maxAdvicedRelays.toNat) s.taskQueue

/-- What a FILTER does to a state, by how it is decoded. -/
def FilterSettles (s : AdvanceRldvr) (now : Int32) (msg : Mem) (len : Nat)
    (nl : List Neighbor) : Prop :=
  match parse CorsAdvice.new.deserialize msg len with
  | none => s.processRlFilter now msg len nl = (s, [])
  | some x =>
      (Ignored nl x → s.processRlFilter now msg len nl = (s, [])) ∧
        (¬Ignored nl x → Settles s now nl x (s.processRlFilter now msg len nl).1
          (s.processRlFilter now msg len nl).2)

theorem processRlFilter_settles (s : AdvanceRldvr) (now : Int32) (msg : Mem) (len : Nat)
    (nl : List Neighbor) : FilterSettles s now msg len nl := by
  unfold FilterSettles
  cases decoded : parse CorsAdvice.new.deserialize msg len with
  | none =>
      have nothing : learned (.rlFilter now msg len nl) = none := by
        simp only [learned, decoded, Option.filter_none, Option.map_none, ite_self]
      rw [processRlFilter_eq, nothing]
  | some x =>
      constructor
      · intro ignored
        rw [processRlFilter_eq, learned_of_ignored decoded ignored]
      · intro matched
        rw [processRlFilter_eq, learned_of_not_ignored decoded matched]
        constructor
        · exact AList.lookup_insert s.asnCache
        · intro key other
          exact AList.lookup_insert_ne other
        · exact flatMap_respond_isAdvice nl _ (s.waiting x.key)
        · rfl
        · rw [settle_eq]
          rfl

/-! ## What a run answers -/

/-- The expired tasks for which an update draws a neighbour. -/
def guessed (now : Int32) (rand : Nat → Nat → Nat) (nl : List Neighbor) : List Task → List Task
  | [] => []
  | task :: tasks =>
      if task.timestamp.tvSec < now then
        let later := guessed now (fun i => rand (i + 1)) nl tasks
        if randomly nl (rand 0) task.inquiry = [] then later else task :: later
      else
        []

/-- The task an event puts in the queue. -/
def enqueued (s : AdvanceRldvr) : Event → List Task
  | .rlInquiry now msg len nl =>
      match received (.rlInquiry now msg len nl) with
      | some x => if s.asnCache.lookup x.key = none then [⟨now, hop x⟩] else []
      | none => []
  | _ => []

/-- The inquiry an event answers as it comes in. -/
def atOnce (s : AdvanceRldvr) (e : Event) : Option CorsInquiry :=
  ((received e).filter fun x => (s.asnCache.lookup x.key).isSome).map hop

/-- The tasks of the queue an event answers. -/
def dequeued (s : AdvanceRldvr) : Event → List Task
  | .rlFilter now msg len nl =>
      match learned (.rlFilter now msg len nl) with
      | some (key, _) => s.waiting key
      | none => []
  | .update now rand nl => guessed now rand nl s.taskQueue
  | _ => []

/-- The advice an event sends is for the inquiry it answers as it comes in and for the tasks
    it answers, and the inquiry it puts in the queue is not among them. -/
structure Accounted (s : AdvanceRldvr) (e : Event) : Prop where
  answered : (s.react e).2.filterMap Sent.answered =
    ((s.atOnce e).toList ++ (s.dequeued e).map Task.inquiry).map header
  queued : s.enqueued e ≠ [] →
    (s.step e).taskQueue = s.taskQueue ++ s.enqueued e ∧ s.atOnce e = none ∧ s.dequeued e = []

theorem randomly_nil (rand : Nat → Nat) (inquiry : CorsInquiry) :
    randomly [] rand inquiry = [] := rfl

theorem guess_answered (nl : List Neighbor) (rand : Nat → Nat) (task : Task) :
    (guess nl rand task).filterMap Sent.answered =
      if randomly nl rand task.inquiry = [] then [] else [header task.inquiry] := by
  unfold guess
  by_cases nothing : randomly nl rand task.inquiry = []
  · rw [if_pos nothing, nothing]
    rfl
  · have drawn := List.length_pos_iff.mpr nothing
    simp only [if_neg nothing, if_pos drawn]
    rfl

theorem popTasks_answered (now : Int32) (rand : Nat → Nat → Nat) (nl : List Neighbor)
    (tasks : List Task) :
    (popTasks now rand nl tasks).2.filterMap Sent.answered =
      ((guessed now rand nl tasks).map Task.inquiry).map header := by
  induction tasks generalizing rand with
  | nil => rfl
  | cons task tasks ih =>
      unfold popTasks guessed
      by_cases expired : task.timestamp.tvSec < now
      · simp only [if_pos expired]
        have later := ih fun i => rand (i + 1)
        by_cases alone : nl.length = 0
        · obtain rfl := List.length_eq_zero_iff.mp alone
          rw [if_pos alone, if_pos (randomly_nil _ _), later]
        · rw [if_neg alone, List.filterMap_append, guess_answered, later]
          by_cases nothing : randomly nl (rand 0) task.inquiry = []
          · rw [if_pos nothing, if_pos nothing, List.nil_append]
          · rw [if_neg nothing, if_neg nothing]
            rfl
      · simp only [if_neg expired]
        rfl

theorem popTasks_count (now : Int32) (rand : Nat → Nat → Nat) (nl : List Neighbor)
    (tasks : List Task) (task : Task) :
    (guessed now rand nl tasks).count task + (popTasks now rand nl tasks).1.count task ≤
      tasks.count task := by
  induction tasks generalizing rand with
  | nil => exact Nat.le_refl 0
  | cons first tasks ih =>
      unfold popTasks guessed
      by_cases expired : first.timestamp.tvSec < now
      · have later := ih fun i => rand (i + 1)
        simp only [if_pos expired]
        by_cases nothing : randomly nl (rand 0) first.inquiry = []
        · rw [if_pos nothing, List.count_cons]
          omega
        · rw [if_neg nothing, List.count_cons, List.count_cons]
          omega
      · simp only [if_neg expired, List.count_nil, Nat.zero_add, Nat.le_refl]

theorem waiting_count (s : AdvanceRldvr) (key : AsnPair) (task : Task) :
    (s.waiting key).count task +
        (s.taskQueue.filter fun task => task.inquiry.key ≠ key).count task =
      s.taskQueue.count task := by
  have parts := List.filter_append_perm (fun task : Task => decide (task.inquiry.key = key))
    s.taskQueue
  have counted := parts.count_eq task
  rw [List.count_append] at counted
  rw [← counted, waiting]
  simp only [ne_eq, decide_not]

theorem step_count (s : AdvanceRldvr) (e : Event) (task : Task) :
    (s.dequeued e).count task + (s.step e).taskQueue.count task ≤
      s.taskQueue.count task + (s.enqueued e).count task := by
  cases e with
  | rlInquiry now msg len nl =>
      simp only [step, react, processRlInquiry_eq, dequeued, enqueued, List.count_nil]
      cases received (.rlInquiry now msg len nl) with
      | none => simp
      | some x =>
          cases found : s.asnCache.lookup x.key with
          | none => simp only [found, if_true, List.count_append, Nat.zero_add, Nat.le_refl]
          | some entry => simp only [found, Nat.zero_add, Nat.le_add_right]
  | rlReport msg len => simp [step, react, processRlReport, dequeued, enqueued]
  | rlFilter now msg len nl =>
      simp only [step, react, processRlFilter_eq, dequeued, enqueued, List.count_nil]
      cases learned (.rlFilter now msg len nl) with
      | none => simp
      | some knowledge => exact (waiting_count s knowledge.1 task).le
  | update now rand nl => exact popTasks_count now rand nl s.taskQueue task

theorem react_accounted (s : AdvanceRldvr) (e : Event) : Accounted s e := by
  cases e with
  | rlInquiry now msg len nl =>
      constructor
      · simp only [react, processRlInquiry_eq, atOnce, dequeued]
        cases received (.rlInquiry now msg len nl) with
        | none => rfl
        | some x =>
            cases found : s.asnCache.lookup x.key with
            | none =>
                simp only [found, Option.filter_some, Option.isSome_none, Bool.false_eq_true,
                  if_false]
                rfl
            | some entry =>
                simp only [found, Option.filter_some, Option.isSome_some, if_true,
                  respond_answered]
                rfl
      · simp only [step, react, processRlInquiry_eq, atOnce, dequeued, enqueued]
        cases received (.rlInquiry now msg len nl) with
        | none => exact fun nothing => absurd rfl nothing
        | some x =>
            cases found : s.asnCache.lookup x.key with
            | none => simp only [found, Option.filter_some, Option.isSome_none, if_true,
                Bool.false_eq_true, if_false, Option.map_none, and_self, implies_true]
            | some entry =>
                simp only [found, reduceCtorEq, if_false]
                exact fun nothing => absurd rfl nothing
  | rlReport msg len => exact ⟨rfl, fun nothing => absurd rfl nothing⟩
  | rlFilter now msg len nl =>
      refine ⟨?_, fun nothing => absurd rfl nothing⟩
      simp only [react, processRlFilter_eq, dequeued]
      cases learned (.rlFilter now msg len nl) with
      | none => rfl
      | some knowledge =>
          simp only [List.filterMap_flatMap, respond_answered, ← List.map_eq_flatMap]
          have none_at_once : s.atOnce (.rlFilter now msg len nl) = none := rfl
          rw [none_at_once, Option.toList_none, List.nil_append, List.map_map]
          rfl
  | update now rand nl =>
      refine ⟨?_, fun nothing => absurd rfl nothing⟩
      exact popTasks_answered now rand nl s.taskQueue

/-- A FILTER settles the tasks it is about and no others, and over a run no inquiry that was
    put in the queue is answered more often than it was put there. -/
theorem filter_settles_matching (dbAddr : UInt32) (dbPort : UInt16) (es : List Event) :
    let s := Run.final step (new dbAddr dbPort) es
    let visits := Run.visits step (new dbAddr dbPort) es
    (∀ now msg len nl, FilterSettles s now msg len nl) ∧
      (∀ visit ∈ visits, Accounted visit.1 visit.2) ∧
        ∀ task, (visits.flatMap fun visit => visit.1.dequeued visit.2).count task +
          s.taskQueue.count task ≤
            (visits.flatMap fun visit => visit.1.enqueued visit.2).count task := by
  intro s visits
  refine ⟨?_, fun visit _ => react_accounted visit.1 visit.2, fun task => ?_⟩
  · exact fun now msg len nl => processRlFilter_settles s now msg len nl
  · have ledger := Run.visits_ledger (fun s e => (dequeued s e).count task)
      (fun s e => (enqueued s e).count task) (fun s => s.taskQueue.count task)
      (fun s e => step_count s e task) (new dbAddr dbPort) es
    have empty : (new dbAddr dbPort).taskQueue.count task = 0 := rfl
    rw [empty, Nat.zero_add] at ledger
    rw [List.count_flatMap, List.count_flatMap]
    exact ledger

end AdvanceRldvr

end Cors
