import Mathlib.Algebra.Ring.Nat
import Mathlib.Data.List.Basic
import Mathlib.Data.List.Induction

/-! # Runs of a deterministic machine

A machine is a step function on states and events. A property holds throughout a
run when it holds after every prefix of the events. Besides the induction rule
for invariants there is its exact form: when a step keeps the property just in
case it meets a condition, the property holds throughout a run just in case every
step of the run meets that condition.
-/

namespace Cors

namespace Run

section Total
variable (step : σ → ε → σ)

/-- The state after the events. -/
def final (s : σ) (es : List ε) : σ := es.foldl step s

/-- Each event of a run with the state it is handled in. -/
def visits (s : σ) : List ε → List (σ × ε)
  | [] => []
  | e :: es => (s, e) :: visits (step s e) es

/-- `P` holds in every state of the run. -/
def Throughout (P : σ → Prop) (s : σ) (es : List ε) : Prop :=
  ∀ before after, es = before ++ after → P (final step s before)

@[simp] theorem final_nil (s : σ) : final step s [] = s := rfl

@[simp] theorem final_cons (s : σ) (e : ε) (es : List ε) :
    final step s (e :: es) = final step (step s e) es := rfl

@[simp] theorem final_append (s : σ) (es fs : List ε) :
    final step s (es ++ fs) = final step (final step s es) fs :=
  List.foldl_append

theorem visits_concat (s : σ) (es : List ε) (e : ε) :
    visits step s (es ++ [e]) = visits step s es ++ [(final step s es, e)] := by
  induction es generalizing s with
  | nil => rfl
  | cons f es ih => simp only [List.cons_append, visits, ih, final_cons]

/-- What is seen of the steps of a run, where something is. -/
def trace (seen : σ × ε → Option β) (s : σ) (es : List ε) : List β :=
  (visits step s es).filterMap seen

theorem trace_concat (seen : σ × ε → Option β) (s : σ) (es : List ε) (e : ε) :
    trace step seen s (es ++ [e]) =
      trace step seen s es ++ (seen (final step s es, e)).toList := by
  rw [trace, visits_concat, List.filterMap_append]
  cases last : seen (final step s es, e) <;> simp [trace, last]

variable {step}

theorem final_of_invariant {P : σ → Prop} {s : σ} (start : P s)
    (keep : ∀ s e, P s → P (step s e)) (es : List ε) : P (final step s es) := by
  induction es generalizing s with
  | nil => exact start
  | cons e es ih => exact ih (keep s e start)

/-- An invariant of the steps that meet a condition is one of the runs all whose steps do. -/
theorem final_of_kept {P : σ → Prop} {C : σ → ε → Prop} {s : σ} (start : P s)
    (keep : ∀ s e, C s e → P s → P (step s e)) (es : List ε)
    (kept : ∀ visit ∈ visits step s es, C visit.1 visit.2) : P (final step s es) := by
  induction es generalizing s with
  | nil => exact start
  | cons e es ih =>
      rw [visits, List.forall_mem_cons] at kept
      exact ih (keep s e kept.1 start) kept.2

theorem visits_of_invariant {P : σ → Prop} {s : σ} (start : P s)
    (keep : ∀ s e, P s → P (step s e)) (es : List ε) : ∀ visit ∈ visits step s es, P visit.1 := by
  induction es generalizing s with
  | nil => exact fun visit visited => nomatch visited
  | cons e es ih => exact List.forall_mem_cons.mpr ⟨start, ih (keep s e start)⟩

theorem event_of_visit {s : σ} {es : List ε} {visit : σ × ε} (visited : visit ∈ visits step s es) :
    visit.2 ∈ es := by
  induction es generalizing s with
  | nil => cases visited
  | cons e es ih =>
      cases List.mem_cons.mp visited with
      | inl first => exact first ▸ List.mem_cons_self
      | inr later => exact List.mem_cons_of_mem e (ih later)

/-- An invariant of the state and the events that led to it. -/
theorem final_of_history {P : List ε → σ → Prop} {s : σ} (start : P [] s)
    (keep : ∀ es e, P es (final step s es) → P (es ++ [e]) (step (final step s es) e))
    (es : List ε) : P es (final step s es) := by
  induction es using List.reverseRecOn with
  | nil => exact start
  | append_singleton es e ih =>
      rw [final_append]
      exact keep es e ih

/-- Each event meets a condition on those before it. -/
def Meets (C : List ε → ε → Prop) (es : List ε) : Prop :=
  ∀ before e after, es = before ++ e :: after → C before e

theorem meets_nil {C : List ε → ε → Prop} : Meets C [] := fun _ _ _ split => by
  simp at split

theorem meets_concat {C : List ε → ε → Prop} {es : List ε} {e : ε} :
    Meets C (es ++ [e]) ↔ Meets C es ∧ C es e := by
  constructor
  · intro kept
    refine ⟨fun before f after split => kept before f (after ++ [e]) ?_, kept es e [] rfl⟩
    rw [split, List.append_assoc, List.cons_append]
  · rintro ⟨kept, last⟩ before f after split
    rcases List.eq_nil_or_concat after with rfl | ⟨front, g, rfl⟩
    · obtain ⟨rfl, own⟩ := List.append_inj' split rfl
      obtain rfl := List.singleton_inj.mp own
      exact last
    · rw [List.concat_eq_append, ← List.cons_append, ← List.append_assoc] at split
      exact kept before f front (List.append_inj' split rfl).1

theorem history_of_kept {P : List ε → Prop} {C : List ε → ε → Prop} (start : P [])
    (keep : ∀ es e, P es → C es e → P (es ++ [e])) (es : List ε) (kept : Meets C es) : P es := by
  induction es using List.reverseRecOn with
  | nil => exact start
  | append_singleton es e ih =>
      obtain ⟨earlier, last⟩ := meets_concat.mp kept
      exact keep es e (ih earlier) last

theorem observe_final (obs : σ → β) (update : β → σ × ε → β)
    (keep : ∀ s e, obs (step s e) = update (obs s) (s, e)) (s : σ) (es : List ε) :
    obs (final step s es) = (visits step s es).foldl update (obs s) := by
  induction es generalizing s with
  | nil => rfl
  | cons e es ih => simp only [final_cons, ih, visits, List.foldl_cons, keep]

/-- A run spends no more than it starts with and gains, when no step does. -/
theorem visits_ledger (spent gained : σ → ε → Nat) (left : σ → Nat)
    (turn : ∀ s e, spent s e + left (step s e) ≤ left s + gained s e) (s : σ) (es : List ε) :
    ((visits step s es).map fun visit => spent visit.1 visit.2).sum + left (final step s es) ≤
      left s + ((visits step s es).map fun visit => gained visit.1 visit.2).sum := by
  induction es generalizing s with
  | nil => simp [visits]
  | cons e es ih =>
      have now := turn s e
      have later := ih (step s e)
      simp only [visits, List.map_cons, List.sum_cons, final_cons]
      omega

/-- The same of the runs all whose steps meet a condition, next to an invariant. -/
theorem ledger_of_kept {P : σ → Prop} {C : σ → ε → Prop} (spent gained : σ → ε → Nat)
    (left : σ → Nat) (keep : ∀ s e, C s e → P s → P (step s e))
    (turn : ∀ s e, C s e → P s → spent s e + left (step s e) ≤ left s + gained s e) {s : σ}
    (start : P s) (es : List ε) (kept : ∀ visit ∈ visits step s es, C visit.1 visit.2) :
    ((visits step s es).map fun visit => spent visit.1 visit.2).sum + left (final step s es) ≤
      left s + ((visits step s es).map fun visit => gained visit.1 visit.2).sum := by
  induction es generalizing s with
  | nil => simp [visits]
  | cons e es ih =>
      rw [visits, List.forall_mem_cons] at kept
      have now := turn s e kept.1 start
      have later := ih (keep s e kept.1 start) kept.2
      simp only [visits, List.map_cons, List.sum_cons, final_cons]
      omega

theorem throughout_nil {P : σ → Prop} {s : σ} : Throughout step P s [] ↔ P s := by
  constructor
  · intro always
    exact always [] [] rfl
  · intro start before after split
    obtain ⟨rfl, -⟩ := List.append_eq_nil_iff.mp split.symm
    exact start

theorem throughout_cons {P : σ → Prop} {s : σ} {e : ε} {es : List ε} :
    Throughout step P s (e :: es) ↔ P s ∧ Throughout step P (step s e) es := by
  constructor
  · intro always
    refine ⟨always [] (e :: es) rfl, fun before after split => ?_⟩
    exact always (e :: before) after (by rw [split, List.cons_append])
  · rintro ⟨start, always⟩ before after split
    cases before with
    | nil => exact start
    | cons f before =>
        obtain ⟨rfl, rest⟩ := List.cons.inj split
        exact always before after rest

/-- The exact form of the invariant rule. -/
theorem throughout_iff {P : σ → Prop} {C : σ → ε → Prop} {s : σ} (start : P s)
    (keep : ∀ s e, P s → (P (step s e) ↔ C s e)) (es : List ε) :
    Throughout step P s es ↔ ∀ visit ∈ visits step s es, C visit.1 visit.2 := by
  induction es generalizing s with
  | nil => simp [throughout_nil, visits, start]
  | cons e es ih =>
      simp only [throughout_cons, visits, List.forall_mem_cons, start, true_and]
      constructor
      · intro always
        have next : P (step s e) := always [] es rfl
        exact ⟨(keep s e start).mp next, (ih next).mp always⟩
      · rintro ⟨meets, rest⟩
        exact (ih ((keep s e start).mpr meets)).mpr rest

end Total

section Latest

/-- What the last event that is noted says. -/
def latest (note : ε → Option β) (es : List ε) : Option β := es.reverse.findSome? note

@[simp] theorem latest_nil (note : ε → Option β) : latest note [] = none := rfl

@[simp] theorem latest_concat (note : ε → Option β) (es : List ε) (e : ε) :
    latest note (es ++ [e]) = (note e).or (latest note es) := by
  cases noted : note e <;> simp [latest, noted]

end Latest

section Ranked

theorem chain_length_le {R : α → α → Prop} {P : α → Prop} (rank : α → Nat)
    (descend : ∀ a b, P a → R a b → P b ∧ rank b < rank a) {x : α} {xs : List α} (start : P x)
    (chain : List.IsChain R (x :: xs)) : xs.length ≤ rank x := by
  induction xs generalizing x with
  | nil => exact Nat.zero_le _
  | cons y ys ih =>
      obtain ⟨link, rest⟩ := List.isChain_cons_cons.mp chain
      obtain ⟨holds, lower⟩ := descend x y start link
      have shorter := ih holds rest
      rw [List.length_cons]
      omega

end Ranked

section Stuck
variable (step : σ → ε → Option σ)

/-- The state after the events, if no step gets stuck. -/
def attempt (s : σ) : List ε → Option σ
  | [] => some s
  | e :: es => (step s e).bind fun s' => attempt s' es

@[simp] theorem attempt_nil (s : σ) : attempt step s [] = some s := rfl

theorem attempt_cons (s : σ) (e : ε) (es : List ε) :
    attempt step s (e :: es) = (step s e).bind fun s' => attempt step s' es := rfl

theorem attempt_append (s : σ) (es fs : List ε) :
    attempt step s (es ++ fs) = (attempt step s es).bind fun s' => attempt step s' fs := by
  induction es generalizing s with
  | nil => rfl
  | cons e es ih => simp only [List.cons_append, attempt_cons, ih, Option.bind_assoc]

variable {step}

theorem attempt_keeps {P : σ → Prop} (keep : ∀ s e s', P s → step s e = some s' → P s') {s s' : σ}
    {es : List ε} (start : P s) (ran : attempt step s es = some s') : P s' := by
  induction es generalizing s with
  | nil => exact Option.some.inj ran ▸ start
  | cons e es ih =>
      obtain ⟨next, stepped, rest⟩ := Option.bind_eq_some_iff.mp ran
      exact ih (keep s e next start stepped) rest

/-- `P` holds in every state that the run reaches. -/
def Always (step : σ → ε → Option σ) (P : σ → Prop) (s : σ) (es : List ε) : Prop :=
  ∀ before after s', es = before ++ after → attempt step s before = some s' → P s'

/-- Each event of a run that is tried, with the state it is tried in. -/
def tries (step : σ → ε → Option σ) (s : σ) : List ε → List (σ × ε)
  | [] => []
  | e :: es =>
      (s, e) :: match step s e with
        | none => []
        | some s' => tries step s' es

theorem attempt_of_kept {P : σ → Prop} {C : σ → ε → Prop}
    (keep : ∀ s e s', C s e → P s → step s e = some s' → P s') {s s' : σ} {es : List ε}
    (start : P s) (kept : ∀ visit ∈ tries step s es, C visit.1 visit.2)
    (ran : attempt step s es = some s') : P s' := by
  induction es generalizing s with
  | nil => exact Option.some.inj ran ▸ start
  | cons e es ih =>
      obtain ⟨next, stepped, rest⟩ := Option.bind_eq_some_iff.mp ran
      simp only [tries, stepped, List.forall_mem_cons] at kept
      exact ih (keep s e next kept.1 start stepped) kept.2 rest

/-- A run gets through just in case each of its tries does, by a condition that is exact where
    an invariant holds. -/
theorem attempt_iff {P : σ → Prop} {C : σ → ε → Prop}
    (keep : ∀ s e s', P s → step s e = some s' → P s')
    (progress : ∀ s e, P s → ((∃ s', step s e = some s') ↔ C s e)) {s : σ} (start : P s)
    (es : List ε) :
    (∃ s', attempt step s es = some s') ↔ ∀ visit ∈ tries step s es, C visit.1 visit.2 := by
  induction es generalizing s with
  | nil => simp [tries]
  | cons e es ih =>
      rw [tries, List.forall_mem_cons, ← progress s e start, attempt_cons]
      cases stepped : step s e with
      | none => simp
      | some next => simpa using ih (keep s e next start stepped)

theorem always_nil {P : σ → Prop} {s : σ} : Always step P s [] ↔ P s := by
  constructor
  · intro always
    exact always [] [] s rfl rfl
  · intro start before after s' split ran
    obtain ⟨rfl, -⟩ := List.append_eq_nil_iff.mp split.symm
    exact Option.some.inj ran ▸ start

theorem always_cons {P : σ → Prop} {s : σ} {e : ε} {es : List ε} :
    Always step P s (e :: es) ↔ P s ∧ ∀ s', step s e = some s' → Always step P s' es := by
  constructor
  · intro always
    refine ⟨always [] (e :: es) s rfl rfl, fun s' stepped before after t split ran => ?_⟩
    refine always (e :: before) after t (by rw [split, List.cons_append]) ?_
    rw [attempt_cons, stepped, Option.bind_some, ran]
  · intro both before after t split ran
    obtain ⟨start, always⟩ := both
    cases before with
    | nil => exact Option.some.inj ran ▸ start
    | cons f before =>
        obtain ⟨rfl, rest⟩ := List.cons.inj split
        obtain ⟨next, stepped, later⟩ := Option.bind_eq_some_iff.mp ran
        exact always next stepped before after t rest later

/-- The exact form of the invariant rule, next to an invariant `I` and where a step that gets
    stuck meets the condition. -/
theorem always_iff {I P : σ → Prop} {C : σ → ε → Prop} {s : σ} (holds : I s) (start : P s)
    (stays : ∀ s e s', I s → step s e = some s' → I s')
    (keep : ∀ s e s', I s → P s → step s e = some s' → (P s' ↔ C s e))
    (stuck : ∀ s e, I s → step s e = none → C s e) (es : List ε) :
    Always step P s es ↔ ∀ visit ∈ tries step s es, C visit.1 visit.2 := by
  induction es generalizing s with
  | nil => simp [always_nil, tries, start]
  | cons e es ih =>
      simp only [always_cons, tries, List.forall_mem_cons, start, true_and]
      cases stepped : step s e with
      | none => simp [stuck s e holds stepped]
      | some s' =>
          have exactly := keep s e s' holds start stepped
          simp only [Option.some.injEq, forall_eq']
          constructor
          · intro always
            have next : P s' := always [] es s' rfl rfl
            exact ⟨exactly.mp next, (ih (stays s e s' holds stepped) next).mp always⟩
          · intro both
            exact (ih (stays s e s' holds stepped) (exactly.mpr both.1)).mpr both.2

/-- A machine that no step of another one leaves stuck runs along with it. -/
theorem attempt_simulates {τ : Type _} {R : σ → τ → Prop} {C : τ → ε → Prop}
    {other : τ → ε → τ}
    (keep : ∀ s t e, C t e → R s t → ∃ s', step s e = some s' ∧ R s' (other t e)) {s : σ} {t : τ}
    {es : List ε} (start : R s t) (kept : ∀ visit ∈ visits other t es, C visit.1 visit.2) :
    ∃ s', attempt step s es = some s' ∧ R s' (final other t es) := by
  induction es generalizing s t with
  | nil => exact ⟨s, rfl, start⟩
  | cons e es ih =>
      rw [visits, List.forall_mem_cons] at kept
      obtain ⟨next, stepped, related⟩ := keep s t e kept.1 start
      obtain ⟨last, reached, ends⟩ := ih related kept.2
      exact ⟨last, by simp only [attempt_cons, stepped, Option.bind_some, reached], ends⟩

theorem rel_cases {α β : Type _} {R : α → β → Prop} {x : Option α} {y : Option β}
    (related : Option.Rel R x y) :
    x = none ∧ y = none ∨ ∃ a b, x = some a ∧ y = some b ∧ R a b := by
  cases related with
  | none => exact .inl ⟨rfl, rfl⟩
  | some both => exact .inr ⟨_, _, rfl, rfl, both⟩

theorem attempt_length_le {P : σ → Prop} (rank : σ → Nat)
    (descend : ∀ s e s', P s → step s e = some s' → P s' ∧ rank s' < rank s)
    {s s' : σ} {es : List ε} (start : P s) (ran : attempt step s es = some s') :
    P s' ∧ es.length + rank s' ≤ rank s := by
  induction es generalizing s with
  | nil =>
      obtain rfl := Option.some.inj ran
      exact ⟨start, Nat.le_of_eq (Nat.zero_add _)⟩
  | cons e es ih =>
      obtain ⟨next, stepped, rest⟩ := Option.bind_eq_some_iff.mp ran
      obtain ⟨holds, lower⟩ := descend s e next start stepped
      obtain ⟨ends, shorter⟩ := ih holds rest
      rw [List.length_cons]
      exact ⟨ends, by omega⟩

/-- And if a step is left wherever the goal is not reached, it is reached. -/
theorem attempt_reaches {P Q : σ → Prop} (rank : σ → Nat)
    (descend : ∀ s e s', P s → step s e = some s' → P s' ∧ rank s' < rank s)
    (progress : ∀ s, P s → ¬Q s → ∃ e s', step s e = some s') {s : σ} (start : P s) :
    ∃ es s', attempt step s es = some s' ∧ Q s' := by
  by_cases reached : Q s
  · exact ⟨[], s, rfl, reached⟩
  · obtain ⟨e, next, stepped⟩ := progress s start reached
    obtain ⟨holds, lower⟩ := descend s e next start stepped
    obtain ⟨es, s', ran, goal⟩ := attempt_reaches rank descend progress holds
    exact ⟨e :: es, s', by rw [attempt_cons, stepped, Option.bind_some, ran], goal⟩
termination_by rank s

theorem attempt_related {τ φ : Type _} {R : σ → τ → Prop} {C : σ → ε → Prop} {f : ε → φ}
    {other : τ → φ → Option τ}
    (keep : ∀ s t e, C s e → R s t → Option.Rel R (step s e) (other t (f e))) {s : σ} {t : τ}
    {es : List ε} (start : R s t) (kept : ∀ visit ∈ tries step s es, C visit.1 visit.2) :
    Option.Rel R (attempt step s es) (attempt other t (es.map f)) := by
  induction es generalizing s t with
  | nil => exact .some start
  | cons e es ih =>
      have both := keep s t e (kept (s, e) List.mem_cons_self) start
      rw [List.map_cons, attempt_cons, attempt_cons]
      obtain ⟨stuck, same⟩ | ⟨s', t', stepped, moved, related⟩ := rel_cases both
      · rw [stuck, same]
        exact .none
      · simp only [tries, stepped, List.forall_mem_cons] at kept
        rw [stepped, moved]
        exact ih related kept.2

/-- A relation between states that each step extends holds between the ends of a run. -/
theorem attempt_of_relation {P : σ → Prop} {R : σ → σ → Prop} (refl : ∀ s, R s s)
    (trans : ∀ s t u, R s t → R t u → R s u)
    (keep : ∀ s e s', P s → step s e = some s' → P s' ∧ R s s')
    {s s' : σ} {es : List ε} (start : P s) (ran : attempt step s es = some s') : R s s' := by
  induction es generalizing s with
  | nil => exact Option.some.inj ran ▸ refl s
  | cons e es ih =>
      obtain ⟨next, stepped, rest⟩ := Option.bind_eq_some_iff.mp ran
      obtain ⟨holds, related⟩ := keep s e next start stepped
      exact trans _ _ _ related (ih holds rest)

end Stuck

end Run

end Cors
