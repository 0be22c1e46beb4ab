import Mathlib.Data.List.Perm.Basic
import Cors.Lib.Run

/-! # Networks of deterministic parties

The parties act by themselves and handle messages; both may send messages, which stay in
flight until they are handled. Any message in flight may be handled next, and it may stay
in flight when it is, as a duplicate.

Two rules are given: for what holds of the parties and of every message in flight, and for
what is owed by a party and accounted for either at the parties or in flight.
-/

namespace Cors

structure Network (σ μ : Type) where
  nodes : σ
  flight : List μ

namespace Network

/-- A party acts, or the `k`-th message in flight is handled with a reading. -/
inductive Event (α ι : Type) where
  | act (a : α)
  | deliver (k : Nat) (keep : Bool) (i : ι)

section Steps
variable (act : σ → α → σ × List μ) (handle : σ → ι → μ → σ × List μ)

def step (s : Network σ μ) : Event α ι → Network σ μ
  | .act a => ⟨(act s.nodes a).1, s.flight ++ (act s.nodes a).2⟩
  | .deliver k keep i =>
      match s.flight[k]? with
      | none => s
      | some m =>
          ⟨(handle s.nodes i m).1,
            (if keep then s.flight else s.flight.eraseIdx k) ++ (handle s.nodes i m).2⟩

/-- What is sent of a party's own accord. -/
def launch (s : Network σ μ) : Event α ι → List μ
  | .act a => (act s.nodes a).2
  | .deliver _ _ _ => []

/-- What is sent of a party's own accord in a run. -/
def launched (s : Network σ μ) (es : List (Event α ι)) : List μ :=
  (Run.visits (step act handle) s es).flatMap fun visit => launch act visit.1 visit.2

end Steps

variable {act : σ → α → σ × List μ} {handle : σ → ι → μ → σ × List μ}

theorem step_deliver {s : Network σ μ} {k : Nat} {m : μ} (taken : s.flight[k]? = some m)
    (keep : Bool) (i : ι) :
    step act handle s (.deliver k keep i) =
      ⟨(handle s.nodes i m).1,
        (if keep then s.flight else s.flight.eraseIdx k) ++ (handle s.nodes i m).2⟩ := by
  simp only [step, taken]

theorem step_deliver_none {s : Network σ μ} {k : Nat} (nothing : s.flight[k]? = none)
    (keep : Bool) (i : ι) : step act handle s (.deliver k keep i) = s := by
  simp only [step, nothing]

theorem launched_concat (s : Network σ μ) (es : List (Event α ι)) (e : Event α ι) :
    launched act handle s (es ++ [e]) =
      launched act handle s es ++ launch act (Run.final (step act handle) s es) e := by
  simp only [launched, Run.visits_concat, List.flatMap_append, List.flatMap_singleton]

theorem mem_or_eraseIdx {l : List μ} {k : Nat} {m m' : μ} (taken : l[k]? = some m)
    (listed : m' ∈ l) : m' = m ∨ m' ∈ l.eraseIdx k := by
  obtain ⟨inside, rfl⟩ := List.getElem?_eq_some_iff.mp taken
  exact List.mem_cons.mp ((List.getElem_cons_eraseIdx_perm inside).mem_iff.mpr listed)

theorem mem_or_stays {flight : List μ} {k : Nat} {m m' : μ} (taken : flight[k]? = some m)
    (keep : Bool) (flies : m' ∈ flight) :
    m' = m ∨ m' ∈ if keep then flight else flight.eraseIdx k := by
  cases keep with
  | true => exact .inr flies
  | false => exact mem_or_eraseIdx taken flies

theorem mem_of_stays {flight : List μ} {k : Nat} {keep : Bool} {m : μ}
    (stays : m ∈ if keep then flight else flight.eraseIdx k) : m ∈ flight := by
  cases keep with
  | true => exact stays
  | false => exact List.mem_of_mem_eraseIdx stays

section Invariant
variable {P : σ → Prop} {Q : μ → Prop}

/-- `P` of the parties and `Q` of every message in flight. -/
def Holds (P : σ → Prop) (Q : μ → Prop) (s : Network σ μ) : Prop :=
  P s.nodes ∧ ∀ m ∈ s.flight, Q m

theorem act_holds {s : Network σ μ} {a : α} (holds : Holds P Q s)
    (turn : P s.nodes → P (act s.nodes a).1 ∧ ∀ m ∈ (act s.nodes a).2, Q m) :
    Holds P Q (step act handle s (.act a)) := by
  obtain ⟨nodes, flight⟩ := holds
  obtain ⟨kept, sent⟩ := turn nodes
  refine ⟨kept, fun m flies => ?_⟩
  cases List.mem_append.mp flies with
  | inl old => exact flight m old
  | inr new => exact sent m new

theorem deliver_holds {s : Network σ μ} {k : Nat} {keep : Bool} {i : ι} (holds : Holds P Q s)
    (turn : ∀ m, s.flight[k]? = some m → P s.nodes → Q m →
      P (handle s.nodes i m).1 ∧ ∀ m' ∈ (handle s.nodes i m).2, Q m') :
    Holds P Q (step act handle s (.deliver k keep i)) := by
  obtain ⟨nodes, flight⟩ := holds
  cases taken : s.flight[k]? with
  | none =>
      rw [step_deliver_none taken]
      exact ⟨nodes, flight⟩
  | some m =>
      obtain ⟨kept, sent⟩ := turn m taken nodes (flight m (List.mem_of_getElem? taken))
      rw [step_deliver taken]
      refine ⟨kept, fun m' flies => ?_⟩
      cases List.mem_append.mp flies with
      | inl old => exact flight m' (mem_of_stays old)
      | inr new => exact sent m' new

/-- Acting and handling keep `P`, and send what is `Q` in answer to what is `Q`. -/
theorem step_holds (acts : ∀ n a, P n → P (act n a).1 ∧ ∀ m ∈ (act n a).2, Q m)
    (handles : ∀ n i m, P n → Q m → P (handle n i m).1 ∧ ∀ m' ∈ (handle n i m).2, Q m')
    (s : Network σ μ) (e : Event α ι) (holds : Holds P Q s) : Holds P Q (step act handle s e) := by
  cases e with
  | act a => exact act_holds holds (acts s.nodes a)
  | deliver k keep i => exact deliver_holds holds fun m _ => handles s.nodes i m

/-- Every message in flight descends from one that was sent of a party's own accord: `R`
    holds of a message and itself, and passes from what is handled to what is sent for it. -/
theorem final_descends {R : μ → μ → Prop} (own : ∀ n a, ∀ m ∈ (act n a).2, R m m)
    (handles : ∀ n i l m, R l m → ∀ m' ∈ (handle n i m).2, R l m') {s : Network σ μ}
    (quiet : s.flight = []) (es : List (Event α ι)) :
    ∀ m ∈ (Run.final (step act handle) s es).flight, ∃ l ∈ launched act handle s es, R l m := by
  refine Run.final_of_history
    (P := fun es s' => ∀ m ∈ Network.flight s', ∃ l ∈ launched act handle s es, R l m) ?_ ?_ es
  · intro m flies
    rw [quiet] at flies
    cases flies
  · intro es e descends m flies
    rw [launched_concat]
    have older : ∀ l m', l ∈ launched act handle s es → R l m' →
        ∃ l ∈ launched act handle s es ++ launch act (Run.final (step act handle) s es) e,
          R l m' :=
      fun l m' sent related => ⟨l, List.mem_append_left _ sent, related⟩
    cases e with
    | act a =>
        cases List.mem_append.mp flies with
        | inl old =>
            obtain ⟨l, sent, related⟩ := descends m old
            exact older l m sent related
        | inr new => exact ⟨m, List.mem_append_right _ new, own _ a m new⟩
    | deliver k keep i =>
        cases taken : (Run.final (step act handle) s es).flight[k]? with
        | none =>
            rw [step_deliver_none taken] at flies
            obtain ⟨l, sent, related⟩ := descends m flies
            exact older l m sent related
        | some m' =>
            rw [step_deliver taken] at flies
            cases List.mem_append.mp flies with
            | inl old =>
                obtain ⟨l, sent, related⟩ := descends m (mem_of_stays old)
                exact older l m sent related
            | inr new =>
                obtain ⟨l, sent, related⟩ := descends m' (List.mem_of_getElem? taken)
                exact older l m sent (handles _ i l m' related m new)

end Invariant

section Load
variable (weight : μ → Nat)

def total (ms : List μ) : Nat := (ms.map weight).sum

theorem total_append (ms ms' : List μ) :
    total weight (ms ++ ms') = total weight ms + total weight ms' := by
  rw [total, List.map_append, List.sum_append, total, total]

theorem total_eraseIdx {ms : List μ} {k : Nat} {m : μ} (taken : ms[k]? = some m) :
    total weight ms = weight m + total weight (ms.eraseIdx k) := by
  obtain ⟨inside, rfl⟩ := List.getElem?_eq_some_iff.mp taken
  have shuffled := ((List.getElem_cons_eraseIdx_perm inside).map weight).sum_nat
  rw [List.map_cons, List.sum_cons] at shuffled
  exact shuffled.symm

variable {weight}

theorem act_load {s : Network σ μ} {a : α} {spent gained : Nat}
    (turn : spent + total weight (act s.nodes a).2 ≤ gained) :
    spent + total weight (step act handle s (.act a)).flight ≤
      total weight s.flight + gained := by
  have whole := total_append weight s.flight (act s.nodes a).2
  dsimp only [step]
  omega

variable (act) in
theorem deliver_load {s : Network σ μ} {k : Nat} {m : μ} (taken : s.flight[k]? = some m)
    {spent : Nat} {i : ι} (turn : spent + total weight (handle s.nodes i m).2 ≤ weight m)
    (keep : Bool) :
    spent + total weight (step act handle s (.deliver k keep i)).flight ≤
      total weight s.flight + if keep then weight m else 0 := by
  have whole := total_eraseIdx weight taken
  rw [step_deliver taken, total_append]
  cases keep with
  | true =>
      rw [if_pos rfl, if_pos rfl]
      omega
  | false =>
      rw [if_neg Bool.false_ne_true, if_neg Bool.false_ne_true]
      omega

end Load

section Custody
variable {τ : Type} (Owed Settled : τ → σ → Prop) (Carries : τ → μ → Prop)

/-- Whatever is owed is settled at the parties or on its way. -/
def Accounted (s : Network σ μ) : Prop :=
  ∀ t, Owed t s.nodes → Settled t s.nodes ∨ ∃ m ∈ s.flight, Carries t m

variable {Owed Settled Carries}

/-- An action leaves everything accounted for when what is owed after it was owed before,
    and what was settled still is or is sent on its way. -/
theorem act_accounted {s : Network σ μ} {a : α} (accounted : Accounted Owed Settled Carries s)
    (owed : ∀ t, Owed t (act s.nodes a).1 → Owed t s.nodes)
    (settled : ∀ t, Owed t (act s.nodes a).1 → Settled t s.nodes → Settled t (act s.nodes a).1) :
    Accounted Owed Settled Carries (step act handle s (.act a)) := by
  intro t owes
  cases accounted t (owed t owes) with
  | inl before => exact .inl (settled t owes before)
  | inr carried =>
      obtain ⟨m, flies, carries⟩ := carried
      exact .inr ⟨m, List.mem_append_left _ flies, carries⟩

/-- Handling a message leaves everything accounted for when what is newly owed, what was
    settled before and what the message carried are settled or sent on their way. -/
theorem deliver_accounted {s : Network σ μ} {k : Nat} {keep : Bool} {i : ι} {m : μ}
    (accounted : Accounted Owed Settled Carries s) (taken : s.flight[k]? = some m)
    (turn : ∀ t, Owed t (handle s.nodes i m).1 →
      (Owed t s.nodes → Settled t s.nodes ∨ Carries t m) →
      Settled t (handle s.nodes i m).1 ∨ ∃ m' ∈ (handle s.nodes i m).2, Carries t m') :
    Accounted Owed Settled Carries (step act handle s (.deliver k keep i)) := by
  rw [step_deliver taken]
  intro t owes
  by_cases stays : ∃ m' ∈ if keep then s.flight else s.flight.eraseIdx k, Carries t m'
  · obtain ⟨m', flies, carries⟩ := stays
    exact .inr ⟨m', List.mem_append_left _ flies, carries⟩
  · have before : Owed t s.nodes → Settled t s.nodes ∨ Carries t m := by
      intro owed
      refine (accounted t owed).imp_right ?_
      rintro ⟨m', flies, carries⟩
      cases mem_or_stays taken keep flies with
      | inl same => exact same ▸ carries
      | inr other => exact absurd ⟨m', other, carries⟩ stays
    refine (turn t owes before).imp_right ?_
    rintro ⟨m', sent, carries⟩
    exact ⟨m', List.mem_append_right _ sent, carries⟩

/-- Nothing is in flight: everything that is owed is settled. -/
theorem settled_of_quiet {s : Network σ μ} (accounted : Accounted Owed Settled Carries s)
    (quiet : s.flight = []) {t : τ} (owed : Owed t s.nodes) : Settled t s.nodes := by
  cases accounted t owed with
  | inl settled => exact settled
  | inr carried =>
      obtain ⟨m, flies, -⟩ := carried
      rw [quiet] at flies
      cases flies

end Custody

end Network

end Cors
