import Mathlib.Data.List.Basic

/-! # Leases

A lease is granted at some time, renewed by later contacts, dropped, or ended by
a check that finds its last contact too old. An implementation keeps the last
contact of the leases in force. The history says the same without any state: a
lease is in force when nothing since its last grant has ended it.
-/

namespace Cors

namespace Lease

/-- What an event means for a lease. -/
inductive Effect (τ : Type) where
  | grant (t : τ)
  | renew (t : τ)
  | drop
  | expire (dead : τ → Bool)
  | idle

/-- The last contact of a lease in force. -/
def apply (lease : Option τ) : Effect τ → Option τ
  | .grant t => some t
  | .renew t => lease.map fun _ => t
  | .drop => none
  | .expire dead => lease.filter fun t => !dead t
  | .idle => lease

/-- Only a grant puts a lease in force. -/
theorem isSome_of_apply {lease : Option τ} {e : Effect τ} (free : ∀ t, e ≠ .grant t)
    (inForce : (apply lease e).isSome) : lease.isSome := by
  cases e with
  | grant t => exact absurd rfl (free t)
  | renew t => simpa only [apply, Option.isSome_map] using inForce
  | drop => cases inForce
  | expire dead =>
      cases lease with
      | none => cases inForce
      | some t => rfl
  | idle => exact inForce

def contact (t : τ) : Effect τ → τ
  | .grant u | .renew u => u
  | _ => t

section History
variable (effect : ε → Effect τ)

def state (lease : Option τ) (es : List ε) : Option τ :=
  es.foldl (fun lease e => apply lease (effect e)) lease

/-- The last contact after the events, if the one before them was at `t`. -/
def lastContact (t : τ) (es : List ε) : τ := es.foldl (fun t e => contact t (effect e)) t

def NoGrant (es : List ε) : Prop := ∀ e ∈ es, ∀ t, effect e ≠ .grant t

/-- The events neither repeat a grant made at `t` nor end it. -/
structure Unbroken (t : τ) (es : List ε) : Prop where
  noGrant : NoGrant effect es
  noDrop : ∀ e ∈ es, effect e ≠ .drop
  alive : ∀ before e after dead, es = before ++ e :: after → effect e = .expire dead →
    dead (lastContact effect t before) = false

/-- There was a grant, and the events since the last one have not ended it. -/
def InForce (es : List ε) : Prop :=
  ∃ before e after t, es = before ++ e :: after ∧ effect e = .grant t ∧ Unbroken effect t after

variable {effect}

theorem NoGrant.tail {e : ε} {es : List ε} (free : NoGrant effect (e :: es)) :
    NoGrant effect es :=
  fun w member => free w (List.mem_cons_of_mem _ member)

theorem unbroken_cons {t : τ} {e : ε} {es : List ε} :
    Unbroken effect t (e :: es) ↔
      (∀ u, effect e ≠ .grant u) ∧ effect e ≠ .drop ∧
        (∀ dead, effect e = .expire dead → dead t = false) ∧
        Unbroken effect (contact t (effect e)) es := by
  constructor
  · intro whole
    refine ⟨whole.noGrant e List.mem_cons_self, whole.noDrop e List.mem_cons_self, ?_, ?_⟩
    · exact fun dead check => whole.alive [] e es dead rfl check
    · refine ⟨whole.noGrant.tail, fun w member => whole.noDrop w (.tail e member), ?_⟩
      intro before w after dead split check
      exact whole.alive (e :: before) w after dead (by rw [split, List.cons_append]) check
  · rintro ⟨noGrant, noDrop, alive, rest⟩
    refine ⟨List.forall_mem_cons.mpr ⟨noGrant, rest.noGrant⟩,
      List.forall_mem_cons.mpr ⟨noDrop, rest.noDrop⟩, ?_⟩
    intro before w after dead split check
    cases before with
    | nil =>
        obtain ⟨rfl, -⟩ := List.cons.inj split
        exact alive dead check
    | cons _ before =>
        obtain ⟨rfl, behind⟩ := List.cons.inj split
        exact rest.alive before w after dead behind check

theorem unbroken_nil (t : τ) : Unbroken effect t [] where
  noGrant := by simp [NoGrant]
  noDrop := by simp
  alive := by simp

theorem state_none {es : List ε} (free : NoGrant effect es) : state effect none es = none := by
  induction es with
  | nil => rfl
  | cons e es ih =>
      have idle : apply none (effect e) = none := by
        cases kind : effect e with
        | grant t => exact absurd kind (free e List.mem_cons_self t)
        | renew | drop | expire | idle => rfl
      simpa only [state, List.foldl_cons, idle] using ih free.tail

theorem state_some {es : List ε} (free : NoGrant effect es) (t : τ) :
    (state effect (some t) es).isSome ↔ Unbroken effect t es := by
  induction es generalizing t with
  | nil => exact iff_of_true rfl (unbroken_nil t)
  | cons e es ih =>
      have next : state effect (some t) (e :: es) =
          state effect (apply (some t) (effect e)) es := rfl
      rw [unbroken_cons, next]
      cases kind : effect e with
      | grant u => exact absurd kind (free e List.mem_cons_self u)
      | renew u => simpa [apply, contact] using ih free.tail u
      | drop => simp [apply, state_none free.tail]
      | idle => simpa [apply, contact] using ih free.tail t
      | expire dead =>
          cases hit : dead t with
          | true => simp [apply, Option.filter, hit, state_none free.tail]
          | false => simpa [apply, Option.filter, contact, hit] using ih free.tail t

theorem last_grant (effect : ε → Effect τ) (es : List ε) :
    NoGrant effect es ∨
      ∃ before e after t,
        es = before ++ e :: after ∧ effect e = .grant t ∧ NoGrant effect after := by
  induction es with
  | nil => exact .inl (by simp [NoGrant])
  | cons e es ih =>
      rcases ih with free | ⟨before, w, after, t, split, grant, free⟩
      · by_cases grant : ∃ t, effect e = .grant t
        · obtain ⟨t, grant⟩ := grant
          exact .inr ⟨[], e, es, t, rfl, grant, free⟩
        · exact .inl (List.forall_mem_cons.mpr ⟨not_exists.mp grant, free⟩)
      · exact .inr ⟨e :: before, w, after, t, by rw [split, List.cons_append], grant, free⟩

theorem state_after_grant {before after : List ε} {e : ε} {t : τ} (grant : effect e = .grant t)
    (lease : Option τ) :
    state effect lease (before ++ e :: after) = state effect (some t) after := by
  simp only [state, List.foldl_append, List.foldl_cons, grant, apply]

/-- The state agrees with the history. -/
theorem state_isSome_iff (es : List ε) :
    (state effect none es).isSome ↔ InForce effect es := by
  constructor
  · intro held
    rcases last_grant effect es with free | ⟨before, e, after, t, split, grant, free⟩
    · simp [state_none free] at held
    · rw [split, state_after_grant grant] at held
      exact ⟨before, e, after, t, split, grant, (state_some free t).mp held⟩
  · rintro ⟨before, e, after, t, split, grant, whole⟩
    rw [split, state_after_grant grant]
    exact (state_some whole.noGrant t).mpr whole

end History

end Lease

end Cors
