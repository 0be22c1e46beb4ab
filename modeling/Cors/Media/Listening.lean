import Cors.Lib.Run

/-! # Listening for packets

`rtpreceiver.cpp`, `streamplayer.cpp` and `streamdump.cpp` receive in the same loop, and differ in
what they do with a packet. The loop ends when `select` fails or times out, or when the CORS socket
gave no packet twenty times in a row.
-/

namespace Cors

/-- What a round of the loop finds: `select` fails or times out, `recvfrom` leaves a negative
    length, or there is a packet. -/
inductive Arrival (β : Type) where
  | failure
  | timeout
  | nothing
  | packet (x : β)

namespace Arrival

/-- The packets. -/
def heard (arrivals : List (Arrival β)) : List β :=
  arrivals.filterMap fun
    | .packet x => some x
    | _ => none

inductive Outcome (σ : Type) where
  | waits (s : σ)
  | ends (s : σ)
  | aborts

/-- The loop, with the counter `stop`. Without CORS a negative length is taken for one. -/
def listen (useCors : Bool) (store : σ → β → Option σ) (stop : Nat) (s : σ) :
    List (Arrival β) → Outcome σ
  | [] => .waits s
  | .failure :: _ => .ends s
  | .timeout :: _ => .ends s
  | .nothing :: arrivals =>
      if useCors then
        if stop + 1 = 20 then .ends s else listen useCors store (stop + 1) s arrivals
      else
        .aborts
  | .packet x :: arrivals =>
      match store s x with
      | none => .aborts
      | some s => listen useCors store (if useCors then 0 else stop) s arrivals

/-- How many arrivals without a packet are the last ones. -/
def quiet (arrivals : List (Arrival β)) : Nat :=
  (arrivals.reverse.takeWhile fun | .nothing => true | _ => false).length

/-- The arrival after which nothing is received any more. -/
def Stops (useCors : Bool) (before : List (Arrival β)) : Arrival β → Prop
  | .failure => True
  | .timeout => True
  | .nothing => useCors = true ∧ quiet before = 19
  | .packet _ => False

/-- No arrival stops the loop. -/
def Goes (useCors : Bool) (arrivals : List (Arrival β)) : Prop :=
  Run.Meets (fun before e => ¬Stops useCors before e) arrivals

/-- The first arrival that stops the loop is the one behind these. -/
def StopsAfter (useCors : Bool) (before arrivals : List (Arrival β)) : Prop :=
  Goes useCors before ∧ ∃ last after, arrivals = before ++ last :: after ∧ Stops useCors before last

section Spec
variable {useCors : Bool} {arrivals : List (Arrival β)}

theorem heard_append (past arrivals : List (Arrival β)) :
    heard (past ++ arrivals) = heard past ++ heard arrivals :=
  List.filterMap_append

theorem quiet_nothing (past : List (Arrival β)) : quiet (past ++ [.nothing]) = quiet past + 1 := by
  rw [quiet, List.reverse_append]
  rfl

theorem quiet_packet (past : List (Arrival β)) (x : β) : quiet (past ++ [.packet x]) = 0 := by
  rw [quiet, List.reverse_append]
  rfl

theorem listen_from (past : List (Arrival β)) {store : σ → β → Option σ} {stop : Nat} {s t : σ}
    (count : stop = if useCors then quiet past else 0) (goes : Goes useCors past)
    (ran : Run.attempt store s (heard arrivals) = some t)
    (served : useCors = true ∨ .nothing ∉ arrivals) :
    (listen useCors store stop s arrivals = .waits t ∧ Goes useCors (past ++ arrivals)) ∨
      ∃ before s', listen useCors store stop s arrivals = .ends s' ∧
        StopsAfter useCors (past ++ before) (past ++ arrivals) ∧
        Run.attempt store s (heard before) = some s' := by
  induction arrivals generalizing past stop s with
  | nil =>
      exact .inl ⟨congrArg Outcome.waits (Option.some.inj ran), (List.append_nil past).symm ▸ goes⟩
  | cons arrival arrivals ih =>
      have rest : useCors = true ∨ .nothing ∉ arrivals :=
        served.imp_right fun absent member => absent (List.mem_cons_of_mem arrival member)
      have step : past ++ arrival :: arrivals = past ++ [arrival] ++ arrivals :=
        List.append_cons past arrival arrivals
      have ends (stops : Stops useCors past arrival) :
          StopsAfter useCors (past ++ []) (past ++ arrival :: arrivals) := by
        rw [List.append_nil]
        exact ⟨goes, arrival, arrivals, rfl, stops⟩
      cases arrival with
      | failure => exact .inr ⟨[], s, rfl, ends trivial, rfl⟩
      | timeout => exact .inr ⟨[], s, rfl, ends trivial, rfl⟩
      | nothing =>
          have cors : useCors = true :=
            served.resolve_right fun absent => absent List.mem_cons_self
          subst cors
          have known : stop = quiet past := count
          by_cases full : stop + 1 = 20
          · refine .inr ⟨[], s, ?_, ends ⟨rfl, by omega⟩, rfl⟩
            rw [listen, if_pos rfl, if_pos full]
          · have on : Goes true (past ++ [.nothing]) := Run.meets_concat.mpr
              ⟨goes, fun stops => full (by have twenty := stops.2; omega)⟩
            have next := ih (past ++ [.nothing])
              ((congrArg (· + 1) known).trans (quiet_nothing past).symm) on ran rest
            rw [listen, if_pos rfl, if_neg full, step]
            obtain waits | ⟨before, s', ended, stops, reached⟩ := next
            · exact .inl waits
            · refine .inr ⟨.nothing :: before, s', ended, ?_, reached⟩
              rw [List.append_cons]
              exact stops
      | packet x =>
          obtain ⟨s₁, stored, later⟩ := Option.bind_eq_some_iff.mp ran
          have on : Goes useCors (past ++ [.packet x]) := Run.meets_concat.mpr ⟨goes, id⟩
          have again : (if useCors then 0 else stop) =
              if useCors then quiet (past ++ [.packet x]) else 0 := by
            rw [quiet_packet, count]
            cases useCors <;> rfl
          have next := ih (past ++ [.packet x]) again on later rest
          have loop : listen useCors store stop s (.packet x :: arrivals) =
              listen useCors store (if useCors then 0 else stop) s₁ arrivals := by
            simp only [listen, stored]
          rw [loop, step]
          obtain waits | ⟨before, s', ended, stops, reached⟩ := next
          · exact .inl waits
          · refine .inr ⟨.packet x :: before, s', ended, ?_, ?_⟩
            · rw [List.append_cons]
              exact stops
            · exact Option.bind_eq_some_iff.mpr ⟨s₁, stored, reached⟩

/-- What the loop has done when it waits or ends. -/
theorem listen_spec {store : σ → β → Option σ} {s t : σ}
    (ran : Run.attempt store s (heard arrivals) = some t)
    (served : useCors = true ∨ .nothing ∉ arrivals) :
    (listen useCors store 0 s arrivals = .waits t ∧ Goes useCors arrivals) ∨
      ∃ before s', listen useCors store 0 s arrivals = .ends s' ∧
        StopsAfter useCors before arrivals ∧ Run.attempt store s (heard before) = some s' :=
  listen_from [] (by cases useCors <;> rfl) Run.meets_nil ran served

end Spec

end Arrival

end Cors
