import Cors.Proxy.Ledger
import Cors.Proxy.Sessions

/-! # Admission of one reservation

A reservation that finds its session stored, or room for it, should be recorded with
its demand, or with what the other sessions leave of the limit, and should touch no
other session. One that is refused should change nothing. What is recorded is a
16-bit number taken from the counter, and a refused demand is charged to it.
-/

namespace Cors

namespace SimpleFwd

/-- What the other sessions leave of the limit. They may hold more than the limit. -/
def balance (s : SimpleFwd) (key : SessionKey) : Int := maxFwdBw.toNat - s.reservedByOthers key

/-- What a reservation of `rqBw` that leads from `s` to `s'` should come to. -/
def Admission (s : SimpleFwd) (key : SessionKey) (rqBw : UInt32) (s' : SimpleFwd) : Prop :=
  if s.Admits key then
    (∃ record, s'.fwdHmap.lookup key = some record ∧
      record.rqBw.toNat = min (rqBw.toNat : Int) (s.balance key)) ∧
    ∀ other ≠ key, s'.fwdHmap.lookup other = s.fwdHmap.lookup other
  else
    s'.fwdHmap = s.fwdHmap ∧ s'.curRqBw = s.curRqBw

/-- A demand whose grant sixteen bits record exactly: the balance covers it and it has
    sixteen bits itself, or the balance has sixteen bits and is what they keep of the
    demand or, if the counter does not leave room for the demand, of the counter. -/
def Recordable (s : SimpleFwd) (key : SessionKey) (rqBw : Nat) : Prop :=
  (rqBw ≤ s.balance key ∧ rqBw < 65536) ∨
    (s.balance key < rqBw ∧ 0 ≤ s.balance key ∧ s.balance key < 65536 ∧
      if rqBw ≤ maxFwdBw.toNat - (s.unclaimed key).toNat then
        (rqBw : Int) % 65536 = s.balance key
      else
        (s.unclaimed key).toNat = s.reservedByOthers key % 65536)

/-- A demand that comes to what it should: a recordable one if it is admitted, and one
    whose grant is cut to zero if it is refused. -/
def AdmittedRight (s : SimpleFwd) (key : SessionKey) (rqBw : UInt32) : Prop :=
  if s.Admits key then s.Recordable key rqBw.toNat
  else GrantVanishes s.curRqBw.toNat rqBw.toNat

instance : Decidable (Recordable s key rqBw) := inferInstanceAs (Decidable (_ ∨ _))

instance : Decidable (GrantVanishes others rqBw) := inferInstanceAs (Decidable (_ ∨ _))

instance : Decidable (AdmittedRight s key rqBw) :=
  inferInstanceAs (Decidable (if s.Admits key then _ else _))

theorem granted_exact_iff (s : SimpleFwd) (key : SessionKey) (rqBw : UInt32) :
    (s.granted key rqBw).toNat = min (rqBw.toNat : Int) (s.balance key) ↔
      s.Recordable key rqBw.toNat := by
  have small : (s.unclaimed key).toNat < 65536 := (s.unclaimed key).toNat_lt
  have bound : rqBw.toNat < 4294967296 := rqBw.toNat_lt
  have limit := maxFwdBw_toNat
  by_cases fits : rqBw.toNat ≤ maxFwdBw.toNat - (s.unclaimed key).toNat
  · simp only [granted_toNat, Recordable, balance, if_pos fits]
    omega
  · simp only [granted_toNat, Recordable, balance, if_neg fits]
    omega

theorem stored_granted {s : SimpleFwd} {key : SessionKey} (admitted : s.Admits key)
    (curTime : Timeval) (rqBw : UInt16) :
    ∃ record, (s.stored curTime key rqBw).lookup key = some record ∧ record.rqBw = rqBw := by
  cases found : s.fwdHmap.lookup key with
  | some record =>
      simp only [stored, found, AList.lookup_insert]
      exact ⟨_, rfl, rfl⟩
  | none =>
      have room : s.fwdHmap.size < s.maxFlow.toNat :=
        admitted.resolve_left (AList.lookup_eq_none.mp found)
      simp only [stored, found, if_pos room, AList.lookup_insert]
      exact ⟨_, rfl, rfl⟩

theorem stored_refused {s : SimpleFwd} {key : SessionKey} (refused : ¬ s.Admits key)
    (curTime : Timeval) (rqBw : UInt16) : s.stored curTime key rqBw = s.fwdHmap := by
  obtain ⟨absent, full⟩ := not_or.mp refused
  simp only [stored, AList.lookup_eq_none.mpr absent, if_neg full]

theorem reserve_admission_iff (s : SimpleFwd) (curTime : Timeval) (key : SessionKey)
    (rqBw : UInt32) :
    s.Admission key rqBw (s.reserve curTime key rqBw).1 ↔ s.AdmittedRight key rqBw := by
  rw [Admission, AdmittedRight, reserve_eq]
  by_cases admitted : s.Admits key
  · obtain ⟨record, recorded, grant⟩ := stored_granted admitted curTime (s.granted key rqBw)
    have others : ∀ other ≠ key, (s.stored curTime key (s.granted key rqBw)).lookup other =
        s.fwdHmap.lookup other :=
      fun other apart => stored_lookup_ne s curTime apart _
    simp only [if_pos admitted, recorded, Option.some.injEq, exists_eq_left', grant,
      granted_exact_iff]
    exact and_iff_left others
  · have absent : s.unclaimed key = s.curRqBw := by
      simp only [unclaimed, AList.lookup_eq_none.mpr (not_or.mp admitted).1]
    have exact_ignored := granted_ignored (congrArg UInt16.toNat absent) rqBw
    simp only [if_neg admitted, stored_refused admitted, true_and, ← exact_ignored,
      UInt16.toNat_inj]

/-- In every state of every run a reservation comes to what it should just in case its
    demand is recordable or, if it is refused, not charged. -/
theorem admission_iff (timeoutSec : Int32) (maxFlow : UInt8) (es : List Event)
    (curTime : Timeval) (msg : Mem) (len : Nat) :
    let s := Run.final step (new timeoutSec maxFlow) es
    s.Admission (controlKey msg) (demand msg) (s.step (.bwReserve curTime msg len)) ↔
      s.AdmittedRight (controlKey msg) (demand msg) := by
  intro s
  simp only [step, react, processBwReserve_eq]
  exact reserve_admission_iff s curTime (controlKey msg) (demand msg)

/-- A fresh relay records the demand 65536 as zero. -/
theorem wide_demand_recorded_as_zero :
    ¬ ∀ timeoutSec maxFlow es curTime msg len,
      let s := Run.final step (new timeoutSec maxFlow) es
      s.Admission (controlKey msg) (demand msg) (s.step (.bwReserve curTime msg len)) := by
  intro always
  let packet : Mem := fun
    | 0 => PacketType.bwReserve.code
    | 47 => 1
    | _ => 0
  have comes := always 20 200 [] ⟨0, 0⟩ packet Control.ctrlLen
  simp only [Run.final_nil, step, react, processBwReserve_eq] at comes
  exact absurd ((reserve_admission_iff _ _ _ _).mp comes) (by decide +kernel)

end SimpleFwd

end Cors
