import Cors.Proxy.SimpleFwd

/-! # The bandwidth ledger of the relay

The counter of reserved bandwidth should be the sum over the stored sessions. It
has sixteen bits, as have the records, while demands and the limit are 32-bit
numbers; and a reservation that finds the table full is charged all the same. The
ledger is kept through a run exactly when no reservation of the run meets either.
-/

namespace Cors

namespace SimpleFwd

/-- The bandwidth the stored sessions hold together. -/
def reserved (s : SimpleFwd) : Nat := Table.total (fun r => r.rqBw.toNat) s.fwdHmap

/-- The bandwidth the sessions other than `key` hold together. -/
def reservedByOthers (s : SimpleFwd) (key : SessionKey) : Nat :=
  Table.total (fun r => r.rqBw.toNat) (s.fwdHmap.erase key)

def Ledger (s : SimpleFwd) : Prop :=
  s.curRqBw.toNat = s.reserved ∧ s.reserved ≤ maxFwdBw.toNat

/-- The grant for a demand leaves a sum of sixteen bits: nobody else holds
    bandwidth, or the demand is met and its low half still fits. -/
def SumFits (others rqBw : Nat) : Prop :=
  others = 0 ∨ (rqBw ≤ maxFwdBw.toNat - others ∧ others + rqBw % 65536 < 65536)

/-- The grant for a demand is cut to zero. -/
def GrantVanishes (others rqBw : Nat) : Prop :=
  (rqBw ≤ maxFwdBw.toNat - others ∧ rqBw % 65536 = 0) ∨
    (maxFwdBw.toNat - others < rqBw ∧ others = 0)

/-- A reservation the counter can follow. All other events it always can. -/
def Chargeable (s : SimpleFwd) : Event → Prop
  | .bwReserve _ msg _ =>
      let others := s.reservedByOthers (controlKey msg)
      let rqBw := (demand msg).toNat
      match s.fwdHmap.lookup (controlKey msg) with
      | some record => rqBw = record.rqBw.toNat ∨ SumFits others rqBw
      | none =>
          if s.fwdHmap.size < s.maxFlow.toNat then SumFits others rqBw
          else GrantVanishes others rqBw
  | _ => True

/-- Adding a grant to the counter is exact when the sum fits. -/
theorem granted_added {s : SimpleFwd} {others : Nat} {key : SessionKey}
    (exact : (s.unclaimed key).toNat = others) (rqBw : UInt32) :
    (s.unclaimed key + s.granted key rqBw).toNat = (s.granted key rqBw).toNat + others ↔
      SumFits others rqBw.toNat := by
  have small : (s.unclaimed key).toNat < 65536 := (s.unclaimed key).toNat_lt
  have bound : rqBw.toNat < 4294967296 := rqBw.toNat_lt
  simp only [UInt16.toNat_add, granted_toNat, exact, SumFits, maxFwdBw_toNat]
  omega

theorem granted_ignored {s : SimpleFwd} {others : Nat} {key : SessionKey}
    (exact : (s.unclaimed key).toNat = others) (rqBw : UInt32) :
    (s.unclaimed key + s.granted key rqBw).toNat = others ↔ GrantVanishes others rqBw.toNat := by
  have small : (s.unclaimed key).toNat < 65536 := (s.unclaimed key).toNat_lt
  have bound : rqBw.toNat < 4294967296 := rqBw.toNat_lt
  simp only [UInt16.toNat_add, granted_toNat, exact, GrantVanishes, maxFwdBw_toNat]
  omega

/-- A sum the counter shows has sixteen bits, far below the limit. -/
theorem ledger_iff {s : SimpleFwd} : s.Ledger ↔ s.curRqBw.toNat = s.reserved := by
  have small : s.curRqBw.toNat < 65536 := s.curRqBw.toNat_lt
  simp only [Ledger, maxFwdBw_toNat]
  omega

theorem reserved_of_lookup {s : SimpleFwd} {key : SessionKey} {record : FwdRecords}
    (found : s.fwdHmap.lookup key = some record) :
    s.reserved = record.rqBw.toNat + s.reservedByOthers key :=
  Table.total_of_lookup _ found

theorem reserved_of_absent {s : SimpleFwd} {key : SessionKey}
    (absent : s.fwdHmap.lookup key = none) : s.reservedByOthers key = s.reserved := by
  simp only [reservedByOthers, reserved, Table.erase_of_lookup_none absent]

theorem reserved_insert (s : SimpleFwd) (curRqBw : UInt16) (key : SessionKey)
    (record : FwdRecords) :
    reserved { s with curRqBw, fwdHmap := s.fwdHmap.insert key record } =
      record.rqBw.toNat + s.reservedByOthers key :=
  Table.total_insert _ s.fwdHmap key record

theorem sub_record {s : SimpleFwd} (ledger : s.Ledger) {key : SessionKey} {record : FwdRecords}
    (found : s.fwdHmap.lookup key = some record) :
    (s.curRqBw - record.rqBw).toNat = s.reservedByOthers key := by
  have exact := ledger_iff.mp ledger
  have split := reserved_of_lookup found
  have below : record.rqBw ≤ s.curRqBw := by
    rw [UInt16.le_iff_toNat_le]
    omega
  rw [UInt16.toNat_sub_of_le _ _ below]
  omega

theorem unclaimed_toNat {s : SimpleFwd} (ledger : s.Ledger) (key : SessionKey) :
    (s.unclaimed key).toNat = s.reservedByOthers key := by
  cases found : s.fwdHmap.lookup key with
  | some record => simpa only [unclaimed, found] using sub_record ledger found
  | none => simpa only [unclaimed, found, reserved_of_absent found] using ledger_iff.mp ledger

theorem reserve_ledger {s : SimpleFwd} (ledger : s.Ledger) (curTime : Timeval) (msg : Mem)
    (len : Nat) :
    (s.reserve curTime (controlKey msg) (demand msg)).1.Ledger ↔
      s.Chargeable (.bwReserve curTime msg len) := by
  have exact := s.unclaimed_toNat ledger (controlKey msg)
  cases found : s.fwdHmap.lookup (controlKey msg) with
  | some record =>
      simp only [reserve_eq, stored, ledger_iff, reserved_insert, Chargeable, found]
      rw [granted_added exact]
      have fits : (demand msg).toNat = record.rqBw.toNat →
          SumFits (s.reservedByOthers (controlKey msg)) (demand msg).toNat := by
        intro same
        have split := reserved_of_lookup found
        have total := ledger_iff.mp ledger
        have small : s.curRqBw.toNat < 65536 := s.curRqBw.toNat_lt
        rw [SumFits, same, maxFwdBw_toNat]
        omega
      exact (or_iff_right_of_imp fits).symm
  | none =>
      by_cases room : s.fwdHmap.size < s.maxFlow.toNat
      · simp only [reserve_eq, stored, ledger_iff, reserved_insert, Chargeable, found, if_pos room]
        exact granted_added exact _
      · have kept : ∀ curRqBw, reserved { s with curRqBw } = s.reservedByOthers (controlKey msg) :=
          fun _ => (reserved_of_absent found).symm
        simp only [reserve_eq, stored, ledger_iff, kept, Chargeable, found, if_neg room]
        exact granted_ignored exact _

theorem erase_ledger {s : SimpleFwd} (ledger : s.Ledger) {key : SessionKey} {record : FwdRecords}
    (found : s.fwdHmap.lookup key = some record) :
    Ledger { s with curRqBw := s.curRqBw - record.rqBw, fwdHmap := s.fwdHmap.erase key } :=
  ledger_iff.mpr (sub_record ledger found)

theorem release_ledger {s : SimpleFwd} (ledger : s.Ledger) (key : SessionKey) :
    (s.release key).Ledger := by
  cases found : s.fwdHmap.lookup key with
  | some record => simpa only [release, found] using erase_ledger ledger found
  | none => simpa only [release, found] using ledger

theorem sweep_ledger {s : SimpleFwd} (ledger : s.Ledger) (curTime : Timeval) :
    (s.updateFwdHmap curTime).Ledger := by
  refine (updateFwdHmap_spec curTime (fun s e ledger found => ?_) ledger).1
  rw [sweepEntry]
  split
  · exact erase_ledger ledger found
  · exact ledger

theorem processDataPacket_ledger {s : SimpleFwd} (ledger : s.Ledger) (curTime : Timeval)
    (msg : Mem) (len : Nat) (peeraddr : SockaddrIn) :
    (s.processDataPacket curTime msg len peeraddr).1.Ledger := by
  rw [processDataPacket]
  split
  · dsimp only
    split
    · rename_i record found
      have total := ledger_iff.mp ledger
      rw [reserved_of_lookup found] at total
      exact ledger_iff.mpr (total.trans (reserved_insert s _ _ (record.relayed curTime len)).symm)
    · exact ledger
  · exact ledger

/-- One step keeps the ledger just in case its reservation is chargeable. -/
theorem step_ledger (s : SimpleFwd) (e : Event) (ledger : s.Ledger) :
    (s.step e).Ledger ↔ s.Chargeable e := by
  cases e with
  | probe msg len => exact iff_of_true ledger trivial
  | bwReserve curTime msg len =>
      simp only [step, react, processBwReserve_eq]
      exact reserve_ledger ledger curTime msg len
  | bwRelease msg => exact iff_of_true (release_ledger ledger _) trivial
  | dataPacket curTime msg len peeraddr =>
      exact iff_of_true (processDataPacket_ledger ledger curTime msg len peeraddr) trivial
  | sweep curTime => exact iff_of_true (sweep_ledger ledger curTime) trivial

theorem new_ledger (timeoutSec : Int32) (maxFlow : UInt8) : (new timeoutSec maxFlow).Ledger :=
  ⟨rfl, Nat.zero_le _⟩

/-- From a fresh forwarder the ledger holds in every state of a run just in case
    every reservation of the run is chargeable where it is handled. -/
theorem ledger_throughout_iff (timeoutSec : Int32) (maxFlow : UInt8) (es : List Event) :
    Run.Throughout step Ledger (new timeoutSec maxFlow) es ↔
      ∀ visit ∈ Run.visits step (new timeoutSec maxFlow) es, visit.1.Chargeable visit.2 :=
  Run.throughout_iff (new_ledger timeoutSec maxFlow) step_ledger es

/-- Two sessions of 40000 (`9c40`) each: the counter shows 14464. -/
theorem two_large_sessions_break_ledger :
    ¬ ∀ timeoutSec maxFlow es, Run.Throughout step Ledger (new timeoutSec maxFlow) es := by
  intro always
  let packet (port : UInt8) : Mem := fun
    | 0 => PacketType.bwReserve.code
    | 4 => port
    | 48 => 0x9c
    | 49 => 0x40
    | _ => 0
  let ask (port : UInt8) : Event := .bwReserve ⟨0, 0⟩ (packet port) Control.ctrlLen
  have ledger := always 20 200 [ask 1, ask 2] [ask 1, ask 2] [] rfl
  exact absurd ledger.1 (by decide +kernel)

end SimpleFwd

end Cors
