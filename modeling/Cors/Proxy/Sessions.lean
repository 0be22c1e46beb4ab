import Cors.Lib.Lease
import Cors.Proxy.SimpleFwd

/-! # Life cycle of relay sessions

A relay session is a lease: an admitted reservation grants it, relayed data packets
renew it, a release drops it and the sweep expires it. The session table holds
exactly the keys whose lease the history has in force. Data is relayed for
stored sessions only, and a relayed packet touches no session but its own.
-/

namespace Cors

open ByteFormat

namespace SimpleFwd

/-- A reservation for the key finds its session stored or room for a new one. -/
def Admits (s : SimpleFwd) (key : SessionKey) : Prop :=
  key ∈ s.fwdHmap ∨ s.fwdHmap.size < s.maxFlow.toNat

/-- A data packet is long enough to name a session, and the session is stored. -/
def Relays (s : SimpleFwd) (msg : Mem) (len : Nat) (peeraddr : SockaddrIn) : Prop :=
  minDataPktLen ≤ len ∧ dataKey msg peeraddr ∈ s.fwdHmap

instance : Decidable (Admits s key) :=
  inferInstanceAs (Decidable (key ∈ s.fwdHmap ∨ s.fwdHmap.size < s.maxFlow.toNat))

instance : Decidable (Relays s msg len peeraddr) :=
  inferInstanceAs (Decidable (minDataPktLen ≤ len ∧ dataKey msg peeraddr ∈ s.fwdHmap))

/-- What an event, in the state it meets, means for the session of a key. -/
def effect (key : SessionKey) : SimpleFwd × Event → Lease.Effect Timeval
  | (_, .probe _ _) => .idle
  | (s, .bwReserve curTime msg _) =>
      if controlKey msg = key ∧ s.Admits key then .grant curTime else .idle
  | (_, .bwRelease msg) => if controlKey msg = key then .drop else .idle
  | (s, .dataPacket curTime msg len peeraddr) =>
      if dataKey msg peeraddr = key ∧ s.Relays msg len peeraddr then .renew curTime else .idle
  | (s, .sweep curTime) => .expire (s.expired curTime)

/-- The last contact of a stored session. -/
def contacted (s : SimpleFwd) (key : SessionKey) : Option Timeval :=
  (s.fwdHmap.lookup key).map FwdRecords.lastContact

/-- `process_data_packet` relays what it should, unchanged but for the address, and
    leaves the other sessions alone. -/
structure RelaysExactly (s : SimpleFwd) (curTime : Timeval) (msg : Mem) (len : Nat)
    (peeraddr : SockaddrIn) : Prop where
  sends : (s.processDataPacket curTime msg len peeraddr).2 ≠ [] ↔ s.Relays msg len peeraddr
  rewrites : s.Relays msg len peeraddr →
    (s.processDataPacket curTime msg len peeraddr).2 =
      [⟨msg.get SockaddrIn.format dataAddrOffset,
        msg.read 0 dataAddrOffset ++ SockaddrIn.format.encode peeraddr ++
          msg.read minDataPktLen (len - minDataPktLen)⟩]
  others : ∀ key ≠ dataKey msg peeraddr,
    (s.processDataPacket curTime msg len peeraddr).1.fwdHmap.lookup key = s.fwdHmap.lookup key

theorem contacted_isSome {s : SimpleFwd} {key : SessionKey} :
    (s.contacted key).isSome ↔ key ∈ s.fwdHmap := by
  rw [contacted, Option.isSome_map, AList.lookup_isSome]

/-! ## One step -/

theorem stored_lookup_ne (s : SimpleFwd) (curTime : Timeval) {key other : SessionKey}
    (apart : other ≠ key) (rqBw : UInt16) :
    (s.stored curTime key rqBw).lookup other = s.fwdHmap.lookup other := by
  rw [stored]
  split
  · exact AList.lookup_insert_ne apart
  · split
    · exact AList.lookup_insert_ne apart
    · rfl

theorem stored_lookup (s : SimpleFwd) (curTime : Timeval) (key : SessionKey) (rqBw : UInt16) :
    ((s.stored curTime key rqBw).lookup key).map FwdRecords.lastContact =
      if s.Admits key then some curTime else s.contacted key := by
  cases found : s.fwdHmap.lookup key with
  | some record =>
      have admitted : s.Admits key := .inl (Table.mem_of_lookup found)
      simp only [if_pos admitted, stored, found, AList.lookup_insert, Option.map_some]
  | none =>
      have absent : key ∉ s.fwdHmap := AList.lookup_eq_none.mp found
      by_cases room : s.fwdHmap.size < s.maxFlow.toNat
      · have admitted : s.Admits key := .inr room
        simp only [if_pos admitted, stored, found, if_pos room, AList.lookup_insert,
          Option.map_some, FwdRecords.new]
      · have refused : ¬ s.Admits key := not_or.mpr ⟨absent, room⟩
        simp only [if_neg refused, contacted, stored, found, if_neg room]

theorem updateFwdHmap_fwdHmap (s : SimpleFwd) (curTime : Timeval) :
    (s.updateFwdHmap curTime).fwdHmap = s.fwdHmap.keep fun r => !s.expired curTime r.lastContact :=
  (updateFwdHmap_spec (P := fun _ => True) curTime (fun _ _ _ _ => trivial) trivial).2

theorem processDataPacket_ignored {s : SimpleFwd} {msg : Mem} {len : Nat}
    {peeraddr : SockaddrIn} (ignored : ¬ s.Relays msg len peeraddr) (curTime : Timeval) :
    s.processDataPacket curTime msg len peeraddr = (s, []) := by
  by_cases long : minDataPktLen ≤ len
  · have absent : s.fwdHmap.lookup (dataKey msg peeraddr) = none :=
      AList.lookup_eq_none.mpr fun present => ignored ⟨long, present⟩
    simp only [processDataPacket, if_pos long, absent]
  · simp only [processDataPacket, if_neg long]

theorem processDataPacket_relayed {s : SimpleFwd} {msg : Mem} {len : Nat} {peeraddr : SockaddrIn}
    (long : minDataPktLen ≤ len) {record : FwdRecords}
    (found : s.fwdHmap.lookup (dataKey msg peeraddr) = some record) (curTime : Timeval) :
    s.processDataPacket curTime msg len peeraddr =
      ({ s with
          fwdHmap := s.fwdHmap.insert (dataKey msg peeraddr)
            (FwdRecords.relayed record curTime len) },
        [⟨msg.get SockaddrIn.format dataAddrOffset,
          (msg.put SockaddrIn.format dataAddrOffset peeraddr).read 0 len⟩]) := by
  simp only [processDataPacket, if_pos long, found]

/-- Each step moves the last contact of a session as it moves a lease. -/
theorem step_contacted (key : SessionKey) (s : SimpleFwd) (e : Event) :
    (s.step e).contacted key = Lease.apply (s.contacted key) (effect key (s, e)) := by
  cases e with
  | probe msg len => rfl
  | bwReserve curTime msg len =>
      have next : s.step (.bwReserve curTime msg len) =
          (s.reserve curTime (controlKey msg) (demand msg)).1 := by
        simp only [step, react, processBwReserve_eq]
      by_cases own : controlKey msg = key
      · rw [contacted, next, own, reserve_eq, stored_lookup]
        by_cases admitted : s.Admits key
        · simp only [own, effect, admitted, if_true, and_self, Lease.apply]
        · simp only [own, effect, admitted, if_false, and_false, Lease.apply]
      · rw [contacted, next, reserve_eq, stored_lookup_ne s curTime (Ne.symm own)]
        simp only [contacted, effect, own, false_and, if_false, Lease.apply]
  | bwRelease msg =>
      have next : s.step (.bwRelease msg) = s.release (controlKey msg) := rfl
      by_cases own : controlKey msg = key
      · simp only [next, own, contacted, release_lookup, effect, if_true, Lease.apply,
          Option.map_none]
      · simp only [next, contacted, release_lookup_ne (Ne.symm own), effect, own, if_false,
          Lease.apply]
  | dataPacket curTime msg len peeraddr =>
      have next : s.step (.dataPacket curTime msg len peeraddr) =
          (s.processDataPacket curTime msg len peeraddr).1 := rfl
      by_cases relays : s.Relays msg len peeraddr
      · obtain ⟨record, found⟩ := Table.exists_of_mem relays.2
        rw [next, processDataPacket_relayed relays.1 found]
        by_cases own : dataKey msg peeraddr = key
        · simp only [contacted, own ▸ found, own, AList.lookup_insert, Option.map_some, effect,
            relays, and_self, if_true, Lease.apply, FwdRecords.relayed]
        · simp only [contacted, AList.lookup_insert_ne (Ne.symm own), effect, own, false_and,
            if_false, Lease.apply]
      · rw [next, processDataPacket_ignored relays]
        simp only [effect, relays, and_false, if_false, Lease.apply]
  | sweep curTime =>
      have next : (s.step (.sweep curTime)).fwdHmap =
          s.fwdHmap.keep fun r => !s.expired curTime r.lastContact :=
        updateFwdHmap_fwdHmap s curTime
      simp only [contacted, next, Table.lookup_keep, effect, Lease.apply]
      cases s.fwdHmap.lookup key with
      | none => rfl
      | some record =>
          cases hit : s.expired curTime record.lastContact with
          | true | false => simp [Option.filter, hit]

/-- The event is a reservation for the key. -/
def Reserves (key : SessionKey) : Event → Prop
  | .bwReserve _ msg _ => controlKey msg = key
  | _ => False

instance (key : SessionKey) : DecidablePred (Reserves key)
  | .bwReserve _ msg _ => inferInstanceAs (Decidable (controlKey msg = key))
  | .probe _ _ | .bwRelease _ | .dataPacket _ _ _ _ | .sweep _ => .isFalse id

theorem mem_of_step {key : SessionKey} {s : SimpleFwd} {e : Event} (other : ¬ Reserves key e)
    (stored : key ∈ (s.step e).fwdHmap) : key ∈ s.fwdHmap := by
  rw [← contacted_isSome] at stored ⊢
  rw [step_contacted] at stored
  refine Lease.isSome_of_apply (fun t granted => ?_) stored
  cases e with
  | bwReserve curTime msg len =>
      have elsewhere : ¬ (controlKey msg = key ∧ s.Admits key) := fun own => other own.1
      simp only [effect, if_neg elsewhere, reduceCtorEq] at granted
  | bwRelease msg | dataPacket curTime msg len peeraddr =>
      simp only [effect] at granted
      split at granted <;> cases granted
  | probe | sweep => cases granted

theorem stored_size {s : SimpleFwd} (bounded : s.fwdHmap.size ≤ s.maxFlow.toNat)
    (curTime : Timeval) (key : SessionKey) (rqBw : UInt16) :
    Table.size (s.stored curTime key rqBw) ≤ s.maxFlow.toNat := by
  cases found : s.fwdHmap.lookup key with
  | some record =>
      simp only [stored, found, Table.size_insert_of_some _ found]
      exact bounded
  | none =>
      by_cases room : s.fwdHmap.size < s.maxFlow.toNat
      · simp only [stored, found, if_pos room, Table.size_insert_of_none _ found]
        exact room
      · simp only [stored, found, if_neg room]
        exact bounded

theorem step_size {s : SimpleFwd} (bounded : s.fwdHmap.size ≤ s.maxFlow.toNat) (e : Event) :
    (s.step e).maxFlow = s.maxFlow ∧ (s.step e).fwdHmap.size ≤ s.maxFlow.toNat := by
  cases e with
  | probe msg len => exact ⟨rfl, bounded⟩
  | bwReserve curTime msg len =>
      simp only [step, react, processBwReserve_eq, reserve_eq]
      exact ⟨trivial, stored_size bounded curTime _ _⟩
  | bwRelease msg =>
      simp only [step, react, processBwRelease, release]
      split
      · exact ⟨rfl, (Table.size_erase_le _ _).trans bounded⟩
      · exact ⟨rfl, bounded⟩
  | dataPacket curTime msg len peeraddr =>
      simp only [step, react]
      by_cases relays : s.Relays msg len peeraddr
      · obtain ⟨record, found⟩ := Table.exists_of_mem relays.2
        simp only [processDataPacket_relayed relays.1 found, Table.size_insert_of_some _ found]
        exact ⟨trivial, bounded⟩
      · simp only [processDataPacket_ignored relays]
        exact ⟨trivial, bounded⟩
  | sweep curTime =>
      have turn : ∀ s' e, s'.maxFlow = s.maxFlow → s'.fwdHmap.lookup e.1 = some e.2 →
          (sweepEntry curTime s' e).maxFlow = s.maxFlow := by
        intro s' e same _
        rw [sweepEntry]
        split <;> exact same
      have kept := updateFwdHmap_spec curTime turn (rfl : s.maxFlow = s.maxFlow)
      refine ⟨kept.1, ?_⟩
      simp only [step, react, kept.2]
      exact (Table.size_keep_le _ _).trans bounded

/-! ## Runs -/

theorem final_size (timeoutSec : Int32) (maxFlow : UInt8) (es : List Event) :
    (Run.final step (new timeoutSec maxFlow) es).maxFlow = maxFlow ∧
      (Run.final step (new timeoutSec maxFlow) es).fwdHmap.size ≤ maxFlow.toNat := by
  refine Run.final_of_invariant
    (P := fun s : SimpleFwd => s.maxFlow = maxFlow ∧ s.fwdHmap.size ≤ maxFlow.toNat) ?_ ?_ es
  · exact ⟨rfl, Nat.zero_le _⟩
  · rintro s e ⟨rfl, bounded⟩
    exact step_size bounded e

/-- After any run a session is stored just in case its lease is in force. -/
theorem stored_iff_inForce (timeoutSec : Int32) (maxFlow : UInt8) (es : List Event)
    (key : SessionKey) :
    key ∈ (Run.final step (new timeoutSec maxFlow) es).fwdHmap ↔
      Lease.InForce (effect key) (Run.visits step (new timeoutSec maxFlow) es) := by
  have followed := Run.observe_final (fun s => s.contacted key)
    (fun lease visit => Lease.apply lease (effect key visit)) (step_contacted key)
    (new timeoutSec maxFlow) es
  have fresh : (new timeoutSec maxFlow).contacted key = none := rfl
  rw [← contacted_isSome, ← Lease.state_isSome_iff, followed, fresh]
  rfl

theorem read_rewritten (msg : Mem) (addr : SockaddrIn) {len : Nat} (long : minDataPktLen ≤ len) :
    (msg.put SockaddrIn.format dataAddrOffset addr).read 0 len =
      msg.read 0 dataAddrOffset ++ SockaddrIn.format.encode addr ++
        msg.read minDataPktLen (len - minDataPktLen) := by
  obtain ⟨more, rfl⟩ := Nat.exists_eq_add_of_le long
  have written := Mem.read_write msg dataAddrOffset (SockaddrIn.format.encode addr)
  have before : (msg.put SockaddrIn.format dataAddrOffset addr).read 0 3 = msg.read 0 3 :=
    Mem.read_write_disjoint msg _ (.inl (by decide))
  have behind : (msg.put SockaddrIn.format dataAddrOffset addr).read 9 more = msg.read 9 more :=
    Mem.read_write_disjoint msg _ (.inr (by simp [dataAddrOffset]))
  simp only [encode_length, SockaddrIn.format_width] at written
  calc
    _ = (msg.put SockaddrIn.format dataAddrOffset addr).read 0 3 ++
          (msg.put SockaddrIn.format dataAddrOffset addr).read 3 6 ++
          (msg.put SockaddrIn.format dataAddrOffset addr).read 9 more := by
      rw [← Mem.read_add _ 0 3 6, ← Mem.read_add _ 0 9 more]
      rfl
    _ = msg.read 0 3 ++ SockaddrIn.format.encode addr ++ msg.read 9 more := by
      rw [before, behind]
      exact congrArg (fun l => msg.read 0 3 ++ l ++ msg.read 9 more) written
    _ = _ := by simp only [minDataPktLen, dataAddrOffset, Nat.add_sub_cancel_left]

theorem relaysExactly (s : SimpleFwd) (curTime : Timeval) (msg : Mem) (len : Nat)
    (peeraddr : SockaddrIn) : s.RelaysExactly curTime msg len peeraddr := by
  by_cases relays : s.Relays msg len peeraddr
  · obtain ⟨record, found⟩ := Table.exists_of_mem relays.2
    have outcome := processDataPacket_relayed relays.1 found curTime
    refine ⟨?_, ?_, ?_⟩
    · simp only [outcome, ne_eq, List.cons_ne_nil, not_false_iff, relays]
    · intro _
      simp only [outcome, read_rewritten msg peeraddr relays.1]
    · intro key apart
      simp only [outcome, AList.lookup_insert_ne apart]
  · have outcome := processDataPacket_ignored relays curTime
    refine ⟨?_, fun relayed => absurd relayed relays, ?_⟩
    · simp only [outcome, ne_eq, not_true, relays]
    · intro key _
      simp only [outcome]

/-- The session table and the data path in every state of every run. -/
theorem session_life_cycle (timeoutSec : Int32) (maxFlow : UInt8) (es : List Event) :
    let s := Run.final step (new timeoutSec maxFlow) es
    let history := Run.visits step (new timeoutSec maxFlow) es
    (∀ key, key ∈ s.fwdHmap ↔ Lease.InForce (effect key) history) ∧
    (s.fwdHmap.size ≤ maxFlow.toNat ∧ s.fwdHmap.keys.Nodup) ∧
    ∀ curTime msg len peeraddr, s.RelaysExactly curTime msg len peeraddr := by
  refine ⟨stored_iff_inForce timeoutSec maxFlow es, ⟨?_, ?_⟩, ?_⟩
  · exact (final_size timeoutSec maxFlow es).2
  · exact AList.keys_nodup _
  · exact relaysExactly _

end SimpleFwd

end Cors
