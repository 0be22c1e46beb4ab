import Cors.Lib.Run
import Cors.Lib.Table
import Cors.Protocol.Control

/-! # The relay's packet forwarder

`simplefwd.h` and `simplefwd.cpp`: the relay sessions with the bandwidth reserved
for them, the handlers of control and data packets, and the sweep of sessions
that timed out.

A handler takes the receive buffer and the received length and returns the new
forwarder with the datagrams it sends. The clock reading of a handler is an
argument. Log files, which nothing reads back, are left out.
-/

namespace Cors

open ByteFormat

def dataAddrOffset : Nat := 3
def minDataPktLen : Nat := 9
def maxFwdBw : UInt32 := 1024 * 1024 * 2

structure SessionKey where
  srcPort : UInt16
  srcAddr : UInt32
  dstPort : UInt16
  dstAddr : UInt32
  deriving DecidableEq

/-- Both halves of a key are filled by copies of six bytes. -/
def SessionKey.between (src dst : SockaddrIn) : SessionKey :=
  ⟨src.port, src.addr, dst.port, dst.addr⟩

structure FwdRecords where
  startTime : Timeval
  endTime : Timeval
  lastContact : Timeval
  rqBw : UInt16
  fwdPacket : UInt32
  fwdByte : UInt64
  deriving DecidableEq

def FwdRecords.new (t : Timeval) : FwdRecords where
  startTime := t
  endTime := t
  lastContact := t
  rqBw := 0
  fwdPacket := 0
  fwdByte := 0

/-- One more packet of `len` bytes relayed. -/
def FwdRecords.relayed (record : FwdRecords) (curTime : Timeval) (len : Nat) : FwdRecords :=
  { record with
    lastContact := curTime
    fwdPacket := record.fwdPacket + 1
    fwdByte := record.fwdByte + UInt64.ofNat len }

structure SimpleFwd where
  timeoutSec : Int32
  maxFlow : UInt8
  curRqBw : UInt16
  fwdHmap : Table SessionKey FwdRecords

def SimpleFwd.new (timeoutSec : Int32) (maxFlow : UInt8) : SimpleFwd where
  timeoutSec := timeoutSec
  maxFlow := maxFlow
  curRqBw := 0
  fwdHmap := ∅

namespace SimpleFwd

/-! ## Control packets -/

/-- The packet under its forwarded type, with one hop less. -/
def forwarded (msg : Mem) (type : PacketType) : Mem :=
  let msg := msg.put u8 Control.typePos type.code
  msg.put u8 Control.ttlPos (msg.get u8 Control.ttlPos - 1)

/-- The packet with the relay's bandwidth and load filled in, on its way to the
    destination it names. -/
def answered (msg : Mem) (len : Nat) (nBw : UInt32) (sessionN : Nat) : Datagram :=
  let msg := msg.put u32 Control.bwPos nBw
  let msg := msg.put u32 Control.taskPos (htonl (UInt32.ofNat sessionN))
  ⟨msg.get SockaddrIn.format Control.dstPortPos, msg.read 0 len⟩

def processProbe (s : SimpleFwd) (msg : Mem) (len : Nat) : SimpleFwd × List Datagram :=
  let msg := forwarded msg .fwForward
  let nAvailBw := (htons (maxFwdBw - s.curRqBw.toUInt32).toUInt16).toUInt32
  (s, [answered msg len nAvailBw s.fwdHmap.size])

/-- The session a control packet is about. -/
def controlKey (msg : Mem) : SessionKey :=
  .between (msg.get SockaddrIn.format Control.srcPortPos)
    (msg.get SockaddrIn.format Control.dstPortPos)

/-- The demand, or what is left if that is less, as a record stores it. -/
def grant (curRqBw : UInt16) (rqBw : UInt32) : UInt16 :=
  (if maxFwdBw - curRqBw.toUInt32 ≥ rqBw then rqBw else maxFwdBw - curRqBw.toUInt32).toUInt16

/-- The locked part of `process_bw_reserve`: the new state and the bandwidth `rq_bw`
    that is announced. -/
def reserve (s : SimpleFwd) (curTime : Timeval) (key : SessionKey) (rqBw : UInt32) :
    SimpleFwd × UInt32 :=
  match s.fwdHmap.lookup key with
  | some record =>
      if rqBw ≠ record.rqBw.toUInt32 then
        let curRqBw := s.curRqBw - record.rqBw
        let granted := grant curRqBw rqBw
        let record := { record with rqBw := granted, lastContact := curTime }
        ({ s with
            curRqBw := (curRqBw.toUInt32 + granted.toUInt32).toUInt16
            fwdHmap := s.fwdHmap.insert key record }, granted.toUInt32)
      else
        let record := { record with lastContact := curTime }
        ({ s with fwdHmap := s.fwdHmap.insert key record }, rqBw)
  | none =>
      let record := { FwdRecords.new curTime with rqBw := grant s.curRqBw rqBw }
      let rqBw := record.rqBw.toUInt32
      -- the counter is charged before the table is known to have room
      let s := { s with curRqBw := (s.curRqBw.toUInt32 + rqBw).toUInt16 }
      if s.fwdHmap.size < s.maxFlow.toNat then
        ({ s with fwdHmap := s.fwdHmap.insert key record }, rqBw)
      else
        (s, rqBw)

def processBwReserve (s : SimpleFwd) (curTime : Timeval) (msg : Mem) (len : Nat) :
    SimpleFwd × List Datagram :=
  let msg := forwarded msg .bwForward
  let rqBw := ntohl (msg.get u32 Control.bwPos)
  let key := controlKey msg
  let (s, rqBw) := s.reserve curTime key rqBw
  (s, [answered msg len (htons rqBw.toUInt16).toUInt32 s.fwdHmap.size])

def release (s : SimpleFwd) (key : SessionKey) : SimpleFwd :=
  match s.fwdHmap.lookup key with
  | some record =>
      { s with curRqBw := s.curRqBw - record.rqBw, fwdHmap := s.fwdHmap.erase key }
  | none => s

def processBwRelease (s : SimpleFwd) (msg : Mem) : SimpleFwd × List Datagram :=
  (s.release (controlKey msg), [])

/-! ## Data packets -/

/-- The session a data packet belongs to: its sender and the address it carries. -/
def dataKey (msg : Mem) (peeraddr : SockaddrIn) : SessionKey :=
  .between peeraddr (msg.get SockaddrIn.format dataAddrOffset)

def processDataPacket (s : SimpleFwd) (curTime : Timeval) (msg : Mem) (len : Nat)
    (peeraddr : SockaddrIn) : SimpleFwd × List Datagram :=
  if minDataPktLen ≤ len then
    let key := dataKey msg peeraddr
    match s.fwdHmap.lookup key with
    | some record =>
        let dst := msg.get SockaddrIn.format dataAddrOffset
        let msg := msg.put SockaddrIn.format dataAddrOffset peeraddr
        ({ s with fwdHmap := s.fwdHmap.insert key (FwdRecords.relayed record curTime len) },
          [⟨dst, msg.read 0 len⟩])
    | none => (s, [])
  else
    (s, [])

/-! ## The sweep -/

def expired (s : SimpleFwd) (curTime lastContact : Timeval) : Bool :=
  curTime.tvSec.toInt - lastContact.tvSec.toInt > s.timeoutSec.toInt

/-- One turn of the loop in `update_fwd_hmap`. -/
def sweepEntry (curTime : Timeval) (s : SimpleFwd) (e : (_ : SessionKey) × FwdRecords) :
    SimpleFwd :=
  if s.expired curTime e.2.lastContact then
    { s with curRqBw := s.curRqBw - e.2.rqBw, fwdHmap := s.fwdHmap.erase e.1 }
  else
    s

def updateFwdHmap (s : SimpleFwd) (curTime : Timeval) : SimpleFwd :=
  s.fwdHmap.entries.foldl (sweepEntry curTime) s

/-! ## Runs -/

/-- What can happen to a forwarder, with all that a handler reads. -/
inductive Event where
  | probe (msg : Mem) (len : Nat)
  | bwReserve (curTime : Timeval) (msg : Mem) (len : Nat)
  | bwRelease (msg : Mem)
  | dataPacket (curTime : Timeval) (msg : Mem) (len : Nat) (peeraddr : SockaddrIn)
  | sweep (curTime : Timeval)

def react (s : SimpleFwd) : Event → SimpleFwd × List Datagram
  | .probe msg len => s.processProbe msg len
  | .bwReserve curTime msg len => s.processBwReserve curTime msg len
  | .bwRelease msg => s.processBwRelease msg
  | .dataPacket curTime msg len peeraddr => s.processDataPacket curTime msg len peeraddr
  | .sweep curTime => (s.updateFwdHmap curTime, [])

def step (s : SimpleFwd) (e : Event) : SimpleFwd := (s.react e).1

/-! ## What one operation does -/

theorem forwarded_get (msg : Mem) (type : PacketType) (f : ByteFormat α) {pos : Nat}
    (behind : 2 ≤ pos) : (forwarded msg type).get f pos = msg.get f pos := by
  simp only [forwarded, Control.typePos, Control.ttlPos]
  calc
    _ = (msg.put u8 0 type.code).get f pos := Mem.get_put_disjoint _ u8 f _ (.inr behind)
    _ = msg.get f pos := Mem.get_put_disjoint _ u8 f _ (.inr (by simp only [u8_width]; omega))

@[simp] theorem controlKey_forwarded (msg : Mem) (type : PacketType) :
    controlKey (forwarded msg type) = controlKey msg := by
  simp only [controlKey, Control.srcPortPos, Control.dstPortPos,
    forwarded_get msg type _ (by decide : 2 ≤ 4), forwarded_get msg type _ (by decide : 2 ≤ 28)]

/-- The demand a reservation states. -/
def demand (msg : Mem) : UInt32 := ntohl (msg.get u32 Control.bwPos)

@[simp] theorem demand_forwarded (msg : Mem) (type : PacketType) :
    demand (forwarded msg type) = demand msg := by
  simp only [demand, Control.bwPos, forwarded_get msg type _ (by decide : 2 ≤ 46)]

/-- The counter without what a session holds of it. -/
def unclaimed (s : SimpleFwd) (key : SessionKey) : UInt16 :=
  match s.fwdHmap.lookup key with
  | some record => s.curRqBw - record.rqBw
  | none => s.curRqBw

theorem maxFwdBw_toNat : maxFwdBw.toNat = 2097152 := rfl

theorem available_toNat (curRqBw : UInt16) :
    (maxFwdBw - curRqBw.toUInt32).toNat = maxFwdBw.toNat - curRqBw.toNat := by
  have small : curRqBw.toNat < 65536 := curRqBw.toNat_lt
  apply UInt32.toNat_sub_of_le
  rw [UInt32.le_iff_toNat_le, maxFwdBw_toNat, UInt16.toNat_toUInt32]
  omega

theorem grant_toNat (curRqBw : UInt16) (rqBw : UInt32) :
    (grant curRqBw rqBw).toNat = min rqBw.toNat (maxFwdBw.toNat - curRqBw.toNat) % 65536 := by
  by_cases whole : rqBw.toNat ≤ maxFwdBw.toNat - curRqBw.toNat
  · have met : maxFwdBw - curRqBw.toUInt32 ≥ rqBw := by
      rwa [ge_iff_le, UInt32.le_iff_toNat_le, available_toNat]
    rw [grant, if_pos met, UInt32.toNat_toUInt16, Nat.min_eq_left whole]
  · have short : ¬ maxFwdBw - curRqBw.toUInt32 ≥ rqBw := by
      rwa [ge_iff_le, UInt32.le_iff_toNat_le, available_toNat]
    rw [grant, if_neg short, UInt32.toNat_toUInt16, available_toNat,
      Nat.min_eq_right (Nat.le_of_not_le whole)]

/-- The bandwidth a reservation ends up with. -/
def granted (s : SimpleFwd) (key : SessionKey) (rqBw : UInt32) : UInt16 :=
  match s.fwdHmap.lookup key with
  | some record =>
      if rqBw ≠ record.rqBw.toUInt32 then grant (s.curRqBw - record.rqBw) rqBw else record.rqBw
  | none => grant s.curRqBw rqBw

/-- A stored session that asks for what it has is granted what a new grant would be. -/
theorem granted_toNat (s : SimpleFwd) (key : SessionKey) (rqBw : UInt32) :
    (s.granted key rqBw).toNat =
      min rqBw.toNat (maxFwdBw.toNat - (s.unclaimed key).toNat) % 65536 := by
  cases found : s.fwdHmap.lookup key with
  | none => simp only [granted, unclaimed, found, grant_toNat]
  | some record =>
      by_cases changed : rqBw ≠ record.rqBw.toUInt32
      · simp only [granted, unclaimed, found, if_pos changed, grant_toNat]
      · have same : rqBw.toNat = record.rqBw.toNat := by
          rw [not_not.mp changed, UInt16.toNat_toUInt32]
        have small : record.rqBw.toNat < 65536 := record.rqBw.toNat_lt
        have left : (s.curRqBw - record.rqBw).toNat < 65536 := UInt16.toNat_lt _
        simp only [granted, unclaimed, found, if_neg changed, same, maxFwdBw_toNat]
        omega

/-- Widening to 32 bits for the addition changes nothing in 16. -/
theorem charged (a b : UInt16) : (a.toUInt32 + b.toUInt32).toUInt16 = a + b := by
  simp only [UInt32.toUInt16_add, UInt16.toUInt16_toUInt32]

/-- The sessions after a reservation that was granted `rqBw`. -/
def stored (s : SimpleFwd) (curTime : Timeval) (key : SessionKey) (rqBw : UInt16) :
    Table SessionKey FwdRecords :=
  match s.fwdHmap.lookup key with
  | some record => s.fwdHmap.insert key { record with rqBw, lastContact := curTime }
  | none =>
      if s.fwdHmap.size < s.maxFlow.toNat then
        s.fwdHmap.insert key { FwdRecords.new curTime with rqBw }
      else
        s.fwdHmap

theorem reserve_eq (s : SimpleFwd) (curTime : Timeval) (key : SessionKey) (rqBw : UInt32) :
    s.reserve curTime key rqBw =
      ({ s with
          curRqBw := s.unclaimed key + s.granted key rqBw
          fwdHmap := s.stored curTime key (s.granted key rqBw) },
        (s.granted key rqBw).toUInt32) := by
  cases found : s.fwdHmap.lookup key with
  | some record =>
      by_cases changed : rqBw ≠ record.rqBw.toUInt32
      · simp only [reserve, unclaimed, granted, stored, found, if_pos changed, charged]
      · have same : rqBw = record.rqBw.toUInt32 := not_not.mp changed
        simp [reserve, unclaimed, granted, stored, found, same]
  | none =>
      by_cases room : s.fwdHmap.size < s.maxFlow.toNat
      · simp only [reserve, unclaimed, granted, stored, found, if_pos room, charged]
      · simp only [reserve, unclaimed, granted, stored, found, if_neg room, charged]

theorem processBwReserve_eq (s : SimpleFwd) (curTime : Timeval) (msg : Mem) (len : Nat) :
    s.processBwReserve curTime msg len =
      let next := (s.reserve curTime (controlKey msg) (demand msg)).1
      (next, [answered (forwarded msg .bwForward) len
        (htons (s.granted (controlKey msg) (demand msg))).toUInt32 next.fwdHmap.size]) := by
  have stated : ntohl ((forwarded msg .bwForward).get u32 Control.bwPos) = demand msg :=
    demand_forwarded msg .bwForward
  simp [processBwReserve, stated, reserve_eq]

theorem release_lookup_ne {s : SimpleFwd} {key other : SessionKey} (apart : other ≠ key) :
    (s.release key).fwdHmap.lookup other = s.fwdHmap.lookup other := by
  cases found : s.fwdHmap.lookup key with
  | some record => simp only [release, found, AList.lookup_erase_ne apart]
  | none => simp only [release, found]

theorem release_lookup (s : SimpleFwd) (key : SessionKey) :
    (s.release key).fwdHmap.lookup key = none := by
  cases found : s.fwdHmap.lookup key with
  | some record => simp only [release, found, AList.lookup_erase]
  | none => simp only [release, found]

/-- What each turn of the sweep preserves holds after it, and the sessions left are
    those that had not expired. -/
theorem updateFwdHmap_spec {P : SimpleFwd → Prop} {s : SimpleFwd} (curTime : Timeval)
    (turn : ∀ s e, P s → s.fwdHmap.lookup e.1 = some e.2 → P (sweepEntry curTime s e))
    (start : P s) :
    P (s.updateFwdHmap curTime) ∧
      (s.updateFwdHmap curTime).fwdHmap =
        s.fwdHmap.keep fun r => !s.expired curTime r.lastContact := by
  have swept := Table.sweep SimpleFwd.fwdHmap (sweepEntry curTime)
    (fun r => s.expired curTime r.lastContact)
    (P := fun s' => P s' ∧ s'.timeoutSec = s.timeoutSec) (s := s) ?_ ⟨start, rfl⟩
  · exact ⟨swept.1.1, swept.2⟩
  · rintro s' e ⟨holds, timeout⟩ found
    have test : s'.expired curTime e.2.lastContact = s.expired curTime e.2.lastContact := by
      simp only [expired, timeout]
    refine ⟨⟨turn s' e holds found, ?_⟩, ?_⟩
    · rw [← timeout, sweepEntry]
      split <;> rfl
    · rw [← test, sweepEntry]
      split <;> rfl

end SimpleFwd

end Cors
