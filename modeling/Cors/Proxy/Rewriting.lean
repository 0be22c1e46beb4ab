import Cors.Protocol.RoundTrip
import Cors.Proxy.Sessions

/-! # In-place rewriting against the codec

On a serialized probe the handlers' byte edits are an edit of the decoded fields.
All fields come out as they should but one: the bandwidth is converted with a
16-bit byte swap and stored in 32 bits, so that the codec reads 65536 times its low
half. It is right only where that half is zero.
-/

namespace Cors

open ByteFormat

namespace SimpleFwd

/-- The datagrams `sent` on receiving `p` are one, for `p`'s destination, and decode
    to `p` under a new type, with one hop less, the load of the relay and the given
    bandwidth. -/
def Answers (p : CorsProbe) (type : PacketType) (bandwidth : Nat) (s : SimpleFwd)
    (sent : List Datagram) : Prop :=
  ∃ d q, sent = [d] ∧ d.dst = p.destination.sockaddr ∧
    (∀ rest, parse CorsProbe.deserialize (Mem.receive rest d.bytes) d.bytes.length = some q) ∧
    q = { p with type, ttl := p.ttl - 1, bandwidth := q.bandwidth, loadNum := q.loadNum } ∧
    q.loadNum.toNat = s.fwdHmap.size ∧ q.bandwidth.toNat = bandwidth

/-- A demand for which the codec reads back what was granted: whole units of 65536
    that are granted in full, or more than is left when nothing is reserved. -/
def GrantReadable (s : SimpleFwd) (key : SessionKey) (rqBw : UInt32) : Prop :=
  let left := maxFwdBw.toNat - (s.unclaimed key).toNat
  (rqBw.toNat ≤ left ∧ 65536 ∣ rqBw.toNat) ∨ (left < rqBw.toNat ∧ s.unclaimed key = 0)

theorem answered_serialize (rest : Mem) (p : CorsProbe) (type : PacketType) (nBw : UInt32)
    (sessionN : Nat) :
    answered (forwarded (rest.receive p.serialize) type) p.serialize.length nBw sessionN =
      { dst := p.destination.sockaddr
        bytes := { p with
          type
          ttl := p.ttl - 1
          bandwidth := ntohl nBw
          loadNum := UInt32.ofNat sessionN }.serialize } := by
  obtain ⟨_, ttl, source, relay, destination, timestamp, _, _⟩ :=
    CorsProbe.holds_serialize.mp (rest.receive_holds p.serialize)
  have hops : ((rest.receive p.serialize).put u8 0 type.code).get u8 1 = p.ttl :=
    (ttl.put u8 type.code (.inr (by decide))).get
  let msg := (forwarded (rest.receive p.serialize) type).put u32 46 nBw
  let sent := msg.put u32 50 (htonl (UInt32.ofNat sessionN))
  -- the fields between the header and the bandwidth survive all four edits
  have field : ∀ {α : Type} {f : ByteFormat α} {x : α} {spot}, 2 ≤ spot → spot + f.width ≤ 46 →
      (rest.receive p.serialize).Holds spot (f.encode x) → sent.Holds spot (f.encode x) := by
    intro α f x spot behind before stands
    have header : (forwarded (rest.receive p.serialize) type).Holds spot (f.encode x) :=
      (stands.put u8 _ (.inr (Nat.le_of_succ_le behind))).put u8 _ (.inr behind)
    exact (header.put u32 nBw (.inl before)).put u32 _ (.inl (before.trans (by decide)))
  have bytes : sent.Holds 0 { p with
      type
      ttl := p.ttl - 1
      bandwidth := ntohl nBw
      loadNum := UInt32.ofNat sessionN : CorsProbe }.serialize := by
    have swapped : htonl (ntohl nBw) = nBw := ntohl_htonl nBw
    rw [CorsProbe.holds_serialize, swapped]
    refine ⟨?_, ?_, ?_, ?_, ?_, ?_, ?_, ?_⟩
    · exact (((Mem.holds_put _ u8 0 _).put u8 _ (.inl (by decide))).put u32 _
        (.inl (by decide))).put u32 _ (.inl (by decide))
    · rw [← hops]
      exact ((Mem.holds_put _ u8 1 _).put u32 _ (.inl (by decide))).put u32 _ (.inl (by decide))
    · exact field (by decide) (by decide) source
    · exact field (by decide) (by decide) relay
    · exact field (by decide) (by decide) destination
    · exact field (by decide) (by decide) timestamp
    · exact (Mem.holds_put _ u32 46 nBw).put u32 _ (.inl (by decide))
    · exact Mem.holds_put _ u32 50 _
  have dst : sent.get SockaddrIn.format 28 = p.destination.sockaddr := by
    rw [Mem.get_sockaddr sent 26, (field (by decide) (by decide) destination).get]
  rw [CorsProbe.serialize_length]
  exact congrArg₂ Datagram.mk dst bytes

/-- What an answer decodes to is right but for the bandwidth, which is 65536 times
    the 16 bits that were converted. -/
theorem answers_iff (rest : Mem) (p : CorsProbe) (type : PacketType)
    (own : type ∈ CorsProbe.accepted) (bw : UInt16) {s : SimpleFwd}
    (small : s.fwdHmap.size < 4294967296) (bandwidth : Nat) :
    Answers p type bandwidth s
        [answered (forwarded (rest.receive p.serialize) type) p.serialize.length
          (htons bw).toUInt32 s.fwdHmap.size] ↔
      65536 * bw.toNat = bandwidth := by
  rw [answered_serialize, Answers]
  constructor
  · rintro ⟨d, q, split, -, decoded, -, -, announced⟩
    obtain ⟨rfl, -⟩ := List.cons.inj split
    have read := CorsProbe.parse_serialize (x := { p with
      type
      ttl := p.ttl - 1
      bandwidth := ntohl (htons bw).toUInt32
      loadNum := UInt32.ofNat s.fwdHmap.size }) own (Mem.receive_holds (fun _ => 0) _)
    have same := Option.some.inj ((decoded fun _ => 0).symm.trans read)
    rw [← announced, same]
    exact (ntohl_htons bw).symm
  · intro units
    refine ⟨_, _, rfl, rfl, fun rest => CorsProbe.parse_serialize own (Mem.receive_holds rest _),
      rfl, ?_, ?_⟩
    · exact UInt32.toNat_ofNat_of_lt' small
    · rw [ntohl_htons bw, units]

theorem granted_eq_zero_iff (s : SimpleFwd) (key : SessionKey) (rqBw : UInt32) :
    (s.granted key rqBw).toNat = 0 ↔ s.GrantReadable key rqBw := by
  have small : (s.unclaimed key).toNat < 65536 := (s.unclaimed key).toNat_lt
  have empty : s.unclaimed key = 0 ↔ (s.unclaimed key).toNat = 0 := UInt16.toNat_inj.symm
  simp only [granted_toNat, GrantReadable, empty, maxFwdBw_toNat]
  omega

theorem controlKey_serialize (rest : Mem) (p : CorsProbe) :
    controlKey (rest.receive p.serialize) = .between p.source.sockaddr p.destination.sockaddr := by
  obtain ⟨_, _, source, _, destination, _⟩ :=
    CorsProbe.holds_serialize.mp (rest.receive_holds p.serialize)
  simp only [controlKey, Control.srcPortPos, Control.dstPortPos, Mem.get_sockaddr _ 2,
    Mem.get_sockaddr _ 26, source.get, destination.get]

theorem demand_serialize (rest : Mem) (p : CorsProbe) :
    demand (rest.receive p.serialize) = p.bandwidth := by
  obtain ⟨_, _, _, _, _, _, bandwidth, _⟩ :=
    CorsProbe.holds_serialize.mp (rest.receive_holds p.serialize)
  simp only [demand, Control.bwPos, bandwidth.get, ntohl_htonl]

/-- In every state of every run, and whatever the rest of the buffer holds, the
    answer to a probe never states the bandwidth that is left, and the answer to a
    reservation states the granted bandwidth just in case it is readable. -/
theorem rewriting_refines_codec_iff (timeoutSec : Int32) (maxFlow : UInt8) (es : List Event)
    (rest : Mem) (curTime : Timeval) (p : CorsProbe) :
    let s := Run.final step (new timeoutSec maxFlow) es
    let msg := rest.receive p.serialize
    let key := SessionKey.between p.source.sockaddr p.destination.sockaddr
    let probed := s.processProbe msg p.serialize.length
    let reserved := s.processBwReserve curTime msg p.serialize.length
    let granted := (s.reserve curTime key p.bandwidth).2.toNat
    ¬ Answers p .fwForward (maxFwdBw.toNat - s.curRqBw.toNat) probed.1 probed.2 ∧
    (Answers p .bwForward granted reserved.1 reserved.2 ↔ s.GrantReadable key p.bandwidth) := by
  intro s msg key probed reserved granted
  have few : ∀ es, (Run.final step (new timeoutSec maxFlow) es).fwdHmap.size < 4294967296 := by
    intro es
    have bounded := (final_size timeoutSec maxFlow es).2
    have small : maxFlow.toNat < 256 := maxFlow.toNat_lt
    omega
  constructor
  · have units := answers_iff rest p .fwForward (by decide)
      (maxFwdBw - s.curRqBw.toUInt32).toUInt16 (few es) (maxFwdBw.toNat - s.curRqBw.toNat)
    have narrow : s.curRqBw.toNat < 65536 := s.curRqBw.toNat_lt
    refine fun right => absurd (units.mp right) ?_
    rw [UInt32.toNat_toUInt16, available_toNat, maxFwdBw_toNat]
    omega
  · have outcome : reserved = _ := processBwReserve_eq s curTime msg _
    have announced : granted = (s.granted key p.bandwidth).toNat := by
      simp only [granted, reserve_eq, UInt16.toNat_toUInt32]
    have few' : reserved.1.fwdHmap.size < 4294967296 := by
      have next := few (es ++ [.bwReserve curTime msg p.serialize.length])
      rwa [Run.final_append] at next
    have units := answers_iff rest p .bwForward (by decide) (s.granted key p.bandwidth)
      few' granted
    have sent : reserved.2 = [answered (forwarded msg .bwForward) p.serialize.length
        (htons (s.granted key p.bandwidth)).toUInt32 reserved.1.fwdHmap.size] := by
      rw [outcome, controlKey_serialize, demand_serialize]
    rw [sent, units, announced, ← granted_eq_zero_iff]
    omega

/-- A fresh relay, probed, has 2097152 left and answers 0. -/
theorem fresh_relay_answers_zero :
    ¬ ∀ timeoutSec maxFlow es rest curTime (p : CorsProbe),
      let s := Run.final step (new timeoutSec maxFlow) es
      let probed := s.processProbe (Mem.receive rest p.serialize) p.serialize.length
      let key := SessionKey.between p.source.sockaddr p.destination.sockaddr
      let reserved := s.processBwReserve curTime (Mem.receive rest p.serialize) p.serialize.length
      let granted := (s.reserve curTime key p.bandwidth).2.toNat
      (p.type = .fwProbe →
        Answers p .fwForward (maxFwdBw.toNat - s.curRqBw.toNat) probed.1 probed.2) ∧
      (p.type = .bwReserve → Answers p .bwForward granted reserved.1 reserved.2) := by
  intro always
  obtain ⟨d, q, sent, -, decoded, -, -, left⟩ :=
    (always 20 200 [] (fun _ => 0) ⟨0, 0⟩ CorsProbe.new).1 rfl
  have stated : ((parse CorsProbe.deserialize (Mem.receive (fun _ => 0) d.bytes)
      d.bytes.length).map fun q => q.bandwidth.toNat) = some 2097152 := by
    rw [decoded, Option.map_some, left]
    rfl
  obtain ⟨rfl, -⟩ := List.cons.inj sent
  exact absurd stated (by decide +kernel)

end SimpleFwd

end Cors
