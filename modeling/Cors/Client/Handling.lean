import Cors.Client.Overlay
import Cors.Proxy.Rewriting

/-! # How the parties handle a probe

On its way over a relay to the destination and back, a probe is edited in place, decoded
and encoded by three programs. For each of them: what it is left with and what it sends,
by the type of the probe. What a probe is recognised by stays the same throughout.
-/

namespace Cors

open ByteFormat

/-- Type, hops, bandwidth, load, and the mask and the AS number of the destination may
    differ. -/
structure SameIdentity (q p : CorsProbe) : Prop where
  source : q.source = p.source
  relay : q.relay = p.relay
  timestamp : q.timestamp = p.timestamp
  destination : q.destination.sockaddr = p.destination.sockaddr

namespace SameIdentity

theorem refl (p : CorsProbe) : SameIdentity p p := ⟨rfl, rfl, rfl, rfl⟩

theorem trans {r q p : CorsProbe} (first : SameIdentity r q) (second : SameIdentity q p) :
    SameIdentity r p where
  source := first.source.trans second.source
  relay := first.relay.trans second.relay
  timestamp := first.timestamp.trans second.timestamp
  destination := first.destination.trans second.destination

end SameIdentity

/-- A datagram is a probe with the identity of `p`. -/
def Datagram.IsProbe (d : Datagram) (p : CorsProbe) : Prop :=
  ∃ q, d.bytes = q.serialize ∧ q.type ∈ CorsProbe.accepted ∧ SameIdentity q p

theorem Datagram.isProbe_serialize (dst : SockaddrIn) {q p : CorsProbe} (type : PacketType)
    (typed : q.type = type) (own : type ∈ CorsProbe.accepted) (same : SameIdentity q p) :
    Datagram.IsProbe ⟨dst, q.serialize⟩ p :=
  ⟨q, rfl, typed ▸ own, same⟩

/-! ## What a serialized probe is read as -/

section Received
variable (rest : Mem) {p : CorsProbe}

theorem CorsProbe.received_type (p : CorsProbe) :
    PacketType.ofCode? ((rest.receive p.serialize).get u8 0) = some p.type := by
  have type := (CorsProbe.holds_serialize.mp (rest.receive_holds p.serialize)).1
  rw [type.get, PacketType.ofCode?_code]

theorem CorsProbe.received_probe (own : p.type ∈ CorsProbe.accepted) :
    parse CorsProbe.deserialize (rest.receive p.serialize) p.serialize.length = some p :=
  CorsProbe.parse_serialize own (rest.receive_holds p.serialize)

end Received

/-! ## The relay -/

namespace SimpleFwd
variable (s : SimpleFwd) (curTime : Timeval) (rest : Mem) (peeraddr : SockaddrIn)

theorem dispatch_serialize (p : CorsProbe) :
    s.dispatch curTime (rest.receive p.serialize) p.serialize.length peeraddr =
      match p.type with
      | .fwProbe => s.processProbe (rest.receive p.serialize) p.serialize.length
      | .bwReserve => s.processBwReserve curTime (rest.receive p.serialize) p.serialize.length
      | .bwRelease => s.processBwRelease (rest.receive p.serialize)
      | .data => s.processDataPacket curTime (rest.receive p.serialize) p.serialize.length peeraddr
      | _ => (s, []) := by
  have long : 0 < p.serialize.length := by
    rw [CorsProbe.serialize_length]
    decide
  rw [dispatch, if_pos long, CorsProbe.received_type]
  cases p.type <;> rfl

theorem answered_identity (p : CorsProbe) (type : PacketType) (nBw : UInt32) (sessionN : Nat) :
    ∃ q : CorsProbe, q.type = type ∧ SameIdentity q p ∧
      answered (forwarded (rest.receive p.serialize) type) p.serialize.length nBw sessionN =
        ⟨p.destination.sockaddr, q.serialize⟩ :=
  ⟨{ p with
      type
      ttl := p.ttl - 1
      bandwidth := ntohl nBw
      loadNum := UInt32.ofNat sessionN },
    rfl, ⟨rfl, rfl, rfl, rfl⟩, answered_serialize rest p type nBw sessionN⟩

/-- What a relay does with a probe, by its type. -/
inductive Handles (s : SimpleFwd) (curTime : Timeval) (rest : Mem) (p : CorsProbe) :
    SimpleFwd × List Datagram → Prop where
  | probe (q : CorsProbe) (typed : p.type = .fwProbe) (forward : q.type = .fwForward)
      (same : SameIdentity q p) :
      Handles s curTime rest p (s, [⟨p.destination.sockaddr, q.serialize⟩])
  | reserve (q : CorsProbe) (typed : p.type = .bwReserve) (forward : q.type = .bwForward)
      (same : SameIdentity q p) :
      Handles s curTime rest p
        (s.step (.bwReserve curTime (rest.receive p.serialize) p.serialize.length),
          [⟨p.destination.sockaddr, q.serialize⟩])
  | release (typed : p.type = .bwRelease) :
      Handles s curTime rest p (s.step (.bwRelease (rest.receive p.serialize)), [])
  | ignored (typed : p.type ∈ [.fwForward, .fwReply, .bwForward, .bwReply]) :
      Handles s curTime rest p (s, [])

theorem dispatch_handles {p : CorsProbe} (own : p.type ∈ CorsProbe.accepted) :
    Handles s curTime rest p
      (s.dispatch curTime (rest.receive p.serialize) p.serialize.length peeraddr) := by
  rw [dispatch_serialize]
  cases typed : p.type with
  | fwProbe =>
      obtain ⟨q, forward, same, sent⟩ := answered_identity rest p .fwForward
        (htons (maxFwdBw - s.curRqBw.toUInt32).toUInt16).toUInt32 s.fwdHmap.size
      simp only [processProbe, sent]
      exact .probe q typed forward same
  | bwReserve =>
      let msg := rest.receive p.serialize
      let next := s.step (.bwReserve curTime msg p.serialize.length)
      obtain ⟨q, forward, same, sent⟩ := answered_identity rest p .bwForward
        (htons (s.granted (controlKey msg) (demand msg))).toUInt32 next.fwdHmap.size
      have reserved : s.processBwReserve curTime msg p.serialize.length =
          (next, [⟨p.destination.sockaddr, q.serialize⟩]) := by
        rw [← sent]
        simp only [next, step, react, processBwReserve_eq, msg]
      exact reserved ▸ .reserve q typed forward same
  | bwRelease => exact .release typed
  | fwForward | fwReply | bwForward | bwReply => exact .ignored (by rw [typed]; decide)
  | _ => exact absurd own (by rw [typed]; decide)

end SimpleFwd

/-! ## The end points -/

namespace SimpleRlysltr
variable {s : SimpleRlysltr} {msg : Mem} {len : Nat} {probe : CorsProbe}

theorem reservation_identity (s : SimpleRlysltr) (p : CorsProbe) :
    SameIdentity (s.reservation p) p :=
  ⟨rfl, rfl, rfl, rfl⟩

theorem processFwForward_eq (decoded : parse CorsProbe.deserialize msg len = some probe) :
    s.processFwForward msg len =
      [⟨probe.source.sockaddr, (s.turnBack .fwReply probe).serialize⟩] := by
  simp only [processFwForward, decoded]

theorem processBwForward_eq (decoded : parse CorsProbe.deserialize msg len = some probe) :
    s.processBwForward msg len =
      [⟨probe.source.sockaddr, (s.turnBack .bwReply probe).serialize⟩] := by
  simp only [processBwForward, decoded]

/-- What is sent for the reply to a probe is a reservation of the relay that was probed,
    which met the requirement. -/
theorem processFwReply_sent (decoded : parse CorsProbe.deserialize msg len = some probe)
    (tmNow : Timeval) : ∀ d ∈ (s.processFwReply tmNow msg len).2,
      d = sendProbe (s.reservation probe) ∧
        meetRequirement s.req (elapsed tmNow probe.timestamp) := by
  intro d sent
  simp only [processFwReply, decoded] at sent
  split at sent
  · cases sent
  · split at sent
    · rename_i meets
      split at sent
      · exact ⟨List.mem_singleton.mp sent, meets⟩
      · cases sent
    · cases sent

end SimpleRlysltr

namespace CorsSocket
variable (s : CorsSocket) (amb : Ambient) (peeraddr : SockaddrIn) {p : CorsProbe}

theorem recvfrom_serialize (own : p.type ∈ CorsProbe.accepted) :
    let msg := s.msg.receive p.serialize
    let len := p.serialize.length
    s.recvfrom amb p.serialize peeraddr =
      match p.type with
      | .fwProbe | .fwForward => ⟨{ s with msg }, s.rlysltr.processFwForward msg len, none⟩
      | .fwReply =>
          let (rlysltr, sent) := s.rlysltr.processFwReply amb.tmNow msg len
          ⟨{ s with msg, rlysltr }, sent, none⟩
      | .bwForward => ⟨{ s with msg }, s.rlysltr.processBwForward msg len, none⟩
      | .bwReply =>
          let rlysltr := s.rlysltr.processBwReply amb.tmNow amb.lossrate msg len
          ⟨{ s with msg, rlysltr }, [], none⟩
      | _ => ⟨{ s with msg }, [], none⟩ := by
  intro msg len
  have whole : p.serialize.take corsMaxMsgSize = p.serialize := by
    apply List.take_of_length_le
    rw [CorsProbe.serialize_length]
    decide
  have long : p.serialize.length > 0 := by
    rw [CorsProbe.serialize_length]
    decide
  simp only [recvfrom, whole, if_pos long, CorsProbe.received_type]
  cases typed : p.type with
  | data | stat | rlyAdvice => exact absurd own (by rw [typed]; decide)
  | _ => rfl

/-- What an end point does with a probe, by its type. -/
inductive Handles (s : CorsSocket) (amb : Ambient) (p : CorsProbe) (r : Received) : Prop where
  | turnedBack (q : CorsProbe)
      (typed : (p.type ∈ [.fwProbe, .fwForward] ∧ q.type = .fwReply) ∨
        (p.type = .bwForward ∧ q.type = .bwReply))
      (same : SameIdentity q p) (selector : r.socket.rlysltr = s.rlysltr)
      (sent : r.sent = [⟨p.source.sockaddr, q.serialize⟩])
  | fwReply (typed : p.type = .fwReply)
      (selector : r.socket.rlysltr = (s.rlysltr.processFwReply amb.tmNow
        (s.msg.receive p.serialize) p.serialize.length).1)
      (sent : r.sent = (s.rlysltr.processFwReply amb.tmNow
        (s.msg.receive p.serialize) p.serialize.length).2)
  | bwReply (typed : p.type = .bwReply)
      (selector : r.socket.rlysltr = s.rlysltr.processBwReply amb.tmNow amb.lossrate
        (s.msg.receive p.serialize) p.serialize.length)
      (sent : r.sent = [])
  | ignored (typed : p.type ∈ [.bwReserve, .bwRelease])
      (selector : r.socket.rlysltr = s.rlysltr) (sent : r.sent = [])

theorem recvfrom_handles (own : p.type ∈ CorsProbe.accepted) :
    Handles s amb p (s.recvfrom amb p.serialize peeraddr) := by
  have decoded := CorsProbe.received_probe s.msg own
  rw [recvfrom_serialize s amb peeraddr own]
  cases typed : p.type with
  | fwProbe | fwForward =>
      refine .turnedBack (s.rlysltr.turnBack .fwReply p) (.inl ⟨?_, rfl⟩) ⟨rfl, rfl, rfl, rfl⟩ rfl
        (SimpleRlysltr.processFwForward_eq decoded)
      rw [typed]
      decide
  | bwForward =>
      exact .turnedBack (s.rlysltr.turnBack .bwReply p) (.inr ⟨typed, rfl⟩) ⟨rfl, rfl, rfl, rfl⟩
        rfl (SimpleRlysltr.processBwForward_eq decoded)
  | fwReply => exact .fwReply typed rfl rfl
  | bwReply => exact .bwReply typed rfl rfl
  | bwReserve | bwRelease => exact .ignored (by rw [typed]; decide) rfl rfl
  | _ => exact absurd own (by rw [typed]; decide)

end CorsSocket

/-! ## The network -/

namespace Overlay

/-- The probes that an action of the client sends, each with its own time. -/
def Sends (n : Parties) : Action → CorsProbe → Prop
  | .pingCandidate now, p =>
      ∃ cand ∈ n.client.rlysltr.candidates, p = n.client.rlysltr.probeFor cand now
  | .pingRelay now, p =>
      ∃ node ∈ n.client.rlysltr.relaylist, p = n.client.rlysltr.probeFor node.relay now
  | .close, p => ∃ node ∈ n.client.rlysltr.relaylist, p = n.client.rlysltr.releaseFor node
  | _, _ => False

theorem own_sendProbe {p : CorsProbe} {type : PacketType} (typed : p.type = type)
    (own : type ∈ CorsProbe.accepted) :
    Letter.own (SimpleRlysltr.sendProbe p) = ⟨SimpleRlysltr.sendProbe p, p⟩ := by
  have decoded := CorsProbe.received_probe (fun _ => 0) (typed ▸ own)
  simp only [Letter.own, SimpleRlysltr.sendProbe, Mem.padded, decoded, Option.getD_some]

theorem act_sent (n : Parties) (a : Action) :
    ∀ l ∈ (act n a).2, ∃ p, Sends n a p ∧ p.type ∈ CorsProbe.accepted ∧
      l = ⟨SimpleRlysltr.sendProbe p, p⟩ := by
  have probe : PacketType.fwProbe ∈ CorsProbe.accepted := by decide
  have release : PacketType.bwRelease ∈ CorsProbe.accepted := by decide
  intro l sent
  cases a with
  | pingCandidate now =>
      obtain same | ⟨cand, listed, same⟩ := n.client.rlysltr.pingCandidate_cases now
      · simp only [act, same, List.map_nil, List.not_mem_nil] at sent
      · simp only [act, same, List.map_singleton, List.mem_singleton] at sent
        subst sent
        exact ⟨_, ⟨cand, listed, rfl⟩, probe, own_sendProbe rfl probe⟩
  | pingRelay now =>
      obtain same | ⟨node, listed, same⟩ := n.client.rlysltr.pingRelay_cases now
      · simp only [act, same, List.map_nil, List.not_mem_nil] at sent
      · simp only [act, same, List.map_singleton, List.mem_singleton] at sent
        subst sent
        exact ⟨_, ⟨node, listed, rfl⟩, probe, own_sendProbe rfl probe⟩
  | close =>
      simp only [act, SimpleRlysltr.releaseResources, List.map_map, List.mem_map] at sent
      obtain ⟨node, listed, rfl⟩ := sent
      exact ⟨_, ⟨node, listed, rfl⟩, release, own_sendProbe rfl release⟩
  | _ => cases sent

/-- Who handles a probe, and what comes of it. -/
inductive Receives (n : Parties) (r : Reading) (d : Datagram) (p : CorsProbe) :
    Parties × List Datagram → Prop where
  | client (received : CorsSocket.Received) (here : d.dst = n.src)
      (handled : CorsSocket.Handles n.client r.amb p received) :
      Receives n r d p ({ n with client := received.socket }, received.sent)
  | destination (received : CorsSocket.Received) (away : d.dst ≠ n.src) (here : d.dst = n.peer)
      (handled : CorsSocket.Handles n.destination r.amb p received) :
      Receives n r d p ({ n with destination := received.socket }, received.sent)
  | relay (outcome : SimpleFwd × List Datagram) (away : d.dst ≠ n.src) (between : d.dst ≠ n.peer)
      (handled : SimpleFwd.Handles (n.relays d.dst) r.amb.tmNow r.amb.junk p outcome) :
      Receives n r d p (n.setRelay d.dst outcome.1, outcome.2)

theorem receive_receives (n : Parties) (r : Reading) {d : Datagram} {p : CorsProbe}
    (bytes : d.bytes = p.serialize) (own : p.type ∈ CorsProbe.accepted) :
    Receives n r d p (receive n r d) := by
  simp only [receive, bytes]
  split
  · rename_i here
    exact .client _ here (n.client.recvfrom_handles r.amb r.peeraddr own)
  · rename_i away
    split
    · rename_i here
      exact .destination _ away here (n.destination.recvfrom_handles r.amb r.peeraddr own)
    · rename_i between
      exact .relay _ away between
        ((n.relays d.dst).dispatch_handles r.amb.tmNow r.amb.junk r.peeraddr own)

end Overlay

end Cors
