import Cors.Lib.Network
import Cors.Client.Addressing
import Cors.Client.Handling
import Cors.Client.StatPath

/-! # Applications among relays

Any number of clients and of packet forwarders, each at its own address. The applications send
to each other, and what is sent is in flight until it is handled, in any order and any number of
times, or is never handled. Of the control packets it is only asked that they are none for the
data path: everything that they change at a client or at a relay may change at any time.
-/

namespace Cors

open ByteFormat

namespace Delivery

open SimpleMpathManager (flagsPos packFlags Arrives DirectTurn)

structure Parties where
  clients : SockaddrIn → CorsSocket
  relays : SockaddrIn → SimpleFwd

/-- What an application is handed, or gave to `sendto`. -/
structure Message where
  source : SockaddrIn
  dest : SockaddrIn
  payload : Bytes
  deriving DecidableEq

/-- An application sends, somebody sends a control packet, or something else happens to a client
    or to a relay. -/
inductive Action where
  | sendto (a : SockaddrIn) (now : Int32) (sbuf : Mem) (buff : Bytes) (dst : SockaddrIn)
      (significance : UInt8)
  | control (l : Letter)
  | client (a : SockaddrIn) (s : CorsSocket)
  | relay (a : SockaddrIn) (s : SimpleFwd)

def act (n : Parties) : Action → Parties × List Letter
  | .sendto a now sbuf buff dst significance =>
      let (s, sent) := (n.clients a).sendto now sbuf buff dst.addr dst.port significance
      ({ n with clients := Function.update n.clients a s },
        (sent.packets ++ sent.inquiry).map (Letter.mk a))
  | .control l => (n, [l])
  | .client a s => ({ n with clients := Function.update n.clients a s }, [])
  | .relay a s => ({ n with relays := Function.update n.relays a s }, [])

/-- `recvfrom` or `dispatch`, whichever program has the address. -/
def handle (client : SockaddrIn → Bool) (n : Parties) (amb : CorsSocket.Ambient) (l : Letter) :
    Parties × List Letter :=
  let a := l.datagram.dst
  if client a then
    let received := (n.clients a).recvfrom amb l.datagram.bytes l.src
    ({ n with clients := Function.update n.clients a received.socket },
      received.sent.map (Letter.mk a))
  else
    let bytes := l.datagram.bytes.take corsMaxMsgSize
    let msg := amb.junk.receive bytes
    let (fwd, sent) := (n.relays a).dispatch amb.tmNow msg bytes.length l.src
    ({ n with relays := Function.update n.relays a fwd }, sent.map (Letter.mk a))

abbrev Event := Network.Event Action CorsSocket.Ambient

def step (client : SockaddrIn → Bool) : Network Parties Letter → Event → Network Parties Letter :=
  Network.step act (handle client)

/-! ## Control packets -/

/-- The first byte is that of a data packet. -/
def IsData (d : Datagram) : Prop :=
  0 < d.bytes.length ∧ PacketType.ofCode? ((Mem.padded d.bytes).get u8 0) = some .data

instance (d : Datagram) : Decidable (IsData d) := inferInstanceAs (Decidable (_ ∧ _))

section Kinds
variable {d : Datagram}

theorem read_kind {m : Mem} {len : Nat} {type : PacketType} (own : m.get u8 0 = type.code)
    (nonempty : 0 < len) (dst : SockaddrIn) : IsData ⟨dst, m.read 0 len⟩ ↔ type = .data := by
  have first : (Mem.padded (m.read 0 len)).get u8 0 = m.get u8 0 :=
    Mem.receive_get _ m u8 (by rw [u8_width]; omega)
  rw [IsData, first, own, PacketType.ofCode?_code, Mem.read_length, Option.some.injEq]
  exact and_iff_right nonempty

theorem read_control {m : Mem} {len : Nat} {type : PacketType} (own : m.get u8 0 = type.code)
    (other : type ≠ .data) (dst : SockaddrIn) : ¬IsData ⟨dst, m.read 0 len⟩ := by
  intro data
  have nonempty : 0 < len := by simpa [IsData] using data.1
  exact other ((read_kind own nonempty dst).mp data)

theorem probe_kind {p : CorsProbe} (other : p.type ≠ .data) (dst : SockaddrIn) :
    ¬IsData ⟨dst, p.serialize⟩ := by
  rintro ⟨-, data⟩
  have type := p.received_type (fun _ => 0)
  exact other (Option.some.inj (type.symm.trans data))

theorem answered_kind (msg : Mem) (len : Nat) {type : PacketType} (other : type ≠ .data)
    (nBw : UInt32) (sessionN : Nat) :
    ¬IsData (SimpleFwd.answered (SimpleFwd.forwarded msg type) len nBw sessionN) := by
  refine read_control ?_ other _
  rw [Mem.get_put_disjoint _ u32 u8 _ (.inl (by decide)),
    Mem.get_put_disjoint _ u32 u8 _ (.inl (by decide)), SimpleFwd.forwarded,
    Mem.get_put_disjoint _ u8 u8 _ (.inl (by decide))]
  exact Mem.get_put _ u8 Control.typePos _

section Dispatch
variable {s : SimpleFwd} {curTime : Timeval} {rest : Mem} {bytes : Bytes}
variable {dst peeraddr : SockaddrIn}

theorem dispatch_data (data : IsData ⟨dst, bytes⟩) :
    s.dispatch curTime (rest.receive bytes) bytes.length peeraddr =
      s.processDataPacket curTime (rest.receive bytes) bytes.length peeraddr := by
  obtain ⟨nonempty, kind⟩ := data
  rw [← Mem.received_kind rest nonempty] at kind
  rw [SimpleFwd.dispatch, if_pos nonempty, kind]

/-- A relay sends a data packet for a data packet only. -/
theorem dispatch_control (control : ¬IsData ⟨dst, bytes⟩)
    (sent : d ∈ (s.dispatch curTime (rest.receive bytes) bytes.length peeraddr).2) :
    ¬IsData d := by
  unfold SimpleFwd.dispatch at sent
  split at sent
  · rename_i nonempty
    rw [Mem.received_kind rest nonempty] at sent
    split at sent
    · rw [List.mem_singleton.mp sent]
      exact answered_kind _ _ (by decide) _ _
    · rw [SimpleFwd.processBwReserve_eq, List.mem_singleton] at sent
      rw [sent]
      exact answered_kind _ _ (by decide) _ _
    · cases sent
    · exact absurd ⟨nonempty, ‹_›⟩ control
    · cases sent
  · cases sent

end Dispatch

theorem statMsg_kind (junk : Mem) (peeraddr : SockaddrIn) (count : UInt32) (curTime : Timeval)
    (dst : SockaddrIn) : ¬IsData ⟨dst, StatMpathManager.statMsg junk peeraddr count curTime⟩ := by
  have other : PacketType.stat ≠ .data := by decide
  refine read_control ?_ other dst
  rw [Mem.get_put_disjoint _ Timeval.format u8 _ (.inl (by decide)),
    Mem.get_put_disjoint _ u32 u8 _ (.inl (by decide)),
    Mem.get_put_disjoint _ SockaddrIn.format u8 _ (.inl (by decide))]
  exact Mem.get_put _ u8 Stat.typePos _

/-- What a multipath manager sends for a data packet is at most a report. -/
theorem parseDataPacket_kind {mpthmgr : MultipathManager} {junk : Mem} {curTime : Timeval}
    {buff : Mem} {bufsize : Int} {peeraddr : SockaddrIn}
    (sent : d ∈ (mpthmgr.parseDataPacket junk curTime buff bufsize peeraddr).2.1) : ¬IsData d := by
  cases mpthmgr with
  | simple mgr => cases sent
  | stat mgr =>
      simp only [MultipathManager.parseDataPacket, StatMpathManager.parseDataPacket] at sent
      split at sent
      · cases sent
      · split at sent
        · cases sent
        · unfold StatMpathManager.countReceived at sent
          dsimp only at sent
          split at sent
          · cases sent
          · split at sent
            · cases sent
            · split at sent
              · rw [List.mem_singleton.mp sent]
                exact statMsg_kind junk _ _ curTime _
              · cases sent

theorem processFwForward_kind {s : SimpleRlysltr} {msg : Mem} {len : Nat}
    (sent : d ∈ s.processFwForward msg len) : ¬IsData d := by
  unfold SimpleRlysltr.processFwForward at sent
  split at sent
  · cases sent
  · rw [List.mem_singleton.mp sent]
    exact probe_kind (by simp [SimpleRlysltr.turnBack]) _

theorem processBwForward_kind {s : SimpleRlysltr} {msg : Mem} {len : Nat}
    (sent : d ∈ s.processBwForward msg len) : ¬IsData d := by
  unfold SimpleRlysltr.processBwForward at sent
  split at sent
  · cases sent
  · rw [List.mem_singleton.mp sent]
    exact probe_kind (by simp [SimpleRlysltr.turnBack]) _

theorem processFwReply_kind {s : SimpleRlysltr} {tmNow : Timeval} {msg : Mem} {len : Nat}
    (sent : d ∈ (s.processFwReply tmNow msg len).2) : ¬IsData d := by
  unfold SimpleRlysltr.processFwReply at sent
  split at sent
  · cases sent
  · dsimp only at sent
    split at sent
    · cases sent
    · split at sent
      · split at sent
        · rw [List.mem_singleton.mp sent]
          exact probe_kind (by simp [SimpleRlysltr.reservation]) _
        · cases sent
      · cases sent

theorem recvfrom_kind {s : CorsSocket} {amb : CorsSocket.Ambient} {bytes : Bytes}
    {peeraddr : SockaddrIn} (sent : d ∈ (s.recvfrom amb bytes peeraddr).sent) : ¬IsData d := by
  unfold CorsSocket.recvfrom at sent
  dsimp only at sent
  split at sent
  · split at sent
    · exact parseDataPacket_kind sent
    · cases sent
    · exact processFwForward_kind sent
    · exact processFwForward_kind sent
    · exact processFwReply_kind sent
    · exact processBwForward_kind sent
    · cases sent
    · cases sent
    · cases sent
  · cases sent

theorem inquiry_kind {s : SimpleRlysltr} {rq : Requirement} (sent : d ∈ s.sendRlInquiry rq) :
    ¬IsData d := by
  obtain ⟨proxy, -, rfl⟩ := List.mem_map.mp sent
  rintro ⟨-, data⟩
  dsimp only at data
  generalize inquired : ({ CorsInquiry.new with
    requiredRelays := rq.relaynum * 6
    source := s.psk.src
    destination := s.psk.dst
    proxy } : CorsInquiry) = x at data
  have stands := Mem.receive_holds (fun _ => 0) x.serialize
  unfold CorsInquiry.serialize at stands
  have type := (Mem.holds_append.mp (Mem.holds_append.mp (Mem.holds_append.mp
    (Mem.holds_append.mp (Mem.holds_append.mp stands).1).1).1).1).1
  have kind : (Mem.padded x.serialize).get u8 0 = x.type.code := type.get
  rw [kind, PacketType.ofCode?_code, ← inquired] at data
  cases data

end Kinds

/-! ## What a letter carries -/

section Letters
variable (client : SockaddrIn → Bool)

/-- What an application will be handed for a data packet, or what a relay will pass on. -/
def carried (l : Letter) : Option Message :=
  let m := Mem.padded l.datagram.bytes
  if IsData l.datagram then
    if client l.datagram.dst then
      (SimpleMpathManager.parseDataPacket m l.datagram.bytes.length l.src).map fun parsed =>
        ⟨⟨parsed.sport, parsed.saddr⟩, l.datagram.dst, parsed.payload m⟩
    else
      some ⟨l.src, m.get SockaddrIn.format portOffset,
        m.read indirectHeaderLen (l.datagram.bytes.length - indirectHeaderLen)⟩
  else
    none

/-- A relayed packet for a client. -/
structure Relayable (bytes : Bytes) : Prop where
  long : indirectHeaderLen ≤ bytes.length
  flags : (Mem.padded bytes).get u8 flagsPos = packFlags version 0 0
  dest : client ((Mem.padded bytes).get SockaddrIn.format portOffset) = true

/-- A data packet can be read in full at a client, or passed on by a relay. -/
structure Sound (l : Letter) : Prop where
  short : IsData l.datagram → l.datagram.bytes.length ≤ corsMaxMsgSize
  readable : IsData l.datagram → client l.datagram.dst = true →
    ∃ payload source flag, Arrives payload source flag l.datagram.bytes l.src
  relayable : IsData l.datagram → client l.datagram.dst = false →
    Relayable client l.datagram.bytes

variable {client}

theorem control_sound {l : Letter} (control : ¬IsData l.datagram) : Sound client l where
  short data := absurd data control
  readable data := absurd data control
  relayable data := absurd data control

theorem control_carries {l : Letter} (control : ¬IsData l.datagram) : carried client l = none :=
  if_neg control

theorem carried_of_arrives {l : Letter} (bound : client l.datagram.dst = true)
    (data : IsData l.datagram) {payload : Bytes} {source : SockaddrIn} {flag : Int}
    (arrives : Arrives payload source flag l.datagram.bytes l.src) :
    carried client l = some ⟨source, l.datagram.dst, payload⟩ := by
  obtain ⟨parsed, read, own, -, addr, port, -⟩ := arrives fun _ => 0
  have parsed_ : SimpleMpathManager.parseDataPacket (Mem.padded l.datagram.bytes)
      l.datagram.bytes.length l.src = some parsed := read
  have payload_ : parsed.payload (Mem.padded l.datagram.bytes) = payload := own
  rw [carried, if_pos data, if_pos bound, parsed_, Option.map_some, addr, port, payload_]

theorem carried_of_relay {l : Letter} (relay : client l.datagram.dst = false)
    (data : IsData l.datagram) :
    carried client l = some ⟨l.src, (Mem.padded l.datagram.bytes).get SockaddrIn.format portOffset,
      (Mem.padded l.datagram.bytes).read indirectHeaderLen
        (l.datagram.bytes.length - indirectHeaderLen)⟩ := by
  rw [carried, if_pos data, if_neg (ne_true_of_eq_false relay)]

section Sent
variable {m : Mem} {a dst : SockaddrIn}

theorem direct_sound (own : m.get u8 0 = PacketType.data.code)
    (header : m.get u8 flagsPos = packFlags version 1 0) (bound : client dst = true) {n : Nat}
    (short : n + directHeaderLen ≤ corsMaxMsgSize) :
    let l : Letter := ⟨a, ⟨dst, m.read 0 (n + directHeaderLen)⟩⟩
    Sound client l ∧ carried client l = some ⟨a, dst, m.read directHeaderLen n⟩ := by
  intro l
  have arrives := SimpleMpathManager.direct_arrives header n a
  have data : IsData l.datagram :=
    (read_kind own (Nat.lt_add_left n (by decide : 0 < directHeaderLen)) dst).mpr rfl
  refine ⟨⟨fun _ => ?_, fun _ _ => ⟨_, _, _, arrives⟩, fun _ other => ?_⟩, ?_⟩
  · exact (Mem.read_length m 0 _).trans_le short
  · exact absurd bound (ne_true_of_eq_false other)
  · exact carried_of_arrives bound data arrives

theorem relayed_sound (own : m.get u8 0 = PacketType.data.code)
    (header : m.get u8 flagsPos = packFlags version 0 0)
    (addressed : m.get SockaddrIn.format portOffset = dst) (bound : client dst = true)
    {r : SockaddrIn} (relay : client r = false) {n : Nat}
    (short : n + indirectHeaderLen ≤ corsMaxMsgSize) :
    let l : Letter := ⟨a, ⟨r, m.read 0 (n + indirectHeaderLen)⟩⟩
    Sound client l ∧ carried client l = some ⟨a, dst, m.read indirectHeaderLen n⟩ := by
  intro l
  have length : l.datagram.bytes.length = n + indirectHeaderLen := Mem.read_length m 0 _
  have seen {α : Type} (f : ByteFormat α) (pos : Nat) (before : pos + f.width ≤ 9) :
      (Mem.padded l.datagram.bytes).get f pos = m.get f pos :=
    Mem.receive_get _ m f (Nat.le_trans before (Nat.le_add_left _ _))
  have dest : (Mem.padded l.datagram.bytes).get SockaddrIn.format portOffset = dst :=
    (seen SockaddrIn.format portOffset (by decide)).trans addressed
  have data : IsData l.datagram :=
    (read_kind own (Nat.lt_add_left n (by decide : 0 < indirectHeaderLen)) r).mpr rfl
  refine ⟨⟨fun _ => length.trans_le short, fun _ own => ?_, fun _ _ => ⟨?_, ?_, ?_⟩⟩, ?_⟩
  · exact absurd own (ne_true_of_eq_false relay)
  · rw [length]
    exact Nat.le_add_left _ _
  · rw [seen u8 flagsPos (by decide), header]
  · rw [dest, bound]
  · have behind : (Mem.padded l.datagram.bytes).read indirectHeaderLen n =
        m.read indirectHeaderLen n := Mem.receive_read _ m (by omega)
    rw [carried_of_relay relay data, length, Nat.add_sub_cancel, dest, behind]

end Sent

/-! ## What the programs do with it -/

/-- The bytes that are sent behind the header: not the payload on a relayed turn of the round
    robin. -/
def said (mgr : SimpleMpathManager) (sbuf : Mem) (buff : Bytes) (significance : UInt8) : Bytes :=
  if significance = normal ∧ ¬DirectTurn mgr then
    sbuf.read indirectHeaderLen buff.length
  else
    buff

section Sending
variable {mgr : SimpleMpathManager} {dst : SockaddrIn} (a : SockaddrIn) (sbuf : Mem) {buff : Bytes}

theorem direct_carries (bound : client dst = true)
    (short : buff.length + indirectHeaderLen ≤ corsMaxMsgSize) :
    let l : Letter := ⟨a, ⟨dst,
      ((SimpleMpathManager.putDirectHeader sbuf 1).write directHeaderLen buff).read 0
        (buff.length + directHeaderLen)⟩⟩
    Sound client l ∧ carried client l = some ⟨a, dst, buff⟩ := by
  let m := (SimpleMpathManager.putDirectHeader sbuf 1).write directHeaderLen buff
  have own : m.get u8 0 = PacketType.data.code := by
    rw [Mem.get_write_disjoint _ _ _ (.inl (by decide)), SimpleMpathManager.putDirectHeader,
      Mem.get_put_disjoint _ u8 u8 _ (.inl (by decide)), Mem.get_put]
  have header : m.get u8 flagsPos = packFlags version 1 0 := by
    rw [Mem.get_write_disjoint _ _ _ (.inl (by decide))]
    exact SimpleMpathManager.putDirectHeader_flags sbuf 1
  have smaller : directHeaderLen ≤ indirectHeaderLen := by decide
  have sound := direct_sound (a := a) own header bound (n := buff.length) (by omega)
  have behind : m.read directHeaderLen buff.length = buff := Mem.read_write _ _ _
  rw [behind] at sound
  exact sound

theorem indirect_carries {m : Mem} (headed : Headed dst m)
    (header : m.get u8 flagsPos = packFlags version 0 0) (bound : client dst = true)
    {node : RelayNode} (relay : client node.relay.sockaddr = false)
    (short : buff.length + indirectHeaderLen ≤ corsMaxMsgSize) :
    let l : Letter :=
      ⟨a, ⟨node.relay.sockaddr, m.read 0 (buff.length + indirectHeaderLen)⟩⟩
    Sound client l ∧
      carried client l = some ⟨a, dst, m.read indirectHeaderLen buff.length⟩ :=
  relayed_sound headed.type header headed.address bound relay short

theorem sendPacket_carries (bound : client dst = true)
    (relays : ∀ node ∈ mgr.goodrelays, client node.relay.sockaddr = false)
    (short : buff.length + indirectHeaderLen ≤ corsMaxMsgSize) (significance : UInt8) :
    ∀ d ∈ (mgr.sendPacket sbuf buff dst significance).2, Sound client ⟨a, d⟩ ∧
      carried client ⟨a, d⟩ = some ⟨a, dst, said mgr sbuf buff significance⟩ := by
  intro d sent
  have headed (sbuf : Mem) : Headed dst (SimpleMpathManager.putIndirectHeader sbuf dst) :=
    Headed.of_put sbuf (by decide) dst
  have header := SimpleMpathManager.putIndirectHeader_flags
  unfold SimpleMpathManager.sendPacket at sent
  dsimp only at sent
  by_cases mesh : significance = importance
  · have other : ¬significance = normal := by
      rw [mesh]
      decide
    rw [said, if_neg fun robin => other robin.1]
    rw [if_pos mesh] at sent
    obtain rfl | relayed := List.mem_cons.mp sent
    · exact direct_carries a sbuf bound short
    · obtain ⟨node, good, rfl⟩ := List.mem_map.mp relayed
      have flags := header ((SimpleMpathManager.putDirectHeader sbuf 1).write directHeaderLen buff)
        dst
      rw [← Mem.get_write_disjoint _ u8 buff (.inl (by decide : flagsPos + u8.width ≤
        indirectHeaderLen))] at flags
      have carries := indirect_carries a ((headed _).write buff) flags bound (relays node good)
        short
      rw [Mem.read_write] at carries
      exact carries
  · rw [if_neg mesh] at sent
    split at sent
    · rename_i robin
      split at sent
      · rename_i turn
        obtain rfl := List.mem_singleton.mp sent
        have direct : DirectTurn mgr := by
          have beyond := List.getElem?_eq_none_iff.mp turn
          have inside := Nat.mod_lt (mgr.curChannel + 1) (Nat.succ_pos mgr.goodrelays.length)
          exact Nat.le_antisymm (Nat.le_of_lt_succ inside) beyond
        rw [said, if_neg fun relayed => relayed.2 direct]
        exact direct_carries a sbuf bound short
      · rename_i node turn
        obtain rfl := List.mem_singleton.mp sent
        have relayed : ¬DirectTurn mgr := by
          obtain ⟨inside, -⟩ := List.getElem?_eq_some_iff.mp turn
          exact Nat.ne_of_lt inside
        have carries := indirect_carries a (headed sbuf) (header sbuf dst) bound
          (relays node (List.mem_of_getElem? turn)) short
        rw [SimpleMpathManager.putIndirectHeader_behind] at carries
        rw [said, if_pos ⟨robin, relayed⟩]
        exact carries
    · cases sent

end Sending

/-- What the application is handed by `recvfrom`. -/
def handOver (dst : SockaddrIn) (received : CorsSocket.Received) : Option Message :=
  received.copy.bind fun copy => copy.data.map fun parsed =>
    ⟨⟨parsed.sport, parsed.saddr⟩, dst, received.socket.msg.read parsed.offset copy.len.toNat⟩

theorem parseDataPacket_eq (mpthmgr : MultipathManager) (junk : Mem) (curTime : Timeval)
    (buff : Mem) (bufsize : Int) (peeraddr : SockaddrIn) :
    (mpthmgr.parseDataPacket junk curTime buff bufsize peeraddr).2.2 =
      SimpleMpathManager.parseDataPacket buff bufsize peeraddr := by
  cases mpthmgr with
  | simple mgr => rfl
  | stat mgr => exact mgr.parseDataPacket_eq junk curTime buff bufsize peeraddr

theorem recvfrom_hands (s : CorsSocket) (amb : CorsSocket.Ambient) {l : Letter}
    (sound : Sound client l) (bound : client l.datagram.dst = true) :
    handOver l.datagram.dst (s.recvfrom amb l.datagram.bytes l.src) = carried client l := by
  by_cases data : IsData l.datagram
  · obtain ⟨payload, source, flag, arrives⟩ := sound.readable data bound
    obtain ⟨parsed, read, own, -, addr, port, -⟩ := arrives s.msg
    rw [carried_of_arrives bound data arrives]
    obtain ⟨nonempty, kind⟩ := data
    have whole : l.datagram.bytes.take corsMaxMsgSize = l.datagram.bytes :=
      List.take_of_length_le (sound.short ⟨nonempty, kind⟩)
    rw [← Mem.received_kind s.msg nonempty] at kind
    have parses := parseDataPacket_eq s.mpthmgr amb.junk amb.tmNow
      (s.msg.receive l.datagram.bytes) l.datagram.bytes.length l.src
    rw [read] at parses
    simp only [handOver, CorsSocket.recvfrom, whole, gt_iff_lt, if_pos nonempty, kind, parses,
      Option.bind_some, Option.map_some, Option.getD_some]
    rw [addr, port]
    exact congrArg (fun payload => some (Message.mk source l.datagram.dst payload)) own
  · have nothing : (s.recvfrom amb l.datagram.bytes l.src).copy = none := by
      unfold CorsSocket.recvfrom
      dsimp only
      split
      · rename_i nonempty
        obtain ⟨whole, kind⟩ := Mem.taken_kind s.msg nonempty
        rw [kind]
        split
        · exact absurd ⟨whole, ‹_›⟩ data
        all_goals rfl
      · rfl
    rw [control_carries data, handOver, nothing, Option.bind_none]

/-- A relay passes on what the letter carries if it stores the session. -/
theorem relayed_carries {s : SimpleFwd} (curTime : Timeval) (rest : Mem) {l : Letter}
    (sound : Sound client l) (relay : client l.datagram.dst = false) (data : IsData l.datagram)
    {dst : SockaddrIn}
    (addressed : (Mem.padded l.datagram.bytes).get SockaddrIn.format portOffset = dst)
    (stored : SessionKey.between l.src dst ∈ s.fwdHmap) :
    ∃ d, (s.processDataPacket curTime (rest.receive l.datagram.bytes) l.datagram.bytes.length
        l.src).2 = [d] ∧ d.dst = dst ∧ client d.dst = true ∧
      Sound client ⟨l.datagram.dst, d⟩ ∧ carried client ⟨l.datagram.dst, d⟩ = carried client l := by
  obtain ⟨long, flags, dest⟩ := sound.relayable data relay
  let m := Mem.padded l.datagram.bytes
  let n := l.datagram.bytes.length - indirectHeaderLen
  have size : n + indirectHeaderLen = l.datagram.bytes.length := Nat.sub_add_cancel long
  have same : m.read 0 (n + indirectHeaderLen) = l.datagram.bytes := by
    rw [size]
    exact Mem.receive_holds _ _
  have relayed := SimpleMpathManager.relayed_datagram addressed n stored curTime rest
  have arrives := SimpleMpathManager.relayed_arrives flags n l.src l.datagram.dst
  rw [same, size] at relayed
  let d : Datagram := ⟨dst, m.read 0 directHeaderLen ++ SockaddrIn.format.encode l.src ++
    m.read indirectHeaderLen n⟩
  have bound : client d.dst = true := (congrArg client addressed).symm.trans dest
  have length : d.bytes.length = l.datagram.bytes.length := by
    simp only [d, List.length_append, Mem.read_length, encode_length, SockaddrIn.format_width]
    rw [← size, indirectHeaderLen, directHeaderLen]
    omega
  have again : IsData d := by
    have stands := Mem.receive_holds (fun _ => 0) d.bytes
    have front := (Mem.holds_append.mp (Mem.holds_append.mp stands).1).1
    rw [Mem.Holds, Mem.read_length] at front
    have first : Mem.padded d.bytes 0 = m 0 := Mem.eq_of_read_eq front (by decide : 0 < 3)
    refine ⟨length ▸ data.1, ?_⟩
    rw [Mem.get_u8, first, ← Mem.get_u8 m 0]
    exact data.2
  refine ⟨d, relayed, rfl, bound, ⟨fun _ => ?_, fun _ _ => ⟨_, _, _, arrives⟩, fun _ other => ?_⟩,
    ?_⟩
  · exact length.trans_le (sound.short data)
  · exact absurd bound (ne_true_of_eq_false other)
  · rw [carried_of_relay relay data, addressed]
    exact carried_of_arrives (l := ⟨l.datagram.dst, d⟩) bound again arrives

theorem dispatch_carries (s : SimpleFwd) (curTime : Timeval) (rest : Mem) {l : Letter}
    (sound : Sound client l) (relay : client l.datagram.dst = false) :
    let bytes := l.datagram.bytes.take corsMaxMsgSize
    let sent := (s.dispatch curTime (rest.receive bytes) bytes.length l.src).2
    (∀ d ∈ sent, ¬IsData d) ∨ ∃ d, sent = [d] ∧ Sound client ⟨l.datagram.dst, d⟩ ∧
      carried client ⟨l.datagram.dst, d⟩ = carried client l := by
  intro bytes sent
  by_cases data : IsData l.datagram
  · have whole : bytes = l.datagram.bytes := List.take_of_length_le (sound.short data)
    have own : IsData ⟨l.datagram.dst, bytes⟩ := by rwa [whole]
    have relays : sent = (s.processDataPacket curTime (rest.receive bytes) bytes.length l.src).2 :=
      congrArg Prod.snd (dispatch_data own)
    rw [whole] at relays
    by_cases stored : SessionKey.between l.src
        ((Mem.padded l.datagram.bytes).get SockaddrIn.format portOffset) ∈ s.fwdHmap
    · obtain ⟨d, own, -, -, kept, same⟩ := relayed_carries curTime rest sound relay data rfl stored
      exact .inr ⟨d, relays.trans own, kept, same⟩
    · left
      have ignored : ¬s.Relays (rest.receive l.datagram.bytes) l.datagram.bytes.length l.src := by
        rintro ⟨long, key⟩
        have seen : (rest.receive l.datagram.bytes).get SockaddrIn.format dataAddrOffset =
            (Mem.padded l.datagram.bytes).get SockaddrIn.format portOffset :=
          (Mem.receive_agree _ _ _).get _ long
        rw [SimpleFwd.dataKey, seen] at key
        exact stored key
      rw [relays, SimpleFwd.processDataPacket_ignored ignored]
      exact fun _ member => absurd member List.not_mem_nil
  · left
    intro d member
    have cut : ¬IsData ⟨l.datagram.dst, bytes⟩ := by
      rintro ⟨nonempty, kind⟩
      obtain ⟨whole, same⟩ := Mem.taken_kind (fun _ => 0) nonempty
      exact data ⟨whole, (congrArg PacketType.ofCode? same).symm.trans kind⟩
    exact dispatch_control cut member

end Letters

end Delivery

end Cors
