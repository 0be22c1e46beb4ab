import Cors.Lib.Network
import Cors.Client.CorsSocket
import Cors.Client.StatPath
import Cors.Proxy.CorsProxy

/-! # Counting windows

A sender, a receiver and the packet forwarders of any number of proxies, one at every other
address. What is sent is in flight until it is handled, in any order and any number of times.

At the end of a window it is noted what the sender has counted for each relay. In the pause that
follows, a letter that is sent over a relay of the window is marked with that count: once the
letter is there, the receiver owes a report that says the same. No party sees the marks.
-/

namespace Cors

open ByteFormat

open SimpleMpathManager (flagsPos flagsDirect packFlags putDirectHeader_flags)

namespace StatMpathManager

/-- The constructor, in a process that has sent nothing. -/
def new (statOn statOff : Int) : StatMpathManager where
  statOn := statOn
  statOff := statOff
  goodrelays := []
  badrelays := []
  sndMap := ∅
  revMap := ∅
  curChannel := 0
  bstat := true
  sendNum := 0

/-- What `recvfrom` of the socket does with the manager. -/
def recvfrom (s : StatMpathManager) (junk : Mem) (curTime : Timeval) (msg : Mem) (len : Nat)
    (peeraddr : SockaddrIn) : StatMpathManager × List Datagram :=
  if len > 0 then
    match PacketType.ofCode? (msg.get u8 0) with
    | some .data =>
        let (s, sent, _) := s.parseDataPacket junk curTime msg len peeraddr
        (s, sent)
    | some .stat => (s.processPathStatistics msg, [])
    | _ => (s, [])
  else
    (s, [])

theorem recvfrom_mpthmgr {s : CorsSocket} {mgr : StatMpathManager} (stat : s.mpthmgr = .stat mgr)
    (amb : CorsSocket.Ambient) (datagram : Bytes) (peeraddr : SockaddrIn) :
    (s.recvfrom amb datagram peeraddr).socket.mpthmgr =
      .stat (mgr.recvfrom amb.junk amb.tmNow (s.msg.receive (datagram.take corsMaxMsgSize))
        (datagram.take corsMaxMsgSize).length peeraddr).1 := by
  unfold CorsSocket.recvfrom recvfrom
  rw [stat]
  dsimp only
  split
  · cases PacketType.ofCode? ((s.msg.receive (datagram.take corsMaxMsgSize)).get u8 0) with
    | none => rfl
    | some type => cases type <;> rfl
  · rfl

end StatMpathManager

namespace Counting

/-- What a report says, and the window of the packet it answers. -/
structure Report where
  window : Nat
  relay : UInt32
  count : UInt32
  deriving DecidableEq

structure Letter where
  datagram : Datagram
  source : SockaddrIn
  window : Nat
  due : Option UInt32

structure Parties where
  sender : StatMpathManager
  receiver : StatMpathManager
  src : SockaddrIn
  dst : SockaddrIn
  relays : SockaddrIn → SimpleFwd
  window : Nat
  counted : UInt32 → UInt32
  reported : List Report

/-- What the sender does, and what happens to a relay for other reasons. -/
inductive Action where
  | sendPacket (sbuf : Mem) (buff : Bytes) (significance : UInt8)
  | getRequirement (relaylist : List RelayNode) (rq : Requirement)
  | releaseResources
  | other (a : SockaddrIn) (e : SimpleFwd.Event)

/-- The count that is owed for a packet. -/
def due (n : Parties) (d : Datagram) : Option UInt32 :=
  if n.sender.bstat = false ∧ d.dst ≠ n.dst ∧ 0 < n.counted d.dst.addr then
    some (n.counted d.dst.addr)
  else
    none

/-- At the end of a window its number goes up, and the counts are noted. -/
def noted (n : Parties) (sender : StatMpathManager) : Parties :=
  if n.sender.bstat && !sender.bstat then
    { n with
      sender
      window := n.window + 1
      counted := fun addr => (sender.sndMap.lookup addr).getD 0 }
  else
    { n with sender }

def act (n : Parties) : Action → Parties × List Letter
  | .sendPacket sbuf buff significance =>
      let (sender, sent) := n.sender.sendPacket sbuf buff n.dst significance
      (noted n sender, sent.map fun d => ⟨d, n.src, n.window, due n d⟩)
  | .getRequirement relaylist rq =>
      ({ n with sender := (n.sender.getRequirement relaylist rq).2 }, [])
  | .releaseResources => ({ n with sender := n.sender.releaseResources }, [])
  | .other a e => ({ n with relays := Function.update n.relays a ((n.relays a).step e) }, [])

/-- The readings of the party that handles a letter, and what is in its buffers. -/
structure Reading where
  curTime : Timeval
  junk : Mem
  msg : Mem

def Report.read (window : Nat) (d : Datagram) : Report where
  window := window
  relay := (Mem.padded d.bytes).get u32 Stat.addrPos
  count := ntohl ((Mem.padded d.bytes).get u32 Stat.pktPos)

def handle (n : Parties) (r : Reading) (l : Letter) : Parties × List Letter :=
  let bytes := l.datagram.bytes.take corsMaxMsgSize
  let msg := r.msg.receive bytes
  if l.datagram.dst = n.dst then
    let (receiver, sent) := n.receiver.recvfrom r.junk r.curTime msg bytes.length l.source
    ({ n with receiver, reported := n.reported ++ sent.map (Report.read l.window) },
      sent.map fun d => ⟨d, n.dst, l.window, none⟩)
  else if l.datagram.dst = n.src then
    let (sender, sent) := n.sender.recvfrom r.junk r.curTime msg bytes.length l.source
    ({ n with sender }, sent.map fun d => ⟨d, n.src, l.window, none⟩)
  else
    let relay := l.datagram.dst
    let (fwd, sent) := (n.relays relay).dispatch r.curTime msg bytes.length l.source
    ({ n with relays := Function.update n.relays relay fwd },
      sent.map fun d => { l with datagram := d, source := relay })

abbrev Event := Network.Event Action Reading

def step : Network Parties Letter → Event → Network Parties Letter := Network.step act handle

/-- Both managers are new. -/
def start (sender receiver : Int × Int) (src dst : SockaddrIn) (relays : SockaddrIn → SimpleFwd) :
    Network Parties Letter where
  nodes :=
    { sender := .new sender.1 sender.2
      receiver := .new receiver.1 receiver.2
      src
      dst
      relays
      window := 0
      counted := fun _ => 0
      reported := [] }
  flight := []

/-- A marked letter that reaches the receiver is answered by a report, then or before. -/
def Reports (s : Network Parties Letter) : Event → Prop
  | .act _ => True
  | .deliver k keep r => ∀ l count, s.flight[k]? = some l → l.datagram.dst = s.nodes.dst →
      l.due = some count →
      ⟨l.window, l.source.addr, count⟩ ∈ (step s (.deliver k keep r)).nodes.reported

/-- What reaches the receiver was not sent over a relay of a window that had ended. -/
def Undue (s : Network Parties Letter) : Event → Prop
  | .act _ => True
  | .deliver k _ _ => ∀ l, s.flight[k]? = some l → l.datagram.dst = s.nodes.dst → l.due = none

/-! ## Headers -/

/-- The first two bytes of a packet that is read as a relayed one, in a pause. -/
def Plain (bytes : Bytes) : Prop :=
  ∃ rest, bytes = PacketType.data.code :: packFlags version 0 0 :: rest

/-- A buffer with such a packet. -/
structure Headed (m : Mem) : Prop where
  type : m 0 = PacketType.data.code
  flags : m 1 = packFlags version 0 0

theorem Headed.read {m : Mem} (headed : Headed m) {len : Nat} (long : 2 ≤ len) :
    Plain (m.read 0 len) := by
  obtain ⟨n, rfl⟩ := Nat.exists_eq_add_of_le' long
  exact ⟨m.read 2 n, by rw [Mem.read, Mem.read, headed.type, headed.flags]⟩

theorem Headed.write {m : Mem} (headed : Headed m) {pos : Nat} (behind : 2 ≤ pos) (l : Bytes) :
    Headed (m.write pos l) where
  type := (Mem.write_of_lt m l (by omega)).trans headed.type
  flags := (Mem.write_of_lt m l (by omega)).trans headed.flags

theorem headed_direct (sbuf : Mem) (bstat : Bool) :
    Headed (StatMpathManager.putDirectHeader sbuf bstat) := by
  rw [StatMpathManager.putDirectHeader_eq]
  exact ⟨rfl, rfl⟩

theorem headed_indirect (sbuf : Mem) (bstat : Bool) (dst : SockaddrIn) :
    Headed (StatMpathManager.putIndirectHeader sbuf bstat dst) := by
  rw [StatMpathManager.putIndirectHeader]
  exact ((headed_direct sbuf bstat).write (by decide) _).write (by decide) _

/-- Whatever is sent, in a window or in a pause, is marked as sent in a pause. -/
theorem sendPacket_plain (s : StatMpathManager) (sbuf : Mem) (buff : Bytes) (dst : SockaddrIn)
    (significance : UInt8) : ∀ d ∈ (s.sendPacket sbuf buff dst significance).2, Plain d.bytes := by
  have direct := headed_direct sbuf s.bstat
  have long : 2 ≤ buff.length + directHeaderLen := by
    rw [directHeaderLen]
    omega
  have long' : 2 ≤ buff.length + indirectHeaderLen := by
    rw [indirectHeaderLen]
    omega
  have transmitted : (s.sendPacket sbuf buff dst significance).2 =
      (s.transmit sbuf buff dst significance).2 := rfl
  rw [transmitted]
  unfold StatMpathManager.transmit
  intro d sent
  split at sent
  · cases List.mem_cons.mp sent with
    | inl first => exact first ▸ (direct.write (by decide) buff).read long
    | inr later =>
        obtain ⟨node, -, rfl⟩ := List.mem_map.mp later
        exact ((headed_indirect _ _ _).write (by decide) buff).read long'
  · split at sent
    · dsimp only at sent
      split at sent
      · obtain rfl := List.mem_singleton.mp sent
        exact (direct.write (by decide) buff).read long
      · obtain rfl := List.mem_singleton.mp sent
        exact (headed_indirect _ _ _).read long'
    · cases sent

theorem plain_headed (rest : Mem) {bytes : Bytes} (plain : Plain bytes) :
    Headed (rest.receive bytes) := by
  obtain ⟨tail, rfl⟩ := plain
  exact ⟨rfl, rfl⟩

theorem Plain.take {bytes : Bytes} (plain : Plain bytes) : Plain (bytes.take corsMaxMsgSize) := by
  obtain ⟨tail, rfl⟩ := plain
  exact ⟨tail.take 2046, rfl⟩

theorem Headed.ofCode {m : Mem} (headed : Headed m) :
    PacketType.ofCode? (m.get u8 0) = some .data := by
  rw [Mem.get_u8, headed.type]
  rfl

/-- A manager that has counted nothing does not count a plain packet, nor send a report. -/
theorem recvfrom_plain {s : StatMpathManager} (nothing : s.revMap = ∅) (junk : Mem)
    (curTime : Timeval) {msg : Mem} (headed : Headed msg) (len : Nat) (peeraddr : SockaddrIn) :
    s.recvfrom junk curTime msg len peeraddr = (s, []) := by
  have flags : msg.get u8 flagsPos = packFlags version 0 0 := (Mem.get_u8 _ _).trans headed.flags
  have current : ¬SimpleMpathManager.flagsVer (packFlags version 0 0) > version := by decide
  have relayed : ¬flagsDirect (packFlags version 0 0) = 1 := by decide
  have pause : ¬StatMpathManager.flagsControl (packFlags version 0 0) ≥ four := by decide
  have unknown : s.revMap.lookup peeraddr.addr = none := nothing ▸ AList.lookup_empty _
  unfold StatMpathManager.recvfrom
  split
  · simp only [headed.ofCode, StatMpathManager.parseDataPacket, flags, if_neg current,
      if_neg relayed, StatMpathManager.countReceived, if_neg pause, unknown]
  · rfl

theorem dispatch_plain (fwd : SimpleFwd) (curTime : Timeval) {msg : Mem} (headed : Headed msg)
    (len : Nat) (peeraddr : SockaddrIn) :
    ∀ d ∈ (fwd.dispatch curTime msg len peeraddr).2, Plain d.bytes := by
  unfold SimpleFwd.dispatch
  intro d sent
  split at sent
  · simp only [headed.ofCode, SimpleFwd.processDataPacket] at sent
    split at sent
    · rename_i long
      split at sent
      · obtain rfl := List.mem_singleton.mp sent
        refine (headed.write (by decide) _).read ?_
        exact Nat.le_trans (by decide) long
      · cases sent
    · cases sent
  · cases sent

/-! ## Nothing is counted -/

/-- Neither party has counted a packet, and there was no report. -/
structure Silent (n : Parties) : Prop where
  sender : n.sender.revMap = ∅
  receiver : n.receiver.revMap = ∅
  reported : n.reported = []

def Quiet : Network Parties Letter → Prop :=
  Network.Holds Silent fun l => Plain l.datagram.bytes

theorem sendPacket_revMap (s : StatMpathManager) (sbuf : Mem) (buff : Bytes) (dst : SockaddrIn)
    (significance : UInt8) : (s.sendPacket sbuf buff dst significance).1.revMap = s.revMap := by
  have counts (s : StatMpathManager) (addr : UInt32) : (s.countSent addr).revMap = s.revMap := by
    unfold StatMpathManager.countSent
    split <;> rfl
  have turns (s : StatMpathManager) : s.turnWindow.revMap = s.revMap := by
    unfold StatMpathManager.turnWindow
    dsimp only
    split
    · rfl
    · split <;> rfl
  have all (l : List RelayNode) (s : StatMpathManager) :
      (l.foldl (fun s node => s.countSent node.relay.addr) s).revMap = s.revMap := by
    induction l generalizing s with
    | nil => rfl
    | cons node rest ih => exact (ih _).trans (counts s _)
  have turned : (s.sendPacket sbuf buff dst significance).1.revMap =
      (s.transmit sbuf buff dst significance).1.revMap := turns _
  rw [turned]
  unfold StatMpathManager.transmit
  split
  · exact all _ _
  · split
    · dsimp only
      split
      · rfl
      · exact counts _ _
    · rfl

theorem getRequirement_revMap (s : StatMpathManager) (relaylist : List RelayNode)
    (rq : Requirement) : (s.getRequirement relaylist rq).2.revMap = s.revMap := by
  unfold StatMpathManager.getRequirement
  split
  · rfl
  · dsimp only
    split <;> rfl

theorem noted_silent {n : Parties} (silent : Silent n) {sender : StatMpathManager}
    (nothing : sender.revMap = ∅) : Silent (noted n sender) := by
  unfold noted
  split
  · exact ⟨nothing, silent.receiver, silent.reported⟩
  · exact ⟨nothing, silent.receiver, silent.reported⟩

theorem act_quiet (n : Parties) (a : Action) (silent : Silent n) :
    Silent (act n a).1 ∧ ∀ l ∈ (act n a).2, Plain l.datagram.bytes := by
  cases a with
  | sendPacket sbuf buff significance =>
      refine ⟨noted_silent silent ((sendPacket_revMap _ _ _ _ _).trans silent.sender), ?_⟩
      intro l sent
      obtain ⟨d, own, rfl⟩ := List.mem_map.mp sent
      exact sendPacket_plain _ _ _ _ _ d own
  | getRequirement relaylist rq =>
      refine ⟨⟨?_, silent.receiver, silent.reported⟩, fun l sent => nomatch sent⟩
      exact (getRequirement_revMap _ _ _).trans silent.sender
  | releaseResources =>
      exact ⟨⟨rfl, silent.receiver, silent.reported⟩, fun l sent => nomatch sent⟩
  | other a e =>
      exact ⟨⟨silent.sender, silent.receiver, silent.reported⟩, fun l sent => nomatch sent⟩

theorem handle_quiet (n : Parties) (r : Reading) (l : Letter) (silent : Silent n)
    (plain : Plain l.datagram.bytes) :
    Silent (handle n r l).1 ∧ ∀ l' ∈ (handle n r l).2, Plain l'.datagram.bytes := by
  have headed := plain_headed r.msg plain.take
  unfold handle
  dsimp only
  split
  · rw [recvfrom_plain silent.receiver _ _ headed]
    exact ⟨⟨silent.sender, silent.receiver, by rw [List.map_nil, List.append_nil, silent.reported]⟩,
      fun l' sent => nomatch sent⟩
  · split
    · rw [recvfrom_plain silent.sender _ _ headed]
      exact ⟨⟨silent.sender, silent.receiver, silent.reported⟩, fun l' sent => nomatch sent⟩
    · refine ⟨⟨silent.sender, silent.receiver, silent.reported⟩, fun l' sent => ?_⟩
      obtain ⟨d, passed, rfl⟩ := List.mem_map.mp sent
      exact dispatch_plain _ _ headed _ _ d passed

theorem step_quiet (s : Network Parties Letter) (e : Event) (quiet : Quiet s) : Quiet (step s e) :=
  Network.step_holds act_quiet handle_quiet s e quiet

/-- There is a report for everything that is due just in case nothing is. -/
theorem reports_iff_undue {s : Network Parties Letter} (quiet : Quiet s) (e : Event) :
    Reports s e ↔ Undue s e := by
  cases e with
  | act a => exact Iff.rfl
  | deliver k keep r =>
      have none_reported : (step s (.deliver k keep r)).nodes.reported = [] :=
        (step_quiet s (.deliver k keep r) quiet).1.reported
      simp only [Reports, Undue, none_reported, List.not_mem_nil, imp_false]
      constructor
      · intro reports l flies arrives
        exact Option.eq_none_iff_forall_ne_some.mpr fun count => reports l count flies arrives
      · intro undue l count flies arrives
        exact Option.eq_none_iff_forall_ne_some.mp (undue l flies arrives) count

/-! ## Runs -/

theorem start_quiet (sender receiver : Int × Int) (src dst : SockaddrIn)
    (relays : SockaddrIn → SimpleFwd) : Quiet (start sender receiver src dst relays) :=
  ⟨⟨rfl, rfl, rfl⟩, fun _ flies => nomatch flies⟩

/-- In every run, and whatever is lost, duplicated or overtaken: what is due is reported just in
    case nothing is ever due. -/
theorem reported_iff (sender receiver : Int × Int) (src dst : SockaddrIn)
    (relays : SockaddrIn → SimpleFwd) (es : List Event) :
    (∀ visit ∈ Run.visits step (start sender receiver src dst relays) es,
        Reports visit.1 visit.2) ↔
      ∀ visit ∈ Run.visits step (start sender receiver src dst relays) es,
        Undue visit.1 visit.2 := by
  have quiet := Run.visits_of_invariant (start_quiet sender receiver src dst relays) step_quiet es
  refine forall_congr' fun visit => forall_congr' fun visited => ?_
  exact reports_iff_undue (quiet visit visited) visit.2

/-! ## A second packet -/

/-- Datagrams come in once each and in the order in which they were sent, relays pass on what
    they get, and no report is on its way when a window starts. -/
def Regular (s : Network Parties Letter) : Event → Prop
  | .act a => s.nodes.sender.bstat = false → (act s.nodes a).1.sender.bstat = true →
      ∀ l ∈ s.flight, l.datagram.bytes.head? ≠ some PacketType.stat.code
  | .deliver k keep r => k = 0 ∧ keep = false ∧ ∀ l ∈ s.flight.head?,
      l.datagram.dst = s.nodes.dst ∨ l.datagram.dst = s.nodes.src ∨
        (handle s.nodes r l).2.isEmpty = false

instance (s : Network Parties Letter) (e : Event) : Decidable (Regular s e) := by
  cases e with
  | act a => exact inferInstanceAs (Decidable (_ → _))
  | deliver k keep r => exact inferInstanceAs (Decidable (_ ∧ _))

namespace SecondPacket

def src : SockaddrIn := ⟨2, 2⟩
def dst : SockaddrIn := ⟨3, 3⟩

/-- The forwarder stores the session. -/
def fwd : SimpleFwd := (SimpleFwd.new 20 200 |>.reserve ⟨0, 0⟩ (.between src dst) 10).1

def begin : Network Parties Letter := start (1, 10) (1, 10) src dst fun _ => fwd

def select : Event := .act (.getRequirement [⟨⟨0, 1, 1, 0⟩, 0, 0, 10⟩] ⟨0, 10, 0, 1⟩)
def send : Event := .act (.sendPacket (fun _ => 0) [7] importance)
def come : Event := .deliver 0 false ⟨⟨0, 0⟩, fun _ => 0, fun _ => 0⟩

/-- A packet of importance goes directly and over the relay; it is the whole window. Then
    another one does. -/
def events : List Event := [select, send, come, come, come, send, come, come]

theorem owed : ∃ l, (Run.final step begin events).flight[0]? = some l ∧
    l.datagram.dst = dst ∧ l.due = some 1 :=
  ⟨_, rfl, by decide, by decide⟩

end SecondPacket

/-- The relay has had one packet in the window, and one in the pause. -/
theorem second_packet_not_reported :
    ¬ ∀ sender receiver src dst relays es,
      let first := start sender receiver src dst relays
      (∀ visit ∈ Run.visits step first es, Regular visit.1 visit.2) →
      (Run.final step first es).flight = [] →
      ∀ visit ∈ Run.visits step first es, Reports visit.1 visit.2 := by
  intro always
  have reports := always (1, 10) (1, 10) SecondPacket.src SecondPacket.dst
    (fun _ => SecondPacket.fwd) (SecondPacket.events ++ [SecondPacket.come]) (by decide) rfl
  rw [Run.visits_concat] at reports
  have last := reports _ (List.mem_append_right _ (List.mem_singleton_self _))
  obtain ⟨l, flies, arrives, owes⟩ := SecondPacket.owed
  exact absurd (last l 1 flies arrives owes) List.not_mem_nil

end Counting

end Cors
