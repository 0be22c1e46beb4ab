import Cors.Client.SimpleMpathManager
import Cors.Proxy.Sessions

/-! # The data path from end to end

Sender, relay and receiver agree on the header byte for byte: whatever payload
stands in the send buffer arrives, from the original sender's address, over the
path the flag names. On a relayed turn of the round robin the payload is not in
the send buffer.
-/

namespace Cors

open ByteFormat

namespace SimpleMpathManager

/-- The flag by which the receiver tells the paths apart. -/
def IsDirect (d : Datagram) : Prop :=
  flagsDirect ((Mem.receive (fun _ => 0) d.bytes).get u8 flagsPos) = 1

/-- A datagram that comes in from `peeraddr` is parsed as the payload, sent by `src`. -/
def Arrives (payload : Bytes) (src : SockaddrIn) (flag : Int) (bytes : Bytes)
    (peeraddr : SockaddrIn) : Prop :=
  ∀ rest : Mem, ∃ parsed,
    parseDataPacket (rest.receive bytes) bytes.length peeraddr = some parsed ∧
    parsed.payload (rest.receive bytes) = payload ∧ parsed.bufsize = payload.length ∧
    parsed.saddr = src.addr ∧ parsed.sport = src.port ∧ parsed.flag = flag

/-- Every relay that stores the session passes the datagram on to `dst`, where it is
    parsed as the payload, whatever address the relay sends from. -/
def ArrivesByRelay (payload : Bytes) (src dst : SockaddrIn) (bytes : Bytes) : Prop :=
  ∀ (fwd : SimpleFwd) curTime rest, SessionKey.between src dst ∈ fwd.fwdHmap →
    ∃ d, (fwd.processDataPacket curTime (Mem.receive rest bytes) bytes.length src).2 = [d] ∧
      d.dst = dst ∧ ∀ peeraddr, Arrives payload src 1 d.bytes peeraddr

/-- What is sent from `src` reaches `dst` on the path it takes. -/
def Delivered (s : SimpleMpathManager) (payload : Bytes) (src dst : SockaddrIn)
    (d : Datagram) : Prop :=
  (IsDirect d → d.dst = dst ∧ Arrives payload src 0 d.bytes src) ∧
    (¬ IsDirect d →
      d.dst ∈ s.goodrelays.map (·.relay.sockaddr) ∧ ArrivesByRelay payload src dst d.bytes)

/-- The next turn of the round robin is the direct path's. -/
def DirectTurn (s : SimpleMpathManager) : Prop :=
  (s.curChannel + 1) % (s.goodrelays.length + 1) = s.goodrelays.length

instance : Decidable (DirectTurn s) := inferInstanceAs (Decidable (_ = _))

theorem isDirect_read {m : Mem} {len : Nat} {dst : SockaddrIn} (long : 2 ≤ len) :
    IsDirect ⟨dst, m.read 0 len⟩ ↔ flagsDirect (m.get u8 flagsPos) = 1 := by
  have seen : (Mem.receive (fun _ => 0) (m.read 0 len)).get u8 flagsPos = m.get u8 flagsPos :=
    Mem.receive_get _ m u8 long
  simp only [IsDirect, seen]

theorem direct_arrives {m : Mem} (header : m.get u8 flagsPos = packFlags version 1 0) (n : Nat)
    (src : SockaddrIn) :
    Arrives (m.read directHeaderLen n) src 0 (m.read 0 (n + directHeaderLen)) src := by
  intro rest
  have flags : (rest.receive (m.read 0 (n + directHeaderLen))).get u8 flagsPos =
      packFlags version 1 0 := by
    rw [Mem.receive_get rest m u8 (by simp [flagsPos, directHeaderLen]), header]
  have current : ¬ flagsVer (packFlags version 1 0) > version := by decide
  have direct : flagsDirect (packFlags version 1 0) = 1 := by decide
  refine ⟨⟨directHeaderLen, n, src.addr, src.port, 0⟩, ?_, ?_, ?_, rfl, rfl, rfl⟩
  · simp [parseDataPacket, flags, current, direct]
  · simp only [Parsed.payload, Int.toNat_natCast]
    exact Mem.receive_read rest m (by omega)
  · simp only [Mem.read_length]

/-- Whatever the relay, the datagram it passes on has the sender's address in the
    place of the destination's. -/
theorem relayed_datagram {m : Mem} {dst : SockaddrIn}
    (addressed : m.get SockaddrIn.format portOffset = dst) (n : Nat) {src : SockaddrIn}
    {fwd : SimpleFwd} (stored : SessionKey.between src dst ∈ fwd.fwdHmap) (curTime : Timeval)
    (rest : Mem) :
    (fwd.processDataPacket curTime (rest.receive (m.read 0 (n + indirectHeaderLen)))
        (n + indirectHeaderLen) src).2 =
      [⟨dst, m.read 0 directHeaderLen ++ SockaddrIn.format.encode src ++
        m.read indirectHeaderLen n⟩] := by
  let msg := rest.receive (m.read 0 (n + indirectHeaderLen))
  have seen : msg.get SockaddrIn.format dataAddrOffset = dst := by
    rw [← addressed]
    exact Mem.receive_get rest m _ (by simp [dataAddrOffset, indirectHeaderLen])
  have head : msg.read 0 dataAddrOffset = m.read 0 directHeaderLen :=
    Mem.receive_read rest m (by simp [dataAddrOffset, indirectHeaderLen])
  have tail : msg.read minDataPktLen n = m.read indirectHeaderLen n :=
    Mem.receive_read rest m (Nat.le_of_eq (Nat.add_comm _ _))
  have relays : fwd.Relays msg (n + indirectHeaderLen) src :=
    ⟨Nat.le_add_left _ _, by rwa [SimpleFwd.dataKey, seen]⟩
  have rewritten := (fwd.relaysExactly curTime msg (n + indirectHeaderLen) src).rewrites relays
  have size : n + indirectHeaderLen - minDataPktLen = n := Nat.add_sub_cancel n 9
  rwa [seen, head, size, tail] at rewritten

theorem relayed_arrives {m : Mem} (header : m.get u8 flagsPos = packFlags version 0 0) (n : Nat)
    (src peeraddr : SockaddrIn) :
    Arrives (m.read indirectHeaderLen n) src 1
      (m.read 0 directHeaderLen ++ SockaddrIn.format.encode src ++ m.read indirectHeaderLen n)
      peeraddr := by
  intro rest
  let bytes := m.read 0 directHeaderLen ++ SockaddrIn.format.encode src ++
    m.read indirectHeaderLen n
  let buff := rest.receive bytes
  have stands : buff.Holds 0 bytes := rest.receive_holds bytes
  obtain ⟨front, tail⟩ := Mem.holds_append.mp stands
  obtain ⟨head, address⟩ := Mem.holds_append.mp front
  simp only [List.length_append, Mem.read_length, encode_length, SockaddrIn.format_width] at tail
  simp only [Mem.read_length] at address
  have source : buff.get SockaddrIn.format portOffset = src := address.get
  have port : buff.get u16 portOffset = src.port := by
    rw [← source, Mem.get_port_addr]
  have addr : buff.get u32 addrOffset = src.addr := by
    rw [← source, Mem.get_port_addr]
    rfl
  have flags : buff.get u8 flagsPos = packFlags version 0 0 := by
    rw [← header]
    have same : buff.read 0 directHeaderLen = m.read 0 directHeaderLen := by
      simpa only [Mem.Holds, Mem.read_length] using head
    exact Mem.get_congr u8 fun i hi => by
      have first : i = 0 := Nat.lt_one_iff.mp hi
      simpa [first, flagsPos] using Mem.eq_of_read_eq same (by decide : 1 < directHeaderLen)
  have size : (bytes.length : Int) - indirectHeaderLen = n := by
    simp [bytes, directHeaderLen, indirectHeaderLen]
    omega
  have current : ¬ flagsVer (packFlags version 0 0) > version := by decide
  have relayed : ¬ flagsDirect (packFlags version 0 0) = 1 := by decide
  refine ⟨⟨indirectHeaderLen, n, src.addr, src.port, 1⟩, ?_, ?_, ?_, rfl, rfl, rfl⟩
  · simp only [parseDataPacket]
    simp only [flags, if_neg current, if_neg relayed, port, addr, size, buff, bytes]
  · have behind : buff.read (0 + (directHeaderLen + 6)) n = m.read indirectHeaderLen n := by
      simpa only [Mem.Holds, Mem.read_length] using tail
    simp only [Parsed.payload, Int.toNat_natCast]
    exact behind
  · simp only [Mem.read_length]

theorem Arrives.unique {payload payload' : Bytes} {src src' : SockaddrIn} {flag flag' : Int}
    {bytes : Bytes} {peeraddr : SockaddrIn} (one : Arrives payload src flag bytes peeraddr)
    (other : Arrives payload' src' flag' bytes peeraddr) : payload = payload' := by
  obtain ⟨parsed, ran, read, -⟩ := one fun _ => 0
  obtain ⟨parsed', ran', read', -⟩ := other fun _ => 0
  obtain rfl := Option.some.inj (ran.symm.trans ran')
  exact read.symm.trans read'

/-- A buffer with a relayed header arrives through the relays just in case the
    payload stands behind the header. -/
theorem arrivesByRelay_iff {m : Mem} (header : m.get u8 flagsPos = packFlags version 0 0)
    {dst : SockaddrIn} (addressed : m.get SockaddrIn.format portOffset = dst) (payload : Bytes)
    (src : SockaddrIn) :
    ArrivesByRelay payload src dst (m.read 0 (payload.length + indirectHeaderLen)) ↔
      m.read indirectHeaderLen payload.length = payload := by
  constructor
  · intro arrives
    let key := SessionKey.between src dst
    let fwd := { SimpleFwd.new 20 200 with
      fwdHmap := (∅ : Table SessionKey FwdRecords).insert key (.new ⟨0, 0⟩) }
    have stored : key ∈ fwd.fwdHmap := (AList.mem_insert _).mpr (.inl rfl)
    obtain ⟨d, sent, -, parsed⟩ := arrives fwd ⟨0, 0⟩ (fun _ => 0) stored
    rw [Mem.read_length, relayed_datagram addressed _ stored] at sent
    obtain ⟨rfl, -⟩ := List.cons.inj sent
    exact (relayed_arrives header _ src src).unique (parsed src)
  · intro stands fwd curTime rest stored
    have sent := relayed_datagram addressed payload.length stored curTime rest
    rw [Mem.read_length]
    refine ⟨_, sent, rfl, fun peeraddr => ?_⟩
    simpa only [stands] using relayed_arrives header payload.length src peeraddr

/-! ## The two headers -/

theorem putDirectHeader_flags (sbuf : Mem) (direct : UInt8) :
    (putDirectHeader sbuf direct).get u8 flagsPos = packFlags version direct 0 :=
  Mem.get_put _ u8 flagsPos _

theorem putIndirectHeader_flags (sbuf : Mem) (dst : SockaddrIn) :
    (putIndirectHeader sbuf dst).get u8 flagsPos = packFlags version 0 0 := by
  rw [putIndirectHeader, Mem.get_put_disjoint _ u16 u8 _ (.inl (by decide)),
    Mem.get_put_disjoint _ u32 u8 _ (.inl (by decide)), putDirectHeader_flags]

theorem putIndirectHeader_addressed (sbuf : Mem) (dst : SockaddrIn) :
    (putIndirectHeader sbuf dst).get SockaddrIn.format portOffset = dst := by
  have addr : (putIndirectHeader sbuf dst).get u32 addrOffset = dst.addr := by
    rw [putIndirectHeader, Mem.get_put_disjoint _ u16 u32 _ (.inr (by decide)), Mem.get_put]
  have port : (putIndirectHeader sbuf dst).get u16 portOffset = dst.port :=
    Mem.get_put _ u16 portOffset _
  rw [Mem.get_port_addr, port]
  exact congrArg (SockaddrIn.mk dst.port) addr

theorem putIndirectHeader_behind (sbuf : Mem) (dst : SockaddrIn) (n : Nat) :
    (putIndirectHeader sbuf dst).read indirectHeaderLen n = sbuf.read indirectHeaderLen n := by
  have apart : ∀ {α : Type} (m : Mem) (f : ByteFormat α) (pos : Nat) (x : α),
      pos + f.width ≤ indirectHeaderLen →
      (m.put f pos x).read indirectHeaderLen n = m.read indirectHeaderLen n := by
    intro α m f pos x before
    exact Mem.read_write_disjoint m _ (.inr (by rwa [f.encode_length]))
  rw [putIndirectHeader, apart _ u16 _ _ (by decide), apart _ u32 _ _ (by decide),
    putDirectHeader, apart _ u8 _ _ (by decide), apart _ u8 _ _ (by decide)]

/-! ## The datagrams that are sent -/

theorem direct_header (sbuf : Mem) (payload : Bytes) :
    ((putDirectHeader sbuf 1).write directHeaderLen payload).get u8 flagsPos =
      packFlags version 1 0 := by
  rw [Mem.get_write_disjoint _ _ _ (.inl (by decide))]
  exact putDirectHeader_flags sbuf 1

theorem direct_isDirect (sbuf : Mem) (payload : Bytes) (dst : SockaddrIn) :
    IsDirect ⟨dst, ((putDirectHeader sbuf 1).write directHeaderLen payload).read 0
      (payload.length + directHeaderLen)⟩ := by
  rw [isDirect_read (by simp [directHeaderLen]), direct_header]
  decide

theorem relayed_not_isDirect {m : Mem} (header : m.get u8 flagsPos = packFlags version 0 0)
    (n : Nat) (dst : SockaddrIn) : ¬IsDirect ⟨dst, m.read 0 (n + indirectHeaderLen)⟩ := by
  rw [isDirect_read (by simp [indirectHeaderLen]), header]
  decide

theorem mesh_header (junk : Mem) (dst : SockaddrIn) (payload : Bytes) :
    ((putIndirectHeader junk dst).write indirectHeaderLen payload).get u8 flagsPos =
      packFlags version 0 0 := by
  rw [Mem.get_write_disjoint _ _ _ (.inl (by decide))]
  exact putIndirectHeader_flags junk dst

theorem direct_delivered (s : SimpleMpathManager) (sbuf : Mem) (payload : Bytes)
    (src dst : SockaddrIn) :
    s.Delivered payload src dst
      ⟨dst, ((putDirectHeader sbuf 1).write directHeaderLen payload).read 0
        (payload.length + directHeaderLen)⟩ := by
  refine ⟨fun _ => ⟨rfl, ?_⟩, fun relayed => absurd (direct_isDirect sbuf payload dst) relayed⟩
  have arrives := direct_arrives (direct_header sbuf payload) payload.length src
  rwa [Mem.read_write] at arrives

theorem relayed_delivered_iff {s : SimpleMpathManager} {node : RelayNode}
    (good : node ∈ s.goodrelays) {m : Mem} (header : m.get u8 flagsPos = packFlags version 0 0)
    {dst : SockaddrIn} (addressed : m.get SockaddrIn.format portOffset = dst) (payload : Bytes)
    (src : SockaddrIn) :
    s.Delivered payload src dst
        ⟨node.relay.sockaddr, m.read 0 (payload.length + indirectHeaderLen)⟩ ↔
      m.read indirectHeaderLen payload.length = payload := by
  have relayed := relayed_not_isDirect header payload.length node.relay.sockaddr
  have listed : node.relay.sockaddr ∈ s.goodrelays.map (·.relay.sockaddr) :=
    List.mem_map_of_mem good
  simp only [Delivered, relayed, false_implies, true_and, not_false_iff, true_implies, listed,
    arrivesByRelay_iff header addressed]

theorem mesh_delivered (s : SimpleMpathManager) (sbuf : Mem) (payload : Bytes)
    (src dst : SockaddrIn) :
    ∀ d ∈ (s.sendPacket sbuf payload dst importance).2, s.Delivered payload src dst d := by
  intro d sent
  simp only [sendPacket, if_true, List.mem_cons, List.mem_map] at sent
  rcases sent with rfl | ⟨node, good, rfl⟩
  · exact direct_delivered s sbuf payload src dst
  · let junk := (putDirectHeader sbuf 1).write directHeaderLen payload
    let m := (putIndirectHeader junk dst).write indirectHeaderLen payload
    have header : m.get u8 flagsPos = packFlags version 0 0 := mesh_header junk dst payload
    have addressed : m.get SockaddrIn.format portOffset = dst := by
      rw [Mem.get_write_disjoint _ _ _ (.inl (by decide))]
      exact putIndirectHeader_addressed junk dst
    exact (relayed_delivered_iff good header addressed payload src).mpr (Mem.read_write _ _ _)

/-- A turn of the round robin delivers on the direct path, and on a relayed path if
    the payload happens to stand in the send buffer. -/
theorem roundRobin_delivered_iff (s : SimpleMpathManager) (sbuf : Mem) (payload : Bytes)
    (src dst : SockaddrIn) :
    (∀ d ∈ (s.sendPacket sbuf payload dst normal).2, s.Delivered payload src dst d) ↔
      s.DirectTurn ∨ sbuf.read indirectHeaderLen payload.length = payload := by
  have other : ¬ normal = importance := by decide
  have bound : (s.curChannel + 1) % (s.goodrelays.length + 1) < s.goodrelays.length + 1 :=
    Nat.mod_lt _ (Nat.succ_pos _)
  simp only [sendPacket, if_neg other, if_true]
  cases turn : s.goodrelays[(s.curChannel + 1) % (s.goodrelays.length + 1)]? with
  | none =>
      have last : s.DirectTurn := by
        have beyond := List.getElem?_eq_none_iff.mp turn
        simp only [DirectTurn]
        omega
      simp only [List.mem_singleton, forall_eq, last, true_or, iff_true]
      exact direct_delivered s sbuf payload src dst
  | some node =>
      have early : ¬ s.DirectTurn := by
        obtain ⟨inside, -⟩ := List.getElem?_eq_some_iff.mp turn
        simp only [DirectTurn]
        omega
      simp only [List.mem_singleton, forall_eq, early, false_or]
      rw [← putIndirectHeader_behind sbuf dst]
      exact relayed_delivered_iff (List.mem_of_getElem? turn) (putIndirectHeader_flags sbuf dst)
        (putIndirectHeader_addressed sbuf dst) payload src

/-- Everything that is sent is delivered, except on a relayed turn of the round robin
    with other bytes than the payload in the send buffer. -/
theorem data_path_iff (s : SimpleMpathManager) (sbuf : Mem) (payload : Bytes)
    (src dst : SockaddrIn) (significance : UInt8) :
    (∀ d ∈ (s.sendPacket sbuf payload dst significance).2, s.Delivered payload src dst d) ↔
      (significance = normal →
        s.DirectTurn ∨ sbuf.read indirectHeaderLen payload.length = payload) := by
  by_cases mesh : significance = importance
  · have other : ¬ significance = normal := by
      rw [mesh]
      decide
    simp only [other, false_implies, iff_true]
    exact mesh ▸ mesh_delivered s sbuf payload src dst
  · by_cases robin : significance = normal
    · simp only [robin, roundRobin_delivered_iff, true_implies]
    · have silent : (s.sendPacket sbuf payload dst significance).2 = [] := by
        simp [sendPacket, mesh, robin]
      simp [silent, robin]

/-- The first turn of the round robin with two relays and the payload `[1]`: a zero
    from the send buffer arrives in its place. -/
theorem relayed_turn_loses_payload :
    ¬ ∀ (s : SimpleMpathManager) sbuf payload src dst significance,
      payload.length + indirectHeaderLen ≤ corsMaxMsgSize →
      significance = importance ∨ significance = normal →
      ∀ d ∈ (s.sendPacket sbuf payload dst significance).2, s.Delivered payload src dst d := by
  intro always
  let node (port : UInt16) : RelayNode := ⟨{ zeroEndPoint with port }, 0, 0, 0⟩
  let s : SimpleMpathManager := ⟨0, [node 1, node 2]⟩
  have delivered := always s (fun _ => 0) [1] ⟨0, 0⟩ ⟨0, 0⟩ normal (by decide) (.inr rfl)
  have stands := (roundRobin_delivered_iff s (fun _ => 0) [1] ⟨0, 0⟩ ⟨0, 0⟩).mp delivered
  exact absurd stands (by decide)

end SimpleMpathManager

end Cors
