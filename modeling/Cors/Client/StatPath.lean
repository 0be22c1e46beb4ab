import Cors.Client.DataPath
import Cors.Client.StatMpathManager

/-! # The data path of the statistics manager

The phase of the window is put into the one bit of `direct`, from constants whose lowest bit is
zero, and `control` is always zero. So both headers are relayed ones in either phase: what goes
over a relay is read right, and what is sent directly never is.
-/

namespace Cors

open ByteFormat

namespace StatMpathManager

open SimpleMpathManager (flagsPos flagsVer flagsDirect packFlags Parsed Arrives ArrivesByRelay
  relayed_datagram)

/-! ## The headers -/

theorem directBit_eq (bstat : Bool) : directBit bstat = 0 := by cases bstat <;> decide

theorem putDirectHeader_eq (sbuf : Mem) (bstat : Bool) :
    putDirectHeader sbuf bstat = SimpleMpathManager.putDirectHeader sbuf 0 := by
  rw [putDirectHeader, directBit_eq]
  rfl

theorem putIndirectHeader_eq (sbuf : Mem) (bstat : Bool) (dst : SockaddrIn) :
    putIndirectHeader sbuf bstat dst = SimpleMpathManager.putIndirectHeader sbuf dst := by
  rw [putIndirectHeader, putDirectHeader_eq]
  rfl

/-- What is returned does not depend on the counters. -/
theorem parseDataPacket_eq (s : StatMpathManager) (junk : Mem) (curTime : Timeval) (buff : Mem)
    (bufsize : Int) (peeraddr : SockaddrIn) :
    (s.parseDataPacket junk curTime buff bufsize peeraddr).2.2 =
      SimpleMpathManager.parseDataPacket buff bufsize peeraddr := by
  simp only [parseDataPacket, SimpleMpathManager.parseDataPacket]
  split
  · rfl
  · split <;> rfl

/-! ## Decoding -/

/-- Whatever the receiver has counted, it reads the payload, sent by `src`. -/
def Decodes (payload : Bytes) (src : SockaddrIn) (flag : Int) (bytes : Bytes)
    (peeraddr : SockaddrIn) : Prop :=
  ∀ (s : StatMpathManager) (junk : Mem) (curTime : Timeval) (rest : Mem), ∃ parsed,
    (s.parseDataPacket junk curTime (rest.receive bytes) bytes.length peeraddr).2.2 = some parsed ∧
    parsed.payload (rest.receive bytes) = payload ∧ parsed.bufsize = payload.length ∧
    parsed.saddr = src.addr ∧ parsed.sport = src.port ∧ parsed.flag = flag

/-- Every relay that stores the session passes the datagram on to `dst`, where it is read. -/
def DecodesByRelay (payload : Bytes) (src dst : SockaddrIn) (bytes : Bytes) : Prop :=
  ∀ (fwd : SimpleFwd) curTime rest, SessionKey.between src dst ∈ fwd.fwdHmap →
    ∃ d, (fwd.processDataPacket curTime (Mem.receive rest bytes) bytes.length src).2 = [d] ∧
      d.dst = dst ∧ ∀ peeraddr, Decodes payload src 1 d.bytes peeraddr

/-- What becomes of the datagrams of a mesh sending: the first one goes directly, and each of
    the others to a relay. -/
def Decoded (s : StatMpathManager) (payload : Bytes) (src dst : SockaddrIn) :
    Nat → Datagram → Prop
  | 0, d => d.dst = dst ∧ Decodes payload src 0 d.bytes src
  | i + 1, d => (s.goodrelays.map fun node => node.relay.sockaddr)[i]? = some d.dst ∧
      DecodesByRelay payload src dst d.bytes

theorem decodes_iff (payload : Bytes) (src : SockaddrIn) (flag : Int) (bytes : Bytes)
    (peeraddr : SockaddrIn) :
    Decodes payload src flag bytes peeraddr ↔ Arrives payload src flag bytes peeraddr := by
  constructor
  · intro decodes rest
    obtain ⟨parsed, read, rest⟩ :=
      decodes ⟨0, 0, [], [], ∅, ∅, 0, true, 0⟩ (fun _ => 0) ⟨0, 0⟩ rest
    exact ⟨parsed, (parseDataPacket_eq _ _ _ _ _ _).symm.trans read, rest⟩
  · intro arrives s junk curTime rest
    obtain ⟨parsed, read, rest⟩ := arrives rest
    exact ⟨parsed, (parseDataPacket_eq _ _ _ _ _ _).trans read, rest⟩

theorem decodesByRelay_iff (payload : Bytes) (src dst : SockaddrIn) (bytes : Bytes) :
    DecodesByRelay payload src dst bytes ↔ ArrivesByRelay payload src dst bytes := by
  simp only [DecodesByRelay, ArrivesByRelay, decodes_iff]

/-- A header without the bit of `direct` is read as a relayed one. -/
theorem not_decodes_direct {m : Mem} (header : m.get u8 flagsPos = packFlags version 0 0)
    {len : Nat} (long : 2 ≤ len) (payload : Bytes) (src peeraddr : SockaddrIn) :
    ¬Decodes payload src 0 (m.read 0 len) peeraddr := by
  rw [decodes_iff]
  intro arrives
  obtain ⟨parsed, read, -, -, -, -, flag⟩ := arrives fun _ => 0
  have flags : (Mem.receive (fun _ => 0) (m.read 0 len)).get u8 flagsPos = packFlags version 0 0 :=
    (Mem.receive_get _ m u8 long).trans header
  have current : ¬flagsVer (packFlags version 0 0) > version := by decide
  have relayed : ¬flagsDirect (packFlags version 0 0) = 1 := by decide
  simp only [SimpleMpathManager.parseDataPacket, flags, if_neg current, if_neg relayed] at read
  obtain rfl := Option.some.inj read
  cases flag

/-! ## Mesh sending -/

theorem sendPacket_mesh (s : StatMpathManager) (sbuf : Mem) (payload : Bytes) (dst : SockaddrIn) :
    (s.sendPacket sbuf payload dst importance).2 =
      let junk := (SimpleMpathManager.putDirectHeader sbuf 0).write directHeaderLen payload
      let m := (SimpleMpathManager.putIndirectHeader junk dst).write indirectHeaderLen payload
      ⟨dst, junk.read 0 (payload.length + directHeaderLen)⟩ ::
        s.goodrelays.map fun node =>
          ⟨node.relay.sockaddr, m.read 0 (payload.length + indirectHeaderLen)⟩ := by
  simp only [sendPacket, transmit, if_true, putDirectHeader_eq, putIndirectHeader_eq]

theorem written_flags (m : Mem) {pos : Nat} (behind : 2 ≤ pos) (l : Bytes) :
    (m.write pos l).get u8 flagsPos = m.get u8 flagsPos :=
  Mem.get_write_disjoint m u8 l (.inl behind)

/-- Of the datagrams of a mesh sending, those that go to relays are read right, in either phase
    of the window, and the direct one is not. -/
theorem mesh_decoded_iff (s : StatMpathManager) (sbuf : Mem) (payload : Bytes)
    (src dst : SockaddrIn) {i : Nat} {d : Datagram}
    (sent : (s.sendPacket sbuf payload dst importance).2[i]? = some d) :
    s.Decoded payload src dst i d ↔ 0 < i := by
  rw [sendPacket_mesh] at sent
  dsimp only at sent
  let junk := (SimpleMpathManager.putDirectHeader sbuf 0).write directHeaderLen payload
  let m := (SimpleMpathManager.putIndirectHeader junk dst).write indirectHeaderLen payload
  cases i with
  | zero =>
      obtain rfl := Option.some.inj sent
      refine iff_of_false (fun decoded => ?_) (Nat.lt_irrefl 0)
      have header : junk.get u8 flagsPos = packFlags version 0 0 := by
        rw [written_flags _ (by decide), SimpleMpathManager.putDirectHeader_flags]
      have long : 2 ≤ payload.length + directHeaderLen := by
        rw [directHeaderLen]
        omega
      exact not_decodes_direct header long payload src src decoded.2
  | succ i =>
      refine iff_of_true ?_ (Nat.succ_pos i)
      rw [List.getElem?_cons_succ, List.getElem?_map, Option.map_eq_some_iff] at sent
      obtain ⟨node, good, rfl⟩ := sent
      refine ⟨by rw [List.getElem?_map, good, Option.map_some], ?_⟩
      have header : m.get u8 flagsPos = packFlags version 0 0 := by
        rw [written_flags _ (by decide), SimpleMpathManager.putIndirectHeader_flags]
      have addressed : m.get SockaddrIn.format portOffset = dst := by
        rw [Mem.get_write_disjoint _ _ _ (.inl (by decide))]
        exact SimpleMpathManager.putIndirectHeader_addressed junk dst
      rw [decodesByRelay_iff, SimpleMpathManager.arrivesByRelay_iff header addressed]
      exact Mem.read_write _ _ _

/-- A manager with one relay, in the first window. -/
def oneRelay (statOn statOff : Int) : StatMpathManager where
  statOn := statOn
  statOff := statOff
  goodrelays := [⟨{ zeroEndPoint with addr := 1, port := 1 }, 0, 0, 0⟩]
  badrelays := []
  sndMap := ∅
  revMap := ∅
  curChannel := 0
  bstat := true
  sendNum := 0

/-- The second datagram, over the relay. -/
theorem relayed_decoded :
    ∃ d, ((oneRelay 1 1).sendPacket (fun _ => 0) [7] ⟨2, 2⟩ importance).2[1]? = some d ∧
      (oneRelay 1 1).Decoded [7] ⟨3, 3⟩ ⟨2, 2⟩ 1 d :=
  ⟨_, rfl, (mesh_decoded_iff (oneRelay 1 1) (fun _ => 0) [7] ⟨3, 3⟩ ⟨2, 2⟩ rfl).mpr (by decide)⟩

/-- What is sent directly is read as a relayed packet. -/
theorem direct_not_decoded :
    ¬ ∀ (s : StatMpathManager) sbuf payload src dst i d,
      payload.length + indirectHeaderLen ≤ corsMaxMsgSize →
      (s.sendPacket sbuf payload dst importance).2[i]? = some d →
      s.Decoded payload src dst i d := by
  intro always
  have decoded := always (oneRelay 1 1) (fun _ => 0) [7] ⟨3, 3⟩ ⟨2, 2⟩ 0 _ (by decide) rfl
  exact not_decodes_direct (by decide) (by decide) [7] ⟨3, 3⟩ ⟨3, 3⟩ decoded.2

end StatMpathManager

end Cors
