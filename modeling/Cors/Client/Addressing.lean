import Cors.Client.CorsSocket
import Cors.Client.DataPath

/-! # Where the application's packets go

`sendto` is told a destination and knows the one it was configured with. The packets go to
the configured one, over a multipath manager if the two are the same and as they are if
not: they go where they were told to just in case the two are the same.
-/

namespace Cors

open ByteFormat

open SimpleMpathManager (flagsPos flagsDirect)

/-- The memory starts with the header of a relayed packet to `dst`. -/
structure Headed (dst : SockaddrIn) (m : Mem) : Prop where
  type : m.get u8 0 = PacketType.data.code
  indirect : flagsDirect (m.get u8 flagsPos) = 0
  address : m.get SockaddrIn.format portOffset = dst

/-- The datagram is for `dst` itself, or for a good relay and has an indirect header with
    the address and the port of `dst` in front of the payload. -/
def Addressed (goodrelays : List RelayNode) (payload : Bytes) (dst : SockaddrIn)
    (d : Datagram) : Prop :=
  d.dst = dst ∨
    (∃ node ∈ goodrelays, d.dst = node.relay.sockaddr) ∧
      d.bytes.length = payload.length + indirectHeaderLen ∧ Headed dst (Mem.padded d.bytes)

namespace Headed

theorem of_put (sbuf : Mem) {flags : UInt8} (indirect : flagsDirect flags = 0)
    (dst : SockaddrIn) :
    Headed dst ((((sbuf.put u8 0 PacketType.data.code).put u8 flagsPos flags).put u32 addrOffset
      dst.addr).put u16 portOffset dst.port) where
  type := by
    rw [Mem.get_put_disjoint _ u16 u8 _ (.inl (by decide)),
      Mem.get_put_disjoint _ u32 u8 _ (.inl (by decide)),
      Mem.get_put_disjoint _ u8 u8 _ (.inl (by decide)), Mem.get_put]
  indirect := by
    rw [Mem.get_put_disjoint _ u16 u8 _ (.inl (by decide)),
      Mem.get_put_disjoint _ u32 u8 _ (.inl (by decide)), Mem.get_put, indirect]
  address := by
    rw [Mem.get_port_addr, Mem.get_put, Mem.get_put_disjoint _ u16 u32 _ (.inr (by decide))]
    exact congrArg (SockaddrIn.mk dst.port) (Mem.get_put _ u32 addrOffset _)

variable {dst : SockaddrIn} {m : Mem}

theorem write (headed : Headed dst m) (payload : Bytes) :
    Headed dst (m.write indirectHeaderLen payload) := by
  have apart {α : Type} (f : ByteFormat α) (pos : Nat)
      (before : pos + f.width ≤ indirectHeaderLen) :
      (m.write indirectHeaderLen payload).get f pos = m.get f pos :=
    Mem.get_write_disjoint m f payload (.inl before)
  constructor
  · rw [apart u8 0 (by decide), headed.type]
  · rw [apart u8 flagsPos (by decide), headed.indirect]
  · rw [apart SockaddrIn.format portOffset (by decide), headed.address]

theorem sent (headed : Headed dst m) (n : Nat) :
    Headed dst (Mem.padded (m.read 0 (n + indirectHeaderLen))) := by
  have seen {α : Type} (f : ByteFormat α) (pos : Nat) (before : pos + f.width ≤ indirectHeaderLen) :
      (Mem.padded (m.read 0 (n + indirectHeaderLen))).get f pos = m.get f pos :=
    Mem.receive_get _ m f (Nat.le_trans before (Nat.le_add_left _ _))
  constructor
  · rw [seen u8 0 (by decide), headed.type]
  · rw [seen u8 flagsPos (by decide), headed.indirect]
  · rw [seen SockaddrIn.format portOffset (by decide), headed.address]

end Headed

section Branches
variable {goodrelays : List RelayNode} {payload : Bytes} {dst : SockaddrIn} {m : Mem}

theorem direct_addressed (bytes : Bytes) : Addressed goodrelays payload dst ⟨dst, bytes⟩ := .inl rfl

theorem relayed_addressed {node : RelayNode} (good : node ∈ goodrelays) (headed : Headed dst m) :
    Addressed goodrelays payload dst
      ⟨node.relay.sockaddr, m.read 0 (payload.length + indirectHeaderLen)⟩ :=
  .inr ⟨⟨node, good, rfl⟩, Mem.read_length _ _ _, headed.sent payload.length⟩

theorem mesh_addressed (bytes : Bytes) (headed : Headed dst m) :
    ∀ d ∈ ⟨dst, bytes⟩ :: goodrelays.map fun node =>
        (⟨node.relay.sockaddr, m.read 0 (payload.length + indirectHeaderLen)⟩ : Datagram),
      Addressed goodrelays payload dst d := by
  intro d sent
  cases List.mem_cons.mp sent with
  | inl direct =>
      rw [direct]
      exact direct_addressed bytes
  | inr relayed =>
      obtain ⟨node, good, rfl⟩ := List.mem_map.mp relayed
      exact relayed_addressed good headed

end Branches

theorem SimpleMpathManager.sendPacket_addressed (mgr : SimpleMpathManager) (sbuf : Mem)
    (payload : Bytes) (dst : SockaddrIn) (significance : UInt8) :
    ∀ d ∈ (mgr.sendPacket sbuf payload dst significance).2,
      Addressed mgr.goodrelays payload dst d := by
  have headed (sbuf : Mem) : Headed dst (putIndirectHeader sbuf dst) :=
    Headed.of_put sbuf (by decide) dst
  intro d sent
  simp only [sendPacket] at sent
  split at sent
  · exact mesh_addressed _ ((headed _).write payload) d sent
  · split at sent
    · split at sent
      · cases List.mem_singleton.mp sent
        exact direct_addressed _
      · rename_i node turn
        cases List.mem_singleton.mp sent
        exact relayed_addressed (List.mem_of_getElem? turn) (headed sbuf)
    · cases sent

theorem StatMpathManager.sendPacket_addressed (mgr : StatMpathManager) (sbuf : Mem)
    (payload : Bytes) (dst : SockaddrIn) (significance : UInt8) :
    ∀ d ∈ (mgr.sendPacket sbuf payload dst significance).2,
      Addressed mgr.goodrelays payload dst d := by
  have headed (sbuf : Mem) : Headed dst (putIndirectHeader sbuf mgr.bstat dst) := by
    refine Headed.of_put sbuf ?_ dst
    cases mgr.bstat <;> decide
  intro d sent
  simp only [sendPacket, transmit] at sent
  split at sent
  · exact mesh_addressed _ ((headed _).write payload) d sent
  · split at sent
    · split at sent
      · cases List.mem_singleton.mp sent
        exact direct_addressed _
      · rename_i node turn
        cases List.mem_singleton.mp sent
        exact relayed_addressed (List.mem_of_getElem? turn) (headed sbuf)
    · cases sent

theorem MultipathManager.sendPacket_addressed (mgr : MultipathManager) (sbuf : Mem)
    (payload : Bytes) (dst : SockaddrIn) (significance : UInt8) :
    ∀ d ∈ (mgr.sendPacket sbuf payload dst significance).2,
      Addressed mgr.goodrelays payload dst d := by
  cases mgr with
  | simple mgr => exact mgr.sendPacket_addressed sbuf payload dst significance
  | stat mgr => exact mgr.sendPacket_addressed sbuf payload dst significance

/-- The payload as it is has no header in front of it. -/
theorem bare_addressed_iff {goodrelays : List RelayNode} {payload : Bytes}
    {dst configured : SockaddrIn} :
    Addressed goodrelays payload dst ⟨configured, payload⟩ ↔ configured = dst := by
  constructor
  · rintro (same | ⟨-, length, -⟩)
    · exact same
    · have shorter : payload.length < payload.length + indirectHeaderLen := by
        simp [indirectHeaderLen]
      exact absurd length (Nat.ne_of_lt shorter)
  · exact .inl

namespace CorsSocket

/-- What is sent for the application does not depend on whether more relays are asked for. -/
theorem sendto_packets (s : CorsSocket) (now : Int32) (sbuf : Mem) (buff : Bytes)
    (daddr : UInt32) (dport : UInt16) (significance : UInt8) :
    (s.sendto now sbuf buff daddr dport significance).2.packets =
      if s.rlysltr.psk.dst.sockaddr = ⟨dport, daddr⟩ then
        (s.mpthmgr.sendPacket sbuf buff s.rlysltr.psk.dst.sockaddr significance).2
      else [⟨s.rlysltr.psk.dst.sockaddr, buff⟩] := by
  have told : s.rlysltr.psk.dst.sockaddr = ⟨dport, daddr⟩ ↔
      s.rlysltr.psk.dst.sockaddr.addr = daddr ∧ s.rlysltr.psk.dst.sockaddr.port = dport := by
    rw [SockaddrIn.mk.injEq, and_comm]
  simp only [sendto, told]
  split <;> split <;> (try split) <;> rfl

/-- Every packet goes where `sendto` was told just in case that is where the socket was
    configured to send. -/
theorem sendto_addressed_iff (s : CorsSocket) (now : Int32) (sbuf : Mem) (buff : Bytes)
    (daddr : UInt32) (dport : UInt16) (significance : UInt8) :
    (∀ d ∈ (s.sendto now sbuf buff daddr dport significance).2.packets,
      Addressed s.mpthmgr.goodrelays buff ⟨dport, daddr⟩ d) ↔
      s.rlysltr.psk.dst.sockaddr = ⟨dport, daddr⟩ := by
  rw [sendto_packets]
  by_cases told : s.rlysltr.psk.dst.sockaddr = ⟨dport, daddr⟩
  · refine iff_of_true ?_ told
    rw [if_pos told, told]
    exact s.mpthmgr.sendPacket_addressed sbuf buff _ significance
  · rw [if_neg told, List.forall_mem_singleton]
    exact bare_addressed_iff

/-- A socket that was configured for one port is told to send to another. -/
theorem other_destination_ignored :
    ¬ ∀ (s : CorsSocket) now sbuf buff daddr dport significance,
      significance = importance ∨ significance = normal →
      ∀ d ∈ (s.sendto now sbuf buff daddr dport significance).2.packets,
        Addressed s.mpthmgr.goodrelays buff ⟨dport, daddr⟩ d := by
  intro always
  let psk : Endpoints := ⟨zeroEndPoint, { zeroEndPoint with port := 1 }⟩
  let s := (init psk [zeroEndPoint] ⟨0, 0, 0, 1⟩ (.simple ⟨0, []⟩) (fun _ => 0) 0 0).1
  have addressed := always s 0 (fun _ => 0) [1] 0 2 importance (.inl rfl)
  have same : (s.rlysltr.psk.dst.sockaddr : SockaddrIn) = ⟨2, 0⟩ := by
    apply bare_addressed_iff.mp
    exact addressed _ List.mem_cons_self
  exact absurd same (by decide)

end CorsSocket

end Cors
