import Cors.Protocol.Packets

/-! # Control messages by offset

The relay does not decode the control packets it handles: it edits their bytes in
place, at the positions of `struct Control`. Socket addresses are moved as the
six bytes of port and address that stand next to each other in a `sockaddr_in`,
in an `EndPoint` and in the header of a relayed data packet.
-/

namespace Cors

open ByteFormat

namespace Control

def typePos : Nat := 0
def ttlPos : Nat := 1
def srcPortPos : Nat := 4
def dstPortPos : Nat := 28
def bwPos : Nat := 46
def taskPos : Nat := 50
def ctrlLen : Nat := 54

end Control

/-- The port and the address of a `sockaddr_in`, in network order. -/
structure SockaddrIn where
  port : UInt16
  addr : UInt32
  deriving DecidableEq, Inhabited

def SockaddrIn.format : ByteFormat SockaddrIn :=
  (u16.seq u32).via
    ⟨fun x => ⟨x.1, x.2⟩, fun a => (a.port, a.addr), fun _ => rfl, fun _ => rfl⟩

@[simp] theorem SockaddrIn.format_width : SockaddrIn.format.width = 6 := rfl

/-- One `sendto`. -/
structure Datagram where
  dst : SockaddrIn
  bytes : Bytes
  deriving DecidableEq

/-- A datagram in flight, with the address that it comes from. -/
structure Letter where
  src : SockaddrIn
  datagram : Datagram

def EndPoint.sockaddr (e : EndPoint) : SockaddrIn := ⟨e.port, e.addr⟩

theorem Mem.get_port_addr (m : Mem) (pos : Nat) :
    m.get SockaddrIn.format pos = ⟨m.get u16 pos, m.get u32 (pos + 2)⟩ := by
  have members : m.read pos 6 = m.read pos 2 ++ m.read (pos + 2) 4 := Mem.read_add m pos 2 4
  simp only [Mem.get, SockaddrIn.format_width, members]
  rfl

/-- Port and address stand two bytes into an `EndPoint`. -/
theorem Mem.get_sockaddr (m : Mem) (pos : Nat) :
    m.get SockaddrIn.format (pos + 2) = (m.get EndPoint.format pos).sockaddr := by
  have members : m.read pos 12 = m.read pos 2 ++ m.read (pos + 2) 6 ++ m.read (pos + 8) 4 := by
    rw [← Mem.read_add m pos 2 6, ← Mem.read_add m pos 8 4]
  have inner : m.read (pos + 2) 6 = m.read (pos + 2) 2 ++ m.read (pos + 4) 4 :=
    Mem.read_add m (pos + 2) 2 4
  simp only [Mem.get, SockaddrIn.format_width, EndPoint.format_width, members, inner]
  rfl

/-! ## The type of a datagram -/

theorem Mem.received_kind (rest : Mem) {bytes : Bytes} (nonempty : 0 < bytes.length) :
    (rest.receive bytes).get u8 0 = (Mem.padded bytes).get u8 0 :=
  Mem.Agree.get (Mem.receive_agree _ _ bytes) u8 (by rw [u8_width]; omega)

theorem Mem.taken_kind (rest : Mem) {bytes : Bytes}
    (nonempty : 0 < (bytes.take corsMaxMsgSize).length) :
    0 < bytes.length ∧
      (rest.receive (bytes.take corsMaxMsgSize)).get u8 0 = (Mem.padded bytes).get u8 0 := by
  have whole : 0 < bytes.length := Nat.lt_of_lt_of_le nonempty (List.length_take_le' _ _)
  refine ⟨whole, ?_⟩
  rw [Mem.get_u8, Mem.get_u8, Mem.padded, Mem.receive_inside rest nonempty,
    Mem.receive_inside _ whole, List.getElem_take]

end Cors
