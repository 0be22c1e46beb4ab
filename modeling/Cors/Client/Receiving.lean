import Cors.Client.CorsSocket

/-! # What is copied to the application

`recvfrom` copies what `parse_data_packet` leaves of a datagram, whatever it returns. With
either multipath manager the copy is a suffix of the datagram just in case the datagram is
of a known version and as long as the header it announces. A shorter one gives a negative
length, one of a newer version a NULL pointer.
-/

namespace Cors

open ByteFormat

open SimpleMpathManager (flagsPos flagsVer flagsDirect Parsed)

/-- The size of the header that the byte of bit-fields announces, if its version is known. -/
def headerLen (flags : UInt8) : Option Nat :=
  if flagsVer flags > version then none
  else if flagsDirect flags = 1 then some directHeaderLen
  else some indirectHeaderLen

def flagsOf (datagram : Bytes) : UInt8 := (Mem.padded datagram).get u8 flagsPos

/-- The datagram is of a known version, and its header is all there. -/
def Complete (datagram : Bytes) : Prop :=
  directHeaderLen ≤ datagram.length ∧ flagsVer (flagsOf datagram) ≤ version ∧
    (flagsDirect (flagsOf datagram) = 1 ∨ indirectHeaderLen ≤ datagram.length)

instance : Decidable (Complete datagram) := inferInstanceAs (Decidable (_ ∧ _ ∧ (_ ∨ _)))

namespace CorsSocket

/-- The pointer that is copied from is into the datagram, and exactly what stands there up
    to the end of the datagram is copied. -/
def Copy.Safe (copy : Copy) (msg : Mem) (datagram : Bytes) : Prop :=
  ∃ parsed, copy.data = some parsed ∧ parsed.offset ≤ datagram.length ∧ 0 ≤ copy.len ∧
    msg.read parsed.offset copy.len.toNat = datagram.drop parsed.offset

/-- Nothing is delivered, or a suffix of the datagram. -/
def Received.Safe (received : Received) (datagram : Bytes) : Prop :=
  ∀ copy ∈ received.copy, copy.Safe received.socket.msg datagram

end CorsSocket

theorem MultipathManager.parseDataPacket_header (mgr : MultipathManager) (junk : Mem)
    (curTime : Timeval) (buff : Mem) (bufsize : Int) (peeraddr : SockaddrIn) :
    (mgr.parseDataPacket junk curTime buff bufsize peeraddr).2.2.map
        (fun parsed => (parsed.offset, parsed.bufsize)) =
      (headerLen (buff.get u8 flagsPos)).map fun n : Nat => (n, bufsize - n) := by
  cases mgr with
  | simple mgr =>
      simp only [parseDataPacket, SimpleMpathManager.parseDataPacket, headerLen]
      split
      · rfl
      · split <;> rfl
  | stat mgr =>
      simp only [parseDataPacket, StatMpathManager.parseDataPacket, headerLen]
      split
      · rfl
      · split <;> rfl

/-- With the rest of the buffer in view, the header fits just in case the datagram is
    complete. -/
theorem complete_iff (rest : Mem) (datagram : Bytes) :
    Complete datagram ↔
      ∃ n, headerLen ((rest.receive datagram).get u8 flagsPos) = some n ∧ n ≤ datagram.length := by
  by_cases short : datagram.length < 2
  · refine iff_of_false (fun complete => ?_) ?_
    · have long : 3 ≤ datagram.length := complete.1
      omega
    · rintro ⟨n, announced, fits⟩
      have least : directHeaderLen ≤ n := by
        simp only [headerLen] at announced
        split at announced
        · cases announced
        · split at announced
          · cases announced
            exact Nat.le_refl _
          · cases announced
            decide
      have long : 3 ≤ datagram.length := Nat.le_trans least fits
      omega
  · have inside : flagsPos < datagram.length := by
      simp only [flagsPos]
      omega
    have seen : (rest.receive datagram).get u8 flagsPos = flagsOf datagram :=
      (Mem.receive_agree rest _ datagram).get u8 inside
    rw [seen, Complete, headerLen]
    by_cases known : flagsVer (flagsOf datagram) ≤ version
    · rw [if_neg (UInt8.not_lt.mpr known)]
      by_cases direct : flagsDirect (flagsOf datagram) = 1
      · simp [known, direct]
      · simp only [known, direct, directHeaderLen, indirectHeaderLen, if_false, true_and, false_or,
          Option.some.injEq, exists_eq_left']
        omega
    · rw [if_pos (UInt8.not_le.mp known)]
      simp [known]

namespace CorsSocket

theorem Copy.safe_iff (rest : Mem) (datagram : Bytes) {copy : Copy} {header : Option Nat}
    (starts : copy.data.map Parsed.offset = header)
    (size : ∀ n ∈ header, copy.len = datagram.length - n) :
    copy.Safe (rest.receive datagram) datagram ↔ ∃ n, header = some n ∧ n ≤ datagram.length := by
  constructor
  · rintro ⟨parsed, data, inside, -, -⟩
    rw [data] at starts
    exact ⟨parsed.offset, starts.symm, inside⟩
  · rintro ⟨n, rfl, fits⟩
    obtain ⟨parsed, data, offset⟩ := Option.map_eq_some_iff.mp starts
    have left : copy.len = (datagram.length - n : Nat) := by
      rw [size n rfl]
      omega
    refine ⟨parsed, data, ?_, ?_, ?_⟩
    · rw [offset]
      exact fits
    · rw [left]
      exact Int.natCast_nonneg _
    · have whole : (rest.receive datagram).Holds 0 (datagram.take n ++ datagram.drop n) := by
        rw [List.take_append_drop]
        exact Mem.receive_holds rest datagram
      have tail := (Mem.holds_append.mp whole).2
      rw [Nat.zero_add, List.length_take_of_le fits, Mem.Holds, List.length_drop] at tail
      rw [left, offset, Int.toNat_natCast]
      exact tail

theorem recvfrom_data (s : CorsSocket) (amb : Ambient) {datagram : Bytes}
    (peeraddr : SockaddrIn) (typed : datagram.head? = some PacketType.data.code)
    (fits : datagram.length ≤ corsMaxMsgSize) :
    ∃ copy, (s.recvfrom amb datagram peeraddr).copy = some copy ∧
      (s.recvfrom amb datagram peeraddr).socket.msg = s.msg.receive datagram ∧
      copy.data.map (fun parsed => (parsed.offset, parsed.bufsize)) =
        (headerLen ((s.msg.receive datagram).get u8 flagsPos)).map
          (fun n : Nat => (n, (datagram.length : Int) - n)) ∧
      copy.len = (copy.data.map Parsed.bufsize).getD (datagram.length : Int) := by
  obtain ⟨rest, rfl⟩ : ∃ rest, datagram = PacketType.data.code :: rest := by
    cases datagram with
    | nil => cases typed
    | cons b rest =>
        cases typed
        exact ⟨rest, rfl⟩
  let msg := s.msg.receive (PacketType.data.code :: rest)
  have first : msg.get u8 0 = PacketType.data.code := by
    have head := Mem.receive_holds s.msg ([PacketType.data.code] ++ rest)
    rw [← u8_encode PacketType.data.code] at head
    exact (Mem.holds_append.mp head).1.get
  have received : (s.recvfrom amb (PacketType.data.code :: rest) peeraddr) =
      let parsed := s.mpthmgr.parseDataPacket amb.junk amb.tmNow msg
        (PacketType.data.code :: rest).length peeraddr
      ⟨{ s with msg, mpthmgr := parsed.1 }, parsed.2.1, some ⟨parsed.2.2,
        (parsed.2.2.map (·.bufsize)).getD (PacketType.data.code :: rest).length⟩⟩ := by
    simp only [recvfrom, List.take_of_length_le fits, msg] at first ⊢
    rw [if_pos (by simp), first]
    rfl
  rw [received]
  exact ⟨_, rfl, rfl, MultipathManager.parseDataPacket_header .., rfl⟩

/-- With either manager, receiving a data packet is safe just in case it is complete. -/
theorem recvfrom_safe_iff (s : CorsSocket) (amb : Ambient) (datagram : Bytes)
    (peeraddr : SockaddrIn) (typed : datagram.head? = some PacketType.data.code)
    (fits : datagram.length ≤ corsMaxMsgSize) :
    (s.recvfrom amb datagram peeraddr).Safe datagram ↔ Complete datagram := by
  obtain ⟨copy, copied, msg, parsed, len⟩ := s.recvfrom_data amb peeraddr typed fits
  have starts : copy.data.map Parsed.offset =
      headerLen ((s.msg.receive datagram).get u8 flagsPos) := by
    have offsets := congrArg (Option.map Prod.fst) parsed
    simpa only [Option.map_map, Function.comp_def, Option.map_id'] using offsets
  have size : ∀ n ∈ headerLen ((s.msg.receive datagram).get u8 flagsPos),
      copy.len = datagram.length - n := by
    intro n announced
    rw [Option.mem_def.mp announced] at parsed
    obtain ⟨p, data, pair⟩ := Option.map_eq_some_iff.mp parsed
    rw [len, data]
    exact congrArg Prod.snd pair
  rw [complete_iff s.msg, ← Copy.safe_iff s.msg datagram starts size, Received.Safe, copied, msg]
  simp only [Option.mem_def, Option.some.injEq, forall_eq']

/-- A packet that came over a relay at a socket with statistics, and a direct one at a socket
    without, both with a payload. -/
theorem complete_packets_safe :
    let psk : Endpoints := ⟨⟨1, 5060, 1, 0⟩, ⟨2, 5061, 2, 0⟩⟩
    let socket (mgr : MultipathManager) :=
      (init psk [⟨3, 906, 3, 0⟩] ⟨150, 0, 0, 1⟩ mgr (fun _ => 0) 0 0).1
    let relay : RelayNode := ⟨⟨4, 5062, 4, 0⟩, 40, 0, 9⟩
    let stat : MultipathManager := .stat ⟨2000, 1000, [relay], [], ∅, ∅, 0, true, 0⟩
    let overRelay : Bytes := [14, 3, 0, 19, 197, 0, 0, 0, 2, 21, 22, 23]
    let direct : Bytes := [14, 19, 0, 21, 22]
    ((socket stat).recvfrom ⟨⟨7, 0⟩, 0, fun _ => 0⟩ overRelay ⟨5062, 4⟩).Safe overRelay ∧
      ((socket (.simple ⟨0, [relay]⟩)).recvfrom ⟨⟨7, 0⟩, 0, fun _ => 0⟩ direct ⟨5061, 2⟩).Safe
        direct := by
  intro psk socket relay stat overRelay direct
  constructor
  · exact (recvfrom_safe_iff _ _ overRelay _ rfl (by decide)).mpr (by decide +kernel)
  · exact (recvfrom_safe_iff _ _ direct _ rfl (by decide)).mpr (by decide +kernel)

/-- A packet of a newer version: two bytes are copied from NULL. -/
theorem newer_version_unsafe :
    ¬ ∀ (s : CorsSocket) amb datagram peeraddr,
      datagram.head? = some PacketType.data.code → datagram.length ≤ corsMaxMsgSize →
      (s.recvfrom amb datagram peeraddr).Safe datagram := by
  intro always
  let psk : Endpoints := ⟨zeroEndPoint, zeroEndPoint⟩
  let s := (init psk [zeroEndPoint] ⟨0, 0, 0, 1⟩ (.simple ⟨0, []⟩) (fun _ => 0) 0 0).1
  let amb : Ambient := ⟨⟨0, 0⟩, 0, fun _ => 0⟩
  have copied : (s.recvfrom amb [14, 4] ⟨0, 0⟩).copy = some ⟨none, 2⟩ := by decide +kernel
  obtain ⟨parsed, data, -⟩ := always s amb [14, 4] ⟨0, 0⟩ rfl (by decide) _ copied
  cases data

end CorsSocket

end Cors
