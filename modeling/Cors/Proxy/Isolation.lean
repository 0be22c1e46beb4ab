import Cors.Proxy.CorsProxy
import Cors.Proxy.ForwarderIsolation
import Cors.Proxy.NeighborIsolation

/-! # Datagrams and what earlier ones left behind

The proxy receives all datagrams into one buffer. A datagram is isolated when what it
does depends on neither the rest of this buffer nor the scratch buffer of the
neighbour maintainer.
-/

namespace Cors

open ByteFormat

namespace CorsProxy

/-- The messages of the neighbour maintainer, and the control messages of the forwarder. -/
inductive Handled where
  | ping
  | pong
  | probe
  | reserve
  | release

def Handled.type : Handled → PacketType
  | ping => .probePing
  | pong => .probePong
  | probe => .fwProbe
  | reserve => .bwReserve
  | release => .bwRelease

/-- The neighbour table, the forwarder and what is sent after the datagram `l` came into
    a proxy whose scratch buffer and receive buffer held `buff` and `rest`. -/
def effect (advisor : RelayAdvisor ρ) (s : CorsProxy ρ) (clock : Clock) (l : Bytes)
    (peeraddr : SockaddrIn) (buff rest : Mem) :
    Registry UInt32 Neighbor × SimpleFwd × List Datagram :=
  let r := dispatch advisor { s with nbmtr := s.nbmtr.withBuff buff } clock (rest.receive l)
    l.length peeraddr
  (r.1.nbmtr.table, r.1.fwdr, r.2)

def Isolated (advisor : RelayAdvisor ρ) (s : CorsProxy ρ) (clock : Clock) (l : Bytes)
    (peeraddr : SockaddrIn) : Prop :=
  ∀ buff buff' rest rest', effect advisor s clock l peeraddr buff rest =
    effect advisor s clock l peeraddr buff' rest'

/-- The datagram holds all that its handler goes by. -/
def SelfContained (s : CorsProxy ρ) (clock : Clock) (l : Bytes) (peeraddr : SockaddrIn) :
    Handled → Prop
  | .ping => SimpleNbmtr.pingHeaderLen ≤ l.length
  | .pong => s.nbmtr.pongReceived clock l peeraddr
  | .probe => Control.dstPortPos + 6 ≤ l.length
  | .reserve =>
      Control.dstPortPos + 6 ≤ l.length ∧
        (Control.bwPos + 4 ≤ l.length ∨
          maxFwdBw.toNat - (s.fwdr.unclaimed (SimpleFwd.controlKey (Mem.padded l))).toNat ≤
            (SimpleFwd.demand (Mem.padded l)).toNat)
  | .release =>
      Control.dstPortPos + 6 ≤ l.length ∨
        ∀ rest : Mem, s.fwdr.fwdHmap.lookup (SimpleFwd.controlKey (rest.receive l)) = none

theorem first_byte {l : Bytes} {b : UInt8} (first : l.head? = some b) (rest : Mem) :
    0 < l.length ∧ (rest.receive l).get u8 0 = b := by
  obtain ⟨tail, rfl⟩ := List.head?_eq_some_iff.mp first
  exact ⟨Nat.succ_pos _, u8_decode b⟩

/-- Where the scratch buffer plays no part, isolation is about the receive buffer. -/
theorem isolated_iff_determines {advisor : RelayAdvisor ρ} {s : CorsProxy ρ} {clock : Clock}
    {l : Bytes} {peeraddr : SockaddrIn} {view : Mem → α}
    (whole : α → Registry UInt32 Neighbor × SimpleFwd × List Datagram)
    (one : Function.Injective whole)
    (seen : ∀ buff rest,
      effect advisor s clock l peeraddr buff rest = whole (view (rest.receive l))) :
    Isolated advisor s clock l peeraddr ↔ Mem.Determines l view := by
  constructor
  · intro isolated rest rest'
    apply one
    rw [← seen rest, ← seen rest]
    exact isolated rest rest rest rest'
  · intro settled buff buff' rest rest'
    rw [seen, seen, settled rest rest']

/-- With any advisor, any sound table and any forwarder behind the socket. -/
theorem isolated_iff (advisor : RelayAdvisor ρ) {s : CorsProxy ρ} (sound : s.nbmtr.Sound)
    (clock : Clock) {l : Bytes} (h : Handled) (first : l.head? = some h.type.code)
    (peeraddr : SockaddrIn) :
    Isolated advisor s clock l peeraddr ↔ s.SelfContained clock l peeraddr h := by
  have type : ∀ rest : Mem, PacketType.ofCode? ((rest.receive l).get u8 0) = some h.type :=
    fun rest => by rw [(first_byte first rest).2, PacketType.ofCode?_code]
  have some : 0 < l.length := (first_byte first fun _ => 0).1
  have forwarder : Function.Injective fun r : SimpleFwd × List Datagram =>
      (s.nbmtr.table, r.1, r.2) := fun _ _ same => (Prod.mk.inj same).2
  cases h with
  | ping =>
      rw [SelfContained, ← s.nbmtr.answer_determined_iff clock.now l peeraddr]
      have seen : ∀ buff rest, effect advisor s clock l peeraddr buff rest =
          ((s.nbmtr.answer clock.now l peeraddr buff rest).1, s.fwdr,
            (s.nbmtr.answer clock.now l peeraddr buff rest).2) := fun buff rest => by
        simp only [effect, dispatch, if_pos some, type, Handled.type]
        rfl
      simp only [Isolated, seen, Prod.ext_iff, true_and]
  | pong =>
      rw [SelfContained, ← SimpleNbmtr.processProbePong_determined_iff sound]
      refine isolated_iff_determines (fun table => (table, s.fwdr, []))
        (fun _ _ same => (Prod.mk.inj same).1) fun buff rest => ?_
      simp only [effect, dispatch, if_pos some, type, Handled.type,
        SimpleNbmtr.processProbePong_withBuff, SimpleNbmtr.withBuff_table]
  | probe =>
      rw [SelfContained, ← s.fwdr.processProbe_determined_iff]
      refine isolated_iff_determines _ forwarder fun buff rest => ?_
      simp only [effect, dispatch, if_pos some, type, Handled.type]
      rfl
  | reserve =>
      rw [SelfContained, ← s.fwdr.processBwReserve_determined_iff clock.tv]
      refine isolated_iff_determines _ forwarder fun buff rest => ?_
      simp only [effect, dispatch, if_pos some, type, Handled.type]
      rfl
  | release =>
      rw [SelfContained, ← s.fwdr.processBwRelease_determined_iff]
      refine isolated_iff_determines _ forwarder fun buff rest => ?_
      simp only [effect, dispatch, if_pos some, type, Handled.type]
      rfl

/-! ## A proxy that has served one reservation -/

def reservation : Bytes := PacketType.bwReserve.code :: List.replicate 53 1

def reserving : CorsProxy Unit where
  nbmtr := SimpleNbmtr.loadedSingle
  fwdr := ((SimpleFwd.new 20 200).processBwReserve ⟨0, 0⟩ (Mem.padded reservation)
    reservation.length).1
  rldvr := ()

def silent : RelayAdvisor Unit where
  processRlInquiry r _ _ _ _ := (r, [])
  processRlFilter r _ _ _ _ := (r, [])
  processRlReport r _ _ _ := (r, [])

theorem addressed_release_isolated :
    Isolated silent reserving ⟨⟨1, 0⟩, 1⟩ (PacketType.bwRelease.code :: List.replicate 33 1)
      ⟨80, SimpleNbmtr.dotted 9 9 9 9⟩ :=
  (isolated_iff silent SimpleNbmtr.loadedSingle_sound ⟨⟨1, 0⟩, 1⟩ .release rfl _).mpr
    (Or.inl (by decide))

/-- A BW_RELEASE of one byte releases the session whose BW_RESERVE is still in the
    receive buffer. -/
theorem short_release_not_isolated :
    ¬ ∀ (advisor : RelayAdvisor Unit) (s : CorsProxy Unit) clock l peeraddr (h : Handled),
      s.nbmtr.Sound → l.head? = some h.type.code → Isolated advisor s clock l peeraddr := by
  intro always
  have isolated := always silent reserving ⟨⟨1, 0⟩, 1⟩ [PacketType.bwRelease.code]
    ⟨80, SimpleNbmtr.dotted 9 9 9 9⟩ .release SimpleNbmtr.loadedSingle_sound rfl
  have sessions := congrArg (fun e => e.2.1.fwdHmap.size)
    (isolated (fun _ => 0) (fun _ => 0) (Mem.padded reservation) fun _ => 0)
  exact absurd sessions (by decide +kernel)

end CorsProxy

end Cors
