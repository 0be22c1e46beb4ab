import Cors.Proxy.SimpleFwd
import Cors.Proxy.SimpleNbmtr

/-! # The proxy

`relayadvisor.h`, `corsproxy.h` and `corsproxy.cpp`: one socket and one receive buffer
in front of the neighbour maintainer, the packet forwarder and a relay advisor. The
advisor is an interface with several implementations, so the proxy is modelled over
any of them.
-/

namespace Cors

open ByteFormat

/-- An implementation of the handlers of `RelayAdvisor` over its own state. -/
structure RelayAdvisor (ρ : Type) where
  processRlInquiry : ρ → Mem → Nat → SockaddrIn → SimpleNbmtr → ρ × List Datagram
  processRlFilter : ρ → Mem → Nat → SockaddrIn → SimpleNbmtr → ρ × List Datagram
  processRlReport : ρ → Mem → Nat → SockaddrIn → ρ × List Datagram

structure CorsProxy (ρ : Type) where
  nbmtr : SimpleNbmtr
  fwdr : SimpleFwd
  rldvr : ρ

namespace CorsProxy

/-- `dispatch`, once `recvfrom` has put `len` bytes in front of what was in `msg`. -/
def dispatch (advisor : RelayAdvisor ρ) (s : CorsProxy ρ) (clock : Clock) (msg : Mem) (len : Nat)
    (peeraddr : SockaddrIn) : CorsProxy ρ × List Datagram :=
  if 0 < len then
    match PacketType.ofCode? (msg.get u8 0) with
    | some .probePing =>
        let (nbmtr, sent) := s.nbmtr.processProbePing clock.now msg len peeraddr
        ({ s with nbmtr }, sent)
    | some .probePong =>
        ({ s with nbmtr := s.nbmtr.processProbePong clock msg peeraddr }, [])
    | some .fwProbe =>
        let (fwdr, sent) := s.fwdr.processProbe msg len
        ({ s with fwdr }, sent)
    | some .bwReserve =>
        let (fwdr, sent) := s.fwdr.processBwReserve clock.tv msg len
        ({ s with fwdr }, sent)
    | some .bwRelease =>
        let (fwdr, sent) := s.fwdr.processBwRelease msg
        ({ s with fwdr }, sent)
    | some .data =>
        let (fwdr, sent) := s.fwdr.processDataPacket clock.tv msg len peeraddr
        ({ s with fwdr }, sent)
    | some .rlyInquiry =>
        let (rldvr, sent) := advisor.processRlInquiry s.rldvr msg len peeraddr s.nbmtr
        ({ s with rldvr }, sent)
    | some .rlyFilter =>
        let (rldvr, sent) := advisor.processRlFilter s.rldvr msg len peeraddr s.nbmtr
        ({ s with rldvr }, sent)
    | some .rlyReport =>
        let (rldvr, sent) := advisor.processRlReport s.rldvr msg len peeraddr
        ({ s with rldvr }, sent)
    | _ => (s, [])
  else
    (s, [])

end CorsProxy

/-- What `dispatch` does with the packet forwarder. -/
def SimpleFwd.dispatch (s : SimpleFwd) (curTime : Timeval) (msg : Mem) (len : Nat)
    (peeraddr : SockaddrIn) : SimpleFwd × List Datagram :=
  if 0 < len then
    match PacketType.ofCode? (msg.get u8 0) with
    | some .fwProbe => s.processProbe msg len
    | some .bwReserve => s.processBwReserve curTime msg len
    | some .bwRelease => s.processBwRelease msg
    | some .data => s.processDataPacket curTime msg len peeraddr
    | _ => (s, [])
  else
    (s, [])

theorem CorsProxy.dispatch_fwdr (advisor : RelayAdvisor ρ) (s : CorsProxy ρ) (clock : Clock)
    (msg : Mem) (len : Nat) (peeraddr : SockaddrIn) :
    (s.dispatch advisor clock msg len peeraddr).1.fwdr =
      (s.fwdr.dispatch clock.tv msg len peeraddr).1 := by
  unfold dispatch SimpleFwd.dispatch
  split
  · cases PacketType.ofCode? (msg.get u8 0) with
    | none => rfl
    | some type => cases type <;> rfl
  · rfl

end Cors
