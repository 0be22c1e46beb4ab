import Cors.Lib.Network
import Cors.Client.CorsSocket
import Cors.Proxy.CorsProxy

/-! # One client among relays

A client, the destination it talks to and the packet forwarders of any number of proxies,
one at every other address. The client probes, reserves and releases; what it sends and
what is sent for it is in flight until it is handled, in any order and any number of times.

What goes to a relay advisor leaves this network, and its advice comes in from outside. So
does whatever else happens to a relay. A letter is marked with the probe of the client that
it carries or answers; no party sees the mark.
-/

namespace Cors

open ByteFormat

namespace Overlay

structure Letter where
  datagram : Datagram
  origin : CorsProbe

structure Parties where
  client : CorsSocket
  destination : CorsSocket
  relays : SockaddrIn → SimpleFwd

namespace Parties

def src (n : Parties) : SockaddrIn := n.client.rlysltr.psk.src.sockaddr
def dst (n : Parties) : SockaddrIn := n.client.rlysltr.psk.dst.sockaddr

/-- The address of the destination, as it knows it itself. -/
def peer (n : Parties) : SockaddrIn := n.destination.rlysltr.psk.src.sockaddr

def setSelector (n : Parties) (rlysltr : SimpleRlysltr) : Parties :=
  { n with client := { n.client with rlysltr } }

def setRelay (n : Parties) (a : SockaddrIn) (fwd : SimpleFwd) : Parties :=
  { n with relays := Function.update n.relays a fwd }

end Parties

/-- The sections of the client's probing thread, its closing, advice that comes in, and what
    happens to a relay for other reasons. -/
inductive Action where
  | pingCandidate (now : Timeval)
  | report (now : Int32)
  | pingRelay (now : Timeval)
  | increaseIter
  | rlAdvice (msg : Mem) (len : Nat)
  | close
  | other (a : SockaddrIn) (e : SimpleFwd.Event)

/-- A probe as the client sends it, marked with what it says. -/
def Letter.own (d : Datagram) : Letter :=
  ⟨d, (parse CorsProbe.deserialize (Mem.padded d.bytes) d.bytes.length).getD CorsProbe.new⟩

def act (n : Parties) : Action → Parties × List Letter
  | .pingCandidate now =>
      let (rlysltr, sent) := n.client.rlysltr.pingCandidate now
      (n.setSelector rlysltr, sent.map Letter.own)
  | .report now => (n.setSelector (n.client.rlysltr.report now).1, [])
  | .pingRelay now =>
      let (rlysltr, sent) := n.client.rlysltr.pingRelay now
      (n.setSelector rlysltr, sent.map Letter.own)
  | .increaseIter => (n.setSelector n.client.rlysltr.increaseIter, [])
  | .rlAdvice msg len => (n.setSelector (n.client.rlysltr.processRlAdvice msg len), [])
  | .close => (n, n.client.rlysltr.releaseResources.map Letter.own)
  | .other a e => (n.setRelay a ((n.relays a).step e), [])

/-- The readings of the party that handles a letter, and the address it sees it come from. -/
structure Reading where
  amb : CorsSocket.Ambient
  peeraddr : SockaddrIn

/-- A datagram is handled by whoever has the address it goes to. -/
def receive (n : Parties) (r : Reading) (d : Datagram) : Parties × List Datagram :=
  if d.dst = n.src then
    let received := n.client.recvfrom r.amb d.bytes r.peeraddr
    ({ n with client := received.socket }, received.sent)
  else if d.dst = n.peer then
    let received := n.destination.recvfrom r.amb d.bytes r.peeraddr
    ({ n with destination := received.socket }, received.sent)
  else
    let msg := r.amb.junk.receive d.bytes
    let (fwd, sent) := (n.relays d.dst).dispatch r.amb.tmNow msg d.bytes.length r.peeraddr
    (n.setRelay d.dst fwd, sent)

def handle (n : Parties) (r : Reading) (l : Letter) : Parties × List Letter :=
  let (n, sent) := receive n r l.datagram
  (n, sent.map fun d => ⟨d, l.origin⟩)

abbrev Event := Network.Event Action Reading

def step : Network Parties Letter → Event → Network Parties Letter := Network.step act handle

/-- Nothing is in flight yet. -/
def start (n : Parties) : Network Parties Letter := ⟨n, []⟩

end Overlay

end Cors
