import Cors.Client.Dropping

/-! # Sessions that the client accounts for

A relay stores a session before the client knows whether it will list the relay. The session
is accounted for while the relay is listed or the answer to its reservation is on the way.
That stays so in every step but one that drops a relay with its session: an entry is pushed
out or finds no place, or is removed as too slow.
-/

namespace Cors

open ByteFormat

namespace Overlay

/-- The session of the client. -/
def pair (n : Parties) : SessionKey := .between n.src n.dst

/-- The relay at an address stores a session for the pair. -/
def Reserved (key : SessionKey) (a : SockaddrIn) (n : Parties) : Prop :=
  a ≠ n.src ∧ a ≠ n.peer ∧ key ∈ (n.relays a).fwdHmap

instance : Decidable (Reserved key a n) :=
  inferInstanceAs (Decidable (a ≠ n.src ∧ a ≠ n.peer ∧ key ∈ (n.relays a).fwdHmap))

def sockaddrs (l : List RelayNode) : List SockaddrIn := l.map fun node => node.relay.sockaddr

/-- The client lists the relay at an address. -/
def Listed (a : SockaddrIn) (n : Parties) : Prop := a ∈ sockaddrs n.client.rlysltr.relaylist

/-- Dropping the entry leaves no session behind: its relay stores none, or is listed by
    another entry. -/
def Harmless (n : Parties) (dropped : Option (RelayNode × List RelayNode)) : Prop :=
  ∀ node others, dropped = some (node, others) →
    Reserved (pair n) node.relay.sockaddr n → node.relay.sockaddr ∈ sockaddrs others

/-- When the client handles the datagram, no relay is dropped with its session. -/
def Retains (n : Parties) (r : Reading) (d : Datagram) : Prop :=
  d.dst = n.src →
    ∀ p, parse CorsProbe.deserialize (Mem.padded d.bytes) d.bytes.length = some p →
      (p.type = .fwReply → Harmless n (n.client.rlysltr.removed r.amb.tmNow p)) ∧
        (p.type = .bwReply →
          Harmless n (n.client.rlysltr.displaced r.amb.tmNow r.amb.lossrate p))

/-- A step in which no relay is dropped with its session and no one else reserves for the
    pair. -/
def Keeps (s : Network Parties Letter) : Event → Prop
  | .act (.other _ e) => ¬ SimpleFwd.Reserves (pair s.nodes) e
  | .act _ => True
  | .deliver k _ r => ∀ l, s.flight[k]? = some l → Retains s.nodes r l.datagram

instance (n : Parties) (dropped : Option (RelayNode × List RelayNode)) :
    Decidable (Harmless n dropped) :=
  match dropped with
  | none => .isTrue fun _ _ nothing => nomatch nothing
  | some (node, others) =>
      decidable_of_iff (Reserved (pair n) node.relay.sockaddr n →
        node.relay.sockaddr ∈ sockaddrs others)
        ⟨by rintro harmless _ _ ⟨⟩; exact harmless, fun harmless => harmless node others rfl⟩

instance : Decidable (Retains n r d) :=
  decidable_of_iff (d.dst = n.src →
    ∀ p ∈ parse CorsProbe.deserialize (Mem.padded d.bytes) d.bytes.length,
      (p.type = .fwReply → Harmless n (n.client.rlysltr.removed r.amb.tmNow p)) ∧
        (p.type = .bwReply →
          Harmless n (n.client.rlysltr.displaced r.amb.tmNow r.amb.lossrate p))) Iff.rfl

instance (s : Network Parties Letter) : DecidablePred (Keeps s)
  | .act (.other _ e) => inferInstanceAs (Decidable (¬ SimpleFwd.Reserves (pair s.nodes) e))
  | .act (.pingCandidate _) | .act (.report _) | .act (.pingRelay _) | .act .increaseIter
  | .act (.rlAdvice _ _) | .act .close => .isTrue trivial
  | .deliver k _ r =>
      decidable_of_iff (∀ l ∈ s.flight[k]?, Retains s.nodes r l.datagram) Iff.rfl

/-! ## Letters on their way -/

/-- Where a probe is sent, by its type. -/
def addressee (p : CorsProbe) : SockaddrIn :=
  match p.type with
  | .fwForward | .bwForward => p.destination.sockaddr
  | .fwReply | .bwReply => p.source.sockaddr
  | _ => p.relay.sockaddr

/-- A probe of the pair, on its way to where probes of its type are sent. -/
structure Travels (near far : SockaddrIn) (d : Datagram) (p : CorsProbe) : Prop where
  bytes : d.bytes = p.serialize
  own : p.type ∈ CorsProbe.accepted
  source : p.source.sockaddr = near
  destination : p.destination.sockaddr = far
  address : d.dst = addressee p

/-- The parties know each other's addresses, and the list is no longer than required. -/
structure Steady (near far : SockaddrIn) (n : Parties) : Prop where
  src : n.src = near
  dst : n.dst = far
  peer : n.peer = far
  short : n.client.rlysltr.Short

/-- The answer to a reservation of the relay at an address. -/
def Returning (near far a : SockaddrIn) (d : Datagram) : Prop :=
  ∃ p, Travels near far d p ∧ p.type ∈ [.bwForward, .bwReply] ∧ p.relay.sockaddr = a

section Letters
variable {near far : SockaddrIn} {n : Parties} {d : Datagram} {p q : CorsProbe}

theorem Travels.decoded (travels : Travels near far d p) (rest : Mem) :
    parse CorsProbe.deserialize (rest.receive d.bytes) d.bytes.length = some p := by
  rw [travels.bytes]
  exact CorsProbe.received_probe rest travels.own

theorem Travels.unique (one : Travels near far d p) (other : Travels near far d q) : p = q :=
  Option.some.inj ((one.decoded fun _ => 0).symm.trans (other.decoded fun _ => 0))

theorem Travels.answer (travels : Travels near far d p) (same : SameIdentity q p)
    (own : q.type ∈ CorsProbe.accepted) {a : SockaddrIn} (address : a = addressee q) :
    Travels near far ⟨a, q.serialize⟩ q where
  bytes := rfl
  own := own
  source := by rw [same.source, travels.source]
  destination := by rw [same.destination, travels.destination]
  address := address

theorem Travels.forwarded (travels : Travels near far d p) (same : SameIdentity q p)
    (forward : q.type = .fwForward ∨ q.type = .bwForward) :
    Travels near far ⟨p.destination.sockaddr, q.serialize⟩ q := by
  cases forward with
  | inl typed | inr typed =>
      refine travels.answer same (typed ▸ by decide) ?_
      simp only [addressee, typed, same.destination]

theorem Travels.turnedBack (travels : Travels near far d p) (same : SameIdentity q p)
    (reply : q.type = .fwReply ∨ q.type = .bwReply) :
    Travels near far ⟨p.source.sockaddr, q.serialize⟩ q := by
  cases reply with
  | inl typed | inr typed =>
      refine travels.answer same (typed ▸ by decide) ?_
      simp only [addressee, typed, same.source]

/-! ## The client's own actions -/

/-- The client keeps its list and its addresses. -/
structure Untouched (n n' : Parties) : Prop where
  frame : SimpleRlysltr.Frame n.client.rlysltr n'.client.rlysltr
  relaylist : n'.client.rlysltr.relaylist = n.client.rlysltr.relaylist
  peer : n'.peer = n.peer

theorem act_untouched (n : Parties) (a : Action) : Untouched n (act n a).1 := by
  cases a with
  | pingCandidate now =>
      obtain same | ⟨cand, -, same⟩ := n.client.rlysltr.pingCandidate_cases now
      · simp only [act, same]
        exact ⟨⟨rfl, rfl, rfl⟩, rfl, rfl⟩
      · simp only [act, same]
        exact ⟨⟨rfl, rfl, rfl⟩, rfl, rfl⟩
  | report now =>
      obtain ⟨lastReportTime, same⟩ := n.client.rlysltr.report_cases now
      simp only [act, same]
      exact ⟨⟨rfl, rfl, rfl⟩, rfl, rfl⟩
  | pingRelay now =>
      obtain same | ⟨node, -, same⟩ := n.client.rlysltr.pingRelay_cases now
      · simp only [act, same]
        exact ⟨⟨rfl, rfl, rfl⟩, rfl, rfl⟩
      · simp only [act, same]
        exact ⟨⟨rfl, rfl, rfl⟩, rfl, rfl⟩
  | rlAdvice msg len =>
      obtain ⟨candidates, iterCandidates, same⟩ := n.client.rlysltr.processRlAdvice_cases msg len
      simp only [act, same]
      exact ⟨⟨rfl, rfl, rfl⟩, rfl, rfl⟩
  | increaseIter | close | other => exact ⟨⟨rfl, rfl, rfl⟩, rfl, rfl⟩

theorem Untouched.steady {n' : Parties} (untouched : Untouched n n') (steady : Steady near far n) :
    Steady near far n' where
  src := (congrArg EndPoint.sockaddr untouched.frame.src).trans steady.src
  dst := untouched.frame.dst.trans steady.dst
  peer := untouched.peer.trans steady.peer
  short := by
    rw [SimpleRlysltr.Short, untouched.relaylist, untouched.frame.req]
    exact steady.short

theorem Sends.pair {a : Action} (sends : Sends n a p) :
    p.source.sockaddr = n.src ∧ p.destination.sockaddr = n.dst ∧
      addressee p = p.relay.sockaddr := by
  cases a with
  | pingCandidate | pingRelay | close =>
      obtain ⟨_, -, rfl⟩ := sends
      exact ⟨rfl, rfl, rfl⟩
  | _ => exact sends.elim

theorem act_travels (steady : Steady near far n) (a : Action) :
    ∀ l ∈ (act n a).2, ∃ p, Sends n a p ∧ Travels near far l.datagram p := by
  intro l sent
  obtain ⟨p, sends, own, rfl⟩ := act_sent n a l sent
  obtain ⟨source, destination, relay⟩ := sends.pair
  exact ⟨p, sends, rfl, own, source.trans steady.src, destination.trans steady.dst, relay.symm⟩

/-! ## Handling a letter -/

theorem handled_frame {s : CorsSocket} {amb : CorsSocket.Ambient}
    {received : CorsSocket.Received} (handled : CorsSocket.Handles s amb p received) :
    SimpleRlysltr.Frame s.rlysltr received.socket.rlysltr := by
  cases handled with
  | turnedBack _ _ _ selector | ignored _ selector => exact selector ▸ .refl _
  | fwReply _ selector => exact selector ▸ SimpleRlysltr.processFwReply_frame ..
  | bwReply _ selector => exact selector ▸ SimpleRlysltr.processBwReply_frame ..

theorem handled_short {s : CorsSocket} {amb : CorsSocket.Ambient}
    {received : CorsSocket.Received} (handled : CorsSocket.Handles s amb p received)
    (short : s.rlysltr.Short) : received.socket.rlysltr.Short := by
  cases handled with
  | turnedBack _ _ _ selector | ignored _ selector => exact selector ▸ short
  | fwReply _ selector => exact selector ▸ SimpleRlysltr.processFwReply_short short ..
  | bwReply _ selector => exact selector ▸ SimpleRlysltr.processBwReply_short short ..

theorem handled_travels (travels : Travels near far d p) {s : CorsSocket}
    {amb : CorsSocket.Ambient} {received : CorsSocket.Received}
    (handled : CorsSocket.Handles s amb p received) :
    ∀ d' ∈ received.sent, ∃ q, Travels near far d' q := by
  intro d' answer
  cases handled with
  | turnedBack q typed same _ sent =>
      rw [sent] at answer
      obtain rfl := List.mem_singleton.mp answer
      exact ⟨q, travels.turnedBack same (typed.imp And.right And.right)⟩
  | fwReply typed _ sent =>
      rw [sent] at answer
      obtain ⟨rfl, -⟩ := SimpleRlysltr.processFwReply_sent
        (CorsProbe.received_probe s.msg travels.own) amb.tmNow d' answer
      exact ⟨_, travels.answer (s.rlysltr.reservation_identity p)
        (by decide : PacketType.bwReserve ∈ _) rfl⟩
  | bwReply _ _ sent | ignored _ _ sent =>
      rw [sent] at answer
      cases answer

theorem receive_steady (steady : Steady near far n) (r : Reading) (travels : Travels near far d p) :
    Steady near far (receive n r d).1 ∧ ∀ d' ∈ (receive n r d).2, ∃ q, Travels near far d' q := by
  have received := receive_receives n r travels.bytes travels.own
  generalize receive n r d = result at received
  cases received with
  | client received here handled =>
      have frame := handled_frame handled
      refine ⟨⟨?_, ?_, steady.peer, handled_short handled steady.short⟩,
        handled_travels travels handled⟩
      · exact (congrArg EndPoint.sockaddr frame.src).trans steady.src
      · exact frame.dst.trans steady.dst
  | destination received away here handled =>
      have frame := handled_frame handled
      refine ⟨⟨steady.src, steady.dst, ?_, steady.short⟩, handled_travels travels handled⟩
      exact (congrArg EndPoint.sockaddr frame.src).trans steady.peer
  | relay outcome away between handled =>
      refine ⟨⟨steady.src, steady.dst, steady.peer, steady.short⟩, fun d' answer => ?_⟩
      cases handled with
      | probe q _ forward same =>
          obtain rfl := List.mem_singleton.mp answer
          exact ⟨q, travels.forwarded same (.inl forward)⟩
      | reserve q _ forward same =>
          obtain rfl := List.mem_singleton.mp answer
          exact ⟨q, travels.forwarded same (.inr forward)⟩
      | release | ignored => cases answer

/-! ## Sessions are accounted for -/

theorem Returning.answers {a : SockaddrIn} (travels : Travels near far d p)
    (returning : Returning near far a d) :
    p.type ∈ [.bwForward, .bwReply] ∧ p.relay.sockaddr = a := by
  obtain ⟨q, other, answers⟩ := returning
  exact other.unique travels ▸ answers

theorem reserved_congr {n' : Parties} (src : n'.src = n.src) (peer : n'.peer = n.peer)
    (relays : n'.relays = n.relays) {key : SessionKey} {a : SockaddrIn} :
    Reserved key a n' ↔ Reserved key a n := by
  rw [Reserved, Reserved, src, peer, relays]

theorem reserved_of_setRelay {key : SessionKey} {a b : SockaddrIn} {e : SimpleFwd.Event}
    (other : a = b → ¬ SimpleFwd.Reserves key e)
    (reserved : Reserved key a (n.setRelay b ((n.relays b).step e))) : Reserved key a n := by
  obtain ⟨away, between, stored⟩ := reserved
  refine ⟨away, between, ?_⟩
  by_cases here : a = b
  · subst here
    simp only [Parties.setRelay, Function.update_self] at stored
    exact SimpleFwd.mem_of_step (other rfl) stored
  · simpa only [Parties.setRelay, Function.update_of_ne here] using stored

theorem act_reserved {key : SessionKey} {a : Action} {b : SockaddrIn}
    (other : ∀ c e, a = .other c e → ¬ SimpleFwd.Reserves key e)
    (reserved : Reserved key b (act n a).1) : Reserved key b n := by
  have untouched := act_untouched n a
  cases a with
  | other c e => exact reserved_of_setRelay (fun _ => other c e rfl) reserved
  | _ =>
      have src : (act n _).1.src = n.src := congrArg EndPoint.sockaddr untouched.frame.src
      exact (reserved_congr src untouched.peer rfl).mp reserved

/-- An entry is listed still, unless it was dropped with its session. -/
theorem listed_of_retained {node : RelayNode} {dropped : Option (RelayNode × List RelayNode)}
    {relaylist : List RelayNode} (harmless : Harmless n dropped)
    (reserved : Reserved (pair n) node.relay.sockaddr n)
    (retained : SimpleRlysltr.Retained node dropped relaylist) :
    node.relay.sockaddr ∈ sockaddrs relaylist := by
  cases retained with
  | inl stays => exact List.mem_map_of_mem stays
  | inr gone =>
      obtain ⟨others, dropped, stay⟩ := gone
      exact List.map_subset _ stay (harmless node others dropped reserved)

theorem Travels.ends (travels : Travels near far d p) (answer : p.type ∈ [.bwForward, .bwReply]) :
    d.dst = far ∨ d.dst = near := by
  rw [travels.address, addressee]
  cases List.mem_pair.mp answer with
  | inl typed => exact .inl (by rw [typed]; exact travels.destination)
  | inr typed => exact .inr (by rw [typed]; exact travels.source)

theorem not_answer {types : List PacketType} (typed : p.type ∈ types)
    (apart : ∀ type ∈ types, type ∉ [.bwForward, .bwReply]) : p.type ∉ [.bwForward, .bwReply] :=
  apart p.type typed

theorem turnedBack_returning (travels : Travels near far d p)
    (typed : (p.type ∈ [.fwProbe, .fwForward] ∧ q.type = .fwReply) ∨
      (p.type = .bwForward ∧ q.type = .bwReply))
    (same : SameIdentity q p) {a : SockaddrIn}
    (answer : p.type ∈ [.bwForward, .bwReply] ∧ p.relay.sockaddr = a) :
    Returning near far a ⟨p.source.sockaddr, q.serialize⟩ := by
  have reply : q.type = .bwReply := by
    cases typed with
    | inl probe => exact absurd answer.1 (not_answer probe.1 (by decide))
    | inr typed => exact typed.2
  refine ⟨q, travels.turnedBack same (.inr reply), ?_, ?_⟩
  · rw [reply]
    decide
  · rw [same.relay, answer.2]

/-- For a relay that is listed or whose answer comes in, the client lists it afterwards or
    sends the answer on. -/
theorem client_accounted (steady : Steady near far n) (travels : Travels near far d p)
    (here : d.dst = n.src) {r : Reading} (retains : Retains n r d) {received : CorsSocket.Received}
    (handled : CorsSocket.Handles n.client r.amb p received) {a : SockaddrIn}
    (reserved : Reserved (pair n) a n)
    (before : Listed a n ∨ p.type ∈ [.bwForward, .bwReply] ∧ p.relay.sockaddr = a) :
    a ∈ sockaddrs received.socket.rlysltr.relaylist ∨
      ∃ d' ∈ received.sent, Returning near far a d' := by
  obtain ⟨kept, entered⟩ := retains here p (travels.decoded fun _ => 0)
  have decoded := CorsProbe.received_probe n.client.msg travels.own
  cases handled with
  | turnedBack q typed same selector sent =>
      rw [selector, sent]
      refine before.imp id fun answer => ⟨_, List.mem_singleton_self _, ?_⟩
      exact turnedBack_returning travels typed same answer
  | fwReply typed selector sent =>
      rw [selector]
      cases before with
      | inl listed =>
          obtain ⟨node, old, rfl⟩ := List.mem_map.mp listed
          have retained := SimpleRlysltr.processFwReply_retains decoded r.amb.tmNow node old
          exact .inl (listed_of_retained (kept typed) reserved retained)
      | inr answer => exact absurd answer.1 (by rw [typed]; decide)
  | bwReply typed selector sent =>
      rw [selector]
      have entry : ∃ node, (node ∈ n.client.rlysltr.relaylist ∨
          node = SimpleRlysltr.relayNode p r.amb.tmNow r.amb.lossrate) ∧
          node.relay.sockaddr = a := by
        cases before with
        | inl listed =>
            obtain ⟨node, old, address⟩ := List.mem_map.mp listed
            exact ⟨node, .inl old, address⟩
        | inr answer => exact ⟨_, .inr rfl, answer.2⟩
      obtain ⟨node, listed, rfl⟩ := entry
      have retained := SimpleRlysltr.processBwReply_retains steady.short decoded r.amb.tmNow
        r.amb.lossrate listed
      exact .inl (listed_of_retained (entered typed) reserved retained)
  | ignored typed selector sent =>
      rw [selector]
      exact before.imp id fun answer => absurd answer.1 (not_answer typed (by decide))

theorem destination_accounted (travels : Travels near far d p) (away : d.dst ≠ near)
    {s : CorsSocket} {amb : CorsSocket.Ambient} {received : CorsSocket.Received}
    (handled : CorsSocket.Handles s amb p received) {a : SockaddrIn}
    (answer : p.type ∈ [.bwForward, .bwReply] ∧ p.relay.sockaddr = a) :
    ∃ d' ∈ received.sent, Returning near far a d' := by
  cases handled with
  | turnedBack q typed same selector sent =>
      rw [sent]
      exact ⟨_, List.mem_singleton_self _, turnedBack_returning travels typed same answer⟩
  | fwReply typed => exact absurd answer.1 (by rw [typed]; decide)
  | bwReply typed =>
      refine absurd ?_ away
      rw [travels.address, addressee, typed]
      exact travels.source
  | ignored typed => exact absurd answer.1 (not_answer typed (by decide))

theorem relay_accounted (travels : Travels near far d p)
    (away : d.dst ≠ near) (between : d.dst ≠ far) {curTime : Timeval} {rest : Mem}
    {outcome : SimpleFwd × List Datagram}
    (handled : SimpleFwd.Handles (n.relays d.dst) curTime rest p outcome) {a : SockaddrIn}
    (reserved : Reserved (pair n) a (n.setRelay d.dst outcome.1)) :
    (Reserved (pair n) a n ∧ p.type ∉ [.bwForward, .bwReply]) ∨
      ∃ d' ∈ outcome.2, Returning near far a d' := by
  cases handled with
  | probe q typed =>
      refine .inl ⟨?_, by rw [typed]; decide⟩
      simpa only [Parties.setRelay, Function.update_eq_self] using reserved
  | reserve q typed forward same =>
      by_cases here : a = d.dst
      · refine .inr ⟨_, List.mem_singleton_self _, q, travels.forwarded same (.inr forward), ?_, ?_⟩
        · rw [forward]
          decide
        · rw [same.relay, here, travels.address, addressee, typed]
      · refine .inl ⟨?_, by rw [typed]; decide⟩
        exact reserved_of_setRelay (fun same => absurd same here) reserved
  | release typed =>
      refine .inl ⟨?_, by rw [typed]; decide⟩
      have other : ¬ SimpleFwd.Reserves (pair n) (.bwRelease (rest.receive p.serialize)) := id
      exact reserved_of_setRelay (fun _ => other) reserved
  | ignored typed =>
      refine .inl ⟨?_, fun answer => ?_⟩
      · simpa only [Parties.setRelay, Function.update_eq_self] using reserved
      · cases travels.ends answer with
        | inl here => exact between here
        | inr here => exact away here

/-- What is newly stored, was listed or was answered is listed or answered afterwards. -/
theorem receive_accounted (steady : Steady near far n) (r : Reading)
    (travels : Travels near far d p) (retains : Retains n r d) {a : SockaddrIn}
    (reserved : Reserved (pair n) a (receive n r d).1)
    (before : Reserved (pair n) a n → Listed a n ∨ Returning near far a d) :
    Listed a (receive n r d).1 ∨ ∃ d' ∈ (receive n r d).2, Returning near far a d' := by
  have received := receive_receives n r travels.bytes travels.own
  generalize receive n r d = result at received reserved
  have answered (reserved : Reserved (pair n) a n) :=
    (before reserved).imp_right (Returning.answers travels)
  cases received with
  | client received here handled =>
      have src : Parties.src { n with client := received.socket } = n.src :=
        congrArg EndPoint.sockaddr (handled_frame handled).src
      have stored : Reserved (pair n) a n := (reserved_congr src rfl rfl).mp reserved
      exact client_accounted steady travels here retains handled stored (answered stored)
  | destination received away here handled =>
      have peer : Parties.peer { n with destination := received.socket } = n.peer :=
        congrArg EndPoint.sockaddr (handled_frame handled).src
      have stored : Reserved (pair n) a n := (reserved_congr (by rfl) peer rfl).mp reserved
      refine (answered stored).imp id ?_
      exact destination_accounted travels (steady.src ▸ away) handled
  | relay outcome away between handled =>
      have relayed := relay_accounted travels (steady.src ▸ away) (steady.peer ▸ between) handled
        reserved
      cases relayed with
      | inl old => exact .inl ((answered old.1).resolve_right fun answer => old.2 answer.1)
      | inr answer => exact .inr answer

end Letters

/-! ## Runs -/

/-- All letters travel, and the parties are as they were in what matters for them. -/
def Orderly (near far : SockaddrIn) : Network Parties Letter → Prop :=
  Network.Holds (Steady near far) fun l => ∃ p, Travels near far l.datagram p

/-- Every stored session of the pair is accounted for. -/
def Custody (near far : SockaddrIn) : Network Parties Letter → Prop :=
  Network.Accounted (Reserved (.between near far)) Listed fun a l => Returning near far a l.datagram

section Runs
variable {near far : SockaddrIn}

theorem step_orderly (s : Network Parties Letter) (e : Event) (orderly : Orderly near far s) :
    Orderly near far (step s e) := by
  refine Network.step_holds ?_ ?_ s e orderly
  · intro n a steady
    refine ⟨(act_untouched n a).steady steady, fun l sent => ?_⟩
    obtain ⟨p, -, travels⟩ := act_travels steady a l sent
    exact ⟨p, travels⟩
  · rintro n r l steady ⟨p, travels⟩
    obtain ⟨kept, sent⟩ := receive_steady steady r travels
    refine ⟨kept, fun l' flies => ?_⟩
    obtain ⟨d, answer, rfl⟩ := List.mem_map.mp flies
    exact sent d answer

theorem step_custody {s : Network Parties Letter} {e : Event} (keeps : Keeps s e)
    (orderly : Orderly near far s) (custody : Custody near far s) :
    Custody near far (step s e) := by
  obtain ⟨steady, flight⟩ := orderly
  have key : pair s.nodes = .between near far := by rw [pair, steady.src, steady.dst]
  cases e with
  | act a =>
      refine Network.act_accounted custody (fun b => act_reserved ?_) fun b _ listed => ?_
      · rintro c e rfl
        exact key ▸ keeps
      · rw [Listed, (act_untouched s.nodes a).relaylist]
        exact listed
  | deliver k keep r =>
      cases taken : s.flight[k]? with
      | none =>
          rw [step, Network.step_deliver_none taken]
          exact custody
      | some l =>
          obtain ⟨p, travels⟩ := flight l (List.mem_of_getElem? taken)
          refine Network.deliver_accounted custody taken fun a reserved before => ?_
          have accounted := receive_accounted steady r travels (keeps l taken) (a := a)
          rw [key] at accounted
          refine (accounted reserved before).imp_right ?_
          rintro ⟨d, answer, returning⟩
          exact ⟨⟨d, l.origin⟩, List.mem_map_of_mem answer, returning⟩

end Runs

end Overlay

end Cors
