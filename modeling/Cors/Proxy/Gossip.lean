import Cors.Lib.Network
import Cors.Proxy.CorsProxy
import Cors.Proxy.Exchange
import Cors.Proxy.PongBuffer

/-! # Neighbours of neighbours

Any number of proxies probe their neighbours, answer each other and learn from the answers, while
their datagrams are delayed, reordered, lost and duplicated. Nobody makes up a neighbour: what a
proxy knows was configured at a proxy that it is connected to by what they know, or probed itself.
-/

namespace Cors

open ByteFormat

/-- What `dispatch` does with the neighbour maintainer. -/
def SimpleNbmtr.dispatch (s : SimpleNbmtr) (clock : Clock) (msg : Mem) (len : Nat)
    (peeraddr : SockaddrIn) : SimpleNbmtr × List Datagram :=
  if 0 < len then
    match PacketType.ofCode? (msg.get u8 0) with
    | some .probePing => s.processProbePing clock.now msg len peeraddr
    | some .probePong => (s.processProbePong clock msg peeraddr, [])
    | _ => (s, [])
  else
    (s, [])

theorem CorsProxy.dispatch_nbmtr (advisor : RelayAdvisor ρ) (s : CorsProxy ρ) (clock : Clock)
    (msg : Mem) (len : Nat) (peeraddr : SockaddrIn) :
    (s.dispatch advisor clock msg len peeraddr).1.nbmtr =
      (s.nbmtr.dispatch clock msg len peeraddr).1 := by
  unfold dispatch SimpleNbmtr.dispatch
  split
  · cases PacketType.ofCode? (msg.get u8 0) with
    | none => rfl
    | some type => cases type <;> rfl
  · rfl

namespace Gossip

open SimpleNbmtr

/-- The neighbour maintainers, each at the address of its proxy. -/
abbrev Proxies := SockaddrIn → Option SimpleNbmtr

/-- A proxy probes, or somebody sends something else. -/
inductive Action where
  | probe (a : SockaddrIn) (clock : Clock)
  | other (l : Letter)

/-- What the handling of a datagram depends on besides it. -/
structure Reading where
  clock : Clock
  junk : Mem

def act (n : Proxies) : Action → Proxies × List Letter
  | .probe a clock =>
      match (n a).bind fun s => s.probe clock with
      | some (s, sent) => (Function.update n a (some s), sent.map (Letter.mk a))
      | none => (n, [])
  | .other l => (n, [l])

/-- What is sent to an address without a proxy is lost. -/
def handle (n : Proxies) (r : Reading) (l : Letter) : Proxies × List Letter :=
  let a := l.datagram.dst
  match n a with
  | some s =>
      let bytes := l.datagram.bytes.take corsMaxMsgSize
      let (s, sent) := s.dispatch r.clock (r.junk.receive bytes) bytes.length l.src
      (Function.update n a (some s), sent.map (Letter.mk a))
  | none => (n, [])

abbrev Event := Network.Event Action Reading

def step : Network Proxies Letter → Event → Network Proxies Letter := Network.step act handle

def start (n : Proxies) : Network Proxies Letter := ⟨n, []⟩

/-- A PING or a PONG. -/
def IsProbe (d : Datagram) : Prop :=
  0 < d.bytes.length ∧
    (PacketType.ofCode? ((Mem.padded d.bytes).get u8 0) = some .probePing ∨
      PacketType.ofCode? ((Mem.padded d.bytes).get u8 0) = some .probePong)

instance (d : Datagram) : Decidable (IsProbe d) := inferInstanceAs (Decidable (_ ∧ _))

/-- PINGs and PONGs are the proxies' own. -/
def Allowed : Event → Prop
  | .act (.other l) => ¬IsProbe l.datagram
  | _ => True

/-- The types and addresses that proxies can get to know: of those that probe, and of what is
    configured where such an address leads. -/
inductive Introduced (n : Proxies) (es : List Event) : Int8 → SockaddrIn → Prop where
  | probing {a : SockaddrIn} {clock : Clock} (probes : .act (.probe a clock) ∈ es) :
      Introduced n es Neighbor.peer a
  | configured {type : Int8} {a : SockaddrIn} {s : SimpleNbmtr} {p : Nat}
      (there : Introduced n es type a) (own : n a = some s) (member : p ∈ s.nl) :
      Introduced n es (s.deref p).type (s.deref p).sockaddr

/-- Some proxy has this type and address in its configuration. -/
def Configured (n : Proxies) (type : Int8) (a : SockaddrIn) : Prop :=
  ∃ b s, n b = some s ∧ ∃ p ∈ s.nl, (s.deref p).type = type ∧ (s.deref p).sockaddr = a

/-- Of another type than a peer is only who was configured so. -/
theorem Introduced.configured_or_peer {n : Proxies} {es : List Event} {type : Int8}
    {a : SockaddrIn} (introduced : Introduced n es type a) :
    type = Neighbor.peer ∨ Configured n type a := by
  cases introduced with
  | probing probes => exact .inl rfl
  | configured there own member => exact .inr ⟨_, _, own, _, member, rfl, rfl⟩

/-! ## What proxies know and say -/

section Invariant
variable (K : Int8 → SockaddrIn → Prop)

def Somebody (a : SockaddrIn) : Prop := ∃ type, K type a

/-- A proxy that knows only whom it may, and does not ask for more than there is room for. -/
structure Within (s : SimpleNbmtr) : Prop where
  sound : s.Sound
  known : ∀ p ∈ s.nl, K (s.deref p).type (s.deref p).sockaddr
  modest : s.numperquery.toNat ≤ pongRoom

/-- A PING that asks for no more neighbours than fit into a PONG. -/
structure Asks (bytes : Bytes) : Prop where
  length : bytes.length = pingHeaderLen
  type : ∀ rest : Mem, (rest.receive bytes).get u8 typePos = PacketType.probePing.code
  modest : ∀ rest : Mem, ((rest.receive bytes).get u8 nbnumPos).toNat ≤ pongRoom

/-- A PONG that lists neighbours, each once. -/
structure Lists (bytes : Bytes) (nbs : List Neighbor) : Prop where
  distinct : (nbs.map Neighbor.addr).Nodup
  length : bytes.length = pongHeaderLen + entryLen * nbs.length
  type : ∀ rest : Mem, (rest.receive bytes).get u8 typePos = PacketType.probePong.code
  stands : ∀ rest : Mem, (rest.receive bytes).Holds pongHeaderLen (nbs.flatMap entry)
  count : ∀ rest : Mem, ((rest.receive bytes).get u8 nbnumPos).toNat = nbs.length

theorem Asks.short {bytes : Bytes} (asks : Asks bytes) : bytes.length ≤ corsMaxMsgSize :=
  asks.length ▸ (by decide)

theorem Lists.short {bytes : Bytes} {nbs : List Neighbor} (lists : Lists bytes nbs)
    (few : nbs.length ≤ pongRoom) : bytes.length ≤ corsMaxMsgSize :=
  lists.length ▸ (fits_iff _).mpr few

/-- What is in flight. -/
inductive Genuine (l : Letter) : Prop where
  | ping (src : K Neighbor.peer l.src) (dst : Somebody K l.datagram.dst)
      (asks : Asks l.datagram.bytes)
  | pong (src : Somebody K l.src) (dst : K Neighbor.peer l.datagram.dst) (nbs : List Neighbor)
      (known : ∀ nb ∈ nbs, K nb.type nb.sockaddr) (few : nbs.length ≤ pongRoom)
      (lists : Lists l.datagram.bytes nbs)
  | other (none : ¬IsProbe l.datagram)

end Invariant

/-! ## What a probe asks -/

section Probing
variable {s s' : SimpleNbmtr}

/-- The type and the number of neighbours that stand in the scratch buffer. -/
structure Prepared (s : SimpleNbmtr) (n : UInt8) : Prop where
  type : s.buff.get u8 typePos = PacketType.probePing.code
  nbnum : s.buff.get u8 nbnumPos = n

theorem sendPing_prepared {n : UInt8} (prepared : Prepared s n) (p : Nat) :
    Prepared (s.sendPing p).1 n ∧
      (n.toNat ≤ pongRoom → Asks (s.sendPing p).2.bytes) := by
  have spared (pos : Nat) (before : pos + 1 ≤ seqPos) :
      (s.sendPing p).1.buff.get u8 pos = s.buff.get u8 pos := by
    simp only [sendPing, SimpleNbmtr.modify]
    rw [Mem.get_put_disjoint _ u32 u8 _ (.inl (Nat.le_trans before (by decide))),
      Mem.get_put_disjoint _ u8 u8 _ (.inl before)]
  have type := (spared typePos (by decide)).trans prepared.type
  have nbnum := (spared nbnumPos (by decide)).trans prepared.nbnum
  refine ⟨⟨type, nbnum⟩, fun modest => ⟨Mem.read_length _ _ _, fun rest => ?_, fun rest => ?_⟩⟩
  · exact (Mem.receive_get rest _ u8 (by decide)).trans type
  · have read := (Mem.receive_get rest (s.sendPing p).1.buff u8
      (by decide : nbnumPos + u8.width ≤ pingHeaderLen)).trans nbnum
    exact (congrArg UInt8.toNat read).trans_le modest

theorem request_prepared (type : s.buff.get u8 typePos = PacketType.probePing.code) :
    ∃ n, (n = s.numperquery ∨ n = 0) ∧ Prepared s.request.1 n ∧
      s.request.1.numperquery = s.numperquery ∧
      (n.toNat ≤ pongRoom → ∀ d ∈ s.request.2, Asks d.bytes) := by
  have prepared (n : UInt8) : Prepared { s with buff := s.buff.put u8 nbnumPos n } n :=
    ⟨(Mem.get_put_disjoint _ u8 u8 _ (.inl (by decide))).trans type, Mem.get_put _ u8 _ _⟩
  unfold request
  split
  · refine ⟨s.numperquery, .inl rfl, ?_⟩
    dsimp only
    split
    · rename_i head p rest order
      obtain ⟨kept, asks⟩ := sendPing_prepared (prepared s.numperquery)
        ((p :: rest).getLast (List.cons_ne_nil p rest))
      refine ⟨kept, rfl, fun modest d member => ?_⟩
      rw [List.mem_singleton.mp member]
      exact asks modest
    · exact ⟨prepared _, rfl, by simp⟩
  · exact ⟨0, .inr rfl, prepared 0, rfl, by simp⟩

theorem abate_numperquery {back : Nat} {now : Int32} (abated : s.abate back now = some s') :
    s'.numperquery = s.numperquery := by
  unfold abate at abated
  split at abated
  · obtain ⟨table, -, rfl⟩ := Option.map_eq_some_iff.mp abated
    rfl
  · exact congrArg SimpleNbmtr.numperquery (Option.some.inj abated).symm

theorem probe_asks {clock : Clock} {sent : List Datagram}
    (run : s.probe clock = some (s', sent)) (modest : s.numperquery.toNat ≤ pongRoom) :
    s'.numperquery = s.numperquery ∧ ∀ d ∈ sent, Asks d.bytes := by
  let stamped := { s with
    buff := (s.buff.put u8 typePos PacketType.probePing.code).put Timeval.format tsPos clock.tv }
  have type : stamped.buff.get u8 typePos = PacketType.probePing.code :=
    (Mem.get_put_disjoint _ Timeval.format u8 _ (.inl (by decide))).trans (Mem.get_put _ u8 _ _)
  obtain ⟨n, chosen, prepared, same, asked⟩ := request_prepared type
  have few : n.toNat ≤ pongRoom := by
    cases chosen with
    | inl own => exact own ▸ modest
    | inr none => exact none ▸ Nat.zero_le _
  obtain ⟨pn, first, run⟩ := Option.bind_eq_some_iff.mp run
  obtain ⟨back, last, run⟩ := Option.bind_eq_some_iff.mp run
  obtain ⟨t', abated, run⟩ := Option.bind_eq_some_iff.mp run
  obtain ⟨rfl, rfl⟩ := Prod.mk.inj (Option.some.inj run)
  refine ⟨(abate_numperquery abated).trans same, fun d member => ?_⟩
  · cases List.mem_append.mp member with
    | inl request => exact asked few d request
    | inr probe =>
        rw [List.mem_singleton.mp probe]
        exact (sendPing_prepared prepared pn).2 few

theorem pinged_sockaddr (nb : Neighbor) : (pinged nb).sockaddr = nb.sockaddr := rfl
theorem probed_sockaddr (now : Int32) (nb : Neighbor) :
    (probed now nb).sockaddr = nb.sockaddr := rfl

theorem probe_identity {clock : Clock} {head back : Nat} {sent : List Datagram}
    (effect : ProbeEffect s clock head back s' sent) (p : Nat) :
    (s'.deref p).type = (s.deref p).type ∧ (s'.deref p).sockaddr = (s.deref p).sockaddr := by
  refine ⟨(effect.spares p).1, ?_⟩
  obtain ⟨-, -, -, heap⟩ | ⟨-, -, -, -, -, -, heap⟩ := effect
  · simp only [deref, heap]
    exact Registry.modify_spares _ head (probed_sockaddr clock.now) p
  · simp only [deref, heap]
    exact (Registry.modify_spares _ head (probed_sockaddr clock.now) p).trans
      (Registry.modify_spares _ back pinged_sockaddr p)

theorem probe_within {K : Int8 → SockaddrIn → Prop} (within : Within K s) (clock : Clock) :
    ∃ s' sent, s.probe clock = some (s', sent) ∧ Within K s' ∧
      ∀ d ∈ sent, Somebody K d.dst ∧ Asks d.bytes := by
  obtain ⟨s', sent, head, tail, back, run, sound, split, last, turned, effect⟩ :=
    probe_spec within.sound clock
  obtain ⟨parameter, asks⟩ := probe_asks run within.modest
  have front : head ∈ s.nl := by simp [split]
  have behind : back ∈ s.nl := List.mem_of_getLast? last
  have older {p : Nat} (member : p ∈ s'.nl) : p ∈ s.nl := by
    rw [split, List.mem_cons]
    obtain kept | ⟨-, dropped⟩ := turned
    · rw [kept, List.mem_append, List.mem_singleton] at member
      exact member.symm
    · rw [dropped, List.mem_append, List.mem_singleton] at member
      exact member.symm.imp_right fun inside => List.dropLast_subset _ inside
  refine ⟨s', sent, run, ⟨sound, fun p member => ?_, parameter ▸ within.modest⟩,
    fun d member => ⟨?_, asks d member⟩⟩
  · obtain ⟨type, address⟩ := probe_identity effect p
    rw [type, address]
    exact within.known p (older member)
  · obtain ⟨d', one, ping, -⟩ | ⟨-, d', d'', two, request, ping, -⟩ := effect
    · rw [one, List.mem_singleton] at member
      rw [member, ping.dst]
      exact ⟨_, within.known head front⟩
    · rw [two, List.mem_cons, List.mem_singleton] at member
      cases member with
      | inl first =>
          rw [first, request.dst]
          exact ⟨_, within.known back behind⟩
      | inr second =>
          rw [second, ping.dst]
          exact ⟨_, within.known head front⟩

end Probing

/-! ## What an answer tells -/

section Answering
variable {K : Int8 → SockaddrIn → Prop} {s : SimpleNbmtr}

theorem learnPeer_within (within : Within K s) (now : Int32) {peeraddr : SockaddrIn}
    (own : K Neighbor.peer peeraddr) : Within K (s.learnPeer now peeraddr) := by
  have sound := (learnPeer_sound within.sound now peeraddr).1
  unfold learnPeer at sound ⊢
  split at sound
  · exact within
  · rename_i novel
    refine ⟨sound, fun p member => ?_, within.modest⟩
    cases List.mem_cons.mp member with
    | inl new =>
        have object : (s.pushFront (.learned Neighbor.peer peeraddr.addr peeraddr.port now)).deref
            s.table.fresh = .learned Neighbor.peer peeraddr.addr peeraddr.port now :=
          Registry.enter_heap_self _ _ _
        rw [new, object]
        exact own
    | inr old =>
        rw [pushFront_deref within.sound _ old]
        exact within.known p old

theorem listed_known (within : Within K s) {peeraddr : SockaddrIn} {n : UInt8} {nb : Neighbor}
    (member : nb ∈ s.listed peeraddr n) : K nb.type nb.sockaddr := by
  have candidate := (List.mem_filter.mp (List.mem_of_mem_take member)).1
  obtain ⟨p, there, rfl⟩ := List.mem_map.mp candidate
  exact within.known p (List.mem_reverse.mp there)

theorem pongHeader_type (ifvec : List NetInterface) (buff : Mem) :
    (pongHeader ifvec buff).get u8 typePos = PacketType.probePong.code := by
  rw [pongHeader, Mem.get_put_disjoint _ u16 u8 _ (.inl (by decide)),
    Mem.get_put_disjoint _ u32 u8 _ (.inl (by decide)),
    Mem.get_put_disjoint _ u8 u8 _ (.inl (by decide))]
  exact Mem.get_put _ u8 _ _

/-- The answer to a PING lists neighbours that the proxy knows. -/
theorem ping_within (within : Within K s) (now : Int32) (rest : Mem) {ping : Bytes}
    (asks : Asks ping) {peeraddr : SockaddrIn} (own : K Neighbor.peer peeraddr) :
    Within K (s.processProbePing now (rest.receive ping) ping.length peeraddr).1 ∧
      ∃ pong nbs, (s.processProbePing now (rest.receive ping) ping.length peeraddr).2 =
          [⟨peeraddr, pong⟩] ∧ (∀ nb ∈ nbs, K nb.type nb.sockaddr) ∧ nbs.length ≤ pongRoom ∧
        Lists pong nbs := by
  have learned := learnPeer_within within now own
  have answer := processProbePing_eq s now (rest.receive ping) (Nat.le_of_eq asks.length.symm)
    peeraddr
  have lists := answer_lists (b := s) asks.length (congrArg Prod.snd answer)
  refine ⟨?_, _, _, congrArg Prod.snd answer, fun nb member => listed_known learned member,
    (List.length_take_le _ _).trans (asks.modest rest), ⟨?_, ?_, fun rest' => ?_,
      fun rest' => (lists rest').2.1, fun rest' => (lists rest').2.2⟩⟩
  · rw [answer]
    exact ⟨⟨learned.sound.consistent, learned.sound.nonempty⟩, learned.known, learned.modest⟩
  · exact learned.sound.listed_distinct peeraddr _
  · exact Mem.read_length _ _ _
  · exact (pong_get _ _ _ rest' u8 (by decide) (.inl (by decide))).trans (pongHeader_type _ _)

theorem updated_sockaddr (clock : Clock) (msg : Mem) (nb : Neighbor) :
    (updated clock msg nb).sockaddr = nb.sockaddr := rfl

theorem pushFronts_numperquery (nbs : List Neighbor) (s : SimpleNbmtr) :
    (nbs.foldl pushFront s).numperquery = s.numperquery := by
  induction nbs generalizing s with
  | nil => rfl
  | cons nb nbs ih => exact ih _

theorem pong_within (within : Within K s) (clock : Clock) (rest : Mem) {pong : Bytes}
    (peeraddr : SockaddrIn) {nbs : List Neighbor} (known : ∀ nb ∈ nbs, K nb.type nb.sockaddr)
    (lists : Lists pong nbs) :
    Within K (s.processProbePong clock (rest.receive pong) peeraddr) := by
  by_cases expected : s.pongFlag (rest.receive pong) peeraddr = 0
  · obtain ⟨x, -, taken⟩ := processProbePong_eq expected clock
    let touched := s.modify x (updated clock (rest.receive pong))
    have sound : touched.Sound := modify_sound within.sound x (updated_addr clock _)
    have novel : ∀ nb ∈ (touched.reached nbs).map (received clock.now),
        touched.find nb.addr = none := by
      intro nb member
      obtain ⟨nb', reached, rfl⟩ := List.mem_map.mp member
      exact (novel_of_reached reached : touched.find nb'.addr = none)
    have distinct : (((touched.reached nbs).map (received clock.now)).map Neighbor.addr).Nodup := by
      rw [List.map_map]
      exact lists.distinct.sublist ((List.takeWhile_sublist _).map _)
    have grown := pushFronts_enlarged sound novel distinct
    rw [taken, lists.count rest, learnListed_eq _ _ (lists.stands rest) lists.distinct]
    refine ⟨grown.sound, fun p member => ?_, ?_⟩
    · cases grown.onlyThese p member with
      | inl old =>
          rw [(grown.kept p old).2]
          have type := Registry.modify_spares s.table x (updated_type clock (rest.receive pong)) p
          have address :=
            Registry.modify_spares s.table x (updated_sockaddr clock (rest.receive pong)) p
          have own := within.known p old
          rwa [deref, ← type, ← address] at own
      | inr new =>
          obtain ⟨nb, reached, same⟩ := List.mem_map.mp new
          rw [← same]
          exact known nb ((List.takeWhile_sublist _).subset reached)
    · rw [pushFronts_numperquery]
      exact within.modest
  · rw [processProbePong_refused expected]
    exact within

end Answering

/-! ## Steps of the network -/

section Steps
variable {K : Int8 → SockaddrIn → Prop}

theorem received_probe (rest : Mem) {dst : SockaddrIn} {bytes : Bytes} :
    IsProbe ⟨dst, bytes⟩ ↔ 0 < bytes.length ∧
      (PacketType.ofCode? ((rest.receive bytes).get u8 0) = some .probePing ∨
        PacketType.ofCode? ((rest.receive bytes).get u8 0) = some .probePong) := by
  refine and_congr_right fun nonempty => ?_
  rw [Mem.received_kind rest nonempty]

/-- What does not fit into the buffer is cut off behind the type. -/
theorem IsProbe.of_taken {dst : SockaddrIn} {bytes : Bytes}
    (probe : IsProbe ⟨dst, bytes.take corsMaxMsgSize⟩) : IsProbe ⟨dst, bytes⟩ := by
  obtain ⟨nonempty, kind⟩ := probe
  obtain ⟨whole, left⟩ := Mem.taken_kind (fun _ => 0) nonempty
  have same : (Mem.padded (bytes.take corsMaxMsgSize)).get u8 0 = (Mem.padded bytes).get u8 0 :=
    left
  exact ⟨whole, same ▸ kind⟩

theorem dispatch_other (s : SimpleNbmtr) (peeraddr : SockaddrIn) {dst : SockaddrIn}
    {bytes : Bytes} (other : ¬IsProbe ⟨dst, bytes⟩) (clock : Clock) (rest : Mem) :
    s.dispatch clock (rest.receive bytes) bytes.length peeraddr = (s, []) := by
  rw [received_probe rest] at other
  unfold SimpleNbmtr.dispatch
  split
  · rename_i nonempty
    split
    · rename_i ping
      exact absurd ⟨nonempty, .inl ping⟩ other
    · rename_i pong
      exact absurd ⟨nonempty, .inr pong⟩ other
    · rfl
  · rfl

theorem dispatch_ping {s : SimpleNbmtr} {peeraddr : SockaddrIn} {bytes : Bytes}
    (asks : Asks bytes) (clock : Clock) (rest : Mem) :
    s.dispatch clock (rest.receive bytes) bytes.length peeraddr =
      s.processProbePing clock.now (rest.receive bytes) bytes.length peeraddr := by
  have nonempty : 0 < bytes.length := asks.length ▸ (by decide)
  have kind : PacketType.ofCode? ((rest.receive bytes).get u8 0) = some .probePing :=
    (congrArg _ (asks.type rest)).trans (PacketType.ofCode?_code _)
  rw [SimpleNbmtr.dispatch, if_pos nonempty, kind]

theorem dispatch_pong {s : SimpleNbmtr} {peeraddr : SockaddrIn} {bytes : Bytes}
    {nbs : List Neighbor} (lists : Lists bytes nbs) (clock : Clock) (rest : Mem) :
    s.dispatch clock (rest.receive bytes) bytes.length peeraddr =
      (s.processProbePong clock (rest.receive bytes) peeraddr, []) := by
  have nonempty : 0 < bytes.length := by
    rw [lists.length]
    exact Nat.add_pos_left (by decide) _
  have kind : PacketType.ofCode? ((rest.receive bytes).get u8 0) = some .probePong :=
    (congrArg _ (lists.type rest)).trans (PacketType.ofCode?_code _)
  rw [SimpleNbmtr.dispatch, if_pos nonempty, kind]

/-- Proxies that somebody knows keep to whom they may know, and the others stay as they were. -/
structure AllWithin (K : Int8 → SockaddrIn → Prop) (n n' : Proxies) : Prop where
  within : ∀ a s, Somebody K a → n' a = some s → Within K s
  apart : ∀ a, ¬Somebody K a → n' a = n a

variable {n n' : Proxies}

theorem AllWithin.update (all : AllWithin K n n') {a : SockaddrIn} (own : Somebody K a)
    {s : SimpleNbmtr} (kept : Within K s) : AllWithin K n (Function.update n' a (some s)) where
  within b t introduced there := by
    by_cases same : b = a
    · subst same
      rw [Function.update_self] at there
      exact Option.some.inj there ▸ kept
    · rw [Function.update_of_ne same] at there
      exact all.within b t introduced there
  apart b nobody := by
    have other : b ≠ a := fun same => nobody (same ▸ own)
    rw [Function.update_of_ne other]
    exact all.apart b nobody

theorem act_within (all : AllWithin K n n') {action : Action} (allowed : Allowed (.act action))
    (probing : ∀ a clock, action = .probe a clock → K Neighbor.peer a) :
    AllWithin K n (act n' action).1 ∧ ∀ l ∈ (act n' action).2, Genuine K l := by
  cases action with
  | other l =>
      refine ⟨all, fun l' member => ?_⟩
      rw [List.mem_singleton.mp member]
      exact .other allowed
  | probe a clock =>
      have own := probing a clock rfl
      cases there : n' a with
      | none =>
          simp only [act, there, Option.bind_none]
          exact ⟨all, by simp⟩
      | some s =>
          obtain ⟨s', sent, run, kept, asks⟩ := probe_within (all.within a s ⟨_, own⟩ there) clock
          simp only [act, there, Option.bind_some, run]
          refine ⟨all.update ⟨_, own⟩ kept, fun l member => ?_⟩
          obtain ⟨d, sends, rfl⟩ := List.mem_map.mp member
          exact .ping own (asks d sends).1 (asks d sends).2

theorem handle_none {l : Letter} (nobody : n l.datagram.dst = none) (r : Reading) :
    handle n r l = (n, []) := by
  simp only [handle, nobody]

theorem handle_some {n : Proxies} {l : Letter} {s : SimpleNbmtr} (there : n l.datagram.dst = some s)
    (short : l.datagram.bytes.length ≤ corsMaxMsgSize) (r : Reading) :
    handle n r l =
      let turn := s.dispatch r.clock (r.junk.receive l.datagram.bytes) l.datagram.bytes.length l.src
      (Function.update n l.datagram.dst (some turn.1),
        turn.2.map (Letter.mk l.datagram.dst)) := by
  simp only [handle, there, List.take_of_length_le short]

theorem handle_within (all : AllWithin K n n') (r : Reading) {l : Letter}
    (genuine : Genuine K l) :
    AllWithin K n (handle n' r l).1 ∧ ∀ l' ∈ (handle n' r l).2, Genuine K l' := by
  cases there : n' l.datagram.dst with
  | none =>
      rw [handle_none there]
      exact ⟨all, by simp⟩
  | some s =>
      cases genuine with
      | ping src dst asks =>
          obtain ⟨kept, pong, nbs, sent, known, few, lists⟩ :=
            ping_within (all.within _ s dst there) r.clock.now r.junk asks src
          rw [handle_some there asks.short, dispatch_ping asks]
          refine ⟨all.update dst kept, fun l' member => ?_⟩
          dsimp only at member
          rw [sent, List.map_singleton, List.mem_singleton] at member
          rw [member]
          exact .pong dst src nbs known few lists
      | pong src dst nbs known few lists =>
          have kept := pong_within (all.within _ s ⟨_, dst⟩ there) r.clock r.junk l.src known lists
          rw [handle_some there (lists.short few), dispatch_pong lists]
          exact ⟨all.update ⟨_, dst⟩ kept, by simp⟩
      | other none =>
          have silent := dispatch_other s l.src (mt IsProbe.of_taken none) r.clock r.junk
          have same := Function.update_eq_self l.datagram.dst n'
          rw [there] at same
          simp only [handle, there, silent, same]
          exact ⟨all, by simp⟩

end Steps

/-! ## Runs -/

section Results
variable {n : Proxies} {es : List Event}

/-- What proxies know after a run. -/
structure Acquainted (n : Proxies) (es : List Event) (s : Network Proxies Letter) : Prop where
  known : ∀ type a proxy, Introduced n es type a → s.nodes a = some proxy →
    ∀ p ∈ proxy.nl, Introduced n es (proxy.deref p).type (proxy.deref p).sockaddr
  oracles : ∀ type a proxy, Introduced n es type a → s.nodes a = some proxy →
    ∀ p ∈ proxy.nl, (proxy.deref p).type = Neighbor.oracle →
      Configured n Neighbor.oracle (proxy.deref p).sockaddr
  probing : ∀ type a proxy, Introduced n es type a → s.nodes a = some proxy →
    ∀ clock, (proxy.probe clock).isSome
  apart : ∀ a, (∀ type, ¬Introduced n es type a) → s.nodes a = n a
  flight : ∀ l ∈ s.flight, IsProbe l.datagram →
    (∃ type, Introduced n es type l.src) ∧ (∃ type, Introduced n es type l.datagram.dst) ∧
      l.datagram.bytes.length ≤ corsMaxMsgSize

theorem start_within (sound : ∀ a s, n a = some s → s.Sound)
    (modest : ∀ a s, n a = some s → s.numperquery.toNat ≤ pongRoom) :
    Network.Holds (AllWithin (Introduced n es) n) (Genuine (Introduced n es)) (start n) := by
  refine ⟨⟨fun a s introduced there => ?_, fun _ _ => rfl⟩, by simp [start]⟩
  obtain ⟨type, introduced⟩ := introduced
  exact ⟨sound a s there, fun p member => .configured introduced there member, modest a s there⟩

/-- However the datagrams are delayed, reordered, lost and duplicated: a proxy that is known to
    any knows whom it may know, with a type and address that were configured or as a peer that
    probed; its probes never get stuck, its answers fit, and nobody else hears of anything. -/
theorem acquainted_of_run (sound : ∀ a s, n a = some s → s.Sound)
    (modest : ∀ a s, n a = some s → s.numperquery.toNat ≤ pongRoom)
    (allowed : ∀ e ∈ es, Allowed e) :
    Acquainted n es (Run.final step (start n) es) := by
  let P := Network.Holds (AllWithin (Introduced n es) n) (Genuine (Introduced n es))
  have keeps (s : Network Proxies Letter) (e : Event) (inside : e ∈ es) (holds : P s) :
      P (step s e) := by
    cases e with
    | act action =>
        refine Network.act_holds holds fun all => act_within all (allowed _ inside) ?_
        rintro a clock rfl
        exact .probing inside
    | deliver k keep r =>
        exact Network.deliver_holds holds fun l _ all genuine => handle_within all r genuine
  obtain ⟨all, genuine⟩ : P (Run.final step (start n) es) :=
    Run.final_of_kept (start_within sound modest) keeps es fun _ => Run.event_of_visit
  have known type a proxy (introduced : Introduced n es type a)
      (there : (Run.final step (start n) es).nodes a = some proxy) :=
    (all.within a proxy ⟨type, introduced⟩ there).known
  refine ⟨known, fun type a proxy introduced there p member oracle => ?_,
    fun type a proxy introduced there clock => ?_,
    fun a nobody => all.apart a fun somebody => somebody.elim nobody, fun l flies probe => ?_⟩
  · have own := (known type a proxy introduced there p member).configured_or_peer
    rw [oracle] at own
    exact own.resolve_left (by decide)
  · obtain ⟨s', sent, run, -⟩ :=
      probe_within (all.within a proxy ⟨type, introduced⟩ there) clock
    simp [run]
  · cases genuine l flies with
    | ping src dst asks => exact ⟨⟨_, src⟩, dst, asks.short⟩
    | pong src dst nbs known few lists => exact ⟨src, ⟨_, dst⟩, lists.short few⟩
    | other none => exact absurd probe none

/-- One proxy knows another, which knows a third one. -/
def sampleProxies : Proxies := fun a =>
  if a = ⟨80, dotted 9 9 9 9⟩ then some loadedSingle
  else if a = ⟨80, dotted 8 8 8 8⟩ then some (listing 1)
  else none

/-- The first one probes, is answered and takes in the answer. -/
def sampleExchange : List Event :=
  [.act (.probe ⟨80, dotted 9 9 9 9⟩ ⟨⟨0, 0⟩, 0⟩), .deliver 0 false ⟨⟨⟨0, 0⟩, 0⟩, fun _ => 0⟩,
    .deliver 0 false ⟨⟨⟨0, 0⟩, 0⟩, fun _ => 0⟩]

theorem acquainted_of_run_sample :
    Acquainted sampleProxies sampleExchange
      (Run.final step (start sampleProxies) sampleExchange) := by
  have cases_ : ∀ a s, sampleProxies a = some s → s = loadedSingle ∨ s = listing 1 := by
    intro a s there
    unfold sampleProxies at there
    split at there
    · exact .inl (Option.some.inj there).symm
    · split at there
      · exact .inr (Option.some.inj there).symm
      · cases there
  refine acquainted_of_run (fun a s there => ?_) (fun a s there => ?_) ?_
  · obtain rfl | rfl := cases_ a s there
    · exact loadedSingle_sound
    · exact listing_sound_one
  · obtain rfl | rfl := cases_ a s there <;> decide
  · simp [sampleExchange, Allowed]

end Results

end Gossip

end Cors
