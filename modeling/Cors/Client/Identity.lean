import Cors.Client.Handling

/-! # The identity of a probe

Whatever happens on the way, the replies that reach the client are read as the probes that
they answer: with the source, the relay and the sending time of the probe, and the address
and the port of its destination. So the relay that is reserved, and later listed, is the one
that was probed, and its delay counts from when it was.
-/

namespace Cors

open ByteFormat

namespace SimpleRlysltr
variable {s : SimpleRlysltr} {msg : Mem} {len : Nat} {probe : CorsProbe}

theorem mem_insertNode {node other : RelayNode} (listed : other ∈ (s.insertNode node).relaylist) :
    other ∈ s.relaylist ∨ other = node := by
  unfold insertNode at listed
  split at listed
  · exact .inl listed
  · exact (List.eq_or_mem_of_mem_insertIdx listed).symm

theorem mem_trim {other : RelayNode} (listed : other ∈ s.trim.relaylist) :
    other ∈ s.relaylist := by
  unfold trim at listed
  split at listed
  · exact List.mem_of_mem_take (List.dropLast_eq_take ▸ listed)
  · exact listed

theorem processBwReply_listed (decoded : parse CorsProbe.deserialize msg len = some probe)
    (tmNow : Timeval) (lossrate : UInt32) :
    ∀ node ∈ (s.processBwReply tmNow lossrate msg len).relaylist,
      node ∈ s.relaylist ∨ node = relayNode probe tmNow lossrate := by
  intro node listed
  simp only [processBwReply, decoded] at listed
  exact mem_insertNode (mem_trim listed)

end SimpleRlysltr

namespace Overlay

/-- The client sent the probe in the course of the run. -/
def Launched (n : Parties) (es : List Event) (p : CorsProbe) : Prop :=
  ∃ visit ∈ Run.visits step (start n) es, ∃ a, visit.2 = .act a ∧ Sends visit.1.nodes a p

/-- The letter is read as the probe it is marked with by every handler of replies, whatever
    the client and the rest of its buffer. -/
structure Letter.Faithful (l : Letter) : Prop where
  decoded : ∀ rest, ∃ q,
    parse CorsProbe.deserialize (Mem.receive rest l.datagram.bytes) l.datagram.bytes.length =
      some q ∧ SameIdentity q l.origin
  /-- The relay that is reserved was probed, and its delay is that of the probe. -/
  reserved : ∀ (s : SimpleRlysltr) tmNow rest,
    ∀ d ∈ (s.processFwReply tmNow (Mem.receive rest l.datagram.bytes)
        l.datagram.bytes.length).2,
      SimpleRlysltr.meetRequirement s.req (SimpleRlysltr.elapsed tmNow l.origin.timestamp) ∧
        ∃ q, d = SimpleRlysltr.sendProbe q ∧ q.type = .bwReserve ∧ SameIdentity q l.origin
  /-- The relay that is inserted was probed, and its delay is that of the probe. -/
  inserted : ∀ (s : SimpleRlysltr) tmNow lossrate rest,
    ∀ node ∈ (s.processBwReply tmNow lossrate (Mem.receive rest l.datagram.bytes)
        l.datagram.bytes.length).relaylist,
      node ∈ s.relaylist ∨ node.relay = l.origin.relay ∧
        node.delay = SimpleRlysltr.delay64 (SimpleRlysltr.elapsed tmNow l.origin.timestamp)

theorem faithful_of_isProbe {l : Letter} (carries : l.datagram.IsProbe l.origin) : l.Faithful := by
  obtain ⟨q, bytes, own, same⟩ := carries
  constructor
  · intro rest
    rw [bytes]
    exact ⟨q, CorsProbe.received_probe rest own, same⟩
  · intro s tmNow rest d sent
    rw [bytes] at sent
    obtain ⟨rfl, meets⟩ :=
      SimpleRlysltr.processFwReply_sent (CorsProbe.received_probe rest own) tmNow d sent
    rw [← same.timestamp]
    exact ⟨meets, _, rfl, rfl, (SimpleRlysltr.reservation_identity s q).trans same⟩
  · intro s tmNow lossrate rest node listed
    rw [bytes] at listed
    refine (SimpleRlysltr.processBwReply_listed (CorsProbe.received_probe rest own) tmNow lossrate
      node listed).imp_right ?_
    rintro rfl
    rw [← same.timestamp]
    exact ⟨same.relay, rfl⟩

theorem endPoint_sent {s : CorsSocket} {amb : CorsSocket.Ambient} {p : CorsProbe}
    {received : CorsSocket.Received} (own : p.type ∈ CorsProbe.accepted)
    (handled : CorsSocket.Handles s amb p received) : ∀ d ∈ received.sent, d.IsProbe p := by
  intro d answer
  cases handled with
  | turnedBack q typed same _ sent =>
      rw [sent] at answer
      obtain rfl := List.mem_singleton.mp answer
      refine Datagram.isProbe_serialize _ q.type rfl ?_ same
      cases typed with
      | inl forward => exact forward.2 ▸ by decide
      | inr forward => exact forward.2 ▸ by decide
  | fwReply typed _ sent =>
      rw [sent] at answer
      obtain ⟨rfl, -⟩ := SimpleRlysltr.processFwReply_sent
        (CorsProbe.received_probe s.msg own) amb.tmNow d answer
      exact Datagram.isProbe_serialize _ .bwReserve rfl (by decide)
        (SimpleRlysltr.reservation_identity _ p)
  | bwReply _ _ sent | ignored _ _ sent =>
      rw [sent] at answer
      cases answer

/-- Whoever handles a probe sends nothing but probes with its identity. -/
theorem receive_sent (n : Parties) (r : Reading) {d : Datagram} {p : CorsProbe}
    (carries : d.IsProbe p) : ∀ d' ∈ (receive n r d).2, d'.IsProbe p := by
  obtain ⟨q, bytes, own, same⟩ := carries
  have answers : ∀ d' ∈ (receive n r d).2, d'.IsProbe q := by
    have received := receive_receives n r bytes own
    generalize receive n r d = result at received
    cases received with
    | client received _ handled | destination received _ _ handled =>
        exact endPoint_sent own handled
    | relay outcome _ _ handled =>
        intro d' answer
        cases handled with
        | probe q' _ forward same' =>
            obtain rfl := List.mem_singleton.mp answer
            exact Datagram.isProbe_serialize _ .fwForward forward (by decide) same'
        | reserve q' _ forward same' =>
            obtain rfl := List.mem_singleton.mp answer
            exact Datagram.isProbe_serialize _ .bwForward forward (by decide) same'
        | release | ignored => cases answer
  intro d' answer
  obtain ⟨q', bytes', own', same'⟩ := answers d' answer
  exact ⟨q', bytes', own', same'.trans same⟩

/-- In every run, every letter in flight, and with it every reply that is delivered, is read
    as the probe that it is marked with and that the client sent. -/
theorem loops_preserve_identity (n : Parties) (es : List Event) :
    ∀ l ∈ (Run.final step (start n) es).flight, Launched n es l.origin ∧ l.Faithful := by
  intro l flies
  have descends : ∃ first ∈ Network.launched act handle (start n) es,
      l.origin = first.origin ∧ l.datagram.IsProbe l.origin := by
    refine Network.final_descends
      (R := fun l m : Letter => m.origin = l.origin ∧ m.datagram.IsProbe m.origin)
      ?_ ?_ (s := start n) rfl es l flies
    · intro n a l sent
      obtain ⟨p, -, own, rfl⟩ := act_sent n a l sent
      exact ⟨rfl, Datagram.isProbe_serialize _ p.type rfl own (SameIdentity.refl p)⟩
    · rintro n r l m ⟨same, carries⟩ m' sent
      obtain ⟨d, answer, rfl⟩ := List.mem_map.mp sent
      exact ⟨same, receive_sent n r carries d answer⟩
  obtain ⟨first, launched, same, carries⟩ := descends
  refine ⟨?_, faithful_of_isProbe carries⟩
  obtain ⟨visit, visited, sent⟩ := List.mem_flatMap.mp launched
  cases moved : visit.2 with
  | act a =>
      rw [moved] at sent
      obtain ⟨p, sends, -, rfl⟩ := act_sent visit.1.nodes a first sent
      exact ⟨visit, visited, a, moved, same ▸ sends⟩
  | deliver k keep i =>
      rw [moved] at sent
      cases sent

/-- A probe and the reservation after it go all the way round, with a duplicate of the probe
    left in flight: the reply to the reservation is read as the probe. -/
theorem whole_loop_identified :
    let relay : EndPoint := ⟨0, 1, 1, 0⟩
    let psk : Endpoints := ⟨⟨0, 2, 2, 0⟩, ⟨0, 3, 3, 0⟩⟩
    let socket (psk : Endpoints) :=
      (CorsSocket.init psk [relay, ⟨0, 4, 4, 0⟩] ⟨150, 0, 0, 2⟩ (.simple ⟨0, []⟩) (fun _ => 0) 0
        0).1
    let n : Parties := ⟨socket psk, socket ⟨psk.dst, psk.src⟩, fun _ => .new 20 200⟩
    let amb : CorsSocket.Ambient := ⟨⟨7, 0⟩, 0, fun _ => 0⟩
    let es : List Event :=
      [.act (.pingCandidate ⟨7, 0⟩), .deliver 0 true ⟨amb, n.src⟩, .deliver 1 false ⟨amb, ⟨1, 1⟩⟩,
        .deliver 1 false ⟨amb, n.peer⟩, .deliver 1 false ⟨amb, n.src⟩,
        .deliver 1 false ⟨amb, ⟨1, 1⟩⟩]
    ∃ l ∈ (Run.final step (start n) es).flight,
      l.datagram.dst = n.src ∧ l.datagram.bytes.head? = some PacketType.bwReply.code ∧
        Launched n es l.origin ∧ l.Faithful := by
  intro relay psk socket n amb es
  have returned : (Run.final step (start n) es).flight[1]?.map
      (fun l => (l.datagram.dst, l.datagram.bytes.head?)) =
        some (n.src, some PacketType.bwReply.code) := by decide +kernel
  obtain ⟨l, second, reply⟩ := Option.map_eq_some_iff.mp returned
  have flies := List.mem_of_getElem? second
  exact ⟨l, flies, congrArg Prod.fst reply, congrArg Prod.snd reply,
    loops_preserve_identity n es l flies⟩

end Overlay

end Cors
