import Cors.Proxy.Demand
import Cors.Proxy.Hops

/-! # What an advice says

Every advice answers an inquiry that came in, lists neighbours of the moment and, unless
it is drawn at random, only such as the last accepted knowledge recommends. Whether it
lists anything is another matter: cached knowledge may match no neighbour any more, and
is used all the same.
-/

namespace Cors

namespace AdvanceRldvr

/-- The advice, as the client decodes it, is a sound answer to an inquiry that came in. -/
structure SoundAdvice (es : List Event) (e : Event) (client : SockaddrIn) (advice : CorsAdvice)
    (x : CorsInquiry) : Prop where
  accepted : Accepted (es ++ [e]) x
  addressed : client = x.source.sockaddr
  source : advice.source = x.source
  destination : advice.destination = x.destination
  short : advice.relays.length ≤ maxAdvicedRelays.toNat
  nodup : advice.relays.Nodup
  neighbors : ∀ relay ∈ advice.relays, ∃ nb ∈ e.neighbors, relay = nb.endPoint
  /-- On the cached and on the filter path. -/
  recommended : (∀ now rand nl, e ≠ .update now rand nl) →
    ∃ entry, Run.latest (learnedFor x.key) (es ++ [e]) = some entry ∧
      ∀ relay ∈ advice.relays, relay.asn ∈ entry.asnSet

theorem answer_recommended {es : List Event} {s : AdvanceRldvr} (traced : Traced es s)
    {e : Event} {answer : Answer} (answered : answer ∈ s.answers e) :
    ∃ entry, Run.latest (learnedFor answer.inquiry.key) (es ++ [e]) = some entry ∧
      ∃ limit, 0 < limit ∧ answer.relays = matching e.neighbors entry.asnSet limit := by
  cases mem_answers answered with
  | inl cached =>
      obtain ⟨x, entry, taken, found, rfl⟩ := cached
      have nothing : learned e = none := by
        cases e with
        | rlInquiry now msg len nl => rfl
        | rlReport msg len | rlFilter now msg len nl | update now rand nl => cases taken
      refine ⟨entry, ?_, x.requiredRelays.toNat, (received_some taken).1, rfl⟩
      rw [Run.latest_concat, learnedFor, nothing, Option.bind_none, Option.none_or]
      exact traced.cached x.key entry found
  | inr queued =>
      obtain ⟨task, -, entry, taken, rfl⟩ := queued
      refine ⟨entry, ?_, maxAdvicedRelays.toNat, by decide, rfl⟩
      simp only [Run.latest_concat, learnedFor, taken, Option.bind_some, if_true, Option.some_or]

theorem relays_nodup {nl : List Neighbor} (distinct : (nl.map Neighbor.addr).Nodup)
    {relays : List EndPoint} (among : relays.Sublist (nl.reverse.map Neighbor.endPoint)) :
    relays.Nodup := by
  refine among.nodup ?_
  rw [List.map_reverse, List.nodup_reverse]
  have addrs : (nl.map Neighbor.endPoint).map EndPoint.addr = nl.map Neighbor.addr :=
    List.map_map
  exact List.Nodup.of_map EndPoint.addr (addrs ▸ distinct)

/-- An advice to an accepted inquiry that lists neighbours, as its receiver decodes it. -/
theorem advise_sound {es : List Event} {e : Event} {x : CorsInquiry}
    (accepted : Accepted (es ++ [e]) x) (distinct : (e.neighbors.map Neighbor.addr).Nodup)
    {relays : List EndPoint} (among : relays.Sublist (e.neighbors.reverse.map Neighbor.endPoint))
    (recommended : (∀ now rand nl, e ≠ .update now rand nl) →
      ∃ entry, Run.latest (learnedFor x.key) (es ++ [e]) = some entry ∧
        ∀ relay ∈ relays, relay.asn ∈ entry.asnSet) :
    SoundAdvice es e x.source.sockaddr
      { CorsAdvice.new with
        source := x.source
        destination := x.destination
        relays := relays.take maxAdvicedRelays.toNat } x where
  accepted := accepted
  addressed := rfl
  source := rfl
  destination := rfl
  short := List.length_take_le _ _
  nodup := relays_nodup distinct ((List.take_sublist _ _).trans among)
  neighbors := by
    intro relay listed
    obtain ⟨nb, member, rfl⟩ := List.mem_map.mp (among.mem (List.mem_of_mem_take listed))
    exact ⟨nb, List.mem_reverse.mp member, rfl⟩
  recommended := by
    intro matched
    obtain ⟨entry, last, all⟩ := recommended matched
    exact ⟨entry, last, fun relay listed => all relay (List.mem_of_mem_take listed)⟩

/-- In every state of every run and whatever happens next, over neighbours with distinct
    addresses: every advice that is sent decodes to a sound one. -/
theorem advice_sound (dbAddr : UInt32) (dbPort : UInt16) (es : List Event) (e : Event)
    (distinct : (e.neighbors.map Neighbor.addr).Nodup) (client : SockaddrIn) (sent : CorsAdvice)
    (emitted : .advice client sent ∈ ((Run.final step (new dbAddr dbPort) es).react e).2)
    (rest : Mem) :
    ∃ advice x,
      parse CorsAdvice.new.deserialize (rest.receive sent.serialize) sent.serialize.length =
        some advice ∧
      SoundAdvice es e client advice x := by
  have traced := final_traced dbAddr dbPort es
  rcases mem_react emitted with ⟨bytes, query⟩ | ⟨answer, answered, part⟩ | guessed
  · cases query
  · obtain ⟨x, accepted, origin⟩ := answer_accepted traced answered
    obtain ⟨entry, last, limit, -, relays⟩ := answer_recommended traced answered
    obtain ⟨rfl, rfl⟩ := Sent.advice.inj (mem_sent_advice part)
    refine ⟨_, x, decoded_advise answer.inquiry answer.relays rest, ?_⟩
    rw [origin] at last ⊢
    rw [relays]
    refine advise_sound accepted distinct (matching_sublist _ _ _) fun _ => ⟨entry, last, ?_⟩
    intro relay listed
    exact matching_asn listed
  · obtain ⟨⟨now, rand, nl, rfl⟩, task, queued, outcomes, guess⟩ := guessed
    obtain ⟨origin, before, x, taken, same⟩ := traced.queued task queued
    have accepted : Accepted (es ++ [.update now rand nl]) x :=
      ⟨origin, List.mem_append_left _ before, taken⟩
    obtain ⟨rfl, rfl⟩ := Sent.advice.inj (mem_guess guess).2
    refine ⟨_, x, decoded_advise task.inquiry _ rest, ?_⟩
    rw [same]
    exact advise_sound accepted distinct (randomly_sublist nl outcomes (hop x))
      fun matched => absurd rfl (matched now rand nl)

/-- Two clients wait until the database recommends two of the three neighbours, a third is
    answered from the cache. -/
theorem advice_sound_sample :
    let waiting := [sampleAsk 1 5 20, sampleAsk 1 6 20]
    let advised (port : UInt16) : CorsAdvice :=
      { CorsAdvice.new with
        source := ⟨10, port, 1, 0⟩
        destination := ⟨20, 9, 2, 0⟩
        relays := [⟨50, 7, 5, 0xFFFFFFFF⟩, ⟨30, 7, 3, 0xFFFFFFFF⟩] }
    let received (port : UInt16) :=
      parse CorsAdvice.new.deserialize (Mem.padded (advised port).serialize)
        (advised port).serialize.length
    (∃ advice x, received 6 = some advice ∧
        SoundAdvice waiting (sampleFilter 2 20) ⟨6, 1⟩ advice x) ∧
      ∃ advice x, received 8 = some advice ∧
        SoundAdvice (waiting ++ [sampleFilter 2 20]) (sampleAsk 3 8 20) ⟨8, 1⟩ advice x := by
  intro waiting advised received
  constructor
  · exact advice_sound 0 0 waiting (sampleFilter 2 20) (by decide) ⟨6, 1⟩ (advised 6)
      (by decide +kernel) fun _ => 0
  · exact advice_sound 0 0 (waiting ++ [sampleFilter 2 20]) (sampleAsk 3 8 20) (by decide)
      ⟨8, 1⟩ (advised 8) (by decide +kernel) fun _ => 0

/-! ## Empty advice -/

/-- No advice that is sent lists nothing. -/
def NeverEmpty (s : AdvanceRldvr) (e : Event) : Prop :=
  ∀ client advice, .advice client advice ∈ (s.react e).2 → (Sent.advice client advice).listed ≠ []

/-- An inquiry whose cached knowledge matches no neighbour waits for new knowledge. -/
def StaleRequeued (s : AdvanceRldvr) (e : Event) : Prop :=
  ∀ x entry, received e = some x → s.asnCache.lookup x.key = some entry →
    matchCount e.neighbors entry.asnSet = 0 →
    (∃ now, (s.step e).taskQueue = s.taskQueue ++ [⟨now, hop x⟩]) ∧
      (s.step e).asnCache = s.asnCache.erase x.key

/-- Cached knowledge that an inquiry meets matches a neighbour. -/
def Fresh (s : AdvanceRldvr) (e : Event) : Prop :=
  ∀ x entry, received e = some x → s.asnCache.lookup x.key = some entry →
    0 < matchCount e.neighbors entry.asnSet

theorem take_ne_nil {relays : List EndPoint} (some_relay : relays ≠ []) :
    relays.take maxAdvicedRelays.toNat ≠ [] := by
  rw [ne_eq, List.take_eq_nil_iff]
  exact not_or.mpr ⟨by decide, some_relay⟩

/-- Where no knowledge is stale, something is listed for every answer. -/
theorem answer_ne_nil {s : AdvanceRldvr} {e : Event} (fresh : s.Fresh e) {answer : Answer}
    (answered : answer ∈ s.answers e) : answer.relays ≠ [] := by
  cases mem_answers answered with
  | inl cached =>
      obtain ⟨x, entry, taken, found, rfl⟩ := cached
      have asks := (received_some taken).1
      have some_match := fresh x entry taken found
      apply List.ne_nil_of_length_pos
      rw [matching_length e.neighbors entry.asnSet asks]
      exact Nat.lt_min.mpr ⟨asks, some_match⟩
  | inr queued =>
      obtain ⟨task, -, entry, taken, rfl⟩ := queued
      exact learned_some taken

theorem neverEmpty_of_fresh {s : AdvanceRldvr} {e : Event} (fresh : s.Fresh e) :
    s.NeverEmpty e := by
  intro client advice emitted
  rcases mem_react emitted with ⟨bytes, query⟩ | ⟨answer, answered, part⟩ | guessed
  · cases query
  · rw [mem_sent_advice part, listed_advise]
    exact take_ne_nil (answer_ne_nil fresh answered)
  · obtain ⟨-, task, -, outcomes, guess⟩ := guessed
    obtain ⟨some_drawn, same⟩ := mem_guess guess
    rw [same, listed_advise]
    exact take_ne_nil some_drawn

theorem fresh_of_neverEmpty {s : AdvanceRldvr} {e : Event} (never : s.NeverEmpty e) :
    s.Fresh e := by
  intro x entry taken found
  by_contra stale
  have asks := (received_some taken).1
  let answer : Answer := ⟨hop x, matching e.neighbors entry.asnSet x.requiredRelays.toNat⟩
  have answered : s.answers e = [answer] := by simp only [answers, taken, found, answer]
  have nothing : answer.relays = [] := by
    apply List.eq_nil_of_length_eq_zero
    have count := matching_length e.neighbors entry.asnSet asks
    simp only [answer, count]
    omega
  have emitted : advise answer.inquiry answer.relays ∈ (s.react e).2 := by
    rw [react_answers (by rw [answered]; exact List.cons_ne_nil _ _), answered,
      List.flatMap_singleton]
    exact List.mem_cons_self
  have listed : (advise answer.inquiry answer.relays).listed = [] := by
    rw [listed_advise, nothing, List.take_nil]
  exact never _ _ emitted listed

theorem empty_advice_iff (s : AdvanceRldvr) (e : Event) :
    s.NeverEmpty e ∧ s.StaleRequeued e ↔ s.Fresh e := by
  constructor
  · rintro ⟨never, -⟩
    exact fresh_of_neverEmpty never
  · intro fresh
    refine ⟨neverEmpty_of_fresh fresh, ?_⟩
    intro x entry taken found stale
    have matched := fresh x entry taken found
    omega

/-- Throughout a run no advice is empty and no stale knowledge is used just in case every
    inquiry of the run that meets cached knowledge meets knowledge that matches. -/
theorem never_empty_iff (dbAddr : UInt32) (dbPort : UInt16) (es : List Event) :
    (∀ visit ∈ Run.visits step (new dbAddr dbPort) es,
      visit.1.NeverEmpty visit.2 ∧ visit.1.StaleRequeued visit.2) ↔
    ∀ visit ∈ Run.visits step (new dbAddr dbPort) es, visit.1.Fresh visit.2 :=
  forall₂_congr fun visit _ => empty_advice_iff visit.1 visit.2

/-- A neighbour with AS number 0 matches when the knowledge comes in, and has AS number 1
    when the inquiry does. -/
theorem stale_knowledge_lists_nothing :
    ¬ ∀ dbAddr dbPort es, ∀ visit ∈ Run.visits step (new dbAddr dbPort) es,
      visit.1.NeverEmpty visit.2 ∧ visit.1.StaleRequeued visit.2 := by
  intro always
  let neighbor := Neighbor.learned Neighbor.peer 1 1 0
  let filter : Mem := fun
    | 0 => PacketType.rlyFilter.code
    | 2 => 1
    | _ => 0
  let inquiry : Mem := fun
    | 0 => PacketType.rlyInquiry.code
    | 2 => 1
    | _ => 0
  let know : Event := .rlFilter 0 filter 39 [neighbor]
  let ask : Event := .rlInquiry ⟨0, 0⟩ inquiry 39 [{ neighbor with asn := 1 }]
  let s := Run.final step (new 0 0) [know]
  let x := { CorsInquiry.new with ttl := 0, requiredRelays := 1 }
  have met := always 0 0 [know, ask] (s, ask) (List.mem_cons_of_mem _ List.mem_cons_self)
  have fresh := fresh_of_neverEmpty met.1
  have matched := fresh x ⟨0, {0}⟩ (by decide +kernel) (by decide +kernel)
  exact absurd matched (by decide +kernel)

end AdvanceRldvr

end Cors
