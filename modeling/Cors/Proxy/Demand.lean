import Cors.Protocol.RoundTrip
import Cors.Proxy.Answering

/-! # The demand of an inquiry

An inquiry that was answered with fewer relays than it asks for is forwarded with the
rest of its demand. The rest is counted from the advice in memory, of which the datagram
lists twenty relays at most. Only an answer from the cache can exceed them.
-/

namespace Cors

namespace AdvanceRldvr

/-- The relays of a sent advice, as its receiver decodes them. -/
def Sent.listed : Sent → List EndPoint
  | .advice _ x =>
      ((parse CorsAdvice.new.deserialize (Mem.padded x.serialize) x.serialize.length).map
        CorsAdvice.relays).getD []
  | _ => []

/-- The demand of a forwarded copy. -/
def Sent.demanded : Sent → Nat
  | .forward _ x => x.requiredRelays.toNat
  | _ => 0

/-- What is listed and what is demanded further on make up for what is asked for. -/
def Answer.Balanced (answer : Answer) (nl : List Neighbor) : Prop :=
  answer.inquiry.requiredRelays.toNat ≤
    ((answer.sent nl).map fun d => d.listed.length).sum + ((answer.sent nl).map Sent.demanded).sum

/-- The demand that is passed on was not computed around the end of a byte. -/
def Answer.Unwrapped (answer : Answer) (nl : List Neighbor) : Prop :=
  ∀ proxy x, .forward proxy x ∈ answer.sent nl →
    x.requiredRelays.toNat + answer.relays.length = answer.inquiry.requiredRelays.toNat

/-- No answer that may be passed on loses any of the demand. -/
def DemandKept (s : AdvanceRldvr) (e : Event) : Prop :=
  ∀ answer ∈ s.answers e, 0 < answer.inquiry.ttl →
    answer.Balanced e.neighbors ∧ answer.Unwrapped e.neighbors

/-- An inquiry that is answered from the cache and may be passed on asks for, or finds,
    as many relays as an advice can list. -/
def Encodable (s : AdvanceRldvr) (e : Event) : Prop :=
  ∀ x entry, received e = some x → s.asnCache.lookup x.key = some entry → 0 < (hop x).ttl →
    x.requiredRelays ≤ maxAdvicedRelays ∨
      matchCount e.neighbors entry.asnSet ≤ maxAdvicedRelays.toNat

theorem decoded_advise (inquiry : CorsInquiry) (relays : List EndPoint) (rest : Mem) :
    let sent := { CorsAdvice.new with
      source := inquiry.source
      destination := inquiry.destination
      relays }
    parse CorsAdvice.new.deserialize (rest.receive sent.serialize) sent.serialize.length =
      some { sent with relays := relays.take maxAdvicedRelays.toNat } :=
  CorsAdvice.parse_serialize (by decide : .rlyAdvice ∈ CorsAdvice.accepted) (rest.receive_holds _)

theorem listed_advise (inquiry : CorsInquiry) (relays : List EndPoint) :
    (advise inquiry relays).listed = relays.take maxAdvicedRelays.toNat := by
  have decoded := decoded_advise inquiry relays fun _ => 0
  simp only [advise, Sent.listed, Mem.padded, decoded, Option.map_some, Option.getD_some]

theorem passOn_eq {nl : List Neighbor} (some_neighbor : nl ≠ []) {inquiry : CorsInquiry}
    (alive : 0 < inquiry.ttl) (relays : List EndPoint) :
    passOn nl inquiry relays =
      if relays.length < inquiry.requiredRelays.toNat then
        [.forward (nl.getLast some_neighbor).sockaddr
          { inquiry with requiredRelays := inquiry.requiredRelays - UInt8.ofNat relays.length }]
      else
        [] := by
  simp only [passOn, List.getLast?_eq_some_getLast some_neighbor, Option.toList_some,
    List.map_singleton, gt_iff_lt, alive, and_true]

/-- The subtraction is made only where it does not wrap. -/
theorem rest_toNat {required : UInt8} {n : Nat} (fewer : n < required.toNat) :
    (required - UInt8.ofNat n).toNat = required.toNat - n := by
  have small : required.toNat < 256 := required.toNat_lt
  have exact_size : (UInt8.ofNat n).toNat = n :=
    UInt8.toNat_ofNat_of_lt' (by rw [UInt8.size]; omega)
  rw [UInt8.toNat_sub_of_le _ _ (by rw [UInt8.le_iff_toNat_le]; omega), exact_size]

theorem unwrapped (answer : Answer) (nl : List Neighbor) : answer.Unwrapped nl := by
  intro proxy x sent
  obtain ⟨fewer, -, rfl⟩ := mem_sent_forward sent
  simp only [rest_toNat fewer]
  omega

theorem balanced_iff (answer : Answer) {nl : List Neighbor} (some_neighbor : nl ≠ [])
    (alive : 0 < answer.inquiry.ttl) :
    answer.Balanced nl ↔
      answer.inquiry.requiredRelays ≤ maxAdvicedRelays ∨
        answer.relays.length ≤ maxAdvicedRelays.toNat := by
  have cap : maxAdvicedRelays.toNat = 20 := rfl
  simp only [Answer.Balanced, Answer.sent, respond, passOn_eq some_neighbor alive, List.map_cons,
    List.sum_cons, listed_advise, List.length_take, UInt8.le_iff_toNat_le, cap]
  by_cases more : answer.relays.length < answer.inquiry.requiredRelays.toNat
  · simp only [if_pos more, List.map_cons, List.map_nil, List.sum_cons, List.sum_nil,
      Sent.demanded, Sent.listed, List.length_nil, advise, rest_toNat more]
    omega
  · simp only [if_neg more, List.map_nil, List.sum_nil, Sent.demanded, advise]
    omega

/-- An answer from the cache is balanced just in case the inquiry asks for, or finds, as
    many relays as an advice can list. -/
theorem cached_balanced_iff {e : Event} {x : CorsInquiry} (taken : received e = some x)
    (alive : 0 < (hop x).ttl) (entry : Entry) :
    Answer.Balanced ⟨hop x, matching e.neighbors entry.asnSet x.requiredRelays.toNat⟩ e.neighbors ↔
      x.requiredRelays ≤ maxAdvicedRelays ∨
        matchCount e.neighbors entry.asnSet ≤ maxAdvicedRelays.toNat := by
  obtain ⟨asks, some_neighbor⟩ := received_some taken
  have found := matching_length e.neighbors entry.asnSet asks
  have balanced := balanced_iff
    ⟨hop x, matching e.neighbors entry.asnSet x.requiredRelays.toNat⟩ some_neighbor alive
  simp only [hop, found, UInt8.le_iff_toNat_le] at balanced ⊢
  rw [balanced]
  omega

theorem queued_balanced {e : Event} {key : AsnPair} {entry : Entry}
    (taken : learned e = some (key, entry)) {inquiry : CorsInquiry} (alive : 0 < inquiry.ttl) :
    Answer.Balanced ⟨inquiry, matching e.neighbors entry.asnSet maxAdvicedRelays.toNat⟩
      e.neighbors := by
  have cap : 0 < maxAdvicedRelays.toNat := by decide
  have some_neighbor : e.neighbors ≠ [] := by
    intro alone
    have matched := learned_some taken
    rw [alone] at matched
    exact matched rfl
  refine (balanced_iff _ some_neighbor alive).mpr (.inr ?_)
  rw [matching_length e.neighbors entry.asnSet cap]
  exact Nat.min_le_left _ _

theorem demandKept_iff (s : AdvanceRldvr) (e : Event) : s.DemandKept e ↔ s.Encodable e := by
  constructor
  · intro kept x entry taken found alive
    have answered : ⟨hop x, matching e.neighbors entry.asnSet x.requiredRelays.toNat⟩ ∈
        s.answers e := by
      simp only [answers, taken, found, List.mem_singleton]
    exact (cached_balanced_iff taken alive entry).mp (kept _ answered alive).1
  · intro encodable answer answered alive
    refine ⟨?_, unwrapped answer e.neighbors⟩
    cases mem_answers answered with
    | inl cached =>
        obtain ⟨x, entry, taken, found, rfl⟩ := cached
        exact (cached_balanced_iff taken alive entry).mpr (encodable x entry taken found alive)
    | inr queued =>
        obtain ⟨task, -, entry, taken, rfl⟩ := queued
        exact queued_balanced taken alive

/-- In every state of every run and whatever happens next: the answers are all that is
    sent, and none of them loses demand just in case an inquiry that hits the cache asks
    for, or finds, as many relays as an advice can list. -/
theorem demand_kept_iff (dbAddr : UInt32) (dbPort : UInt16) (es : List Event) (e : Event) :
    let s := Run.final step (new dbAddr dbPort) es
    (s.answers e ≠ [] →
      (s.react e).2 = (s.answers e).flatMap fun answer => answer.sent e.neighbors) ∧
    (s.DemandKept e ↔ s.Encodable e) := by
  intro s
  exact ⟨react_answers, demandKept_iff s e⟩

/-- Twenty-one neighbours that match and an inquiry for twenty-one relays: twenty are
    listed and the inquiry is not forwarded. -/
theorem twenty_first_relay_lost :
    ¬ ∀ dbAddr dbPort es e, DemandKept (Run.final step (new dbAddr dbPort) es) e := by
  intro always
  let neighbor (i : Nat) : Neighbor := .learned Neighbor.peer (UInt32.ofNat i) 1 0
  let nl := (List.range 21).map neighbor
  let filter : Mem := fun
    | 0 => PacketType.rlyFilter.code
    | 2 => 1
    | _ => 0
  let inquiry : Mem := fun
    | 0 => PacketType.rlyInquiry.code
    | 1 => maxTtl
    | 2 => 21
    | _ => 0
  let know : Event := .rlFilter 0 filter 39 nl
  let ask : Event := .rlInquiry ⟨0, 0⟩ inquiry 39 nl
  let x := { CorsInquiry.new with requiredRelays := 21 }
  have kept := (demandKept_iff _ _).mp (always 0 0 [know] ask)
  have enough := kept x ⟨0, {0}⟩ (by decide +kernel) (by decide +kernel) (by decide)
  exact absurd enough (by decide +kernel)

end AdvanceRldvr

end Cors
