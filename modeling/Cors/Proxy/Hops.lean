import Cors.Protocol.RoundTrip
import Cors.Proxy.Answering

/-! # The hops of an inquiry

A copy that the advisor forwards has one hop less than the inquiry it is a copy of, and
some hops left. Hop counts are bytes, and one that is zero on arrival is counted down to
255. Chains of forwards over any proxies, in whatever states their runs bring them to,
are bounded by the hop count of the inquiry they start from unless that is zero.
-/

namespace Cors

namespace AdvanceRldvr

/-- In this step `copy` is forwarded to `proxy`, for the inquiry that came in as `x`. -/
def Copies (s : AdvanceRldvr) (e : Event) (x : CorsInquiry) (proxy : SockaddrIn)
    (copy : CorsInquiry) : Prop :=
  ∃ answer ∈ s.answers e, answer.inquiry = hop x ∧ .forward proxy copy ∈ answer.sent e.neighbors

/-- The inquiry came in at one of the events. -/
def Accepted (es : List Event) (x : CorsInquiry) : Prop := ∃ e ∈ es, received e = some x

/-- Some proxy that was sent `x` forwards a copy that its receiver decodes as `y`. -/
def Relayed (x y : CorsInquiry) : Prop :=
  ∃ dbAddr dbPort es e proxy copy, Accepted (es ++ [e]) x ∧
    Copies (Run.final step (new dbAddr dbPort) es) e x proxy copy ∧
    ∃ rest, parse CorsInquiry.deserialize (Mem.receive rest copy.serialize)
      copy.serialize.length = some y

theorem copies_ttl {s : AdvanceRldvr} {e : Event} {x : CorsInquiry} {proxy : SockaddrIn}
    {copy : CorsInquiry} (copied : s.Copies e x proxy copy) :
    copy.type = x.type ∧ copy.ttl = x.ttl - 1 ∧ 0 < copy.ttl := by
  obtain ⟨answer, -, origin, sent⟩ := copied
  obtain ⟨-, alive, rfl⟩ := mem_sent_forward sent
  rw [origin] at alive ⊢
  exact ⟨rfl, rfl, alive⟩

/-- Counting down goes down unless it starts at zero. -/
theorem sub_one_lt_iff (ttl : UInt8) : ttl - 1 < ttl ↔ ttl ≠ 0 := by
  constructor
  · rintro lower rfl
    exact absurd lower (by decide)
  · intro positive
    have one : 1 ≤ ttl := by
      rw [UInt8.le_iff_toNat_le]
      exact Nat.pos_of_ne_zero fun zero => positive (UInt8.toNat_inj.mp zero)
    rw [UInt8.le_iff_toNat_le] at one
    rw [UInt8.lt_iff_toNat_lt, UInt8.toNat_sub_of_le _ _ (UInt8.le_iff_toNat_le.mpr one)]
    exact Nat.sub_lt one Nat.one_pos

theorem received_type {e : Event} {x : CorsInquiry} (taken : received e = some x) :
    x.type ∈ CorsInquiry.accepted := by
  cases e with
  | rlInquiry now msg len nl =>
      unfold received at taken
      dsimp only at taken
      split at taken
      · cases taken
      · exact CorsInquiry.parse_type (Option.filter_eq_some_iff.mp taken).1
  | rlReport msg len => cases taken
  | rlFilter now msg len nl => cases taken
  | update now rand nl => cases taken

theorem answer_accepted {es : List Event} {s : AdvanceRldvr} (traced : Traced es s) {e : Event}
    {answer : Answer} (answered : answer ∈ s.answers e) :
    ∃ x, Accepted (es ++ [e]) x ∧ answer.inquiry = hop x := by
  cases mem_answers answered with
  | inl cached =>
      obtain ⟨x, entry, taken, -, rfl⟩ := cached
      exact ⟨x, ⟨e, List.mem_concat_self, taken⟩, rfl⟩
  | inr queued =>
      obtain ⟨task, waits, entry, -, rfl⟩ := queued
      obtain ⟨origin, before, x, taken, same⟩ := traced.queued task waits
      exact ⟨x, ⟨origin, List.mem_append_left _ before, taken⟩, same⟩

theorem forward_copies {es : List Event} {s : AdvanceRldvr} (traced : Traced es s) {e : Event}
    {proxy : SockaddrIn} {copy : CorsInquiry} (sent : .forward proxy copy ∈ (s.react e).2) :
    ∃ x, Accepted (es ++ [e]) x ∧ s.Copies e x proxy copy := by
  rcases mem_react sent with ⟨bytes, query⟩ | ⟨answer, answered, part⟩ | guessed
  · cases query
  · obtain ⟨x, accepted, origin⟩ := answer_accepted traced answered
    exact ⟨x, accepted, answer, answered, origin, part⟩
  · obtain ⟨-, task, -, outcomes, guess⟩ := guessed
    cases (mem_guess guess).2

theorem relayed_ttl {x y : CorsInquiry} (relayed : Relayed x y) :
    y.ttl = x.ttl - 1 ∧ 0 < y.ttl := by
  obtain ⟨dbAddr, dbPort, es, e, proxy, copy, accepted, copied, rest, decoded⟩ := relayed
  obtain ⟨origin, -, taken⟩ := accepted
  obtain ⟨type, ttl, alive⟩ := copies_ttl copied
  have own : copy.type ∈ CorsInquiry.accepted := type ▸ received_type taken
  have same := CorsInquiry.parse_serialize own (rest.receive_holds copy.serialize)
  obtain rfl := Option.some.inj (decoded.symm.trans same)
  exact ⟨ttl, alive⟩

/-- A chain that starts with hops left never counts down to the end of a byte. -/
theorem chain_length_le {x : CorsInquiry} {xs : List CorsInquiry} (positive : x.ttl ≠ 0)
    (chain : List.IsChain Relayed (x :: xs)) : xs.length ≤ x.ttl.toNat := by
  refine Run.chain_length_le (P := fun x => x.ttl ≠ 0) (fun x => x.ttl.toNat) ?_ positive chain
  intro x y positive relayed
  obtain ⟨ttl, alive⟩ := relayed_ttl relayed
  refine ⟨fun zero => absurd alive (by rw [zero]; decide), ?_⟩
  rw [← UInt8.lt_iff_toNat_lt, ttl]
  exact (sub_one_lt_iff x.ttl).mpr positive

/-- In every state of every run and whatever happens next: what is forwarded is a copy of
    an inquiry that came in, with a smaller hop count just in case that came in with
    any; and a chain of forwards that starts with hops left has at most as many links. -/
theorem hops_bound_forwarding (dbAddr : UInt32) (dbPort : UInt16) (es : List Event) (e : Event) :
    let s := Run.final step (new dbAddr dbPort) es
    (∀ proxy copy, .forward proxy copy ∈ (s.react e).2 →
      ∃ x, Accepted (es ++ [e]) x ∧ s.Copies e x proxy copy) ∧
    (∀ x proxy copy, s.Copies e x proxy copy → (copy.ttl < x.ttl ↔ x.ttl ≠ 0)) ∧
    ∀ x xs, x.ttl ≠ 0 → List.IsChain Relayed (x :: xs) → xs.length ≤ x.ttl.toNat := by
  intro s
  refine ⟨fun _ _ => forward_copies (final_traced dbAddr dbPort es), ?_, ?_⟩
  · intro x proxy copy copied
    rw [(copies_ttl copied).2.1]
    exact sub_one_lt_iff x.ttl
  · intro x xs
    exact chain_length_le

/-- An inquiry that comes in with hop count zero is forwarded with 255. -/
theorem zero_hops_forwarded :
    ¬ ∀ dbAddr dbPort es e x proxy copy,
      Copies (Run.final step (new dbAddr dbPort) es) e x proxy copy → copy.ttl < x.ttl := by
  intro always
  let nl := [Neighbor.learned Neighbor.peer 1 1 0]
  let filter : Mem := fun
    | 0 => PacketType.rlyFilter.code
    | 2 => 1
    | _ => 0
  let inquiry : Mem := fun
    | 0 => PacketType.rlyInquiry.code
    | 2 => 2
    | _ => 0
  let s := Run.final step (new 0 0) [.rlFilter 0 filter 39 nl]
  let ask : Event := .rlInquiry ⟨0, 0⟩ inquiry 39 nl
  let x := { CorsInquiry.new with ttl := 0, requiredRelays := 2 }
  let answer : Answer := ⟨hop x, [⟨0, 1, 1, 0xFFFFFFFF⟩]⟩
  let copy := { CorsInquiry.new with ttl := 255, requiredRelays := 1 }
  have copied : s.Copies ask x ⟨1, 1⟩ copy :=
    ⟨answer, by decide +kernel, rfl, by decide +kernel⟩
  exact absurd (always 0 0 _ ask x ⟨1, 1⟩ copy copied) (by decide)

end AdvanceRldvr

end Cors
