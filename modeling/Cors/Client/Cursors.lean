import Cors.Client.Ranking

/-! # The cursors of the probing thread

The probing thread walks over the candidates and over the relays in use with one iterator
each, while the handlers change both lists. A section of either thread leaves the first
iterator at a candidate and the second at a relay or at the end, never at an element that
was erased. The list of relays is short enough that an entry taken from its end is not its
first one, to which the iterator was moved.
-/

namespace Cors

namespace Cursor

/-- The iterator denotes an element of a list of that length. -/
def Inside (c : Cursor) (length : Nat) : Prop := ∃ i, c = some i ∧ i < length

/-- The iterator denotes an element or the end. -/
def Within (c : Cursor) (length : Nat) : Prop := ∃ i, c = some i ∧ i ≤ length

theorem start_inside {length : Nat} (more : 0 < length) : Inside .start length := ⟨0, rfl, more⟩

theorem start_within (length : Nat) : Within .start length := ⟨0, rfl, Nat.zero_le _⟩

theorem Inside.deref {c : Cursor} {xs : List α} (inside : c.Inside xs.length) :
    ∃ x, c.deref xs = some x := by
  obtain ⟨i, rfl, less⟩ := inside
  exact ⟨xs[i], List.getElem?_eq_getElem less⟩

theorem Within.deref {c : Cursor} {xs : List α} (within : c.Within xs.length)
    (more : c ≠ some xs.length) : ∃ x, c.deref xs = some x := by
  obtain ⟨i, rfl, most⟩ := within
  have less : i < xs.length := Nat.lt_of_le_of_ne most fun same => more (congrArg some same)
  exact Inside.deref ⟨i, rfl, less⟩

theorem Within.next {c : Cursor} {length : Nat} (within : c.Within length) :
    (c.next length).Within length := by
  obtain ⟨i, rfl, most⟩ := within
  unfold Cursor.next
  rw [Option.map_some]
  split
  · exact start_within length
  · exact ⟨i + 1, rfl, by omega⟩

theorem Within.inserted {c : Cursor} {length : Nat} (within : c.Within length) (pos n : Nat) :
    (c.inserted pos n).Within (length + n) := by
  obtain ⟨i, rfl, most⟩ := within
  unfold Cursor.inserted
  rw [Option.map_some]
  split
  · exact ⟨i + n, rfl, by omega⟩
  · exact ⟨i, rfl, by omega⟩

/-- Only the iterator of the erased element becomes invalid. -/
theorem Within.erased {c : Cursor} {length pos : Nat} (within : c.Within length)
    (apart : c ≠ some pos) (inside : pos < length) : (c.erased pos).Within (length - 1) := by
  obtain ⟨i, rfl, most⟩ := within
  have other : i ≠ pos := fun same => apart (congrArg some same)
  unfold Cursor.erased
  rw [Option.bind_some, if_neg other]
  split
  · exact ⟨i - 1, rfl, by omega⟩
  · exact ⟨i, rfl, by omega⟩

theorem next_ne {length pos : Nat} (inside : pos < length) :
    Cursor.next length (some pos) ≠ some pos := by
  have further : Cursor.next length (some pos) = some (pos + 1) :=
    congrArg some (if_neg (Nat.ne_of_lt inside))
  rw [further]
  exact fun same => Nat.succ_ne_self pos (Option.some.inj same)

theorem Within.removed {c : Cursor} {length pos : Nat} (within : c.Within length)
    (inside : pos < length) :
    (Cursor.erased pos (if c = some pos then c.next length else c)).Within (length - 1) := by
  by_cases own : c = some pos
  · rw [if_pos own]
    refine within.next.erased ?_ inside
    rw [own]
    exact next_ne inside
  · rw [if_neg own]
    exact within.erased own inside

theorem Within.wrapped {c : Cursor} {length : Nat} (within : c.Within length) :
    (if c = some length then .start else c : Cursor).Within length := by
  split
  · exact start_within length
  · exact within

end Cursor

namespace SimpleRlysltr

/-! ## Sections -/

/-- The indices of the constructor's parameters after the name of the configuration file. -/
def probeIntervalIndex : Nat := 1

def timeOutIndex : Nat := 2

/-- The constructor, given the number of its parameters and the proxies in its file. It
    throws when there are none, and it returns before the probing thread is started when a
    parameter is missing. -/
def construct (psk : Endpoints) (boot : List EndPoint) (paramNum : Nat) (req : Requirement)
    (now : Int32) : Option SimpleRlysltr :=
  if boot.isEmpty then none
  else if paramNum ≤ probeIntervalIndex then none
  else if paramNum ≤ timeOutIndex then none
  else some (new psk boot req now)

/-- The first section of `increase_iter`. -/
def increaseCandidates (s : SimpleRlysltr) : SimpleRlysltr :=
  { s with iterCandidates := advance s.iterCandidates s.candidates }

/-- The second section. -/
def increaseRelaylist (s : SimpleRlysltr) : SimpleRlysltr :=
  { s with iterRelaylist := advance s.iterRelaylist s.relaylist }

theorem increaseIter_eq (s : SimpleRlysltr) :
    s.increaseIter = s.increaseCandidates.increaseRelaylist := rfl

/-- What can happen between two states in which no thread is in a critical section. -/
inductive Section where
  | handle (e : Event)
  | increaseCandidates
  | increaseRelaylist

def enter (s : SimpleRlysltr) : Section → SimpleRlysltr
  | .handle e => s.step e
  | .increaseCandidates => s.increaseCandidates
  | .increaseRelaylist => s.increaseRelaylist

/-- Neither iterator dangles. -/
structure Probing (s : SimpleRlysltr) : Prop where
  candidate : s.iterCandidates.Inside s.candidates.length
  relay : s.iterRelaylist.Within s.relaylist.length
  short : s.Short

variable {s : SimpleRlysltr}

/-! ## The probing thread -/

theorem advance_inside {c : Cursor} {xs : List α} (inside : c.Inside xs.length) :
    (advance c xs).Inside xs.length := by
  obtain ⟨i, rfl, less⟩ := inside
  have within : Cursor.Within (some i) xs.length := ⟨i, rfl, Nat.le_of_lt less⟩
  obtain ⟨j, moved, most⟩ := within.next
  unfold advance
  dsimp only
  rw [moved]
  split
  · exact Cursor.start_inside (Nat.zero_lt_of_lt less)
  · rename_i more
    exact ⟨j, rfl, Nat.lt_of_le_of_ne most fun same => more (congrArg some same)⟩

theorem advance_within {c : Cursor} {xs : List α} (within : c.Within xs.length) :
    (advance c xs).Within xs.length := by
  exact within.next.wrapped

theorem increaseCandidates_probing (probing : Probing s) : Probing s.increaseCandidates :=
  ⟨advance_inside probing.candidate, probing.relay, probing.short⟩

theorem increaseRelaylist_probing (probing : Probing s) : Probing s.increaseRelaylist :=
  ⟨probing.candidate, advance_within probing.relay, probing.short⟩

/-! ## The handlers -/

theorem processRlAdvice_probing (probing : Probing s) (msg : Mem) (len : Nat) :
    Probing (s.processRlAdvice msg len) := by
  unfold processRlAdvice
  split
  · exact probing
  · rename_i advice _
    split
    · exact probing
    · rename_i listed
      refine ⟨Cursor.start_inside ?_, probing.relay, probing.short⟩
      rw [List.length_append]
      omega

/-- The iterator is moved off the entry before that is erased. -/
theorem remove_probing (probing : Probing s) (addr : UInt32) : Probing (s.remove addr) := by
  unfold remove
  split
  · exact probing
  · rename_i pos found
    obtain ⟨inside, -⟩ := List.findIdx?_eq_some_iff_getElem.mp found
    have shorter := List.length_eraseIdx_of_lt inside
    refine ⟨probing.candidate, ?_, ?_⟩
    · dsimp only
      rw [shorter]
      exact (probing.relay.removed inside).wrapped
    · have fits : s.relaylist.length ≤ s.req.relaynum.toNat := probing.short
      simp only [Short, shorter]
      omega

theorem processFwReply_probing (probing : Probing s) (tmNow : Timeval) (msg : Mem) (len : Nat) :
    Probing (s.processFwReply tmNow msg len).1 := by
  unfold processFwReply
  split
  · exact probing
  · rename_i probe _
    have learned : Probing { s with psk := { s.psk with dst :=
        { s.psk.dst with mask := probe.destination.mask, asn := probe.destination.asn } } } :=
      ⟨probing.candidate, probing.relay, probing.short⟩
    dsimp only
    split
    · exact learned
    · split
      · split <;> exact learned
      · exact remove_probing learned probe.relay.addr

/-- An entry is too much only where one was inserted, so it is not the first. -/
theorem processBwReply_probing (probing : Probing s) (tmNow : Timeval) (lossrate : UInt32)
    (msg : Mem) (len : Nat) : Probing (s.processBwReply tmNow lossrate msg len) := by
  have short := processBwReply_short probing.short tmNow lossrate msg len
  unfold processBwReply at short ⊢
  split
  · exact probing
  · rename_i probe decoded
    simp only [decoded] at short
    generalize relayNode probe tmNow lossrate = node at short ⊢
    cases found : slot s.req.relaynum.toNat node.delay 0 s.relaylist with
    | none =>
        rw [insertNode_trim_of_none probing.short found]
        exact probing
    | some pos =>
        obtain ⟨inside, early⟩ := slot_inside found
        have longer := List.length_insertIdx_of_le_length inside node
        have relay := probing.relay.inserted pos 1
        refine ⟨?_, ?_, short⟩
        · unfold trim insertNode
          simp only [found]
          split <;> exact probing.candidate
        · unfold trim insertNode
          simp only [found, longer]
          split
          · rename_i excess
            have last : s.relaylist.length + 1 - 1 ≠ 0 := by omega
            dsimp only
            rw [List.length_dropLast, longer]
            split
            · refine (Cursor.start_within _).erased ?_ (by omega)
              exact fun same => last (Option.some.inj same).symm
            · rename_i apart
              exact relay.erased apart (by omega)
          · dsimp only
            rw [longer]
            exact relay

/-! ## Runs -/

theorem step_probing (e : Event) (probing : Probing s) : Probing (s.step e) := by
  cases e with
  | pingCandidate now =>
      obtain same | ⟨cand, -, same⟩ := s.pingCandidate_cases now
      · simp only [step, react, same]
        exact probing
      · simp only [step, react, same]
        exact ⟨probing.candidate, probing.relay, probing.short⟩
  | report now =>
      obtain ⟨lastReportTime, same⟩ := s.report_cases now
      simp only [step, react, same]
      exact ⟨probing.candidate, probing.relay, probing.short⟩
  | pingRelay now =>
      obtain same | ⟨node, -, same⟩ := s.pingRelay_cases now
      · simp only [step, react, same]
        exact probing
      · simp only [step, react, same]
        exact probing
  | increaseIter => exact increaseRelaylist_probing (increaseCandidates_probing probing)
  | rlAdvice msg len => exact processRlAdvice_probing probing msg len
  | fwForward msg len | bwForward msg len => exact probing
  | fwReply tmNow msg len => exact processFwReply_probing probing tmNow msg len
  | bwReply tmNow lossrate msg len => exact processBwReply_probing probing tmNow lossrate msg len

theorem enter_probing (s : SimpleRlysltr) (sec : Section) (probing : Probing s) :
    Probing (s.enter sec) := by
  cases sec with
  | handle e => exact step_probing e probing
  | increaseCandidates => exact increaseCandidates_probing probing
  | increaseRelaylist => exact increaseRelaylist_probing probing

theorem construct_probing {psk : Endpoints} {boot : List EndPoint} {paramNum : Nat}
    {req : Requirement} {now : Int32} {fresh : SimpleRlysltr}
    (constructed : construct psk boot paramNum req now = some fresh) : Probing fresh := by
  unfold construct at constructed
  split at constructed
  · cases constructed
  · rename_i listed
    split at constructed
    · cases constructed
    · split at constructed
      · cases constructed
      · obtain rfl := Option.some.inj constructed
        have more : boot ≠ [] := fun nothing => listed (List.isEmpty_iff.mpr nothing)
        refine ⟨Cursor.start_inside ?_, Cursor.start_within _, Nat.zero_le _⟩
        exact List.length_pos_iff.mpr more

/-- Wherever the two threads are in a run, the probing thread finds a candidate at the one
    iterator, and a relay at the other unless that is at the end. -/
theorem cursors_never_dangle (psk : Endpoints) (boot : List EndPoint) (paramNum : Nat)
    (req : Requirement) (now : Int32) (fresh : SimpleRlysltr)
    (constructed : construct psk boot paramNum req now = some fresh) (sections : List Section) :
    let s := Run.final enter fresh sections
    s.candidates ≠ [] ∧ (∃ cand ∈ s.candidates, s.iterCandidates.deref s.candidates = some cand) ∧
      (s.iterRelaylist = some s.relaylist.length ∨
        ∃ node ∈ s.relaylist, s.iterRelaylist.deref s.relaylist = some node) := by
  intro s
  have probing : Probing s :=
    Run.final_of_invariant (construct_probing constructed) enter_probing sections
  obtain ⟨cand, candidate⟩ := probing.candidate.deref
  obtain ⟨i, -, denoted⟩ := Option.bind_eq_some_iff.mp candidate
  have listed := List.mem_of_getElem? denoted
  refine ⟨List.ne_nil_of_mem listed, ⟨cand, listed, candidate⟩, ?_⟩
  by_cases done : s.iterRelaylist = some s.relaylist.length
  · exact .inl done
  · obtain ⟨node, relay⟩ := probing.relay.deref done
    obtain ⟨j, -, denoted⟩ := Option.bind_eq_some_iff.mp relay
    exact .inr ⟨node, List.mem_of_getElem? denoted, relay⟩

/-- One relay is required, and a second one that is as fast takes its place. -/
theorem cursors_never_dangle_single :
    let proxy : EndPoint := ⟨0, 1, 1, 0⟩
    let reply (relay : EndPoint) : Section :=
      .handle (.bwReply ⟨0, 0⟩ 0
        (Mem.padded { CorsProbe.new with type := .bwReply, relay }.serialize) 54)
    let s := Run.final enter (new ⟨proxy, proxy⟩ [proxy] ⟨0, 0, 0, 1⟩ 0)
      [reply ⟨0, 2, 2, 0⟩, .increaseRelaylist, reply ⟨0, 3, 3, 0⟩, .increaseCandidates]
    addrs s.relaylist = [3] ∧
      ∃ cand ∈ s.candidates, s.iterCandidates.deref s.candidates = some cand := by
  intro proxy reply s
  have found := cursors_never_dangle ⟨proxy, proxy⟩ [proxy] 3 ⟨0, 0, 0, 1⟩ 0 _ rfl
    [reply ⟨0, 2, 2, 0⟩, .increaseRelaylist, reply ⟨0, 3, 3, 0⟩, .increaseCandidates]
  exact ⟨by decide +kernel, found.2.1⟩

end SimpleRlysltr

end Cors
