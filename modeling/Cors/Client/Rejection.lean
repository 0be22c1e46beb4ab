import Cors.Client.Channels
import Cors.Client.StatMpathManager
import Cors.Lib.Run

/-! # Relays rejected for loss

When relays are selected, a good relay that lost too many packets becomes a bad one. Bad
relays are never added again, so until the resources are released no packet goes over one,
whatever is reported on the relays and whichever of them are listed.
-/

namespace Cors

open SimpleRlysltr (addrs)

namespace StatMpathManager

/-! ## Runs -/

/-- What a client does with its manager, with all that is read. -/
inductive Event where
  | sendPacket (sbuf : Mem) (buff : Bytes) (dst : SockaddrIn) (significance : UInt8)
  | processPathStatistics (msg : Mem)
  | parseDataPacket (junk : Mem) (curTime : Timeval) (buff : Mem) (bufsize : Int)
      (peeraddr : SockaddrIn)
  | getRequirement (relaylist : List RelayNode) (rq : Requirement)

def step (s : StatMpathManager) : Event → StatMpathManager
  | .sendPacket sbuf buff dst significance => (s.sendPacket sbuf buff dst significance).1
  | .processPathStatistics msg => s.processPathStatistics msg
  | .parseDataPacket junk curTime buff bufsize peeraddr =>
      (s.parseDataPacket junk curTime buff bufsize peeraddr).1
  | .getRequirement relaylist rq => (s.getRequirement relaylist rq).2

/-- The channels the next packet would go over. -/
def channels (s : StatMpathManager) (significance : UInt8) : List Channel :=
  channelsFor significance s.curChannel s.goodrelays.length

/-- The good relays are distinct, and none of them is bad. -/
structure Separate (s : StatMpathManager) : Prop where
  distinct : (addrs s.goodrelays).Nodup
  apart : ∀ addr ∈ addrs s.goodrelays, addr ∉ addrs s.badrelays

/-- The same relays are good, and the same ones are bad. -/
structure SameRelays (s s' : StatMpathManager) : Prop where
  good : addrs s'.goodrelays = addrs s.goodrelays
  bad : s'.badrelays = s.badrelays

theorem SameRelays.refl (s : StatMpathManager) : SameRelays s s := ⟨rfl, rfl⟩

theorem SameRelays.trans {s s' s'' : StatMpathManager} (first : SameRelays s s')
    (second : SameRelays s' s'') : SameRelays s s'' :=
  ⟨second.good.trans first.good, second.bad.trans first.bad⟩

/-! ## Sending and counting -/

theorem sendPacket_channels (s : StatMpathManager) (sbuf : Mem) (buff : Bytes)
    (dst : SockaddrIn) (significance : UInt8) :
    (s.sendPacket sbuf buff dst significance).2.map (fun d => some d.dst) =
      (s.channels significance).map (Channel.peer s.goodrelays dst) := by
  unfold sendPacket transmit channels
  rw [map_peer_channelsFor]
  dsimp only
  split
  · rw [List.map_cons, List.map_map]
    rfl
  · split
    · cases s.goodrelays[(s.curChannel + 1) % (s.goodrelays.length + 1)]? with
      | none => rfl
      | some node => rfl
    · rfl

theorem countSent_same (s : StatMpathManager) (addr : UInt32) :
    SameRelays s (s.countSent addr) := by
  unfold countSent
  split <;> exact ⟨rfl, rfl⟩

theorem foldl_countSent_same (nodes : List RelayNode) (s : StatMpathManager) :
    SameRelays s (nodes.foldl (fun s node => s.countSent node.relay.addr) s) := by
  induction nodes generalizing s with
  | nil => exact .refl s
  | cons node nodes ih => exact (s.countSent_same node.relay.addr).trans (ih _)

theorem turnWindow_same (s : StatMpathManager) : SameRelays s s.turnWindow := by
  unfold turnWindow
  dsimp only
  split
  · exact ⟨rfl, rfl⟩
  · split <;> exact ⟨rfl, rfl⟩

theorem transmit_same (s : StatMpathManager) (sbuf : Mem) (buff : Bytes) (dst : SockaddrIn)
    (significance : UInt8) : SameRelays s (s.transmit sbuf buff dst significance).1 := by
  unfold transmit
  dsimp only
  split
  · exact foldl_countSent_same s.goodrelays s
  · split
    · let turned := { s with curChannel := (s.curChannel + 1) % (s.goodrelays.length + 1) }
      have moved : SameRelays s turned := ⟨rfl, rfl⟩
      split
      · exact moved
      · exact moved.trans (turned.countSent_same _)
    · exact .refl s

theorem sendPacket_same (s : StatMpathManager) (sbuf : Mem) (buff : Bytes) (dst : SockaddrIn)
    (significance : UInt8) : SameRelays s (s.sendPacket sbuf buff dst significance).1 :=
  (s.transmit_same sbuf buff dst significance).trans (turnWindow_same _)

theorem recordLoss_addrs (addr loss : UInt32) (l : List RelayNode) :
    addrs (recordLoss addr loss l) = addrs l := by
  induction l with
  | nil => rfl
  | cons node rest ih =>
      unfold recordLoss
      split
      · rfl
      · exact congrArg (node.relay.addr :: ·) ih

theorem processPathStatistics_same (s : StatMpathManager) (msg : Mem) :
    SameRelays s (s.processPathStatistics msg) := by
  unfold processPathStatistics
  dsimp only
  split
  · exact .refl s
  · split
    · exact ⟨recordLoss_addrs _ _ _, rfl⟩
    · exact .refl s

theorem countReceived_same (s : StatMpathManager) (junk : Mem) (curTime : Timeval)
    (control : UInt8) (src peeraddr : SockaddrIn) :
    SameRelays s (s.countReceived junk curTime control src peeraddr).1 := by
  unfold countReceived
  dsimp only
  split
  · exact ⟨rfl, rfl⟩
  · split
    · exact .refl s
    · split
      · exact ⟨rfl, rfl⟩
      · exact .refl s

theorem parseDataPacket_same (s : StatMpathManager) (junk : Mem) (curTime : Timeval)
    (buff : Mem) (bufsize : Int) (peeraddr : SockaddrIn) :
    SameRelays s (s.parseDataPacket junk curTime buff bufsize peeraddr).1 := by
  unfold parseDataPacket
  dsimp only
  split
  · exact .refl s
  · split
    · exact .refl s
    · exact countReceived_same _ _ _ _ _ _

theorem SameRelays.separate {s s' : StatMpathManager} (same : SameRelays s s')
    (separate : Separate s) : Separate s' where
  distinct := same.good ▸ separate.distinct
  apart := by
    rw [same.good, same.bad]
    exact separate.apart

/-! ## Selecting -/

/-- The good relays that are still listed and lost few enough packets. -/
def kept (s : StatMpathManager) (relaylist : List RelayNode) (rq : Requirement) :
    List RelayNode :=
  (s.goodrelays.filter fun good => listed relaylist good.relay.addr).filter
    (·.lossrate < rq.lossrate)

/-- Those that are still listed and lost too many. -/
def rejected (s : StatMpathManager) (relaylist : List RelayNode) (rq : Requirement) :
    List RelayNode :=
  (s.goodrelays.filter fun good => listed relaylist good.relay.addr).filter fun good =>
    !decide (good.lossrate < rq.lossrate)

/-- What the loop over the good relays does with one of them before it goes on: the sum of
    the bandwidths of those that are kept, and the bad relays. -/
def recheckOne (relaylist : List RelayNode) (rq : Requirement) (acc : UInt32 × List RelayNode)
    (good : RelayNode) : UInt32 × List RelayNode :=
  if listed relaylist good.relay.addr then
    if good.lossrate < rq.lossrate then (acc.1 + good.bandwidth, acc.2)
    else (acc.1, acc.2 ++ [good])
  else
    acc

/-- The loop that erases the good relays that are not listed or are to be bad. -/
def recheck (s : StatMpathManager) (relaylist : List RelayNode) (rq : Requirement) :
    List RelayNode × UInt32 × List RelayNode :=
  eraseLoop
    (fun good => listed relaylist good.relay.addr && decide (good.lossrate < rq.lossrate))
    (recheckOne relaylist rq) 0 s.goodrelays (0, s.badrelays)

/-- `get_requirement` with that loop. -/
def selectLoop (s : StatMpathManager) (relaylist : List RelayNode) (rq : Requirement) :
    Bool × StatMpathManager :=
  if relaylist.isEmpty then
    (false, s)
  else
    let (goodrelays, gainBw, badrelays) := s.recheck relaylist rq
    if enough rq gainBw goodrelays then
      (true, { s with goodrelays, badrelays })
    else
      let (met, goodrelays) := addRelays rq badrelays goodrelays gainBw relaylist
      (met, { s with goodrelays, badrelays })

theorem foldl_recheckOne (relaylist : List RelayNode) (rq : Requirement) (l : List RelayNode)
    (gainBw : UInt32) (badrelays : List RelayNode) :
    l.foldl (recheckOne relaylist rq) (gainBw, badrelays) =
      (((l.filter fun good => listed relaylist good.relay.addr).filter
          (·.lossrate < rq.lossrate)).foldl (fun gainBw good => gainBw + good.bandwidth) gainBw,
        badrelays ++ (l.filter fun good => listed relaylist good.relay.addr).filter fun good =>
          !decide (good.lossrate < rq.lossrate)) := by
  induction l generalizing gainBw badrelays with
  | nil => simp
  | cons good rest ih =>
      rw [List.foldl_cons, recheckOne]
      by_cases here : listed relaylist good.relay.addr = true
      · by_cases low : good.lossrate < rq.lossrate
        · simp only [if_pos here, ih, List.filter_cons, low, decide_true, Bool.not_true,
            Bool.false_eq_true, if_true, if_false, List.foldl_cons]
        · simp only [if_pos here, ih, List.filter_cons, low, decide_false,
            Bool.not_false, Bool.false_eq_true, if_true, if_false, List.append_assoc,
            List.singleton_append]
      · simp only [if_neg here, ih, List.filter_cons]

theorem recheck_eq (s : StatMpathManager) (relaylist : List RelayNode) (rq : Requirement) :
    s.recheck relaylist rq =
      (s.kept relaylist rq, gainOf (s.kept relaylist rq),
        s.badrelays ++ s.rejected relaylist rq) := by
  rw [recheck, eraseLoop_eq, foldl_recheckOne, kept, List.filter_filter]
  simp only [Bool.and_comm]
  rfl

theorem selectLoop_eq (s : StatMpathManager) (relaylist : List RelayNode) (rq : Requirement) :
    s.selectLoop relaylist rq = s.getRequirement relaylist rq := by
  unfold selectLoop getRequirement
  rw [recheck_eq]
  rfl

theorem getRequirement_eq (s : StatMpathManager) {relaylist : List RelayNode}
    (some_listed : relaylist ≠ []) (rq : Requirement) :
    let badrelays := s.badrelays ++ s.rejected relaylist rq
    let chosen := select rq badrelays (s.kept relaylist rq) relaylist
    s.getRequirement relaylist rq = (chosen.1, { s with goodrelays := chosen.2, badrelays }) := by
  intro badrelays chosen
  have some_left : ¬relaylist.isEmpty = true := fun empty => some_listed (List.isEmpty_iff.mp empty)
  unfold getRequirement
  rw [if_neg some_left]
  dsimp only
  by_cases met : satisfied rq (s.kept relaylist rq) = true
  · have same : chosen = (true, s.kept relaylist rq) := if_pos met
    rw [same]
    exact if_pos met
  · have same : chosen = addRelays rq badrelays (s.kept relaylist rq)
        (gainOf (s.kept relaylist rq)) relaylist := if_neg met
    rw [same]
    exact if_neg met

theorem kept_sublist (s : StatMpathManager) (relaylist : List RelayNode) (rq : Requirement) :
    (s.kept relaylist rq).Sublist s.goodrelays :=
  List.filter_sublist.trans List.filter_sublist

/-- A relay that is kept is not one that is rejected, as no two good relays have its address. -/
theorem kept_apart {s : StatMpathManager} (separate : Separate s) (relaylist : List RelayNode)
    (rq : Requirement) : ∀ node ∈ s.kept relaylist rq,
      nodeAddr node ∉ addrs (s.badrelays ++ s.rejected relaylist rq) := by
  intro node good bad
  obtain ⟨present, low⟩ := List.mem_filter.mp good
  have old := (List.mem_filter.mp present).1
  rw [addrs, List.map_append, List.mem_append] at bad
  cases bad with
  | inl before => exact separate.apart _ (List.mem_map_of_mem old) before
  | inr now =>
      obtain ⟨other, rejected, same⟩ := List.mem_map.mp now
      obtain ⟨present', high⟩ := List.mem_filter.mp rejected
      have old' := (List.mem_filter.mp present').1
      obtain rfl := List.inj_on_of_nodup_map separate.distinct old' old same
      rw [Bool.not_eq_true', decide_eq_false_iff_not] at high
      exact high (of_decide_eq_true low)

theorem getRequirement_separate {s : StatMpathManager} (separate : Separate s)
    (relaylist : List RelayNode) (rq : Requirement) :
    Separate (s.getRequirement relaylist rq).2 := by
  by_cases empty : relaylist = []
  · rw [empty]
    exact separate
  · have kept := s.kept_sublist relaylist rq
    rw [getRequirement_eq s empty rq]
    obtain ⟨n, extended⟩ := select_extended rq (s.badrelays ++ s.rejected relaylist rq)
      (s.kept relaylist rq) relaylist
    constructor
    · exact extended.nodup (separate.distinct.sublist (kept.map nodeAddr))
    · intro addr member
      obtain ⟨node, good, rfl⟩ := List.mem_map.mp member
      cases extended.mem good with
      | inl old => exact kept_apart separate relaylist rq node old
      | inr new =>
          have apart := firsts_notMem nodeAddr _ relaylist node new
          exact fun bad => apart (List.mem_append_left _ bad)

theorem getRequirement_bad (s : StatMpathManager) (relaylist : List RelayNode)
    (rq : Requirement) : addrs s.badrelays ⊆ addrs (s.getRequirement relaylist rq).2.badrelays := by
  by_cases empty : relaylist = []
  · rw [empty]
    exact List.Subset.refl _
  · rw [getRequirement_eq s empty rq]
    exact List.map_subset nodeAddr (List.subset_append_left _ _)

/-! ## Runs from a release -/

theorem step_cases (s : StatMpathManager) (e : Event) :
    SameRelays s (s.step e) ∨ ∃ relaylist rq, s.step e = (s.getRequirement relaylist rq).2 := by
  cases e with
  | sendPacket sbuf buff dst significance =>
      exact .inl (s.sendPacket_same sbuf buff dst significance)
  | processPathStatistics msg => exact .inl (s.processPathStatistics_same msg)
  | parseDataPacket junk curTime buff bufsize peeraddr =>
      exact .inl (s.parseDataPacket_same junk curTime buff bufsize peeraddr)
  | getRequirement relaylist rq => exact .inr ⟨relaylist, rq, rfl⟩

theorem step_separate (s : StatMpathManager) (e : Event) (separate : Separate s) :
    Separate (s.step e) := by
  cases s.step_cases e with
  | inl same => exact same.separate separate
  | inr selects =>
      obtain ⟨relaylist, rq, result⟩ := selects
      rw [result]
      exact getRequirement_separate separate relaylist rq

theorem step_bad (s : StatMpathManager) (e : Event) :
    addrs s.badrelays ⊆ addrs (s.step e).badrelays := by
  cases s.step_cases e with
  | inl same =>
      rw [same.bad]
      exact List.Subset.refl _
  | inr selects =>
      obtain ⟨relaylist, rq, result⟩ := selects
      rw [result]
      exact s.getRequirement_bad relaylist rq

theorem final_bad (s : StatMpathManager) (es : List Event) :
    addrs s.badrelays ⊆ addrs (Run.final step s es).badrelays :=
  Run.final_of_invariant (P := fun s' : StatMpathManager => addrs s.badrelays ⊆ addrs s'.badrelays)
    (List.Subset.refl _) (fun s' e subset => List.Subset.trans subset (s'.step_bad e)) es

theorem releaseResources_separate (s : StatMpathManager) : Separate s.releaseResources :=
  ⟨List.nodup_nil, fun _ good => absurd good List.not_mem_nil⟩

/-- Since the last release the good relays are distinct and apart from the bad ones, a relay
    that was bad is bad, and packets go over the direct path and over good relays only. -/
theorem rejected_stays_rejected (released : StatMpathManager) (es : List Event) :
    let s := Run.final step released.releaseResources es
    (addrs s.goodrelays).Nodup ∧ (∀ addr ∈ addrs s.goodrelays, addr ∉ addrs s.badrelays) ∧
      (∀ before after, es = before ++ after →
        addrs (Run.final step released.releaseResources before).badrelays ⊆ addrs s.badrelays) ∧
      (∀ sbuf buff dst significance,
        (s.sendPacket sbuf buff dst significance).2.map (fun d => some d.dst) =
          (s.channels significance).map (Channel.peer s.goodrelays dst) ∧
        ∀ index, .relay index ∈ s.channels significance →
          ∃ node, s.goodrelays[index]? = some node ∧ nodeAddr node ∉ addrs s.badrelays) ∧
      ∀ relaylist rq, s.selectLoop relaylist rq = s.getRequirement relaylist rq := by
  intro s
  have separate : Separate s :=
    Run.final_of_invariant released.releaseResources_separate step_separate es
  refine ⟨separate.distinct, separate.apart, ?_, ?_, s.selectLoop_eq⟩
  · rintro before after rfl
    have later := final_bad (Run.final step released.releaseResources before) after
    rwa [← Run.final_append] at later
  · intro sbuf buff dst significance
    refine ⟨s.sendPacket_channels sbuf buff dst significance, fun index sent => ?_⟩
    have inside := relay_index sent
    refine ⟨_, List.getElem?_eq_getElem inside, separate.apart _ ?_⟩
    exact List.mem_map_of_mem (List.getElem_mem inside)

end StatMpathManager

end Cors
