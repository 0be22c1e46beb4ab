import Mathlib.Order.Interval.Finset.Nat
import Cors.Client.DataPath
import Cors.Client.GoodRelays

/-! # The channels a packet goes over

A packet of importance goes over the direct path and every good relay, a normal one over
the next of them in turn. As long as the number of good relays does not change, the turn
comes round to each of them and to the direct path equally often. The good relays are those
that were listed when relays were last selected, unless the list was found empty then: the
manager keeps sending over the relays it had.
-/

namespace Cors

open SimpleRlysltr (addrs)

/-- The direct path, or the good relay at an index. -/
inductive Channel where
  | direct
  | relay (index : Nat)
  deriving DecidableEq

/-- Where a packet is sent to that goes over a channel. -/
def Channel.peer (goodrelays : List RelayNode) (dst : SockaddrIn) : Channel → Option SockaddrIn
  | direct => some dst
  | relay index => goodrelays[index]?.map fun node => node.relay.sockaddr

/-- The channel for a remainder. -/
def channelAt (size cur : Nat) : Channel := if cur = size then .direct else .relay cur

/-- The channels one packet goes over, with `size` good relays. -/
def channelsFor (significance : UInt8) (curChannel size : Nat) : List Channel :=
  if significance = importance then
    .direct :: (List.range size).map .relay
  else if significance = normal then
    [channelAt size ((curChannel + 1) % (size + 1))]
  else
    []

theorem channelAt_cases {size cur : Nat} (inside : cur < size + 1) :
    channelAt size cur = .direct ∨ ∃ index < size, channelAt size cur = .relay index := by
  unfold channelAt
  split
  · exact .inl rfl
  · exact .inr ⟨cur, by omega, rfl⟩

theorem relay_index {significance : UInt8} {curChannel size index : Nat}
    (sent : .relay index ∈ channelsFor significance curChannel size) : index < size := by
  unfold channelsFor at sent
  split at sent
  · obtain ⟨i, inside, same⟩ := List.mem_map.mp ((List.mem_cons.mp sent).resolve_left nofun)
    exact Channel.relay.inj same ▸ List.mem_range.mp inside
  · split at sent
    · have turn := List.mem_singleton.mp sent
      cases channelAt_cases (Nat.mod_lt (curChannel + 1) (Nat.succ_pos size)) with
      | inl direct => exact absurd (turn.trans direct) nofun
      | inr relayed =>
          obtain ⟨i, inside, same⟩ := relayed
          exact Channel.relay.inj (turn.trans same) ▸ inside
    · cases sent

theorem map_peer_range (goodrelays : List RelayNode) (dst : SockaddrIn) :
    (List.range goodrelays.length).map (fun index => (Channel.relay index).peer goodrelays dst) =
      goodrelays.map fun node => some node.relay.sockaddr := by
  apply List.ext_getElem
  · rw [List.length_map, List.length_map, List.length_range]
  · intro index inside inside'
    rw [List.length_map] at inside'
    simp [Channel.peer, List.getElem?_eq_getElem inside']

/-- The remainder that is no index stands for the direct path. -/
theorem peer_channelAt (goodrelays : List RelayNode) (dst : SockaddrIn) {cur : Nat}
    (inside : cur < goodrelays.length + 1) :
    (channelAt goodrelays.length cur).peer goodrelays dst =
      some ((goodrelays[cur]?.map fun node => node.relay.sockaddr).getD dst) := by
  unfold channelAt
  cases found : goodrelays[cur]? with
  | none =>
      have behind := List.getElem?_eq_none_iff.mp found
      rw [if_pos (by omega)]
      rfl
  | some node =>
      obtain ⟨before, -⟩ := List.getElem?_eq_some_iff.mp found
      rw [if_neg (by omega), Channel.peer, found]
      rfl

theorem map_peer_channelsFor (goodrelays : List RelayNode) (dst : SockaddrIn)
    (significance : UInt8) (curChannel : Nat) :
    (channelsFor significance curChannel goodrelays.length).map (Channel.peer goodrelays dst) =
      if significance = importance then
        some dst :: goodrelays.map fun node => some node.relay.sockaddr
      else if significance = normal then
        [some ((goodrelays[(curChannel + 1) % (goodrelays.length + 1)]?.map
          fun node => node.relay.sockaddr).getD dst)]
      else
        [] := by
  unfold channelsFor
  split
  · rw [List.map_cons, List.map_map]
    exact congrArg (some dst :: ·) (map_peer_range goodrelays dst)
  · split
    · rw [List.map_singleton, peer_channelAt goodrelays dst (Nat.mod_lt _ (Nat.succ_pos _))]
    · rfl

namespace SimpleMpathManager

/-! ## Runs -/

/-- What a client does with its manager, with all that is read. -/
inductive Event where
  | sendPacket (sbuf : Mem) (buff : Bytes) (dst : SockaddrIn) (significance : UInt8)
  | getRequirement (relaylist : List RelayNode) (rq : Requirement)
  | releaseResources

def step (s : SimpleMpathManager) : Event → SimpleMpathManager
  | .sendPacket sbuf buff dst significance => (s.sendPacket sbuf buff dst significance).1
  | .getRequirement relaylist rq => (s.getRequirement relaylist rq).2
  | .releaseResources => s.releaseResources

/-- The channels the next packet would go over. -/
def channels (s : SimpleMpathManager) (significance : UInt8) : List Channel :=
  channelsFor significance s.curChannel s.goodrelays.length

theorem exists_of_forall₂ {α β : Type} {R : α → β → Prop} {as : List α} {bs : List β}
    (related : List.Forall₂ R as bs) {b : β} (member : b ∈ bs) : ∃ a ∈ as, R a b := by
  induction related with
  | nil => cases member
  | cons pair _ ih =>
      cases member with
      | head => exact ⟨_, List.mem_cons_self, pair⟩
      | tail _ later =>
          obtain ⟨a, earlier, holds⟩ := ih later
          exact ⟨a, List.mem_cons_of_mem _ earlier, holds⟩

/-- The datagram goes where the channel leads, and is marked as direct if it is. -/
def Over (goodrelays : List RelayNode) (dst : SockaddrIn) (channel : Channel) (d : Datagram) :
    Prop :=
  channel.peer goodrelays dst = some d.dst ∧ (IsDirect d ↔ channel = .direct)

theorem direct_over (goodrelays : List RelayNode) (sbuf : Mem) (payload : Bytes)
    (dst : SockaddrIn) :
    Over goodrelays dst .direct
      ⟨dst, ((putDirectHeader sbuf 1).write directHeaderLen payload).read 0
        (payload.length + directHeaderLen)⟩ :=
  ⟨rfl, iff_of_true (direct_isDirect sbuf payload dst) rfl⟩

theorem relayed_over {goodrelays : List RelayNode} {index : Nat} {node : RelayNode}
    (found : goodrelays[index]? = some node) {m : Mem}
    (header : m.get ByteFormat.u8 flagsPos = packFlags version 0 0) (n : Nat) (dst : SockaddrIn) :
    Over goodrelays dst (.relay index)
      ⟨node.relay.sockaddr, m.read 0 (n + indirectHeaderLen)⟩ := by
  constructor
  · rw [Channel.peer, found]
    rfl
  · exact iff_of_false (relayed_not_isDirect header n _) (by simp)

theorem sendPacket_channels (s : SimpleMpathManager) (sbuf : Mem) (buff : Bytes)
    (dst : SockaddrIn) (significance : UInt8) :
    List.Forall₂ (Over s.goodrelays dst) (s.channels significance)
      (s.sendPacket sbuf buff dst significance).2 := by
  unfold sendPacket channels channelsFor
  dsimp only
  split
  · refine .cons (direct_over _ sbuf buff dst) ?_
    rw [List.forall₂_map_left_iff, List.forall₂_map_right_iff, List.forall₂_iff_get]
    refine ⟨List.length_range, fun index _ inside => ?_⟩
    rw [List.get_eq_getElem, List.get_eq_getElem, List.getElem_range]
    exact relayed_over (List.getElem?_eq_getElem inside) (mesh_header _ dst buff) _ dst
  · split
    · cases found : s.goodrelays[(s.curChannel + 1) % (s.goodrelays.length + 1)]? with
      | none =>
          have last : (s.curChannel + 1) % (s.goodrelays.length + 1) = s.goodrelays.length := by
            have bound : (s.curChannel + 1) % (s.goodrelays.length + 1) <
                s.goodrelays.length + 1 := Nat.mod_lt _ (Nat.succ_pos _)
            have beyond := List.getElem?_eq_none_iff.mp found
            omega
          rw [channelAt, if_pos last]
          exact .cons (direct_over _ sbuf buff dst) .nil
      | some node =>
          obtain ⟨inside, -⟩ := List.getElem?_eq_some_iff.mp found
          rw [channelAt, if_neg (Nat.ne_of_lt inside)]
          exact .cons (relayed_over found (putIndirectHeader_flags sbuf dst) _ dst) .nil
    · exact .nil

theorem sendPacket_state (s : SimpleMpathManager) (sbuf : Mem) (buff : Bytes)
    (dst : SockaddrIn) (significance : UInt8) :
    (s.sendPacket sbuf buff dst significance).1 =
      if significance = normal then
        { s with curChannel := (s.curChannel + 1) % (s.goodrelays.length + 1) }
      else s := by
  unfold sendPacket
  dsimp only
  by_cases mesh : significance = importance
  · have apart : significance ≠ normal := by
      rw [mesh]
      decide
    rw [if_pos mesh, if_neg apart]
  · rw [if_neg mesh]
    split
    · split <;> rfl
    · rfl

theorem sendPacket_goodrelays (s : SimpleMpathManager) (sbuf : Mem) (buff : Bytes)
    (dst : SockaddrIn) (significance : UInt8) :
    (s.sendPacket sbuf buff dst significance).1.goodrelays = s.goodrelays := by
  rw [sendPacket_state]
  split <;> rfl

/-! ## Round robin -/

theorem channels_normal (s : SimpleMpathManager) :
    ∃ channel, s.channels normal = [channel] ∧
      (channel = .direct ∨ ∃ index < s.goodrelays.length, channel = .relay index) :=
  ⟨_, rfl, channelAt_cases (Nat.mod_lt _ (Nat.succ_pos _))⟩

/-- The channel of a packet that is a normal one. -/
def turn : SimpleMpathManager × Event → List Channel
  | (s, .sendPacket _ _ _ significance) => if significance = normal then s.channels normal else []
  | _ => []

/-- The channels the normal packets of a run go over, in their order. -/
def turns (s : SimpleMpathManager) (es : List Event) : List Channel :=
  (Run.visits step s es).flatMap turn

/-- A normal packet on its way: where it is to go, the relays at hand, and what is sent. -/
structure Sending where
  goodrelays : List RelayNode
  dst : SockaddrIn
  datagrams : List Datagram

def sending : SimpleMpathManager × Event → List Sending
  | (s, .sendPacket sbuf buff dst significance) =>
      if significance = normal then
        [⟨s.goodrelays, dst, (s.sendPacket sbuf buff dst significance).2⟩]
      else
        []
  | _ => []

/-- The normal packets of a run, in their order. -/
def sendings (s : SimpleMpathManager) (es : List Event) : List Sending :=
  (Run.visits step s es).flatMap sending

/-- The packet is sent once, over a channel that exists. -/
def Sending.Takes (sent : Sending) (channel : Channel) : Prop :=
  (channel = .direct ∨ ∃ index < sent.goodrelays.length, channel = .relay index) ∧
    ∃ d, sent.datagrams = [d] ∧ Over sent.goodrelays sent.dst channel d

theorem sendings_take (s : SimpleMpathManager) (es : List Event) :
    List.Forall₂ Sending.Takes (s.sendings es) (s.turns es) := by
  refine List.rel_flatMap (R := Eq) (List.forall₂_refl _) fun visit visit' same => ?_
  obtain rfl := same
  obtain ⟨s, e⟩ := visit
  cases e with
  | sendPacket sbuf buff dst significance =>
      by_cases round : significance = normal
      · obtain rfl := round
        have sent := s.sendPacket_channels sbuf buff dst normal
        obtain ⟨channel, alone, exists_⟩ := s.channels_normal
        rw [alone] at sent
        obtain ⟨d, rest, takes, none_left, datagrams⟩ := List.forall₂_cons_left_iff.mp sent
        obtain rfl := List.forall₂_nil_left_iff.mp none_left
        rw [sending, turn, if_pos rfl, if_pos rfl, alone]
        exact .cons ⟨exists_, d, datagrams, takes⟩ .nil
      · rw [sending, turn, if_neg round, if_neg round]
        exact .nil
  | getRequirement relaylist rq => exact .nil
  | releaseResources => exact .nil

/-- The number of good relays stays the same. -/
def Keeps (size : Nat) (s : SimpleMpathManager) : Prop := s.goodrelays.length = size

theorem turn_cases (s : SimpleMpathManager) (e : Event) :
    (turn (s, e) = [] ∧ (s.step e).curChannel = s.curChannel) ∨
      (turn (s, e) = s.channels normal ∧
        (s.step e).curChannel = (s.curChannel + 1) % (s.goodrelays.length + 1)) := by
  cases e with
  | sendPacket sbuf buff dst significance =>
      simp only [turn, step, sendPacket_state]
      by_cases round : significance = normal
      · rw [if_pos round, if_pos round]
        exact .inr ⟨rfl, rfl⟩
      · rw [if_neg round, if_neg round]
        exact .inl ⟨rfl, rfl⟩
  | getRequirement relaylist rq =>
      refine .inl ⟨rfl, ?_⟩
      by_cases empty : relaylist = []
      · rw [empty]
        rfl
      · rw [step, getRequirement_eq s empty rq]
  | releaseResources => exact .inl ⟨rfl, rfl⟩

theorem turns_eq {size : Nat} {s : SimpleMpathManager} {es : List Event}
    (keeps : Run.Throughout step (Keeps size) s es) :
    ∃ count, s.turns es = (List.range count).map fun i =>
      channelAt size ((s.curChannel + 1 + i) % (size + 1)) := by
  induction es generalizing s with
  | nil => exact ⟨0, rfl⟩
  | cons e es ih =>
      obtain ⟨here, rest⟩ := Run.throughout_cons.mp keeps
      obtain ⟨count, later⟩ := ih rest
      have split : s.turns (e :: es) = turn (s, e) ++ (s.step e).turns es := List.flatMap_cons
      rw [split, later]
      obtain ⟨none_sent, same⟩ | ⟨sent, next⟩ := s.turn_cases e
      · rw [none_sent, same, List.nil_append]
        exact ⟨count, rfl⟩
      · have size_eq : s.goodrelays.length = size := here
        rw [sent, next, size_eq]
        refine ⟨count + 1, ?_⟩
        have first : s.channels normal =
            [channelAt size ((s.curChannel + 1 + 0) % (size + 1))] := by
          rw [← size_eq]
          rfl
        have shifted : ∀ i, ((s.curChannel + 1) % (size + 1) + 1 + i) % (size + 1) =
            (s.curChannel + 1 + (i + 1)) % (size + 1) := by
          intro i
          rw [Nat.add_assoc, Nat.mod_add_mod, Nat.add_comm 1 i]
        rw [first, List.range_succ_eq_map, List.map_cons, List.map_map, List.singleton_append]
        simp only [Function.comp_def, shifted]

theorem range'_mod_perm (start n : Nat) :
    ((List.range' start n).map (· % n)).Perm (List.range n) := by
  apply Multiset.coe_eq_coe.mp
  have round := Nat.multiset_Ico_map_mod start n
  have values : Multiset.Ico start (start + n) = ↑(List.range' start n) := by
    rw [Multiset.Ico, Nat.Ico_eq_range', Nat.add_sub_cancel_left]
  rw [values] at round
  exact round

theorem range_channels_perm (size : Nat) :
    ((List.range (size + 1)).map (channelAt size)).Perm
      (.direct :: (List.range size).map .relay) := by
  have relays : (List.range size).map (channelAt size) = (List.range size).map .relay := by
    apply List.map_congr_left
    intro index inside
    exact if_neg (Nat.ne_of_lt (List.mem_range.mp inside))
  have direct : channelAt size size = .direct := if_pos rfl
  rw [List.range_succ, List.map_append, relays, List.map_singleton, direct]
  exact List.perm_append_singleton _ _

theorem window_perm {size : Nat} {s : SimpleMpathManager} {es : List Event}
    (keeps : Run.Throughout step (Keeps size) s es) {start : Nat}
    (inside : start + (size + 1) ≤ (s.turns es).length) :
    (((s.turns es).drop start).take (size + 1)).Perm
      (.direct :: (List.range size).map .relay) := by
  obtain ⟨count, follows⟩ := turns_eq keeps
  rw [follows, List.length_map, List.length_range] at inside
  have window : ((s.turns es).drop start).take (size + 1) =
      ((List.range' (s.curChannel + 1 + start) (size + 1)).map (· % (size + 1))).map
        (channelAt size) := by
    rw [follows, ← List.map_drop, ← List.map_take, List.range_eq_range', List.drop_range',
      List.take_range'_of_length_ge (by omega), Nat.zero_add, Nat.mul_one,
      ← List.map_add_range' (a := s.curChannel + 1), List.map_map, List.map_map]
    rfl
  rw [window]
  exact ((range'_mod_perm _ (size + 1)).map (channelAt size)).trans (range_channels_perm size)

/-- Wherever a run has led, each normal packet that follows is sent once, over the direct path
    or over a good relay, and while the number of good relays stays the same the turn comes to
    each in as many packets as there are channels. -/
theorem round_robin_balanced (curChannel : Nat) (before es : List Event) :
    let s := Run.final step ⟨curChannel, []⟩ before
    ∃ channels, List.Forall₂ Sending.Takes (s.sendings es) channels ∧
      ∀ size start, Run.Throughout step (Keeps size) s es →
        start + (size + 1) ≤ (s.sendings es).length →
          ((channels.drop start).take (size + 1)).Perm
            (.direct :: (List.range size).map .relay) := by
  intro s
  have takes := s.sendings_take es
  refine ⟨s.turns es, takes, fun size start keeps inside => window_perm keeps ?_⟩
  rwa [← takes.length_eq]

/-- With two good relays, a packet of importance between normal ones does not take a turn. -/
theorem round_robin_balanced_pair :
    let relay (addr : UInt32) : RelayNode := ⟨⟨0, 0, addr, 0⟩, 0, 0, 10⟩
    let packet (significance : UInt8) : Event :=
      .sendPacket (fun _ => 0) [1, 2] ⟨80, 5⟩ significance
    let s := Run.final step ⟨0, []⟩ [.getRequirement [relay 1, relay 2] ⟨0, 20, 0, 2⟩]
    let es := [packet normal, packet importance, packet normal, packet normal]
    ∃ channels, List.Forall₂ Sending.Takes (s.sendings es) channels ∧
      ((channels.drop 0).take 3).Perm [.direct, .relay 0, .relay 1] := by
  intro relay packet s es
  obtain ⟨channels, takes, balanced⟩ :=
    round_robin_balanced 0 [.getRequirement [relay 1, relay 2] ⟨0, 20, 0, 2⟩] es
  refine ⟨channels, takes, balanced 2 0 ?_ (by decide)⟩
  have selected : s.goodrelays.length = 2 := by decide
  simp only [es, Run.throughout_cons, Run.throughout_nil, Keeps, packet, step,
    sendPacket_goodrelays]
  exact ⟨selected, selected, selected, selected, selected⟩

/-! ## Dropped relays -/

/-- A manager with the list that relays were last selected from. -/
structure Tracked where
  manager : SimpleMpathManager
  snapshot : List RelayNode

def Tracked.step (t : Tracked) (e : Event) : Tracked where
  manager := t.manager.step e
  snapshot :=
    match e with
    | .getRequirement relaylist _ => relaylist
    | .sendPacket _ _ _ _ | .releaseResources => t.snapshot

/-- Of a packet that is sent now, of either significance, all datagrams that are not direct go
    to relays that were listed then. -/
def SendsListed (t : Tracked) : Prop :=
  ∀ sbuf buff dst significance, ∀ d ∈ (t.manager.sendPacket sbuf buff dst significance).2,
    ¬IsDirect d → d.dst.addr ∈ addrs t.snapshot

/-- No selection finds the list empty while there are good relays. -/
def Refreshes (t : Tracked) : Event → Prop
  | .getRequirement relaylist _ => relaylist = [] → t.manager.goodrelays = []
  | .sendPacket _ _ _ _ | .releaseResources => True

/-- As a packet of importance goes over all of them, it is the good relays that matter. -/
theorem sendsListed_iff (t : Tracked) :
    SendsListed t ↔ ∀ node ∈ t.manager.goodrelays, nodeAddr node ∈ addrs t.snapshot := by
  constructor
  · intro sends node good
    exact sends (fun _ => 0) [] ⟨0, 0⟩ importance _
      (List.mem_cons_of_mem _ (List.mem_map_of_mem good))
      (relayed_not_isDirect (mesh_header _ _ []) 0 _)
  · intro current sbuf buff dst significance d sent relayed
    have spread := t.manager.sendPacket_channels sbuf buff dst significance
    obtain ⟨channel, -, leads, direct⟩ := exists_of_forall₂ spread sent
    cases channel with
    | direct => exact absurd (direct.mpr rfl) relayed
    | relay index =>
        obtain ⟨node, found, same⟩ := Option.map_eq_some_iff.mp leads
        rw [← same]
        exact current node (List.mem_of_getElem? found)

theorem getRequirement_listed (s : SimpleMpathManager) {relaylist : List RelayNode}
    (some_listed : relaylist ≠ []) (rq : Requirement) :
    ∀ node ∈ (s.getRequirement relaylist rq).2.goodrelays, nodeAddr node ∈ addrs relaylist := by
  intro node good
  rw [getRequirement_eq s some_listed rq] at good
  obtain ⟨n, extended⟩ := select_extended rq [] (s.kept relaylist) relaylist
  cases extended.mem good with
  | inl old => exact s.kept_listed relaylist node old
  | inr new => exact List.mem_map_of_mem ((firsts_sublist nodeAddr _ relaylist).mem new)

theorem step_sendsListed (t : Tracked) (e : Event) (sends : SendsListed t) :
    SendsListed (t.step e) ↔ Refreshes t e := by
  rw [sendsListed_iff] at sends ⊢
  cases e with
  | sendPacket sbuf buff dst significance =>
      refine iff_of_true ?_ trivial
      simp only [Tracked.step, step, sendPacket_goodrelays]
      exact sends
  | getRequirement relaylist rq =>
      by_cases empty : relaylist = []
      · obtain rfl := empty
        have kept : (t.manager.getRequirement [] rq).2 = t.manager := rfl
        simp only [Tracked.step, step, kept, Refreshes, forall_const]
        constructor
        · intro current
          exact List.eq_nil_iff_forall_not_mem.mpr fun node good =>
            List.not_mem_nil (current node good)
        · intro nothing
          rw [nothing]
          exact fun node good => absurd good List.not_mem_nil
      · refine iff_of_true ?_ fun nothing => absurd nothing empty
        exact t.manager.getRequirement_listed empty rq
  | releaseResources =>
      refine iff_of_true ?_ trivial
      exact fun node good => absurd good List.not_mem_nil

/-- In every state of a run packets are sent over listed relays only, just in case no
    selection finds the list empty while there are good relays. -/
theorem sends_listed_iff (curChannel : Nat) (es : List Event) :
    Run.Throughout Tracked.step SendsListed ⟨⟨curChannel, []⟩, []⟩ es ↔
      ∀ visit ∈ Run.visits Tracked.step ⟨⟨curChannel, []⟩, []⟩ es, Refreshes visit.1 visit.2 := by
  apply Run.throughout_iff _ step_sendsListed
  exact (sendsListed_iff _).mpr fun node good => absurd good List.not_mem_nil

/-- A relay is selected, then the selector lists none. -/
theorem dropped_relay_still_sent_over :
    ¬ ∀ curChannel es,
      Run.Throughout Tracked.step SendsListed ⟨⟨curChannel, []⟩, []⟩ es := by
  intro always
  let relay : RelayNode := ⟨⟨0, 1, 1, 0⟩, 0, 0, 10⟩
  let es : List Event := [.getRequirement [relay] ⟨0, 10, 0, 1⟩, .getRequirement [] ⟨0, 10, 0, 1⟩]
  have sends := always 0 es es [] (List.append_nil es).symm
  have listed := sends (fun _ => 0) [] ⟨0, 0⟩ importance _ (List.mem_cons_of_mem _
    List.mem_cons_self) (relayed_not_isDirect (mesh_header _ _ []) 0 _)
  exact absurd listed List.not_mem_nil

end SimpleMpathManager

end Cors
