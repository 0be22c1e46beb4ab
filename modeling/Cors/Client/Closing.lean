import Cors.Client.Custody

/-! # Closing the client

When it closes, the client releases the relays that it lists. Once nothing else is on the
way, the sessions that stay are exactly those of the other relays. So closing releases all
sessions just in case all their relays are listed, and a run in which no relay is dropped
with its session leaves none behind.
-/

namespace Cors

open ByteFormat

namespace Overlay

/-- The client closes, and what is in flight is handled. -/
def closing (s : Network Parties Letter) (drain : List Event) : Network Parties Letter :=
  Run.final step (step s (.act .close)) drain

/-- After the client has closed nothing happens but deliveries, and everything is delivered. -/
def Drains (s : Network Parties Letter) (drain : List Event) : Prop :=
  (∀ e ∈ drain, ∃ k keep r, e = .deliver k keep r) ∧ (closing s drain).flight = []

/-- The client starts with an empty list and knows its destination, and no relay stores a
    session for the pair. -/
structure Fresh (n : Parties) : Prop where
  peer : n.peer = n.dst
  relaylist : n.client.rlysltr.relaylist = []
  unreserved : ∀ a, ¬ Reserved (pair n) a n

/-- A release of the pair on its way to its relay. -/
def Releases (near far : SockaddrIn) (d : Datagram) : Prop :=
  ∃ p, Travels near far d p ∧ p.type = .bwRelease

section Releasing
variable {near far : SockaddrIn} {n : Parties} {d : Datagram}

theorem release_ignored {s : CorsSocket} {amb : CorsSocket.Ambient} {p : CorsProbe}
    {received : CorsSocket.Received} (typed : p.type = .bwRelease)
    (handled : CorsSocket.Handles s amb p received) :
    received.socket.rlysltr = s.rlysltr ∧ received.sent = [] := by
  cases handled with
  | turnedBack q other =>
      rw [typed] at other
      exact absurd other (by simp)
  | fwReply other | bwReply other => exact absurd (typed.symm.trans other) (by decide)
  | ignored _ selector sent => exact ⟨selector, sent⟩

theorem reserved_release (n : Parties) (key : SessionKey) (a b : SockaddrIn) :
    Reserved key b (n.setRelay a ((n.relays a).release key)) ↔ Reserved key b n ∧ b ≠ a := by
  by_cases here : b = a
  · subst here
    refine iff_of_false ?_ fun both => both.2 rfl
    rintro ⟨-, -, stored⟩
    simp only [Parties.setRelay, Function.update_self] at stored
    rw [← AList.lookup_isSome, SimpleFwd.release_lookup] at stored
    cases stored
  · simp only [Reserved, Parties.setRelay, Function.update_of_ne here]
    exact (and_iff_left here).symm

theorem receive_release (r : Reading) (releases : Releases near far d) :
    (receive n r d).2 = [] ∧ ∀ a, Reserved (.between near far) a (receive n r d).1 ↔
      Reserved (.between near far) a n ∧ a ≠ d.dst := by
  obtain ⟨p, travels, typed⟩ := releases
  have received := receive_receives n r travels.bytes travels.own
  generalize receive n r d = result at received
  cases received with
  | client received here handled =>
      obtain ⟨selector, sent⟩ := release_ignored typed handled
      have src : Parties.src { n with client := received.socket } = n.src := by
        simp only [Parties.src, selector]
      refine ⟨sent, fun a => (reserved_congr src rfl rfl).trans ?_⟩
      exact (and_iff_left_of_imp fun reserved => here ▸ reserved.1).symm
  | destination received away here handled =>
      obtain ⟨selector, sent⟩ := release_ignored typed handled
      have peer : Parties.peer { n with destination := received.socket } = n.peer := by
        simp only [Parties.peer, selector]
      refine ⟨sent, fun a => (reserved_congr (by rfl) peer rfl).trans ?_⟩
      exact (and_iff_left_of_imp fun reserved => here ▸ reserved.2.1).symm
  | relay outcome away between handled =>
      cases handled with
      | probe q other | reserve q other => exact absurd (typed.symm.trans other) (by decide)
      | ignored other => exact absurd (typed ▸ other) (by decide)
      | release =>
          refine ⟨rfl, fun a => ?_⟩
          let msg := r.amb.junk.receive p.serialize
          have key : SimpleFwd.controlKey msg = .between near far := by
            rw [SimpleFwd.controlKey_serialize, travels.source, travels.destination]
          have next : (n.relays d.dst).step (.bwRelease msg) =
              (n.relays d.dst).release (.between near far) := key ▸ rfl
          rw [next]
          exact reserved_release n (.between near far) d.dst a

/-- While the releases of `n` are handled: the relays it lists may have lost their session,
    and one that still has it has a release on its way. -/
structure Releasing (near far : SockaddrIn) (n : Parties) (s : Network Parties Letter) : Prop where
  holds : Network.Holds
    (fun n' => ∀ a, (Reserved (.between near far) a n' → Reserved (.between near far) a n) ∧
      (Reserved (.between near far) a n → Listed a n ∨ Reserved (.between near far) a n'))
    (fun l => Releases near far l.datagram ∧ Listed l.datagram.dst n) s
  accounted : Network.Accounted
    (fun a n' => Reserved (.between near far) a n' ∧ Listed a n) (fun _ _ => False)
    (fun a l => l.datagram.dst = a) s

theorem releasing_close {s : Network Parties Letter} (steady : Steady near far s.nodes)
    (quiet : s.flight = []) : Releasing near far s.nodes (step s (.act .close)) := by
  have flight : (step s (.act .close)).flight = (act s.nodes .close).2 := by
    simp only [step, Network.step, quiet, List.nil_append]
  refine ⟨⟨fun a => ⟨id, .inr⟩, fun l flies => ?_⟩, ?_⟩
  · rw [flight] at flies
    obtain ⟨p, ⟨node, listed, rfl⟩, travels⟩ := act_travels steady .close l flies
    refine ⟨⟨_, travels, rfl⟩, ?_⟩
    rw [travels.address]
    exact List.mem_map_of_mem listed
  · rintro a ⟨-, listed⟩
    obtain ⟨node, entry, rfl⟩ := List.mem_map.mp listed
    let release := SimpleRlysltr.sendProbe (s.nodes.client.rlysltr.releaseFor node)
    refine .inr ⟨Letter.own release, ?_, rfl⟩
    rw [flight]
    exact List.mem_map_of_mem (List.mem_map_of_mem entry)

theorem step_releasing {s : Network Parties Letter} (k : Nat) (keep : Bool) (r : Reading)
    (releasing : Releasing near far n s) :
    Releasing near far n (step s (.deliver k keep r)) := by
  obtain ⟨holds, accounted⟩ := releasing
  constructor
  · refine Network.deliver_holds holds ?_
    rintro l taken stored ⟨releases, listed⟩
    obtain ⟨quiet, dropped⟩ := receive_release (n := s.nodes) r releases
    have sent : (handle s.nodes r l).2 = [] := by
      simp only [handle, quiet, List.map_nil]
    refine ⟨fun a => ⟨fun reserved => ?_, fun reserved => ?_⟩, fun l' answer => ?_⟩
    · exact (stored a).1 ((dropped a).mp reserved).1
    · by_cases here : a = l.datagram.dst
      · exact .inl (here ▸ listed)
      · exact ((stored a).2 reserved).imp_right fun still => (dropped a).mpr ⟨still, here⟩
    · rw [sent] at answer
      cases answer
  · cases taken : s.flight[k]? with
    | none =>
        rw [step, Network.step_deliver_none taken]
        exact accounted
    | some l =>
        obtain ⟨releases, -⟩ := holds.2 l (List.mem_of_getElem? taken)
        obtain ⟨-, dropped⟩ := receive_release (n := s.nodes) r releases
        refine Network.deliver_accounted accounted taken ?_
        rintro a ⟨reserved, listed⟩ before
        obtain ⟨still, away⟩ := (dropped a).mp reserved
        cases before ⟨still, listed⟩ with
        | inl never => exact never.elim
        | inr here => exact absurd here.symm away

theorem closing_reserved_iff {s : Network Parties Letter} {drain : List Event}
    (steady : Steady near far s.nodes) (quiet : s.flight = []) (drains : Drains s drain)
    (a : SockaddrIn) :
    Reserved (.between near far) a (closing s drain).nodes ↔
      Reserved (.between near far) a s.nodes ∧ ¬ Listed a s.nodes := by
  have releasing : Releasing near far s.nodes (closing s drain) := by
    refine Run.final_of_kept (C := fun _ e => ∃ k keep r, e = .deliver k keep r)
      (releasing_close steady quiet) ?_ drain ?_
    · rintro s' e ⟨k, keep, r, rfl⟩
      exact step_releasing k keep r
    · exact fun visit visited => drains.1 visit.2 (Run.event_of_visit visited)
  obtain ⟨holds, accounted⟩ := releasing
  constructor
  · intro reserved
    refine ⟨(holds.1 a).1 reserved, fun listed => ?_⟩
    exact Network.settled_of_quiet accounted drains.2 (t := a) ⟨reserved, listed⟩
  · rintro ⟨reserved, unlisted⟩
    exact ((holds.1 a).2 reserved).resolve_left unlisted

end Releasing

/-! ## Runs -/

theorem Fresh.orderly {n : Parties} (fresh : Fresh n) : Orderly n.src n.dst (start n) := by
  refine ⟨⟨rfl, rfl, fresh.peer, ?_⟩, fun l flies => nomatch flies⟩
  rw [SimpleRlysltr.Short]
  exact fresh.relaylist ▸ Nat.zero_le _

theorem final_orderly {n : Parties} (fresh : Fresh n) (es : List Event) :
    Orderly n.src n.dst (Run.final step (start n) es) :=
  Run.final_of_invariant fresh.orderly step_orderly es

theorem final_custody {n : Parties} (fresh : Fresh n) (es : List Event)
    (keeps : ∀ visit ∈ Run.visits step (start n) es, Keeps visit.1 visit.2) :
    Custody n.src n.dst (Run.final step (start n) es) := by
  have kept := Run.final_of_kept (C := Keeps)
    (P := fun s => Orderly n.src n.dst s ∧ Custody n.src n.dst s) ?_ ?_ es keeps
  · exact kept.2
  · exact ⟨fresh.orderly, fun a reserved => absurd reserved (fresh.unreserved a)⟩
  · rintro s e keeps ⟨orderly, custody⟩
    exact ⟨step_orderly s e orderly, step_custody keeps orderly custody⟩

/-- When nothing is on its way, closing releases all sessions just in case all their relays
    are listed. That is so after every run in which no relay is dropped with its session. -/
theorem close_releases_iff (n : Parties) (es drain : List Event) (fresh : Fresh n)
    (quiet : (Run.final step (start n) es).flight = [])
    (drains : Drains (Run.final step (start n) es) drain) :
    let s := Run.final step (start n) es
    let released := ∀ a, ¬ Reserved (pair n) a (closing s drain).nodes
    (released ↔ ∀ a, Reserved (pair n) a s.nodes → Listed a s.nodes) ∧
      ((∀ visit ∈ Run.visits step (start n) es, Keeps visit.1 visit.2) → released) := by
  intro s released
  have exact_iff : released ↔ ∀ a, Reserved (pair n) a s.nodes → Listed a s.nodes := by
    refine forall_congr' fun a => ?_
    rw [pair, closing_reserved_iff (final_orderly fresh es).1 quiet drains a]
    exact not_and_not_right
  refine ⟨exact_iff, fun keeps => exact_iff.mpr fun a reserved => ?_⟩
  exact Network.settled_of_quiet (final_custody fresh es keeps) quiet reserved

/-! ## A relay that became slow -/

namespace SlowRelay

def relay : EndPoint := ⟨0, 1, 1, 0⟩

/-- One relay is required, within 150 ms. -/
def parties : Parties where
  client := (CorsSocket.init ⟨⟨0, 2, 2, 0⟩, ⟨0, 3, 3, 0⟩⟩ [relay] ⟨150, 0, 0, 1⟩
    (.simple ⟨0, []⟩) (fun _ => 0) 0 0).1
  destination := (CorsSocket.init ⟨⟨0, 3, 3, 0⟩, ⟨0, 2, 2, 0⟩⟩ [] ⟨150, 0, 0, 1⟩
    (.simple ⟨0, []⟩) (fun _ => 0) 0 0).1
  relays _ := .new 20 200

def deliver (now : Int32) : Event := .deliver 0 false ⟨⟨⟨now, 0⟩, 0, fun _ => 0⟩, relay.sockaddr⟩

/-- The relay is probed, reserved and listed; its next probe takes ten seconds. -/
def run : List Event :=
  .act (.pingCandidate ⟨0, 0⟩) :: List.replicate 6 (deliver 0) ++
    .act (.pingCandidate ⟨0, 0⟩) :: List.replicate 3 (deliver 10)

theorem fresh : Fresh parties where
  peer := rfl
  relaylist := rfl
  unreserved := fun _ reserved => nomatch reserved.2.2

theorem quiet : (Run.final step (start parties) run).flight = [] :=
  List.isEmpty_iff.mp (by decide +kernel)

theorem drains : Drains (Run.final step (start parties) run) [] :=
  ⟨fun _ nothing => (nomatch nothing), List.isEmpty_iff.mp (by decide +kernel)⟩

theorem stays_reserved :
    Reserved (pair parties) relay.sockaddr
      (closing (Run.final step (start parties) run) []).nodes := by
  decide +kernel

end SlowRelay

/-- The relay is removed from the list, and closing leaves its session behind. -/
theorem removed_relay_stays_reserved :
    ¬ ∀ n es drain, Fresh n → (Run.final step (start n) es).flight = [] →
      Drains (Run.final step (start n) es) drain →
        ∀ a, ¬ Reserved (pair n) a (closing (Run.final step (start n) es) drain).nodes := by
  intro always
  exact always SlowRelay.parties SlowRelay.run [] SlowRelay.fresh SlowRelay.quiet SlowRelay.drains
    SlowRelay.relay.sockaddr SlowRelay.stays_reserved

/-- Before it is probed again the relay is listed, and its session is released. -/
theorem listed_relay_is_released :
    let s := Run.final step (start SlowRelay.parties) (SlowRelay.run.take 7)
    (∀ a, Reserved (pair SlowRelay.parties) a s.nodes → Listed a s.nodes) ∧
      ∀ a, ¬ Reserved (pair SlowRelay.parties) a (closing s [SlowRelay.deliver 0]).nodes := by
  have both := close_releases_iff SlowRelay.parties (SlowRelay.run.take 7) [SlowRelay.deliver 0]
    SlowRelay.fresh (List.isEmpty_iff.mp (by decide +kernel)) ⟨?_, ?_⟩
  · have released := both.2 (by decide +kernel)
    exact ⟨both.1.mp released, released⟩
  · intro e one
    obtain rfl := List.mem_singleton.mp one
    exact ⟨0, false, _, rfl⟩
  · exact List.isEmpty_iff.mp (by decide +kernel)

end Overlay

end Cors
