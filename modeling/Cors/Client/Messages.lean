import Cors.Client.Delivery

/-! # What the applications are handed

Sockets that are configured for each other's addresses, whose good relays are relays and which
send over the plain manager. Whatever else happens to the clients and the relays, and however the
packets are delayed, reordered, lost and duplicated, the network of `Delivery` hands over what it
was given, from whom it was given it, and no more often than it was sent.
-/

namespace Cors

open ByteFormat

namespace Delivery

/-- What `sendto` relies on: its destination is the configured one and a client, the good relays
    are none, and the payload fits into a packet. -/
structure Proper (client : SockaddrIn → Bool) (s : CorsSocket) (buff : Bytes)
    (dst : SockaddrIn) : Prop where
  configured : s.rlysltr.psk.dst.sockaddr = dst
  bound : client dst = true
  plain : ∃ mgr, s.mpthmgr = .simple mgr
  relays : ∀ node ∈ s.mpthmgr.goodrelays, client node.relay.sockaddr = false
  short : buff.length + indirectHeaderLen ≤ corsMaxMsgSize

/-- Sendings are proper, and control packets are none for the data path. -/
def Allowed (client : SockaddrIn → Bool) (s : Network Parties Letter) : Event → Prop
  | .act (.sendto a _ _ buff dst _) => Proper client (s.nodes.clients a) buff dst
  | .act (.control l) => ¬IsData l.datagram
  | _ => True

/-- What the network is given: one message for each packet. -/
def given (s : Network Parties Letter) : Event → List Message
  | .act (.sendto a _ sbuf buff dst significance) =>
      match (s.nodes.clients a).mpthmgr with
      | .simple mgr =>
          .replicate (mgr.sendPacket sbuf buff dst significance).2.length
            ⟨a, dst, said mgr sbuf buff significance⟩
      | .stat _ => []
  | _ => []

section Log
variable (client : SockaddrIn → Bool)

/-- What a packet carries that stays in flight when it is handled. -/
def duplicated (s : Network Parties Letter) : Event → List Message
  | .deliver k true _ => (s.flight[k]?.bind (carried client)).toList
  | _ => []

/-- What an application is handed. -/
def handed (s : Network Parties Letter) : Event → List Message
  | .deliver k _ amb =>
      match s.flight[k]? with
      | some l =>
          let a := l.datagram.dst
          if client a then
            (handOver a ((s.nodes.clients a).recvfrom amb l.datagram.bytes l.src)).toList
          else
            []
      | none => []
  | .act _ => []

def start (n : Parties) : Network Parties Letter := ⟨n, []⟩

/-- What is seen of the steps of a run, one after the other. -/
def log (seen : Network Parties Letter → Event → List Message) (n : Parties) (es : List Event) :
    List Message :=
  (Run.visits (step client) (start n) es).flatMap fun visit => seen visit.1 visit.2

/-- How often a message is in flight. -/
def weight (x : Message) (l : Letter) : Nat := (carried client l).toList.count x

end Log

/-! ## What a step sends -/

section Steps
variable {client : SockaddrIn → Bool}

theorem weight_control (x : Message) {l : Letter} (control : ¬IsData l.datagram) :
    weight client x l = 0 := by
  rw [weight, control_carries control]
  rfl

theorem total_control (x : Message) {ls : List Letter}
    (control : ∀ l ∈ ls, ¬IsData l.datagram) : Network.total (weight client x) ls = 0 := by
  rw [Network.total, List.sum_eq_zero]
  intro w member
  obtain ⟨l, inside, rfl⟩ := List.mem_map.mp member
  exact weight_control x (control l inside)

theorem total_of_carried (x : Message) {y : Message} {ls : List Letter}
    (carry : ∀ l ∈ ls, carried client l = some y) :
    Network.total (weight client x) ls = (List.replicate ls.length y).count x := by
  have same : ls.map (weight client x) = ls.map fun _ => [y].count x := by
    refine List.map_congr_left fun l member => ?_
    rw [weight, carry l member, Option.toList_some]
  rw [Network.total, same, List.map_const', List.sum_replicate, List.count_replicate]
  by_cases own : y = x
  · subst own
    simp
  · simp [own]

/-- An inquiry for relays is the only other thing that `sendto` sends. -/
theorem sendto_inquiry (s : CorsSocket) (now : Int32) (sbuf : Mem) (buff : Bytes) (daddr : UInt32)
    (dport : UInt16) (significance : UInt8) :
    (s.sendto now sbuf buff daddr dport significance).2.inquiry = [] ∨
      (s.sendto now sbuf buff daddr dport significance).2.inquiry =
        s.rlysltr.sendRlInquiry s.rlysltr.req := by
  simp only [CorsSocket.sendto]
  split <;> split <;> (try split) <;> simp

theorem sendto_letters {s : Network Parties Letter} {a dst : SockaddrIn} {now : Int32} {sbuf : Mem}
    {buff : Bytes} {significance : UInt8}
    (allowed : Allowed client s (.act (.sendto a now sbuf buff dst significance))) :
    ∃ mgr packets inquiry, (s.nodes.clients a).mpthmgr = .simple mgr ∧
      packets = (mgr.sendPacket sbuf buff dst significance).2.map (Letter.mk a) ∧
      (act s.nodes (.sendto a now sbuf buff dst significance)).2 = packets ++ inquiry ∧
      (∀ l ∈ packets, Sound client l ∧
        carried client l = some ⟨a, dst, said mgr sbuf buff significance⟩) ∧
      ∀ l ∈ inquiry, ¬IsData l.datagram := by
  obtain ⟨configured, bound, ⟨mgr, plain⟩, relays, short⟩ := allowed
  let sent := ((s.nodes.clients a).sendto now sbuf buff dst.addr dst.port significance).2
  have packets : sent.packets = (mgr.sendPacket sbuf buff dst significance).2 := by
    have whole := (s.nodes.clients a).sendto_packets now sbuf buff dst.addr dst.port significance
    rw [if_pos configured, plain, configured] at whole
    exact whole
  rw [plain] at relays
  refine ⟨mgr, _, sent.inquiry.map (Letter.mk a), plain, rfl, ?_, ?_, ?_⟩
  · rw [← packets, ← List.map_append]
    rfl
  · intro l member
    obtain ⟨d, own, rfl⟩ := List.mem_map.mp member
    exact sendPacket_carries a sbuf bound relays short significance d own
  · intro l member
    obtain ⟨d, own, rfl⟩ := List.mem_map.mp member
    obtain none | inquired := sendto_inquiry (s.nodes.clients a) now sbuf buff dst.addr dst.port
      significance
    · exact absurd (none ▸ own : d ∈ []) List.not_mem_nil
    · exact inquiry_kind (inquired ▸ own)

/-- What is sent of a client's own accord is what the network is given. -/
theorem act_sends {s : Network Parties Letter} {action : Action}
    (allowed : Allowed client s (.act action)) (x : Message) :
    (∀ l ∈ (act s.nodes action).2, Sound client l) ∧
      Network.total (weight client x) (act s.nodes action).2 ≤ (given s (.act action)).count x := by
  cases action with
  | sendto a now sbuf buff dst significance =>
      obtain ⟨mgr, packets, inquiry, plain, own, letters, carry, control⟩ := sendto_letters allowed
      rw [letters]
      refine ⟨fun l member => ?_, ?_⟩
      · obtain packet | other := List.mem_append.mp member
        · exact (carry l packet).1
        · exact control_sound (control l other)
      · have count := total_of_carried x fun l member => (carry l member).2
        rw [Network.total_append, total_control x control, count, Nat.add_zero]
        have length := congrArg List.length own
        rw [List.length_map] at length
        simp only [given, plain, length]
        exact Nat.le_refl _
  | control l =>
      have alone : ∀ l' ∈ [l], ¬IsData l'.datagram := List.forall_mem_singleton.mpr allowed
      exact ⟨fun l' member => control_sound (alone l' member),
        Nat.le_of_eq (total_control x alone)⟩
  | client a s => exact ⟨by simp [act], Nat.le_refl 0⟩
  | relay a s => exact ⟨by simp [act], Nat.le_refl 0⟩

theorem handed_deliver (s : Network Parties Letter) {k : Nat} {l : Letter}
    (taken : s.flight[k]? = some l) (sound : Sound client l) (keep : Bool)
    (amb : CorsSocket.Ambient) :
    handed client s (.deliver k keep amb) =
      if client l.datagram.dst then (carried client l).toList else [] := by
  simp only [handed, taken]
  cases bound : client l.datagram.dst with
  | true => rw [if_pos rfl, if_pos rfl, recvfrom_hands _ amb sound bound]
  | false => rfl

theorem handle_client (n : Parties) (amb : CorsSocket.Ambient) {l : Letter}
    (bound : client l.datagram.dst = true) :
    ∀ l' ∈ (handle client n amb l).2, ¬IsData l'.datagram := by
  intro l' member
  simp only [handle, bound, if_true] at member
  obtain ⟨d, sent, rfl⟩ := List.mem_map.mp member
  exact recvfrom_kind sent

theorem handle_relay (n : Parties) (amb : CorsSocket.Ambient) {l : Letter} (sound : Sound client l)
    (relay : client l.datagram.dst = false) :
    (∀ l' ∈ (handle client n amb l).2, ¬IsData l'.datagram) ∨
      ∃ l', (handle client n amb l).2 = [l'] ∧ Sound client l' ∧
        carried client l' = carried client l := by
  have letters : (handle client n amb l).2 =
      ((n.relays l.datagram.dst).dispatch amb.tmNow
        (amb.junk.receive (l.datagram.bytes.take corsMaxMsgSize))
        (l.datagram.bytes.take corsMaxMsgSize).length l.src).2.map (Letter.mk l.datagram.dst) := by
    simp only [handle, relay, Bool.false_eq_true, if_false]
  obtain control | ⟨d, sent, kept, same⟩ := dispatch_carries (n.relays l.datagram.dst) amb.tmNow
    amb.junk sound relay
  · left
    intro l' member
    rw [letters] at member
    obtain ⟨d, own, rfl⟩ := List.mem_map.mp member
    exact control d own
  · exact .inr ⟨⟨l.datagram.dst, d⟩, by rw [letters, sent, List.map_singleton], kept, same⟩

/-- A letter is handed over or passed on once. -/
theorem handle_sends {s : Network Parties Letter} {k : Nat} {l : Letter}
    (taken : s.flight[k]? = some l) (sound : Sound client l) (x : Message) (keep : Bool)
    (amb : CorsSocket.Ambient) :
    (∀ l' ∈ (handle client s.nodes amb l).2, Sound client l') ∧
      (handed client s (.deliver k keep amb)).count x +
          Network.total (weight client x) (handle client s.nodes amb l).2 ≤ weight client x l := by
  rw [handed_deliver s taken sound]
  cases bound : client l.datagram.dst with
  | true =>
      have control := handle_client s.nodes amb bound
      refine ⟨fun l' member => control_sound (control l' member), ?_⟩
      rw [total_control x control, if_pos rfl]
      exact Nat.le_refl _
  | false =>
      rw [if_neg Bool.false_ne_true, List.count_nil, Nat.zero_add]
      obtain control | ⟨l', sent, kept, same⟩ := handle_relay s.nodes amb sound bound
      · refine ⟨fun l' member => control_sound (control l' member), ?_⟩
        rw [total_control x control]
        exact Nat.zero_le _
      · rw [sent, List.forall_mem_singleton]
        refine ⟨kept, Nat.le_of_eq ?_⟩
        rw [Network.total, List.map_singleton, List.sum_singleton, weight, same]
        rfl

/-! ## What a run does -/

/-- Everything in flight can be read or passed on. -/
def AllSound (client : SockaddrIn → Bool) (s : Network Parties Letter) : Prop :=
  Network.Holds (fun _ => True) (Sound client) s

theorem start_sound (n : Parties) : AllSound client (start n) :=
  ⟨trivial, fun _ member => absurd member List.not_mem_nil⟩

theorem step_sound {s : Network Parties Letter} {e : Event} (allowed : Allowed client s e)
    (sound : AllSound client s) : AllSound client (step client s e) := by
  cases e with
  | act action =>
      refine Network.act_holds sound fun _ => ⟨trivial, ?_⟩
      exact (act_sends allowed ⟨⟨0, 0⟩, ⟨0, 0⟩, []⟩).1
  | deliver k keep amb =>
      refine Network.deliver_holds sound fun l taken _ own => ⟨trivial, ?_⟩
      exact (handle_sends taken own ⟨⟨0, 0⟩, ⟨0, 0⟩, []⟩ keep amb).1

theorem run_sound {n : Parties} {es : List Event}
    (allowed : ∀ visit ∈ Run.visits (step client) (start n) es, Allowed client visit.1 visit.2) :
    AllSound client (Run.final (step client) (start n) es) :=
  Run.final_of_kept (start_sound n) (fun _ _ => step_sound) es allowed

theorem step_conserves {s : Network Parties Letter} {e : Event} (x : Message)
    (allowed : Allowed client s e) (sound : AllSound client s) :
    (handed client s e).count x + Network.total (weight client x) (step client s e).flight ≤
      Network.total (weight client x) s.flight + (given s e ++ duplicated client s e).count x := by
  cases e with
  | act action =>
      have sent := (act_sends allowed x).2
      refine Network.act_load ?_
      simp only [handed, duplicated, List.append_nil, List.count_nil, Nat.zero_add]
      exact sent
  | deliver k keep amb =>
      cases taken : s.flight[k]? with
      | none =>
          rw [step, Network.step_deliver_none taken]
          simp only [handed, taken, List.count_nil, Nat.zero_add]
          exact Nat.le_add_right _ _
      | some l =>
          have sends := (handle_sends taken (sound.2 l (List.mem_of_getElem? taken)) x keep amb).2
          have load := Network.deliver_load act taken sends keep
          have none : given s (.deliver k keep amb) = [] := rfl
          rw [none, List.nil_append]
          cases keep with
          | true =>
              have stays : duplicated client s (.deliver k true amb) =
                  (carried client l).toList := by rw [duplicated, taken, Option.bind_some]
              rw [stays]
              exact load
          | false => exact load

end Steps

/-! ## A relay between two clients -/

def here : EndPoint := { zeroEndPoint with addr := 1, port := 1 }
def there : EndPoint := { zeroEndPoint with addr := 2, port := 2 }
def between : EndPoint := { zeroEndPoint with addr := 3, port := 3 }

def sampleClient (a : SockaddrIn) : Bool := a = here.sockaddr || a = there.sockaddr

def sampleSocket : CorsSocket where
  rlysltr := .new ⟨here, there⟩ [] ⟨0, 0, 0, 1⟩ 0
  mpthmgr := .simple ⟨0, [⟨between, 0, 0, 0⟩]⟩
  msg := fun _ => 0
  lastQueryTime := 0

def sampleParties : Parties where
  clients := fun _ => sampleSocket
  relays := fun _ =>
    { SimpleFwd.new 20 200 with
      fwdHmap := (∅ : Table SessionKey FwdRecords).insert
        (.between here.sockaddr there.sockaddr) (.new ⟨0, 0⟩) }

def sampleAmbient : CorsSocket.Ambient := ⟨⟨0, 0⟩, 0, fun _ => 0⟩

/-- A packet is sent over both paths, and the relay gets its copy, which is duplicated. -/
def sampleRun : List Event :=
  [.act (.sendto here.sockaddr 0 (fun _ => 0) [7, 8] there.sockaddr importance),
    .deliver 1 true sampleAmbient]

theorem sample_allowed : ∀ visit ∈ Run.visits (step sampleClient) (start sampleParties) sampleRun,
    Allowed sampleClient visit.1 visit.2 := by
  have proper : Proper sampleClient sampleSocket [7, 8] there.sockaddr := by
    refine ⟨rfl, rfl, ⟨_, rfl⟩, fun node member => ?_, by decide⟩
    obtain rfl := List.mem_singleton.mp member
    rfl
  simp only [Run.visits, sampleRun, List.forall_mem_cons]
  exact ⟨proper, trivial, fun _ member => absurd member List.not_mem_nil⟩

/-! ## What follows -/

section Results
variable {client : SockaddrIn → Bool} {n : Parties} {es : List Event}

theorem total_count (x : Message) (ls : List Letter) :
    Network.total (weight client x) ls = (ls.filterMap (carried client)).count x := by
  rw [Network.total]
  induction ls with
  | nil => rfl
  | cons l ls ih =>
      rw [List.map_cons, List.sum_cons, ih, List.filterMap_cons, weight]
      cases carried client l with
      | none => exact Nat.zero_add _
      | some y =>
          rw [Option.toList_some, List.count_singleton, List.count_cons]
          exact Nat.add_comm _ _

theorem log_count (seen : Network Parties Letter → Event → List Message) (x : Message) :
    (log client seen n es).count x =
      ((Run.visits (step client) (start n) es).map fun visit =>
        (seen visit.1 visit.2).count x).sum := by
  rw [log, List.count_flatMap]
  rfl

/-- Whatever happens: what the applications are handed and what is still in flight is no more
    than what the network was given, packet by packet, and the duplicates it made. -/
theorem messages_of_run
    (allowed : ∀ visit ∈ Run.visits (step client) (start n) es, Allowed client visit.1 visit.2)
    (x : Message) :
    (log client (handed client) n es).count x +
        ((Run.final (step client) (start n) es).flight.filterMap (carried client)).count x ≤
      (log client (fun s e => given s e ++ duplicated client s e) n es).count x := by
  have ledger := Run.ledger_of_kept (fun s e => (handed client s e).count x)
    (fun s e => (given s e ++ duplicated client s e).count x)
    (fun s => Network.total (weight client x) s.flight) (fun _ _ => step_sound)
    (fun _ _ => step_conserves x) (start_sound n) es allowed
  have nothing : Network.total (weight client x) (start n).flight = 0 := rfl
  rw [nothing, Nat.zero_add, total_count] at ledger
  rw [log_count, log_count]
  exact ledger

theorem messages_of_run_sample :
    (log sampleClient (handed sampleClient) sampleParties sampleRun).count
          ⟨here.sockaddr, there.sockaddr, [7, 8]⟩ +
        ((Run.final (step sampleClient) (start sampleParties) sampleRun).flight.filterMap
          (carried sampleClient)).count ⟨here.sockaddr, there.sockaddr, [7, 8]⟩ ≤
      (log sampleClient (fun s e => given s e ++ duplicated sampleClient s e) sampleParties
        sampleRun).count ⟨here.sockaddr, there.sockaddr, [7, 8]⟩ :=
  messages_of_run sample_allowed _

theorem step_carries {s : Network Parties Letter} {e : Event} (allowed : Allowed client s e)
    (sound : AllSound client s) {x : Message}
    (flies : x ∈ handed client s e ∨ x ∈ (step client s e).flight.filterMap (carried client)) :
    x ∈ given s e ∨ x ∈ s.flight.filterMap (carried client) := by
  have conserves := step_conserves x allowed sound
  rw [total_count, total_count, List.count_append] at conserves
  have here : 0 < (handed client s e).count x +
      ((step client s e).flight.filterMap (carried client)).count x := by
    obtain over_ | left := flies
    · exact Nat.add_pos_left (List.count_pos_iff.mpr over_) _
    · exact Nat.add_pos_right _ (List.count_pos_iff.mpr left)
  by_cases before : x ∈ s.flight.filterMap (carried client)
  · exact .inr before
  · left
    have stayed : (duplicated client s e).count x = 0 := by
      refine List.count_eq_zero.mpr fun member => before ?_
      cases e with
      | act action => cases member
      | deliver k keep amb =>
          cases keep with
          | false => cases member
          | true =>
              obtain ⟨l, taken, carries⟩ := Option.bind_eq_some_iff.mp (Option.mem_toList.mp member)
              exact List.mem_filterMap.mpr ⟨l, List.mem_of_getElem? taken, carries⟩
    have none := List.count_eq_zero.mpr before
    exact List.count_pos_iff.mp (by omega)

/-- An application was told to send it, and what it is handed is the payload, except for the
    relayed turns of the round robin. -/
def Told (client : SockaddrIn → Bool) (n : Parties) (es : List Event) (x : Message) : Prop :=
  ∃ visit ∈ Run.visits (step client) (start n) es, ∃ now sbuf buff significance mgr,
    visit.2 = .act (.sendto x.source now sbuf buff x.dest significance) ∧
      (visit.1.nodes.clients x.source).mpthmgr = .simple mgr ∧
      x.payload = said mgr sbuf buff significance

theorem told_of_given {visit : Network Parties Letter × Event}
    (visited : visit ∈ Run.visits (step client) (start n) es) {x : Message}
    (member : x ∈ given visit.1 visit.2) : Told client n es x := by
  obtain ⟨s, e⟩ := visit
  cases e with
  | deliver k keep amb => cases member
  | act action =>
      cases action with
      | control l => cases member
      | client a s => cases member
      | relay a s => cases member
      | sendto a now sbuf buff dst significance =>
          unfold given at member
          dsimp only at member
          split at member
          · rename_i mgr plain
            obtain rfl := List.eq_of_mem_replicate member
            exact ⟨_, visited, now, sbuf, buff, significance, mgr, rfl, plain, rfl⟩
          · cases member

theorem run_told
    (allowed : ∀ visit ∈ Run.visits (step client) (start n) es, Allowed client visit.1 visit.2) :
    ∀ x ∈ (Run.final (step client) (start n) es).flight.filterMap (carried client),
      Told client n es x := by
  let P (s : Network Parties Letter) : Prop :=
    AllSound client s ∧ ∀ x ∈ s.flight.filterMap (carried client), Told client n es x
  let C (s : Network Parties Letter) (e : Event) : Prop :=
    Allowed client s e ∧ ∀ x ∈ given s e, Told client n es x
  have begins : P (start n) := ⟨start_sound n, fun x member => by cases member⟩
  have keeps (s : Network Parties Letter) (e : Event) (kept : C s e) (holds : P s) :
      P (step client s e) := by
    refine ⟨step_sound kept.1 holds.1, fun x member => ?_⟩
    exact (step_carries kept.1 holds.1 (.inr member)).elim (kept.2 x) (holds.2 x)
  refine (Run.final_of_kept begins keeps es fun visit visited => ⟨allowed visit visited, ?_⟩).2
  exact fun x member => told_of_given visited member

/-- What an application is handed, the application at the address it is said to come from was told
    to send there. -/
theorem handed_of_run
    (allowed : ∀ visit ∈ Run.visits (step client) (start n) es, Allowed client visit.1 visit.2)
    (k : Nat) (keep : Bool) (amb : CorsSocket.Ambient) :
    ∀ x ∈ handed client (Run.final (step client) (start n) es) (.deliver k keep amb),
      Told client n es x := by
  intro x member
  have free : Allowed client (Run.final (step client) (start n) es) (.deliver k keep amb) := trivial
  obtain none | flies := step_carries free (run_sound allowed) (.inl member)
  · cases none
  · exact run_told allowed x flies

theorem handed_of_run_sample :
    Told sampleClient sampleParties sampleRun ⟨here.sockaddr, there.sockaddr, [7, 8]⟩ :=
  handed_of_run sample_allowed 2 false sampleAmbient _ (by decide +kernel)

/-- Over every path that works a message of a mesh sending arrives: it is sent over each of them,
    a relay that stores the session passes it on, and the application is handed it. -/
structure Paths (client : SockaddrIn → Bool) (s : Network Parties Letter) : Prop where
  sent : ∀ a now sbuf buff dst, Allowed client s (.act (.sendto a now sbuf buff dst importance)) →
    ∀ path ∈ dst :: (s.nodes.clients a).mpthmgr.goodrelays.map (·.relay.sockaddr),
      ∃ l ∈ (step client s (.act (.sendto a now sbuf buff dst importance))).flight,
        l.datagram.dst = path ∧ carried client l = some ⟨a, dst, buff⟩
  relayed : ∀ k l x, s.flight[k]? = some l → carried client l = some x →
    client l.datagram.dst = false →
    SessionKey.between x.source x.dest ∈ (s.nodes.relays l.datagram.dst).fwdHmap →
    ∀ keep amb, ∃ l' ∈ (step client s (.deliver k keep amb)).flight,
      client l'.datagram.dst = true ∧ carried client l' = some x
  read : ∀ k l x, s.flight[k]? = some l → carried client l = some x →
    client l.datagram.dst = true → ∀ keep amb, handed client s (.deliver k keep amb) = [x]

theorem data_of_carried {l : Letter} {x : Message} (carries : carried client l = some x) :
    IsData l.datagram := by
  by_cases data : IsData l.datagram
  · exact data
  · rw [control_carries data] at carries
    cases carries

theorem paths_of_run
    (allowed : ∀ visit ∈ Run.visits (step client) (start n) es, Allowed client visit.1 visit.2) :
    Paths client (Run.final (step client) (start n) es) := by
  have sound := run_sound allowed
  generalize Run.final (step client) (start n) es = s at sound
  refine ⟨fun a now sbuf buff dst proper path member => ?_,
    fun k l x taken carries relay stored keep amb => ?_,
    fun k l x taken carries bound keep amb => ?_⟩
  · obtain ⟨mgr, packets, inquiry, plain, own, letters, carry, -⟩ := sendto_letters proper
    rw [plain] at member
    have paths : packets.map (·.datagram.dst) =
        dst :: mgr.goodrelays.map (·.relay.sockaddr) := by
      rw [own]
      simp [SimpleMpathManager.sendPacket]
    rw [MultipathManager.goodrelays, ← paths] at member
    obtain ⟨l, packet, rfl⟩ := List.mem_map.mp member
    refine ⟨l, ?_, rfl, (carry l packet).2⟩
    rw [step, Network.step, letters]
    exact List.mem_append_right _ (List.mem_append_left _ packet)
  · have own := sound.2 l (List.mem_of_getElem? taken)
    have data := data_of_carried carries
    have addressed := carries
    rw [carried_of_relay relay data, Option.some.injEq] at addressed
    subst addressed
    obtain ⟨d, relays, -, bound, -, same⟩ := relayed_carries amb.tmNow amb.junk own relay data rfl
      stored
    have whole : l.datagram.bytes.take corsMaxMsgSize = l.datagram.bytes :=
      List.take_of_length_le (own.short data)
    have letters : (handle client s.nodes amb l).2 = [⟨l.datagram.dst, d⟩] := by
      simp only [handle, relay, Bool.false_eq_true, if_false, whole, dispatch_data data, relays,
        List.map_singleton]
    refine ⟨⟨l.datagram.dst, d⟩, ?_, bound, same.trans carries⟩
    rw [step, Network.step_deliver taken, letters]
    exact List.mem_append_right _ List.mem_cons_self
  · rw [handed_deliver s taken (sound.2 l (List.mem_of_getElem? taken)), if_pos bound, carries]
    rfl

/-- The application at the far end is handed what the relay has passed on. -/
theorem paths_of_run_sample :
    let s := Run.final (step sampleClient) (start sampleParties) sampleRun
    Paths sampleClient s ∧ ∀ keep amb,
      handed sampleClient s (.deliver 2 keep amb) = [⟨here.sockaddr, there.sockaddr, [7, 8]⟩] := by
  intro s
  have paths : Paths sampleClient s := paths_of_run sample_allowed
  have flies : s.flight[2]?.bind (carried sampleClient) =
      some ⟨here.sockaddr, there.sockaddr, [7, 8]⟩ := by decide +kernel
  have arrives : (s.flight[2]?.map fun l => sampleClient l.datagram.dst) = some true := by
    decide +kernel
  obtain ⟨l, taken, carries⟩ := Option.bind_eq_some_iff.mp flies
  rw [taken, Option.map_some, Option.some.injEq] at arrives
  exact ⟨paths, paths.read 2 l _ taken carries arrives⟩

end Results

end Delivery

end Cors
