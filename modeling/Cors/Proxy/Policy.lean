import Cors.Proxy.Abatement
import Cors.Proxy.Consistency

/-! # The admission policy

A configured neighbour has to pass a test before it is entered. The other two ways into the
table, a PING from an unknown address and the list of a PONG, enter what they are given, and
no path compares the number of neighbours with `maxsize`. So the policy holds throughout a run
just in case all that arrives would have passed the test and found room.
-/

namespace Cors

namespace SimpleNbmtr

/-- The constructor's test holds of all neighbours, and there are no more of them than
    `maxsize` or than were configured. -/
structure Policy (configured : Nat) (s : SimpleNbmtr) : Prop where
  accepted : ∀ p ∈ s.nl, accepts s.ifvec (s.deref p) = true
  indexed : ∀ addr p, s.find addr = some p → accepts s.ifvec (s.deref p) = true
  room : (s.nl.length : Int) ≤ max s.maxsize.toInt configured
  indexedRoom : (s.nm.size : Int) ≤ max s.maxsize.toInt configured

/-! ## What arrives -/

/-- The elements of a neighbour list that starts at `pos`. -/
def listedFrom (now : Int32) (msg : Mem) : Nat → Nat → List Neighbor
  | 0, _ => []
  | k + 1, pos => listedAt now msg pos :: listedFrom now msg k (pos + entryLen)

/-- The elements in front of the first whose address is known, or was listed before. -/
def novel (known : UInt32 → Bool) : List Neighbor → List Neighbor
  | [] => []
  | nb :: nbs =>
      if known nb.addr then [] else nb :: novel (fun addr => addr = nb.addr || known addr) nbs

def knows (s : SimpleNbmtr) (addr : UInt32) : Bool := (s.find addr).isSome

/-- The neighbours that an event brings. -/
def arrivals (s : SimpleNbmtr) : Event → List Neighbor
  | .probe _ => []
  | .ping now _ _ peeraddr =>
      novel s.knows [.learned Neighbor.peer peeraddr.addr peeraddr.port now]
  | .pong clock msg peeraddr =>
      if s.pongFlag msg peeraddr = 0 then
        novel s.knows
          (listedFrom clock.now msg (msg.get ByteFormat.u8 nbnumPos).toNat pongHeaderLen)
      else
        []

/-- Whoever arrives would be accepted from the file, and there is room for all that do. -/
def Admits (configured : Nat) (s : SimpleNbmtr) (e : Event) : Prop :=
  ∀ nb ∈ s.arrivals e, accepts s.ifvec nb = true ∧
    (s.nl.length + (s.arrivals e).length : Int) ≤ max s.maxsize.toInt configured

/-! ## Neighbours as far as the test looks -/

def identities (s : SimpleNbmtr) : List (Int8 × UInt32 × UInt16) :=
  s.nl.map fun p => identity (s.deref p)

def passes (ifvec : List NetInterface) (part : Int8 × UInt32 × UInt16) : Bool :=
  accepts ifvec (.learned part.1 part.2.1 part.2.2 0)

theorem accepts_eq (ifvec : List NetInterface) (nb : Neighbor) :
    accepts ifvec nb = passes ifvec (identity nb) := rfl

theorem identities_length (s : SimpleNbmtr) : s.identities.length = s.nl.length :=
  List.length_map _

theorem policy_iff {s : SimpleNbmtr} (linked : Linked s) (configured : Nat) :
    Policy configured s ↔ (∀ part ∈ s.identities, passes s.ifvec part = true) ∧
      (s.identities.length : Int) ≤ max s.maxsize.toInt configured := by
  rw [identities_length, identities, List.forall_mem_map]
  constructor
  · intro policy
    exact ⟨policy.accepted, policy.room⟩
  · intro both
    obtain ⟨accepted, room⟩ := both
    refine ⟨accepted, fun addr p found => ?_, room, ?_⟩
    · exact accepted p (linked.indexed addr p found).1
    · exact Int.le_trans (Int.ofNat_le.mpr linked.bound) room

/-- The same neighbours, behind those that arrived. -/
structure Enters (s s' : SimpleNbmtr) (arrived : List Neighbor) : Prop where
  settings : SameSettings s s'
  identities : s'.identities = (arrived.map identity).reverse ++ s.identities

theorem policy_enters {s s' : SimpleNbmtr} {arrived : List Neighbor} (linked : Linked s)
    (linked' : Linked s') (enters : Enters s s' arrived) {configured : Nat}
    (policy : Policy configured s) :
    Policy configured s' ↔ ∀ nb ∈ arrived, accepts s.ifvec nb = true ∧
      (s.nl.length + arrived.length : Int) ≤ max s.maxsize.toInt configured := by
  obtain ⟨accepted, room⟩ := (policy_iff linked configured).mp policy
  rw [policy_iff linked', enters.identities, enters.settings.ifvec, enters.settings.maxsize,
    List.length_append, List.length_reverse, List.length_map]
  rw [identities_length] at room ⊢
  constructor
  · intro both nb arrives
    constructor
    · rw [accepts_eq]
      refine both.1 (identity nb) (List.mem_append_left _ ?_)
      exact List.mem_reverse.mpr (List.mem_map_of_mem arrives)
    · have bound := both.2
      push_cast at bound
      omega
  · intro admitted
    constructor
    · intro part member
      cases List.mem_append.mp member with
      | inl new =>
          obtain ⟨nb, arrives, rfl⟩ := List.mem_map.mp (List.mem_reverse.mp new)
          rw [← accepts_eq]
          exact (admitted nb arrives).1
      | inr old => exact accepted part old
    · cases arrived with
      | nil => simpa using room
      | cons nb arrived =>
          have bound := (admitted nb List.mem_cons_self).2
          push_cast at bound ⊢
          omega

/-! ## What each event enters -/

theorem pushFront_identities {s : SimpleNbmtr} (allocated : Allocated s) (nb : Neighbor) :
    (s.pushFront nb).identities = identity nb :: s.identities := by
  have own : (s.pushFront nb).deref s.table.fresh = nb := Registry.enter_heap_self _ _ _
  have order : (s.pushFront nb).nl = s.table.fresh :: s.nl := rfl
  rw [identities, order, List.map_cons, own]
  congr 1
  apply List.map_congr_left
  intro p member
  exact congrArg identity (Registry.enter_heap_ne _ _ _ (Nat.ne_of_lt (allocated p member)))

theorem modify_identities (s : SimpleNbmtr) (p : Nat) (clock : Clock) (msg : Mem) :
    (s.modify p (updated clock msg)).identities = s.identities := by
  apply List.map_congr_left
  intro q _
  exact Registry.modify_spares s.table p (f := updated clock msg) (fun _ => rfl) q

theorem pushFront_knows (s : SimpleNbmtr) (nb : Neighbor) :
    (s.pushFront nb).knows = fun addr => addr = nb.addr || s.knows addr := by
  funext addr
  by_cases own : addr = nb.addr
  · have found : (s.pushFront nb).find nb.addr = some s.table.fresh :=
      Registry.enter_lookup_self s.table nb _
    simp [knows, own, found]
  · have found : (s.pushFront nb).find addr = s.find addr :=
      Registry.enter_lookup_ne s.table nb _ own
    simp [knows, own, found]

/-- The loop enters the listed neighbours up to the first that is known, where it stays. -/
theorem learnListed_enters {s : SimpleNbmtr} (allocated : Allocated s) (now : Int32) (msg : Mem)
    (k pos : Nat) :
    Enters s (learnListed now msg k pos s) (novel s.knows (listedFrom now msg k pos)) := by
  induction k generalizing pos s with
  | zero => exact ⟨⟨rfl, rfl, rfl⟩, rfl⟩
  | succ k ih =>
      cases found : s.find (msg.get ByteFormat.u32 (pos + 1)) with
      | some p =>
          have known : s.knows (listedAt now msg pos).addr = true := by
            change (s.find (msg.get ByteFormat.u32 (pos + 1))).isSome = true
            rw [found, Option.isSome_some]
          rw [learnListed_stuck now msg (k + 1) found, listedFrom, novel, if_pos known]
          exact ⟨⟨rfl, rfl, rfl⟩, rfl⟩
      | none =>
          have unknown : ¬s.knows (listedAt now msg pos).addr = true := by
            change ¬(s.find (msg.get ByteFormat.u32 (pos + 1))).isSome = true
            rw [found, Option.isSome_none]
            exact Bool.false_ne_true
          have entered := ih (pushFront_allocated allocated (listedAt now msg pos)) (pos + entryLen)
          obtain ⟨settings, identities⟩ := entered
          rw [pushFront_knows, pushFront_identities allocated] at identities
          rw [listedFrom, novel, if_neg unknown]
          constructor
          · simp only [learnListed, found]
            exact ⟨settings.maxsize, settings.abateInterval, settings.ifvec⟩
          · simp only [learnListed, found]
            rw [identities, List.map_cons, List.reverse_cons, List.append_assoc,
              List.singleton_append]

theorem learnPeer_enters {s : SimpleNbmtr} (allocated : Allocated s) (now : Int32)
    (peeraddr : SockaddrIn) :
    Enters s (s.learnPeer now peeraddr)
      (novel s.knows [.learned Neighbor.peer peeraddr.addr peeraddr.port now]) := by
  cases found : s.find peeraddr.addr with
  | some p =>
      have known : s.knows peeraddr.addr = true := by rw [knows, found, Option.isSome_some]
      simp only [learnPeer, found, novel, Neighbor.learned, Neighbor.new, known, if_true]
      exact ⟨⟨rfl, rfl, rfl⟩, rfl⟩
  | none =>
      have unknown : s.knows peeraddr.addr = false := by rw [knows, found, Option.isSome_none]
      simp only [learnPeer, found, novel, Neighbor.learned, Neighbor.new, unknown,
        Bool.false_eq_true, if_false]
      exact ⟨⟨rfl, rfl, rfl⟩, pushFront_identities allocated _⟩

theorem processProbePong_enters {s : SimpleNbmtr} (allocated : Allocated s) (clock : Clock)
    (msg : Mem) (peeraddr : SockaddrIn) :
    Enters s (s.processProbePong clock msg peeraddr) (s.arrivals (.pong clock msg peeraddr)) := by
  by_cases expected : s.pongFlag msg peeraddr = 0
  · obtain ⟨x, -, taken⟩ := processProbePong_eq expected clock
    obtain ⟨settings, identities⟩ := learnListed_enters (s := s.modify x (updated clock msg))
      allocated clock.now msg (msg.get ByteFormat.u8 nbnumPos).toNat pongHeaderLen
    rw [← taken] at settings identities
    rw [modify_identities] at identities
    rw [arrivals, if_pos expected]
    exact ⟨⟨settings.maxsize, settings.abateInterval, settings.ifvec⟩, identities⟩
  · rw [processProbePong_refused expected, arrivals, if_neg expected]
    exact ⟨⟨rfl, rfl, rfl⟩, rfl⟩

/-! ## What a probe leaves -/

theorem abate_length_le {t t' : SimpleNbmtr} {back : Nat} {now : Int32}
    (abated : t.abate back now = some t') : t'.nl.length ≤ t.nl.length := by
  obtain rfl | ⟨last, q, -, -, rfl⟩ := abate_inversion abated
  · exact Nat.le_refl _
  · exact (List.dropLast_sublist _).length_le

theorem rotate_length (s : SimpleNbmtr) : s.rotate.nl.length = s.nl.length := by
  have moved : s.rotate.nl = s.nl.tail ++ s.nl.head?.toList := rfl
  rw [moved]
  cases s.nl with
  | nil => rfl
  | cons head tail => exact List.length_append

theorem probe_policy {s s' : SimpleNbmtr} (linked : Linked s) {clock : Clock}
    {sent : List Datagram} (run : s.probe clock = some (s', sent)) {configured : Nat}
    (policy : Policy configured s) : Policy configured s' := by
  obtain ⟨head, back, tail, t, t', -, -, -, order, -, abated, rfl, stamps⟩ := probe_inversion run
  have subset := (probe_shrunk run).subset
  have shorter : t'.rotate.nl.length ≤ s.nl.length := by
    rw [rotate_length, ← order]
    exact abate_length_le abated
  have linked' := probe_linked linked run
  rw [policy_iff linked', identities_length, stamps.settings.ifvec, stamps.settings.maxsize,
    identities, List.forall_mem_map]
  constructor
  · intro p member
    rw [stamps.same]
    exact policy.accepted p (subset member)
  · exact Int.le_trans (Int.ofNat_le.mpr shorter) policy.room

/-! ## Runs -/

theorem step_policy {s s' : SimpleNbmtr} {e : Event} (linked : Linked s) {configured : Nat}
    (policy : Policy configured s) (stepped : s.step e = some s') :
    Policy configured s' ↔ Admits configured s e := by
  have linked' := step_linked linked stepped
  cases e with
  | probe clock =>
      obtain ⟨outcome, run, rfl⟩ := Option.map_eq_some_iff.mp stepped
      refine iff_of_true (probe_policy linked run policy) ?_
      intro nb arrives
      cases arrives
  | ping now msg len peeraddr =>
      obtain ⟨-, rfl⟩ := step_ping stepped
      have enters := learnPeer_enters linked.allocated now peeraddr
      exact policy_enters linked linked' ⟨⟨enters.settings.maxsize, enters.settings.abateInterval,
        enters.settings.ifvec⟩, enters.identities⟩ policy
  | pong clock msg peeraddr =>
      obtain rfl := Option.some.inj stepped
      exact policy_enters linked linked'
        (processProbePong_enters linked.allocated clock msg peeraddr) policy

theorem load_policy {param : Param} {ifvec : List NetInterface} {lines : List Neighbor} {junk : Mem}
    {s : SimpleNbmtr} (loaded : load param ifvec lines junk = some s) :
    Policy s.nl.length s := by
  have linked := load_linked loaded
  have neighbors := (load_cases loaded).1
  have interfaces : s.ifvec = ifvec := by
    unfold load at loaded
    dsimp only at loaded
    split at loaded
    · cases loaded
    · obtain rfl := Option.some.inj loaded
      rfl
  rw [policy_iff linked, identities_length, identities, List.forall_mem_map]
  refine ⟨fun p member => ?_, le_max_right _ _⟩
  have entered : s.deref p ∈ lines.filter (accepts ifvec) := by
    rw [← neighbors]
    exact List.mem_map_of_mem member
  rw [← accepts_eq, interfaces]
  exact (List.mem_filter.mp entered).2

/-- The policy holds in all states of a run just in case every event that the run gets through
    admits only neighbours that the file could have had, and for which there is room. -/
theorem policy_always_iff {param : Param} {ifvec : List NetInterface} {lines : List Neighbor}
    {junk : Mem} {loaded : SimpleNbmtr} (load_eq : load param ifvec lines junk = some loaded)
    (es : List Event) :
    Run.Always step (Policy loaded.nl.length) loaded es ↔
      ∀ visit ∈ Run.tries step loaded es,
        Fits visit.1 visit.2 → Admits loaded.nl.length visit.1 visit.2 := by
  apply Run.always_iff (I := Linked) (C := fun s e => Fits s e → Admits loaded.nl.length s e)
    (load_linked load_eq) (load_policy load_eq)
  · exact fun s e s' linked stepped => step_linked linked stepped
  · intro s e s' linked policy stepped
    rw [step_policy linked policy stepped]
    exact (imp_iff_right (step_fits linked.allocated stepped)).symm
  · intro s e linked stuck fits
    cases e with
    | probe clock =>
        intro nb arrives
        cases arrives
    | ping now msg len peeraddr =>
        obtain ⟨s', stepped⟩ := (step_ping_iff linked.allocated).mpr fits
        cases stuck.symm.trans stepped
    | pong clock msg peeraddr => cases stuck

/-- An eviction, and two arrivals of unknown public addresses while the table is small. -/
theorem policy_mixed :
    Run.Always step (Policy loadedMixed.nl.length) loadedMixed mixedEvents := by
  have admits : ∀ visit ∈ Run.tries step loadedMixed mixedEvents,
      Admits loadedMixed.nl.length visit.1 visit.2 := by
    unfold Admits
    decide +kernel
  exact (policy_always_iff load_mixed _).mpr fun visit tried _ => admits visit tried

/-- A PING from a private address enters it. -/
theorem private_peer_enters :
    ¬ ∀ param ifvec lines junk loaded es, load param ifvec lines junk = some loaded →
      Run.Always step (Policy loaded.nl.length) loaded es := by
  intro always
  let ping : Event := .ping 0 (fun _ => 0) 15 ⟨80, dotted 10 0 0 1⟩
  have policy := always _ _ _ _ _ [ping] load_single [ping] [] _ rfl rfl
  have entered := policy.accepted 1 (by decide)
  exact absurd entered (by decide)

end SimpleNbmtr

end Cors
