import Cors.Proxy.PongBuffer

/-! # Runs of the neighbour table

What the handlers keep of the table is kept by a run as long as the run is one of the table
alone. A PING that makes the proxy write past `buff` ends that: the interfaces stand there, and
the next PING looks for its own among what is left of them. The condition that a PONG fits is
therefore the condition that a run gets through.
-/

namespace Cors

open ByteFormat

namespace SimpleNbmtr

/-- A PING is no longer than `buff`, and wants no more neighbours than there is room for, or
    there are no more of them. -/
def Fits (s : SimpleNbmtr) : Event → Prop
  | .probe _ => True
  | .ping _ msg len peeraddr =>
      len ≤ corsMaxMsgSize ∧
        ((s.requested msg len).toNat ≤ pongRoom ∨ (s.others peeraddr).length ≤ pongRoom)
  | .pong _ _ _ => True

instance (s : SimpleNbmtr) (e : Event) : Decidable (s.Fits e) :=
  match e with
  | .probe _ => inferInstanceAs (Decidable True)
  | .ping _ _ _ _ => inferInstanceAs (Decidable (_ ∧ _))
  | .pong _ _ _ => inferInstanceAs (Decidable True)

/-- The table is consistent and not empty, whatever follows leaves its oracles in it, and the
    next probe rotates it. -/
structure Intact (s : SimpleNbmtr) : Prop where
  objects : s.SameObjects
  nonempty : s.nl ≠ []
  oracles : ∀ es s', Run.attempt step s es = some s' → OraclesKept s s'
  rotates : ∀ clock, ∃ s' sent, s.probe clock = some (s', sent) ∧ Rotated s s'

theorem Sound.intact {s : SimpleNbmtr} (sound : s.Sound) : s.Intact where
  objects := sound.sameObjects
  nonempty := sound.nonempty
  oracles := fun _ _ ran => attempt_kept sound ran
  rotates := by
    intro clock
    obtain ⟨s', sent, run, -, -, rotated⟩ := probe_sound sound clock
    exact ⟨s', sent, run, rotated⟩

theorem step_ping_iff {s : SimpleNbmtr} (allocated : Allocated s) {now : Int32} {msg : Mem}
    {len : Nat} {peeraddr : SockaddrIn} :
    (∃ s', s.step (.ping now msg len peeraddr) = some s') ↔
      s.Fits (.ping now msg len peeraddr) := by
  have inside : s.finalPos now msg len peeraddr ≤ corsMaxMsgSize ↔
      (s.requested msg len).toNat ≤ pongRoom ∨ (s.others peeraddr).length ≤ pongRoom := by
    rw [finalPos_eq allocated, fits_iff]
    exact min_le_iff
  rw [Fits, ← inside, ← max_le_iff]
  constructor
  · intro gets
    obtain ⟨s', stepped⟩ := gets
    exact (step_ping stepped).1
  · intro small
    exact ⟨_, if_pos small⟩

theorem step_fits {s s' : SimpleNbmtr} (allocated : Allocated s) {e : Event}
    (stepped : s.step e = some s') : s.Fits e := by
  cases e with
  | probe clock => trivial
  | ping now msg len peeraddr => exact (step_ping_iff allocated).mp ⟨s', stepped⟩
  | pong clock msg peeraddr => trivial

/-- Of the steps of a sound table only a PING gets stuck. -/
theorem step_iff {s : SimpleNbmtr} (sound : s.Sound) (e : Event) :
    (∃ s', s.step e = some s') ↔ s.Fits e := by
  cases e with
  | probe clock =>
      obtain ⟨s', sent, run, -⟩ := probe_sound sound clock
      exact iff_of_true ⟨s', by rw [step, run]; rfl⟩ trivial
  | ping now msg len peeraddr => exact step_ping_iff sound.consistent.allocated
  | pong clock msg peeraddr => exact iff_of_true ⟨_, rfl⟩ trivial

/-- From a loaded table a run gets through, and leaves the table intact, just in case every
    PING of it fits in the state in which it arrives. -/
theorem intact_iff {param : Param} {ifvec : List NetInterface} {lines : List Neighbor} {junk : Mem}
    {loaded : SimpleNbmtr} (load_eq : load param ifvec lines junk = some loaded)
    (distinct : ((lines.filter (accepts ifvec)).map Neighbor.addr).Nodup) (es : List Event) :
    (∃ s, Run.attempt step loaded es = some s ∧ s.Intact) ↔
      ∀ visit ∈ Run.tries step loaded es, Fits visit.1 visit.2 := by
  have sound := load_sound load_eq distinct
  have keep (s : SimpleNbmtr) (e : Event) (s' : SimpleNbmtr) (before : s.Sound)
      (stepped : s.step e = some s') : s'.Sound := (step_sound before stepped).1
  rw [← Run.attempt_iff keep (fun _ e before => step_iff before e) sound]
  constructor
  · intro both
    obtain ⟨s, ran, -⟩ := both
    exact ⟨s, ran⟩
  · intro gets
    obtain ⟨s, ran⟩ := gets
    exact ⟨s, ran, (attempt_sound sound ran).intact⟩

/-- The lines of an oracle and of a peer. -/
def mixedLines : List Neighbor :=
  [.learned Neighbor.oracle (dotted 8 8 8 8) 80 0, .learned Neighbor.peer (dotted 8 8 4 4) 80 0]

def loadedMixed : SimpleNbmtr := { loadedSingle with table := loadTable [] mixedLines }

theorem load_mixed : load defaults [] mixedLines (fun _ => 0) = some loadedMixed := rfl

/-- A probe that evicts the peer, a PING and a PONG that each bring a neighbour, and a probe
    that would evict the oracle. -/
def mixedEvents : List Event :=
  [.probe ⟨⟨5000, 0⟩, 5000⟩, .ping 5001 greedyPing pingHeaderLen ⟨80, dotted 9 9 9 9⟩,
    .pong ⟨⟨5002, 0⟩, 5002⟩
      (samplePong 1 (dotted 8 8 8 8) [.learned Neighbor.peer (dotted 7 7 7 7) 80 0])
      ⟨80, dotted 8 8 8 8⟩,
    .probe ⟨⟨7000, 0⟩, 7000⟩]

theorem mixed_intact : ∃ s, Run.attempt step loadedMixed mixedEvents = some s ∧ s.Intact :=
  (intact_iff load_mixed (by decide) mixedEvents).mpr (by decide +kernel)

/-- With two hundred neighbours the PONG overwrites all that stands behind `buff`. -/
theorem crowd_lost :
    ¬ ∀ param ifvec lines junk loaded es, load param ifvec lines junk = some loaded →
      ((lines.filter (accepts ifvec)).map Neighbor.addr).Nodup →
        ∃ s, Run.attempt step loaded es = some s ∧ s.Intact := by
  intro always
  have accepted : (crowd 200).filter (accepts []) = crowd 200 := by decide +kernel
  have distinct : ((crowd 200).map Neighbor.addr).Nodup := by decide +kernel
  obtain ⟨loaded, load_eq, neighbors, allocated⟩ := load_crowd accepted (by decide)
  let ping : Event := .ping 0 greedyPing pingHeaderLen ⟨1, 1⟩
  obtain ⟨s, ran, -⟩ := always _ _ _ _ _ [ping] load_eq (by rwa [accepted])
  obtain ⟨next, stepped, -⟩ := Option.bind_eq_some_iff.mp ran
  have inside := (max_le_iff.mp (step_ping stepped).1).2
  rw [crowd_finalPos neighbors allocated 0 (by decide +kernel), fits_iff] at inside
  exact absurd inside (by decide)

end SimpleNbmtr

end Cors
