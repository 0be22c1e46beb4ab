import Cors.Proxy.PongBuffer

/-! # Abating silent neighbours

A probe removes the neighbour at the back of the list when its timestamp is old. The timestamp
is written when the neighbour is learned or answers, but also when it is sent a PING, and the
neighbour at the back is the one that was sent a PING last. So its silence goes unnoticed
unless the probes themselves are as far apart as a neighbour may be silent.
-/

namespace Cors

namespace SimpleNbmtr

/-! ## What a probe changes -/

/-- What is told apart when neighbours are admitted. -/
def identity (nb : Neighbor) : Int8 × UInt32 × UInt16 := (nb.type, nb.addr, nb.port)

/-- The objects after the PINGs of a probe: the one in front has a new timestamp. -/
structure Stamps (s t : SimpleNbmtr) (head : Nat) (now : Int32) : Prop where
  settings : SameSettings s t
  fresh : t.table.fresh = s.table.fresh
  same : ∀ p, identity (t.deref p) = identity (s.deref p)
  front : (t.deref head).ts = now
  others : ∀ p ≠ head, (t.deref p).ts = (s.deref p).ts

theorem probe_stamps {s : SimpleNbmtr} {head : Nat} {tail : List Nat} (split : s.nl = head :: tail)
    (clock : Clock) :
    ∃ (t : SimpleNbmtr) (sent : List Datagram) (back : Nat), s.nl.getLast? = some back ∧
      s.probe clock = (t.abate back clock.now).map (fun t' => (t'.rotate, sent)) ∧
      t.nm = s.nm ∧ t.nl = s.nl ∧ Stamps s t head clock.now := by
  obtain ⟨t, sent, back, last, settings, run, effect⟩ := probe_cases split clock
  obtain ⟨base, order, index, fresh, spared, unstamped, table⟩ :
      ∃ base : Registry UInt32 Neighbor, base.order = s.nl ∧ base.index = s.nm ∧
        base.fresh = s.table.fresh ∧ (∀ p, identity (base.heap p) = identity (s.deref p)) ∧
          (∀ p, (base.heap p).ts = (s.deref p).ts) ∧
            t.table = base.modify head (probed clock.now) := by
    obtain ⟨_, -, -, table⟩ | ⟨-, _, _, -, -, -, table⟩ := effect
    · exact ⟨s.table, rfl, rfl, rfl, fun _ => rfl, fun _ => rfl, table⟩
    · refine ⟨s.table.modify back pinged, rfl, rfl, rfl, fun p => ?_, fun p => ?_, table⟩
      · exact Registry.modify_spares s.table back (f := pinged) (fun _ => rfl) p
      · exact Registry.modify_spares s.table back (f := pinged) (fun _ => rfl) p
  refine ⟨t, sent, back, last, run, ?_, ?_, settings, ?_, fun p => ?_, ?_, fun p other => ?_⟩
  · rw [nm, table]
    exact index
  · rw [nl, table]
    exact order
  · rw [table]
    exact fresh
  · rw [deref, table, ← spared p]
    exact Registry.modify_spares base head (f := probed clock.now) (fun _ => rfl) p
  · rw [deref, table, Registry.modify_heap_self]
    rfl
  · rw [deref, table, Registry.modify_heap_ne _ _ other, unstamped]

theorem abate_stamps {s t t' : SimpleNbmtr} {head back : Nat} {now : Int32}
    (stamps : Stamps s t head now) (abated : t.abate back now = some t') :
    Stamps s t' head now := by
  obtain rfl | ⟨last, q, -, -, rfl⟩ := abate_inversion abated
  · exact stamps
  · obtain ⟨settings, fresh, same, front, others⟩ := stamps
    exact ⟨⟨settings.maxsize, settings.abateInterval, settings.ifvec⟩, fresh, same, front, others⟩

theorem probe_inversion {s s' : SimpleNbmtr} {clock : Clock} {sent : List Datagram}
    (run : s.probe clock = some (s', sent)) :
    ∃ (head back : Nat) (tail : List Nat) (t t' : SimpleNbmtr), s.nl = head :: tail ∧
      s.nl.getLast? = some back ∧ t.nm = s.nm ∧ t.nl = s.nl ∧ Stamps s t head clock.now ∧
      t.abate back clock.now = some t' ∧ s' = t'.rotate ∧ Stamps s s' head clock.now := by
  cases split : s.nl with
  | nil =>
      have stuck : s.probe clock = none := by simp [probe, split]
      rw [stuck] at run
      cases run
  | cons head tail =>
      obtain ⟨t, sent', back, last, probed_eq, index, order, stamps⟩ := probe_stamps split clock
      rw [probed_eq] at run
      obtain ⟨t', abated, result⟩ := Option.map_eq_some_iff.mp run
      obtain ⟨rfl, -⟩ := Prod.mk.inj result
      obtain ⟨settings, fresh, same, front, others⟩ := abate_stamps stamps abated
      refine ⟨head, back, tail, t, t', rfl, split ▸ last, index, split ▸ order, stamps,
        abated, rfl, ?_, fresh, same, front, others⟩
      exact ⟨settings.maxsize, settings.abateInterval, settings.ifvec⟩

/-! ## The two containers -/

/-- What holds of the table even if addresses were configured twice. -/
structure Linked (s : SimpleNbmtr) : Prop where
  once : s.nl.Nodup
  allocated : Allocated s
  indexed : s.table.Indexed Neighbor.addr
  bound : s.nm.size ≤ s.nl.length

theorem pushFront_linked {s : SimpleNbmtr} (linked : Linked s) {nb : Neighbor}
    (novel : s.find nb.addr = none) : Linked (s.pushFront nb) where
  once := by
    apply List.nodup_cons.mpr
    exact ⟨fun member => Nat.lt_irrefl _ (linked.allocated _ member), linked.once⟩
  allocated := pushFront_allocated linked.allocated nb
  indexed := Registry.Indexed.enter linked.indexed linked.allocated nb fun _ member => member
  bound := by
    have size : (s.pushFront nb).nm.size = s.nm.size + 1 := Table.size_insert_of_none _ novel
    have length : (s.pushFront nb).nl.length = s.nl.length + 1 := rfl
    rw [size, length]
    exact Nat.succ_le_succ linked.bound

theorem learnPeer_linked {s : SimpleNbmtr} (linked : Linked s) (now : Int32)
    (peeraddr : SockaddrIn) : Linked (s.learnPeer now peeraddr) := by
  unfold learnPeer
  split
  · exact linked
  · rename_i novel
    exact pushFront_linked linked novel

theorem learnListed_linked {s : SimpleNbmtr} (linked : Linked s) (now : Int32) (msg : Mem)
    (k pos : Nat) : Linked (learnListed now msg k pos s) := by
  induction k generalizing pos s with
  | zero => exact linked
  | succ k ih =>
      unfold learnListed
      split
      · exact ih linked pos
      · rename_i novel
        exact ih (pushFront_linked linked novel) (pos + entryLen)

theorem processProbePong_linked {s : SimpleNbmtr} (linked : Linked s) (clock : Clock) (msg : Mem)
    (peeraddr : SockaddrIn) : Linked (s.processProbePong clock msg peeraddr) := by
  unfold processProbePong
  split
  · exact linked
  · split
    · exact linked
    · rename_i p _
      have indexed : (s.modify p (updated clock msg)).table.Indexed Neighbor.addr :=
        Registry.Indexed.modify linked.indexed p (updated_addr clock msg)
      have modified : Linked (s.modify p (updated clock msg)) :=
        ⟨linked.once, linked.allocated, indexed, linked.bound⟩
      exact learnListed_linked modified _ _ _ _

theorem abate_linked {t t' : SimpleNbmtr} (linked : Linked t) {back : Nat} {now : Int32}
    (abated : t.abate back now = some t') : Linked t' := by
  have allocated := (abate_shrunk abated).allocated linked.allocated
  obtain rfl | ⟨last, q, stored, evicted, rfl⟩ := abate_inversion abated
  · exact linked
  · have indexed := Registry.Indexed.of_evict linked.indexed evicted
    refine ⟨linked.once.sublist (List.dropLast_sublist _), allocated, indexed, ?_⟩
    have size := Table.size_of_lookup stored
    have bound := linked.bound
    change Table.size (t.nm.erase (t.deref last).addr) ≤ t.nl.dropLast.length
    rw [List.length_dropLast]
    exact Nat.le_sub_one_of_lt (Nat.lt_of_lt_of_le (size ▸ Nat.lt_succ_self _) bound)

theorem rotate_linked {s : SimpleNbmtr} (linked : Linked s) : Linked s.rotate := by
  have moved : s.rotate.nl = s.nl.tail ++ s.nl.head?.toList := rfl
  have shuffled : s.rotate.nl.Perm s.nl := by
    rw [moved]
    cases s.nl with
    | nil => exact .nil
    | cons head tail => exact List.perm_append_singleton head tail
  refine ⟨shuffled.nodup_iff.mpr linked.once, ?_, fun k p found => ?_, ?_⟩
  · exact s.rotate_shrunk.allocated linked.allocated
  · obtain ⟨member, same⟩ := linked.indexed k p found
    exact ⟨shuffled.mem_iff.mpr member, same⟩
  · rw [shuffled.length_eq]
    exact linked.bound

theorem probe_linked {s s' : SimpleNbmtr} (linked : Linked s) {clock : Clock}
    {sent : List Datagram} (run : s.probe clock = some (s', sent)) : Linked s' := by
  obtain ⟨head, back, tail, t, t', -, -, index, order, stamps, abated, rfl, -⟩ :=
    probe_inversion run
  refine rotate_linked (abate_linked ⟨?_, ?_, fun k p found => ?_, ?_⟩ abated)
  · rw [order]
    exact linked.once
  · rw [Allocated, order, stamps.fresh]
    exact linked.allocated
  · have found' : s.nm.lookup k = some p := by rw [← index]; exact found
    obtain ⟨member, keyed⟩ := linked.indexed k p found'
    have same : (t.deref p).addr = (s.deref p).addr :=
      congrArg (fun part => part.2.1) (stamps.same p)
    have member' : p ∈ t.nl := by rw [order]; exact member
    exact ⟨member', same.trans keyed⟩
  · rw [index, order]
    exact linked.bound

theorem step_linked {s s' : SimpleNbmtr} {e : Event} (linked : Linked s)
    (stepped : s.step e = some s') : Linked s' := by
  cases e with
  | probe clock =>
      obtain ⟨outcome, run, rfl⟩ := Option.map_eq_some_iff.mp stepped
      exact probe_linked linked run
  | ping now msg len peeraddr =>
      obtain ⟨-, rfl⟩ := step_ping stepped
      have learned := learnPeer_linked linked now peeraddr
      exact ⟨learned.once, learned.allocated, learned.indexed, learned.bound⟩
  | pong clock msg peeraddr =>
      obtain rfl := Option.some.inj stepped
      exact processProbePong_linked linked clock msg peeraddr

theorem loadTable_linked (ifvec : List NetInterface) (lines : List Neighbor) :
    (loadTable ifvec lines).order.Nodup ∧ (loadTable ifvec lines).Indexed Neighbor.addr ∧
      (loadTable ifvec lines).index.size ≤ (loadTable ifvec lines).order.length := by
  induction lines using List.reverseRecOn with
  | nil =>
      refine ⟨List.nodup_nil, fun k p found => ?_, Nat.le_refl 0⟩
      cases found
  | append_singleton lines nb ih =>
      obtain ⟨once, indexed, bound⟩ := ih
      have below := (loadTable_neighbors ifvec lines).2
      rw [loadTable_concat]
      split
      · refine ⟨?_, ?_, ?_⟩
        · have apart : (loadTable ifvec lines).fresh ∉ (loadTable ifvec lines).order :=
            fun member => Nat.lt_irrefl _ (below _ member)
          exact List.nodup_append.mpr ⟨once, List.nodup_singleton _, fun p member q own same =>
            apart (List.mem_singleton.mp own ▸ same ▸ member)⟩
        · refine Registry.Indexed.enter indexed below nb fun p member => ?_
          rw [List.mem_append, List.mem_singleton]
          exact (List.mem_cons.mp member).symm
        · have longer : ((loadTable ifvec lines).pushBack Neighbor.addr nb).order.length =
              (loadTable ifvec lines).order.length + 1 := List.length_append
          rw [longer]
          exact Nat.le_trans (Table.size_insert_le _ _ _) (Nat.succ_le_succ bound)
      · exact ⟨once, indexed, bound⟩

theorem load_linked {param : Param} {ifvec : List NetInterface} {lines : List Neighbor} {junk : Mem}
    {s : SimpleNbmtr} (loaded : load param ifvec lines junk = some s) : Linked s := by
  have allocated := (load_cases loaded).2
  unfold load at loaded
  dsimp only at loaded
  split at loaded
  · cases loaded
  · obtain rfl := Option.some.inj loaded
    obtain ⟨once, indexed, bound⟩ := loadTable_linked ifvec lines
    exact ⟨once, allocated, indexed, bound⟩

/-! ## When neighbours are heard -/

/-- When an event says that a neighbour is heard: it is new, or its PONG is accepted. -/
def hears (s : SimpleNbmtr) : Event → Nat → Option Int32
  | .probe _, _ => none
  | .ping now _ _ _, p => if s.table.fresh ≤ p then some now else none
  | .pong clock msg peeraddr, p =>
      if s.table.fresh ≤ p ∨ s.pongFlag msg peeraddr = 0 ∧ s.find peeraddr.addr = some p then
        some clock.now
      else
        none

/-- When an event writes the timestamp of a neighbour that it does not hear. -/
def writes (s : SimpleNbmtr) : Event → Nat → Option Int32
  | .probe clock, p => if s.nl.head? = some p then some clock.now else none
  | .ping _ _ _ _, _ => none
  | .pong _ _ _, _ => none

/-- The maintainer with, for every neighbour, the time it was heard last, and the time that
    was written to its timestamp since then, if one was. -/
structure Monitored where
  proxy : SimpleNbmtr
  heard : Nat → Int32
  written : Nat → Option Int32

namespace Monitored

/-- Configured neighbours count as heard at given times, and have the timestamps that were
    read from the file. -/
def start (proxy : SimpleNbmtr) (learned : Nat → Int32) : Monitored where
  proxy := proxy
  heard := learned
  written := fun p => some (proxy.deref p).ts

def step (m : Monitored) (e : Event) : Option Monitored :=
  (m.proxy.step e).map fun proxy =>
    { proxy
      heard := fun p => (m.proxy.hears e p).getD (m.heard p)
      written := fun p =>
        if (m.proxy.hears e p).isSome then none else (m.proxy.writes e p).or (m.written p) }

/-- The timestamps are the ones that were written last. -/
def Faithful (m : Monitored) : Prop :=
  ∀ p < m.proxy.table.fresh, (m.proxy.deref p).ts = (m.written p).getD (m.heard p)

end Monitored

/-! ## Timestamps -/

/-- New objects have the time they are learned at, and older ones are left alone. -/
structure Learns (s s' : SimpleNbmtr) (now : Int32) : Prop where
  grown : s.table.fresh ≤ s'.table.fresh
  old : ∀ p < s.table.fresh, s'.deref p = s.deref p
  new : ∀ p, s.table.fresh ≤ p → p < s'.table.fresh → (s'.deref p).ts = now

theorem Learns.refl (s : SimpleNbmtr) (now : Int32) : Learns s s now where
  grown := Nat.le_refl _
  old := fun _ _ => rfl
  new := fun _ above below => absurd above (Nat.not_le_of_lt below)

theorem pushFront_learns (s : SimpleNbmtr) {nb : Neighbor} {now : Int32} (stamped : nb.ts = now) :
    Learns s (s.pushFront nb) now where
  grown := Nat.le_succ _
  old := fun p below => Registry.enter_heap_ne _ _ _ (Nat.ne_of_lt below)
  new := by
    intro p above below
    obtain rfl := Nat.le_antisymm above (Nat.le_of_lt_succ below)
    have own : (s.pushFront nb).deref s.table.fresh = nb := Registry.enter_heap_self _ _ _
    rw [own, stamped]

theorem Learns.trans {s t u : SimpleNbmtr} {now : Int32} (first : Learns s t now)
    (second : Learns t u now) : Learns s u now where
  grown := Nat.le_trans first.grown second.grown
  old := fun p below => by
    rw [second.old p (Nat.lt_of_lt_of_le below first.grown), first.old p below]
  new := by
    intro p above below
    by_cases older : p < t.table.fresh
    · rw [second.old p older]
      exact first.new p above older
    · exact second.new p (Nat.le_of_not_lt older) below

theorem learnPeer_learns (s : SimpleNbmtr) (now : Int32) (peeraddr : SockaddrIn) :
    Learns s (s.learnPeer now peeraddr) now := by
  unfold learnPeer
  split
  · exact .refl s now
  · exact pushFront_learns s rfl

theorem learnListed_learns (s : SimpleNbmtr) (now : Int32) (msg : Mem) (k pos : Nat) :
    Learns s (learnListed now msg k pos s) now := by
  induction k generalizing pos s with
  | zero => exact .refl s now
  | succ k ih =>
      unfold learnListed
      split
      · exact ih s pos
      · have first : Learns s (s.pushFront (listedAt now msg pos)) now := pushFront_learns s rfl
        exact first.trans (ih _ _)

theorem probe_faithful {m m' : Monitored} (faithful : m.Faithful) {clock : Clock}
    (stepped : m.step (.probe clock) = some m') : m'.Faithful := by
  obtain ⟨proxy, moved, rfl⟩ := Option.map_eq_some_iff.mp stepped
  obtain ⟨outcome, run, rfl⟩ := Option.map_eq_some_iff.mp moved
  obtain ⟨head, back, tail, t, t', split, -, -, -, -, -, -, stamps⟩ := probe_inversion run
  intro p allocated
  rw [stamps.fresh] at allocated
  by_cases front : p = head
  · obtain rfl := front
    simp only [hears, writes, split, List.head?_cons, if_true, Option.isSome_none,
      Bool.false_eq_true, if_false, Option.some_or, Option.getD_some]
    exact stamps.front
  · have other : some head ≠ some p := fun same => front (Option.some.inj same).symm
    simp only [hears, writes, split, List.head?_cons, if_neg other, Option.isSome_none,
      Bool.false_eq_true, if_false, Option.none_or, Option.getD_none]
    rw [stamps.others p front]
    exact faithful p allocated

theorem ping_faithful {m m' : Monitored} (faithful : m.Faithful) {now : Int32} {msg : Mem}
    {len : Nat} {peeraddr : SockaddrIn}
    (stepped : m.step (.ping now msg len peeraddr) = some m') : m'.Faithful := by
  obtain ⟨proxy, moved, rfl⟩ := Option.map_eq_some_iff.mp stepped
  obtain ⟨-, rfl⟩ := step_ping moved
  have learns := m.proxy.learnPeer_learns now peeraddr
  intro p allocated
  by_cases new : m.proxy.table.fresh ≤ p
  · simp only [hears, if_pos new, Option.isSome_some, if_true, Option.getD_none, Option.getD_some]
    exact learns.new p new allocated
  · have old := Nat.lt_of_not_le new
    simp only [hears, writes, if_neg new, Option.isSome_none, Bool.false_eq_true, if_false,
      Option.none_or, Option.getD_none]
    exact (congrArg Neighbor.ts (learns.old p old)).trans (faithful p old)

theorem pong_faithful {m m' : Monitored} (faithful : m.Faithful) {clock : Clock} {msg : Mem}
    {peeraddr : SockaddrIn}
    (stepped : m.step (.pong clock msg peeraddr) = some m') : m'.Faithful := by
  obtain ⟨proxy, moved, rfl⟩ := Option.map_eq_some_iff.mp stepped
  obtain rfl := Option.some.inj moved
  by_cases expected : m.proxy.pongFlag msg peeraddr = 0
  · obtain ⟨x, prober, taken⟩ := processProbePong_eq expected clock
    have learns := learnListed_learns (m.proxy.modify x (updated clock msg)) clock.now msg
      (msg.get ByteFormat.u8 nbnumPos).toNat pongHeaderLen
    rw [← taken] at learns
    intro p allocated
    by_cases new : m.proxy.table.fresh ≤ p
    · simp only [hears, new, true_or, if_true, Option.isSome_some, Option.getD_none,
        Option.getD_some]
      exact learns.new p new allocated
    · have old := Nat.lt_of_not_le new
      have same := congrArg Neighbor.ts (learns.old p old)
      by_cases own : p = x
      · obtain rfl := own
        simp only [hears, expected, prober, true_and, or_true, if_true, Option.isSome_some,
          Option.getD_none, Option.getD_some]
        have stamped : (m.proxy.modify p (updated clock msg)).deref p =
            updated clock msg (m.proxy.deref p) := Registry.modify_heap_self _ _ _
        rw [stamped] at same
        exact same
      · have other : m.proxy.find peeraddr.addr ≠ some p := by
          rw [prober]
          exact fun same => own (Option.some.inj same).symm
        have untouched : (m.proxy.modify x (updated clock msg)).deref p = m.proxy.deref p :=
          Registry.modify_heap_ne _ _ own
        rw [untouched] at same
        simp only [hears, writes, new, other, and_false, or_self, if_false, Option.isSome_none,
          Bool.false_eq_true, Option.none_or, Option.getD_none]
        exact same.trans (faithful p old)
  · have refused := processProbePong_refused expected clock
    intro p allocated
    rw [refused] at allocated ⊢
    have old : ¬m.proxy.table.fresh ≤ p := Nat.not_le_of_lt allocated
    simp only [hears, writes, old, expected, false_and, or_self, if_false, Option.isSome_none,
      Bool.false_eq_true, Option.none_or, Option.getD_none]
    exact faithful p allocated

theorem step_faithful {m m' : Monitored} {e : Event} (faithful : m.Faithful)
    (stepped : m.step e = some m') : m'.Faithful := by
  cases e with
  | probe clock => exact probe_faithful faithful stepped
  | ping now msg len peeraddr => exact ping_faithful faithful stepped
  | pong clock msg peeraddr => exact pong_faithful faithful stepped

/-! ## The eviction -/

/-- The probe does not go through with the neighbour still in the list. -/
def Removes (s : SimpleNbmtr) (clock : Clock) (back : Nat) : Prop :=
  ∀ s' sent, s.probe clock = some (s', sent) → back ∉ s'.nl

/-- What the code decides by. -/
theorem removes_iff {s : SimpleNbmtr} (linked : Linked s) (several : 1 < s.nm.size) {back : Nat}
    (last : s.nl.getLast? = some back) (clock : Clock) :
    s.Removes clock back ↔ (s.deref back).type ≠ Neighbor.oracle ∧
      s.abateInterval.toInt ≤ clock.now.toInt - (s.deref back).ts.toInt := by
  have longer := Nat.lt_of_lt_of_le several linked.bound
  have once := linked.once
  cases split : s.nl with
  | nil =>
      rw [split] at last
      cases last
  | cons head tail =>
      obtain ⟨t, sent, back', last', run, index, order, stamps⟩ := probe_stamps split clock
      obtain rfl := Option.some.inj (last.symm.trans last')
      rw [split] at last once longer order
      cases tail with
      | nil => exact absurd longer (Nat.lt_irrefl 1)
      | cons p rest =>
          rw [List.getLast?_cons_cons] at last
          have inTail := List.mem_of_getLast? last
          have behind : back ≠ head := fun same =>
            (List.nodup_cons.mp once).1 (same ▸ inTail)
          have type : (t.deref back).type = (s.deref back).type :=
            congrArg Prod.fst (stamps.same back)
          rw [Removes, run, abate, index, ← type, ← stamps.others back behind,
            ← stamps.settings.abateInterval]
          by_cases due : (t.deref back).type ≠ Neighbor.oracle ∧
              t.abateInterval.toInt ≤ clock.now.toInt - (t.deref back).ts.toInt
          · rw [if_pos ⟨due.2, due.1, several⟩]
            refine iff_of_true ?_ due
            intro s' sent' evicted
            obtain ⟨t', removed, result⟩ := Option.map_eq_some_iff.mp evicted
            obtain ⟨rfl, -⟩ := Prod.mk.inj result
            obtain ⟨table, gone, rfl⟩ := Option.map_eq_some_iff.mp removed
            have dropped : table.order = t.nl.dropLast := by
              obtain ⟨_, _, -, -, rfl⟩ := Registry.evict_cases gone
              rfl
            have rotated : (rotate { t with table }).nl =
                table.order.tail ++ table.order.head?.toList := rfl
            rw [rotated, dropped, order, List.dropLast_cons_cons, List.tail_cons, List.head?_cons,
              List.mem_append, not_or]
            refine ⟨notMem_dropLast (List.nodup_cons.mp once).2 last, ?_⟩
            exact fun front => behind (List.mem_singleton.mp front)
          · rw [if_neg fun all => due ⟨all.2.1, all.1⟩]
            refine iff_of_false ?_ due
            intro removes
            have kept := removes t.rotate sent rfl
            have moved : t.rotate.nl = t.nl.tail ++ t.nl.head?.toList := rfl
            rw [moved, order] at kept
            exact kept (List.mem_append_left _ inTail)

namespace Monitored

/-- The neighbour at the back goes just in case it is no oracle and was last heard long ago. -/
def Abates (m : Monitored) (clock : Clock) : Prop :=
  ∀ back, m.proxy.nl.getLast? = some back →
    (m.proxy.Removes clock back ↔ (m.proxy.deref back).type ≠ Neighbor.oracle ∧
      m.proxy.abateInterval.toInt ≤ clock.now.toInt - (m.heard back).toInt)

/-- What was written to the timestamp of the neighbour at the back since it was heard makes no
    difference: the neighbour is an oracle, or both times are long ago, or neither is. -/
def Judged (m : Monitored) (clock : Clock) : Prop :=
  ∀ back written, m.proxy.nl.getLast? = some back → m.written back = some written →
    (m.proxy.deref back).type ≠ Neighbor.oracle →
      (m.proxy.abateInterval.toInt ≤ clock.now.toInt - written.toInt ↔
        m.proxy.abateInterval.toInt ≤ clock.now.toInt - (m.heard back).toInt)

theorem abates_of_faithful {m : Monitored} (faithful : m.Faithful) (linked : Linked m.proxy)
    (several : 1 < m.proxy.nm.size) (clock : Clock) : m.Abates clock ↔ m.Judged clock := by
  have decided {back : Nat} (last : m.proxy.nl.getLast? = some back) :
      (m.proxy.Removes clock back ↔ (m.proxy.deref back).type ≠ Neighbor.oracle ∧
        m.proxy.abateInterval.toInt ≤
          clock.now.toInt - ((m.written back).getD (m.heard back)).toInt) := by
    rw [← faithful back (linked.allocated back (List.mem_of_getLast? last))]
    exact removes_iff linked several last clock
  constructor
  · intro abates back written last since peer
    have exactly := (decided last).symm.trans (abates back last)
    rw [since, Option.getD_some, and_congr_right_iff] at exactly
    exact exactly peer
  · intro judged back last
    rw [decided last, and_congr_right_iff]
    intro peer
    cases since : m.written back with
    | none => rw [Option.getD_none]
    | some written => exact judged back written last since peer

theorem step_linked {m m' : Monitored} {e : Event} (linked : Linked m.proxy)
    (stepped : m.step e = some m') : Linked m'.proxy := by
  obtain ⟨proxy, moved, rfl⟩ := Option.map_eq_some_iff.mp stepped
  exact SimpleNbmtr.step_linked linked moved

end Monitored

/-! ## Probes -/

/-- The reading of the clock at an event. -/
def Event.now : Event → Int32
  | .probe clock => clock.now
  | .ping now _ _ _ => now
  | .pong clock _ _ => clock.now

def Event.probedAt : Event → Option Int32
  | .probe clock => some clock.now
  | .ping _ _ _ _ => none
  | .pong _ _ _ => none

/-- The clock does not go back, and each probe is an interval after the one before. -/
def Timed (interval : Int) (es : List Event) : Prop :=
  (es.map Event.now).Pairwise (· ≤ ·) ∧
    (es.filterMap Event.probedAt).Pairwise fun a b => a.toInt + interval ≤ b.toInt

instance (interval : Int) (es : List Event) : Decidable (Timed interval es) :=
  inferInstanceAs (Decidable (_ ∧ _))

/-- At every probe of a run the silence of the neighbour at the back is judged right just in
    case no PING to it, and nothing read from the file, has hidden it. -/
theorem abates_iff {param : Param} {ifvec : List NetInterface} {lines : List Neighbor} {junk : Mem}
    {loaded : SimpleNbmtr} (load_eq : load param ifvec lines junk = some loaded)
    (learned : Nat → Int32) {es : List Event} {m : Monitored}
    (ran : Run.attempt Monitored.step (.start loaded learned) es = some m)
    (several : 1 < m.proxy.nm.size) (clock : Clock) : m.Abates clock ↔ m.Judged clock := by
  have faithful : m.Faithful :=
    Run.attempt_keeps (fun _ _ _ => step_faithful) (fun _ _ => rfl) ran
  have linked : Linked m.proxy :=
    Run.attempt_keeps (P := fun m : Monitored => Linked m.proxy)
      (fun _ _ _ => Monitored.step_linked) (load_linked load_eq) ran
  exact Monitored.abates_of_faithful faithful linked several clock

/-- The proxy that is loaded from two lines, with neighbours last heard at second zero. -/
def loadedPeers : SimpleNbmtr where
  minsize := defaults.minsize
  maxsize := defaults.maxsize
  numperquery := defaults.numperquery
  abateInterval := defaults.abateInterval
  ifvec := []
  table := loadTable [] [.learned Neighbor.peer (dotted 8 8 8 8) 80 0,
    .learned Neighbor.peer (dotted 8 8 4 4) 80 0]
  buff := fun _ => 0

theorem load_peers :
    load defaults [] [.learned Neighbor.peer (dotted 8 8 8 8) 80 0,
      .learned Neighbor.peer (dotted 8 8 4 4) 80 0] (fun _ => 0) = some loadedPeers := rfl

/-- Two probes, after each of which the neighbour that was in front answers. -/
def answeredEvents : List Event :=
  [.probe ⟨⟨500, 0⟩, 500⟩,
    .pong ⟨⟨600, 0⟩, 600⟩ (samplePong 1 (dotted 8 8 8 8) []) ⟨80, dotted 8 8 8 8⟩,
    .probe ⟨⟨1100, 0⟩, 1100⟩,
    .pong ⟨⟨1150, 0⟩, 1150⟩ (samplePong 2 (dotted 8 8 4 4) []) ⟨80, dotted 8 8 4 4⟩]

/-- The neighbour that answered last is judged right after 1250 seconds of silence. -/
theorem abates_answered :
    ∃ m, Run.attempt Monitored.step (.start loadedPeers fun _ => 0) answeredEvents = some m ∧
      m.Abates ⟨⟨2400, 0⟩, 2400⟩ := by
  let start := Monitored.start loadedPeers fun _ => 0
  have state : (Run.attempt Monitored.step start answeredEvents).map
      (fun m => (m.proxy.nm.size, m.proxy.nl.getLast?, m.written 1)) = some (2, some 1, none) := by
    decide +kernel
  obtain ⟨m, ran, known⟩ := Option.map_eq_some_iff.mp state
  obtain ⟨size, rest⟩ := Prod.mk.inj known
  obtain ⟨behind, answered⟩ := Prod.mk.inj rest
  refine ⟨m, ran, (abates_iff load_peers (fun _ => 0) ran (by omega) _).mpr ?_⟩
  intro back written last since peer
  obtain rfl := Option.some.inj (behind.symm.trans last)
  cases answered.symm.trans since

/-- With probes every 700 seconds, a neighbour that has never answered stays at the second
    one, as it was sent a PING at the first. -/
theorem silent_neighbor_stays :
    ¬ ∀ (interval : Int) param ifvec lines junk loaded learned es m clock, 0 < interval →
      load param ifvec lines junk = some loaded →
      Run.attempt Monitored.step (.start loaded learned) es = some m → 1 < m.proxy.nm.size →
      Timed interval (es ++ [.probe clock]) → m.Abates clock := by
  intro always
  let first : Event := .probe ⟨⟨700, 0⟩, 700⟩
  have ran : Run.attempt Monitored.step (.start loadedPeers fun _ => 0) [first] = some _ := rfl
  have abates := always 700 _ _ _ _ _ _ _ _ ⟨⟨1400, 0⟩, 1400⟩ (by decide) load_peers ran
    (by decide) (by decide)
  have silent := (abates 0 (by decide)).mpr (by decide)
  exact silent _ _ rfl (by decide)

end SimpleNbmtr

end Cors
