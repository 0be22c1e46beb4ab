import Cors.Proxy.EventQueue
import Cors.Proxy.SkipListRuns

/-! # The entries of the timer queue

The queue as it is made: entries at addresses that `new` gives out, each with a vector of events,
linked in a skip list. A pointer to the entry that `run` works on goes on being used after the
entry was taken out of the list. The machine on entries runs along with the one on the ordered
map, as long as no address is given out that is in use.
-/

namespace Cors

open EventQueue (Before Control Machine Move)

structure EntryQueue (α : Type) where
  list : Skiplist Int α
  events : α → List Event
  clock : Int

namespace EntryQueue

variable {α : Type}

/-- `EventQueue()`, in a memory that may hold anything. -/
def new (list : Skiplist Int α) (events : α → List Event) : EntryQueue α :=
  ⟨.new list.key list.previous list.forward, events, 0⟩

/-- `get_idle_time`. -/
def getIdleTime (q : EntryQueue α) (now : Int) : Int :=
  match q.list.first with
  | none => 60
  | some etr => if 0 < q.list.key etr - now then q.list.key etr - now else 0

/-- `~EventQueue()`: the events and the entries in the order in which they are deleted. -/
def destroy (q : EntryQueue α) : Option (List Event × List α) :=
  q.list.traverse.map fun etrs => (etrs.flatMap q.events, etrs)

section
variable [DecidableEq α]

/-- `etr->events.push_back(e)`. -/
def pushBack (q : EntryQueue α) (etr : α) (e : Event) : EntryQueue α :=
  { q with events := Function.update q.events etr (q.events etr ++ [e]) }

/-- `add_event`. A new entry gets the address `fresh`; it must be taken in. -/
def addEvent (q : EntryQueue α) (e : Event) (fresh : α) (flips : List Bool) :
    Option (EntryQueue α) :=
  if e.ts < q.clock then
    some q
  else
    (q.list.search e.ts).bind fun etr =>
      match etr with
      | some etr => some (q.pushBack etr e)
      | none =>
          let list := { q.list with key := Function.update q.list.key fresh e.ts }
          (list.insert fresh flips).bind fun (list, ok) =>
            let q := { q with list, events := Function.update q.events fresh [] }
            if ok then some (q.pushBack fresh e) else none

/-- `append_event`. The sum is exact, which is that of `time_t` as long as nothing is queued for the
    last second of `time_t`. -/
def appendEvent (q : EntryQueue α) (e : Event) (fresh : α) (flips : List Bool) :
    Option (EntryQueue α) :=
  match q.list.last with
  | some etr => q.addEvent { e with ts := q.list.key etr + 1 } fresh flips
  | none => q.addEvent { e with ts := q.clock + 1 } fresh flips

/-! ## The machine -/

/-- Where the program is: the loop over the events stands at an index of the vector of an entry. -/
inductive At (α : Type) where
  | idle
  | entry (etr : α) (it : Nat)
  | handler (etr : α) (it : Nat)

/-- The entry that was taken out and is not deleted yet. -/
def At.current : At α → Option α
  | idle => none
  | entry etr _ => some etr
  | handler etr _ => some etr

structure Engine (α : Type) where
  q : EntryQueue α
  control : At α
  time : Int
  added : List Event
  executed : List (Event × Int)

/-- A move, with the address that `new` gives out should it be asked, and the random levels. -/
structure Turn (α : Type) where
  move : Move
  fresh : α
  flips : List Bool

namespace Engine

def start (list : Skiplist Int α) (events : α → List Event) (time : Int) : Engine α :=
  ⟨.new list events, .idle, time, [], []⟩

def look (m : Engine α) (reading : Int) : Option (Engine α) :=
  match m.q.list.first with
  | some etr =>
      if m.q.list.key etr ≤ reading then
        (m.q.list.remove (m.q.list.key etr)).map fun (list, _) =>
          { m with q := { m.q with list }, control := .entry etr 0, time := reading }
      else
        some { m with control := .idle, time := reading }
  | none => some { m with control := .idle, time := reading }

def add (m : Engine α) (reading ts : Int) (fresh : α) (flips : List Bool) : Option (Engine α) :=
  let e : Event := ⟨ts, m.added.length⟩
  (m.q.addEvent e fresh flips).map fun q => { m with q, time := reading, added := m.added ++ [e] }

def step (m : Engine α) (turn : Turn α) : Option (Engine α) :=
  match turn.move with
  | .add reading ts =>
      match m.control with
      | .entry _ _ => none
      | _ => m.add reading ts turn.fresh turn.flips
  | .run reading =>
      match m.control with
      | .idle => m.look reading
      | _ => none
  | .execute =>
      match m.control with
      | .entry etr it =>
          (m.q.events etr)[it]?.map fun e =>
            { m with control := .handler etr it, executed := m.executed ++ [(e, m.time)] }
      | _ => none
  | .finish =>
      match m.control with
      | .handler etr it => some { m with control := .entry etr (it + 1) }
      | _ => none
  | .again reading =>
      match m.control with
      | .entry etr it => if (m.q.events etr)[it]? = none then m.look reading else none
      | _ => none

/-- `new` gives out no address that is in use. -/
def Fresh (m : Engine α) (turn : Turn α) : Prop :=
  match turn.move with
  | .add _ _ =>
      m.control.current ≠ some turn.fresh ∧ ∀ etrs ∈ m.q.list.traverse, turn.fresh ∉ etrs
  | _ => True

/-- Besides, the clock does not go back, and events are not stamped with a time before the
    reading. -/
def Allowed (m : Engine α) (turn : Turn α) : Prop :=
  m.Fresh turn ∧
    match turn.move with
    | .add reading ts => m.time ≤ reading ∧ 0 ≤ ts ∧ reading ≤ ts
    | .run reading => m.time ≤ reading
    | .execute => True
    | .finish => True
    | .again reading => m.time ≤ reading

instance (m : Engine α) : (turn : Turn α) → Decidable (m.Allowed turn)
  | ⟨.add reading ts, fresh, _⟩ =>
      inferInstanceAs (Decidable
        ((m.control.current ≠ some fresh ∧ ∀ etrs ∈ m.q.list.traverse, fresh ∉ etrs) ∧
          m.time ≤ reading ∧ 0 ≤ ts ∧ reading ≤ ts))
  | ⟨.run reading, _, _⟩ => inferInstanceAs (Decidable (True ∧ m.time ≤ reading))
  | ⟨.execute, _, _⟩ => .isTrue ⟨trivial, trivial⟩
  | ⟨.finish, _, _⟩ => .isTrue ⟨trivial, trivial⟩
  | ⟨.again reading, _, _⟩ => inferInstanceAs (Decidable (True ∧ m.time ≤ reading))

end Engine

end

/-! ## The map that the entries make up -/

/-- The list links the entries of a map of addresses, and the vectors there are the values. -/
structure Holds (q : EntryQueue α) (m : OrderedMap Int α) (queue : OrderedMap Int (List Event)) :
    Prop where
  represents : q.list.Represents m
  values : queue.entries = m.entries.map fun e => (e.1, q.events e.2)

variable {q : EntryQueue α} {m : OrderedMap Int α} {queue : OrderedMap Int (List Event)}

theorem Holds.distinct (holds : q.Holds m queue) : (m.entries.map Prod.snd).Nodup :=
  holds.represents.lists.ascending.imp fun less same => ne_of_lt less (congrArg q.list.key same)

theorem Holds.search (holds : q.Holds m queue) (k : Int) :
    queue.search k = (m.search k).map q.events := by
  simp only [OrderedMap.search, holds.values, List.find?_map, Option.map_map]
  rfl

theorem Holds.first (holds : q.Holds m queue) :
    queue.first = m.first.map fun e => (e.1, q.events e.2) := by
  simp only [OrderedMap.first, holds.values, List.head?_map]

theorem Holds.below (holds : q.Holds m queue) (k : Int) :
    queue.below k = (m.below k).map fun e => (e.1, q.events e.2) := by
  simp only [OrderedMap.below, holds.values, List.filter_map]
  rfl

theorem Holds.above (holds : q.Holds m queue) (k : Int) :
    queue.above k = (m.above k).map fun e => (e.1, q.events e.2) := by
  simp only [OrderedMap.above, holds.values, List.filter_map]
  rfl

theorem Holds.destroy (holds : q.Holds m queue) :
    q.destroy = some (queue.items, m.entries.map Prod.snd) := by
  rw [EntryQueue.destroy, holds.represents.lists.traverse_spec, Option.map_some, OrderedMap.items,
    holds.values, List.flatMap_map, List.flatMap_map]

section
variable [DecidableEq α]

theorem Holds.remove (holds : q.Holds m queue) (k : Int) :
    ∃ list, q.list.remove k = some (list, m.search k) ∧
      { q with list }.Holds (m.remove k) (queue.remove k) := by
  obtain ⟨list, done, represents⟩ := holds.represents.remove_spec k
  refine ⟨list, done, represents, ?_⟩
  simp only [OrderedMap.remove, holds.values, List.filter_map]
  rfl

/-- An event that goes to an entry of the list, or to one that is made for it. -/
theorem Holds.push (holds : q.Holds m queue) {etr : α} {k : Int} (found : m.search k = some etr)
    (e : Event) : (q.pushBack etr e).Holds m (queue.push k e) := by
  refine ⟨holds.represents, ?_⟩
  have split := m.entries_eq k
  rw [found] at split
  have distinct := holds.distinct
  rw [split] at distinct
  simp only [Option.map_some, Option.toList_some, List.singleton_append, List.map_append,
    List.map_cons, List.nodup_append, List.nodup_cons] at distinct
  obtain ⟨-, ⟨behind, -⟩, across⟩ := distinct
  have same (e' : Int × α) (other : e'.2 ≠ etr) :
      (e'.1, (q.pushBack etr e).events e'.2) = (e'.1, q.events e'.2) :=
    congrArg (Prod.mk e'.1) (Function.update_of_ne other _ _)
  rw [OrderedMap.push_entries, holds.search, found, holds.below, holds.above, split]
  simp only [Option.map_some, Option.toList_some, List.singleton_append, List.map_append,
    List.map_cons, Option.getD_some]
  have own : (q.pushBack etr e).events etr = q.events etr ++ [e] := Function.update_self _ _ _
  congr 1
  · refine List.map_congr_left fun e' member => (same e' fun equal => ?_).symm
    exact across e'.2 (List.mem_map_of_mem member) etr List.mem_cons_self equal
  · congr 1
    · rw [own]
    · refine List.map_congr_left fun e' member => (same e' fun equal => ?_).symm
      exact behind (equal ▸ List.mem_map_of_mem member)

theorem Holds.addEvent (holds : q.Holds m queue) {e : Event} (kept : ¬e.ts < q.clock) {fresh : α}
    (unused : fresh ∉ m.entries.map Prod.snd) (flips : List Bool) :
    ∃ q' m', q.addEvent e fresh flips = some q' ∧ q'.Holds m' (queue.push e.ts e) ∧
      q'.clock = q.clock ∧
      ∀ etr, etr ∉ m.entries.map Prod.snd → etr ≠ fresh →
        q'.events etr = q.events etr ∧ etr ∉ m'.entries.map Prod.snd := by
  have search := holds.represents.lists.search_spec e.ts
  rw [holds.represents.find] at search
  cases found : m.search e.ts with
  | some etr =>
      rw [found] at search
      refine ⟨q.pushBack etr e, m, ?_, holds.push found e, rfl, fun other absent _ => ⟨?_, absent⟩⟩
      · simp only [EntryQueue.addEvent, kept, if_false, search, Option.bind_some]
      · refine Function.update_of_ne (fun same => absent ?_) _ _
        have member := OrderedMap.mem_of_search found
        exact same ▸ List.mem_map_of_mem member
  | none =>
      rw [found] at search
      obtain ⟨list, done, represents⟩ :=
        (holds.represents.setKey unused e.ts).insert_spec fresh flips
      simp only [Function.update_self, found, Option.isNone_none, if_true] at done represents
      let q' : EntryQueue α := { q with list, events := Function.update q.events fresh [] }
      have missing : queue.search e.ts = none := by rw [holds.search, found]; rfl
      have names : ∀ other, other ∉ m.entries.map Prod.snd → other ≠ fresh →
          other ∉ (m.insert e.ts fresh).entries.map Prod.snd := by
        intro other absent differs member
        obtain ⟨e', inside, rfl⟩ := List.mem_map.mp member
        obtain rfl | old := (OrderedMap.mem_insert_of_none found fresh e').mp inside
        · exact differs rfl
        · exact absent (List.mem_map_of_mem old)
      have made : q'.Holds (m.insert e.ts fresh) (queue.insert e.ts []) := by
        refine ⟨represents, ?_⟩
        have same (e' : Int × α) (member : e' ∈ m.entries) :
            (e'.1, q.events e'.2) = (e'.1, q'.events e'.2) := by
          refine congrArg (Prod.mk e'.1) (Function.update_of_ne (fun equal => unused ?_) _ _).symm
          exact equal ▸ List.mem_map_of_mem member
        have own : q'.events fresh = [] := Function.update_self _ _ _
        simp only [OrderedMap.insert, List.map_append, List.map_cons, holds.below, holds.above, own]
        congr 1
        · exact List.map_congr_left fun e' member => same e' (List.mem_filter.mp member).1
        · congr 1
          exact List.map_congr_left fun e' member => same e' (List.mem_filter.mp member).1
      have pushed := made.push (OrderedMap.search_insert m e.ts fresh) e
      rw [OrderedMap.push_insert missing] at pushed
      refine ⟨q'.pushBack fresh e, m.insert e.ts fresh, ?_, pushed, rfl, fun other absent differs =>
        ⟨?_, names other absent differs⟩⟩
      · simp only [EntryQueue.addEvent, kept, if_false, search, Option.bind_some, done, if_true, q']
      · exact (Function.update_of_ne differs _ _).trans (Function.update_of_ne differs _ _)

theorem Holds.append (holds : q.Holds m queue) (filed : queue.Filed Event.ts) {e : Event}
    (kept : ¬e.ts < q.clock) {fresh : α} (unused : fresh ∉ m.entries.map Prod.snd)
    (last : ∀ e' ∈ queue.items, e'.ts < e.ts) (flips : List Bool) :
    ∃ q' etrs', q.addEvent e fresh flips = some q' ∧
      q'.destroy = some (queue.items ++ [e], etrs') := by
  obtain ⟨q', map', done, holds', -⟩ := holds.addEvent kept unused flips
  obtain ⟨l, r, items, pushed, -, high⟩ := OrderedMap.push_items filed e
  have nothing : r = [] := by
    refine List.eq_nil_iff_forall_not_mem.mpr fun e' member => ?_
    have less := last e' (items ▸ List.mem_append_right l member)
    exact lt_asymm less (high e' member)
  rw [nothing, List.append_nil] at items
  rw [nothing, ← items] at pushed
  exact ⟨q', _, done, pushed ▸ holds'.destroy⟩

end

/-! ## The two machines -/

/-- The events that are left to execute where the program is. -/
def At.control (events : α → List Event) : At α → Control
  | idle => .idle
  | entry etr it => .entry ((events etr).drop it)
  | handler etr it => .handler ((events etr).drop (it + 1))

theorem At.control_congr {events events' : α → List Event} {control : At α}
    (same : ∀ etr, control.current = some etr → events' etr = events etr) :
    control.control events' = control.control events := by
  cases control with
  | idle => rfl
  | entry etr it => simp only [At.control, same etr rfl]
  | handler etr it => simp only [At.control, same etr rfl]

namespace Engine

/-- The machine on entries stands where the one on the map does. The entry it works on is not in
    the list, and no entry in the list is empty or older than the clock. -/
structure Follows (m : Engine α) (map : OrderedMap Int α) (machine : Machine) : Prop where
  holds : m.q.Holds map machine.q.queue
  clock : m.q.clock = machine.q.clock
  control : m.control.control m.q.events = machine.control
  unlinked : ∀ etr, m.control.current = some etr → etr ∉ map.entries.map Prod.snd
  filled : ∀ e ∈ machine.q.queue.entries, e.2 ≠ [] ∧ machine.q.clock ≤ e.1
  time : m.time = machine.time
  added : m.added = machine.added
  executed : m.executed = machine.executed

def Mirrors (m : Engine α) (machine : Machine) : Prop := ∃ map, m.Follows map machine

theorem start_mirrors (list : Skiplist Int α) (events : α → List Event) (time : Int) :
    (start list events time).Mirrors (.start time) := by
  refine ⟨.empty, ⟨Skiplist.new_represents _ _ _, rfl⟩, rfl, rfl, ?_, ?_, rfl, rfl, rfl⟩
  · exact fun etr working => nomatch working
  · exact fun e member => nomatch member

theorem Follows.traverse {m : Engine α} {map : OrderedMap Int α} {machine : Machine}
    (follows : m.Follows map machine) : m.q.list.traverse = some (map.entries.map Prod.snd) :=
  follows.holds.represents.lists.traverse_spec

variable {m : Engine α} {map : OrderedMap Int α} {machine : Machine}

theorem Follows.first_eq (follows : m.Follows map machine) :
    m.q.list.first = map.first.map Prod.snd := by
  rw [Skiplist.first, follows.holds.represents.lists.head_eq, List.head?_map]
  rfl

variable [DecidableEq α]

theorem Follows.look (follows : m.Follows map machine) (reading : Int) :
    ∃ m', m.look reading = some m' ∧ m'.Mirrors (machine.look reading) := by
  have first := follows.holds.first
  let idle : Engine α := { m with control := .idle, time := reading }
  have stays : idle.Mirrors { machine with control := .idle, time := reading } :=
    ⟨map, follows.holds, follows.clock, rfl, (fun etr working => nomatch working), follows.filled,
      rfl, follows.added, follows.executed⟩
  cases known : map.first with
  | none =>
      have empty : m.q.list.first = none := by rw [follows.first_eq, known]; rfl
      rw [known, Option.map_none] at first
      refine ⟨idle, by simp only [Engine.look, empty, idle], ?_⟩
      simpa only [Machine.look, first] using stays
  | some e =>
      obtain ⟨ts, etr⟩ := e
      have there : m.q.list.first = some etr := by rw [follows.first_eq, known]; rfl
      have member : (ts, etr) ∈ map.entries := by
        rw [OrderedMap.entries_of_first known]
        exact List.mem_cons_self
      have key : m.q.list.key etr = ts := follows.holds.represents.keys _ member
      rw [known, Option.map_some] at first
      by_cases due : ts ≤ reading
      · obtain ⟨list, done, holds⟩ := follows.holds.remove ts
        refine ⟨{ m with q := { m.q with list }, control := .entry etr 0, time := reading },
          by simp only [Engine.look, there, key, due, if_true, done, Option.map_some], ?_⟩
        simp only [Machine.look, first, due, if_true]
        refine ⟨_, holds, follows.clock, rfl, fun other working => ?_, fun e inside => ?_, rfl,
          follows.added, follows.executed⟩
        · obtain rfl := Option.some.inj working
          have distinct := follows.holds.distinct
          rw [OrderedMap.entries_of_first known] at distinct
          exact (List.nodup_cons.mp distinct).1
        · exact follows.filled e (List.mem_filter.mp inside).1
      · refine ⟨idle, by simp only [Engine.look, there, key, due, if_false, idle], ?_⟩
        simpa only [Machine.look, first, due, if_false] using stays

theorem Follows.add (follows : m.Follows map machine) (reading ts : Int) {fresh : α}
    (idle : m.control.current ≠ some fresh) (unused : fresh ∉ map.entries.map Prod.snd)
    (flips : List Bool) :
    ∃ m', m.add reading ts fresh flips = some m' ∧ m'.Mirrors (machine.add reading ts) := by
  obtain ⟨⟨queue, clock'⟩, control', time', added', executed'⟩ := machine
  obtain ⟨q, control, time, added, executed⟩ := m
  obtain ⟨holds, clock, stands, unlinked, filled, sameTime, sameAdded, sameExecuted⟩ := follows
  dsimp only at clock stands unlinked filled sameTime sameAdded sameExecuted idle holds
  subst clock sameTime sameAdded sameExecuted
  let e : Event := ⟨ts, added.length⟩
  by_cases late : e.ts < q.clock
  · refine ⟨⟨q, control, reading, added ++ [e], executed⟩, ?_, map, ?_⟩
    · simp only [Engine.add, EntryQueue.addEvent, e, late, if_true, Option.map_some]
    · simp only [Machine.add, EventQueue.addEvent, e, late, if_true]
      exact ⟨holds, rfl, stands, unlinked, filled, rfl, rfl, rfl⟩
  · obtain ⟨q', map', done, holds', clock, others⟩ := holds.addEvent late unused flips
    refine ⟨⟨q', control, reading, added ++ [e], executed⟩, ?_, map', ?_⟩
    · simp only [Engine.add, done, Option.map_some, e]
    · have apart (etr : α) (working : control.current = some etr) : etr ≠ fresh := fun same =>
        idle (same ▸ working)
      simp only [Machine.add, EventQueue.addEvent, e, late, if_false]
      refine ⟨holds', clock, ?_, fun etr working => ?_, fun entry member => ?_, rfl, rfl, rfl⟩
      · refine (At.control_congr fun etr working => ?_).trans stands
        exact (others etr (unlinked etr working) (apart etr working)).1
      · exact (others etr (unlinked etr working) (apart etr working)).2
      · rw [OrderedMap.push_entries] at member
        obtain under | own | above := List.mem_append.mp member |>.imp_right List.mem_cons.mp
        · exact filled entry (List.mem_filter.mp under).1
        · obtain rfl := own
          exact ⟨List.append_ne_nil_of_right_ne_nil _ (List.cons_ne_nil e []), Int.not_lt.mp late⟩
        · exact filled entry (List.mem_filter.mp above).1

/-- One step of the two, which get stuck together. -/
theorem step_mirrors (mirrors : m.Mirrors machine) {turn : Turn α} (unused : m.Fresh turn) :
    Option.Rel Mirrors (m.step turn) (machine.step turn.move) := by
  obtain ⟨map, follows⟩ := mirrors
  obtain ⟨move, fresh, flips⟩ := turn
  have stands := follows.control
  cases working : m.control with
  | idle =>
      rw [working, At.control] at stands
      cases move with
      | add reading ts =>
          obtain ⟨apart, unused⟩ := unused
          obtain ⟨m', done, mirrors⟩ :=
            follows.add reading ts apart (unused _ follows.traverse) flips
          simp only [Engine.step, Machine.step, working, ← stands, done]
          exact .some mirrors
      | run reading =>
          obtain ⟨m', done, mirrors⟩ := follows.look reading
          simp only [Engine.step, Machine.step, working, ← stands, done]
          exact .some mirrors
      | execute | finish | again reading =>
          simp only [Engine.step, Machine.step, working, ← stands]
          exact .none
  | entry etr it =>
      rw [working, At.control] at stands
      have rest : (m.q.events etr).drop it = _ := List.drop_eq_getElem?_toList_append
      have unlinked := follows.unlinked etr (congrArg At.current working)
      cases next : (m.q.events etr)[it]? with
      | none =>
          have done : (m.q.events etr).drop it = [] :=
            List.drop_eq_nil_iff.mpr (List.getElem?_eq_none_iff.mp next)
          rw [done] at stands
          cases move with
          | again reading =>
              obtain ⟨m', done, mirrors⟩ := follows.look reading
              simp only [Engine.step, Machine.step, working, ← stands, next, if_true, done]
              exact .some mirrors
          | add reading ts | run reading | finish | execute =>
              simp only [Engine.step, Machine.step, working, ← stands, next, Option.map_none]
              exact .none
      | some e =>
          rw [rest, next, Option.toList_some, List.singleton_append] at stands
          cases move with
          | execute =>
              simp only [Engine.step, Machine.step, working, ← stands, next, Option.map_some]
              refine .some ⟨map, follows.holds, follows.clock, rfl, fun other same => ?_,
                follows.filled, follows.time, follows.added, ?_⟩
              · exact Option.some.inj same ▸ unlinked
              · simp only [follows.executed, follows.time]
          | add reading ts | run reading | finish =>
              simp only [Engine.step, Machine.step, working, ← stands]
              exact .none
          | again reading =>
              simp only [Engine.step, Machine.step, working, ← stands, next, reduceCtorEq, if_false]
              exact .none
  | handler etr it =>
      rw [working, At.control] at stands
      have unlinked := follows.unlinked etr (congrArg At.current working)
      cases move with
      | add reading ts =>
          obtain ⟨apart, unused⟩ := unused
          obtain ⟨m', done, mirrors⟩ :=
            follows.add reading ts apart (unused _ follows.traverse) flips
          simp only [Engine.step, Machine.step, working, ← stands, done]
          exact .some mirrors
      | finish =>
          simp only [Engine.step, Machine.step, working, ← stands]
          exact .some ⟨map, follows.holds, follows.clock, rfl,
            fun other same => Option.some.inj same ▸ unlinked, follows.filled, follows.time,
            follows.added, follows.executed⟩
      | run reading | execute | again reading =>
          simp only [Engine.step, Machine.step, working, ← stands]
          exact .none

/-! ## What follows -/

/-- The events that were not executed, in the order in which they would be. -/
def pending (m : Engine α) : Option (List Event) :=
  m.q.list.traverse.map fun etrs => (m.control.control m.q.events).rest ++ etrs.flatMap m.q.events

/-- What is seen of a machine. -/
structure View where
  control : Control
  time : Int
  added : List Event
  executed : List (Event × Int)
  pending : List Event
  deriving DecidableEq

def view (m : Engine α) : Option View :=
  m.pending.map fun pending =>
    ⟨m.control.control m.q.events, m.time, m.added, m.executed, pending⟩

end Engine

end EntryQueue

def EventQueue.Machine.view (m : Machine) : EntryQueue.Engine.View :=
  ⟨m.control, m.time, m.added, m.executed, m.pending⟩

namespace EntryQueue

namespace Engine

variable {m : Engine α} {map : OrderedMap Int α} {machine : Machine}

theorem Follows.pending (follows : m.Follows map machine) : m.pending = some machine.pending := by
  rw [Engine.pending, follows.traverse, Option.map_some, Machine.pending, OrderedMap.items,
    follows.holds.values, follows.control, List.flatMap_map, List.flatMap_map]

theorem Follows.view (follows : m.Follows map machine) : m.view = some machine.view := by
  rw [Engine.view, follows.pending, Option.map_some, follows.control, follows.time, follows.added,
    follows.executed]
  rfl

/-- What the machine on entries follows is in order, as the readings and the times are the same. -/
theorem run_follows [DecidableEq α] (list : Skiplist Int α) (events : α → List Event) (time : Int)
    {turns : List (Turn α)}
    (allowed : ∀ visit ∈ Run.tries step (start list events time) turns,
      Allowed visit.1 visit.2) :
    Option.Rel (fun m machine => m.Mirrors machine ∧ machine.Scheduled)
      (Run.attempt step (start list events time) turns)
      (Run.attempt Machine.step (.start time) (turns.map Turn.move)) := by
  refine Run.attempt_related (fun m machine turn allowed related => ?_)
    ⟨start_mirrors list events time, Machine.start_scheduled time⟩ allowed
  obtain ⟨mirrors, scheduled⟩ := related
  have permitted : machine.Allowed turn.move := by
    obtain ⟨map, follows⟩ := mirrors
    obtain ⟨move, fresh, flips⟩ := turn
    have same := follows.time
    cases move with
    | add reading ts => exact ⟨same ▸ allowed.2.1, allowed.2.2⟩
    | run reading | again reading => exact same.symm.trans_le allowed.2
    | execute | finish => trivial
  obtain ⟨stuck, same⟩ | ⟨m', machine', stepped, moved, next⟩ :=
    Run.rel_cases (step_mirrors mirrors allowed.1)
  · rw [stuck, same]
    exact .none
  · rw [stepped, moved]
    exact .some ⟨next, Machine.step_scheduled permitted scheduled moved⟩

variable [DecidableEq α] (list : Skiplist Int α) (events : α → List Event) (time : Int)

/-- A handler that adds an event for the same second as its own: that goes into a new entry. The
    entry of the first is given out again once it was deleted. -/
def rearming : List (Turn Nat) :=
  [⟨.add 0 1, 0, [true]⟩, ⟨.add 0 3, 1, []⟩, ⟨.run 1, 0, []⟩, ⟨.execute, 0, []⟩,
    ⟨.add 1 1, 2, [true, true]⟩, ⟨.finish, 0, []⟩, ⟨.again 1, 0, []⟩, ⟨.execute, 0, []⟩,
    ⟨.add 1 2, 0, []⟩, ⟨.finish, 0, []⟩, ⟨.again 1, 0, []⟩]

def memory : Skiplist Int Nat := .new (fun _ => 7) (fun _ => some 3) fun _ _ => some 5

theorem rearming_allowed :
    ∀ visit ∈ Run.tries step (start memory (fun _ => []) 0) rearming,
      Allowed visit.1 visit.2 := by
  decide +kernel

theorem rearming_ran :
    ∃ m, Run.attempt step (start memory (fun _ => []) 0) rearming = some m ∧
      m.executed = [(⟨1, 0⟩, 1), (⟨1, 2⟩, 1)] ∧
      m.q.destroy.map Prod.fst = some [⟨2, 3⟩, ⟨3, 1⟩] := by
  have state : (Run.attempt step (start memory (fun _ => []) 0) rearming).map
      (fun m => (m.executed, m.q.destroy.map Prod.fst)) =
        some ([(⟨1, 0⟩, 1), (⟨1, 2⟩, 1)], some [⟨2, 3⟩, ⟨3, 1⟩]) := by decide +kernel
  obtain ⟨m, ran, known⟩ := Option.map_eq_some_iff.mp state
  exact ⟨m, ran, Prod.mk.inj known⟩

/-- The queue on entries does in every run what the queue on the map does: neither a search that
    leads nowhere nor the assertion ever stops it. -/
theorem views_of_run {turns : List (Turn α)}
    (unused : ∀ visit ∈ Run.tries step (start list events time) turns,
      Fresh visit.1 visit.2) :
    (Run.attempt step (start list events time) turns).map view =
      (Run.attempt Machine.step (.start time) (turns.map Turn.move)).map fun machine =>
        some machine.view := by
  obtain ⟨stuck, same⟩ | ⟨m, machine, ran, moved, map, follows⟩ :=
    Run.rel_cases (Run.attempt_related (fun _ _ _ unused mirrors => step_mirrors mirrors unused)
      (start_mirrors list events time) unused)
  · rw [stuck, same]
    rfl
  · rw [ran, moved]
    exact congrArg some follows.view

theorem views_of_run_rearming :
    (Run.attempt step (start memory (fun _ => []) 0) rearming).map view =
      (Run.attempt Machine.step (.start 0) (rearming.map Turn.move)).map fun machine =>
        some machine.view :=
  views_of_run _ _ _ fun visit tried => (rearming_allowed visit tried).1

variable {list events time} {turns : List (Turn α)} {m : Engine α}

theorem reached_follows
    (allowed : ∀ visit ∈ Run.tries step (start list events time) turns,
      Allowed visit.1 visit.2)
    (ran : Run.attempt step (start list events time) turns = some m) :
    ∃ map machine, m.Follows map machine ∧ machine.Scheduled := by
  obtain ⟨stuck, -⟩ | ⟨m', machine, reached, -, ⟨map, follows⟩, scheduled⟩ :=
    Run.rel_cases (run_follows list events time allowed)
  · rw [ran] at stuck
    cases stuck
  · obtain rfl := Option.some.inj (ran.symm.trans reached)
    exact ⟨map, machine, follows, scheduled⟩

/-- Whatever was added is executed, waits in the entry that `run` works on, or is deleted by the
    destructor, once; and the events would be executed in the order of the three. -/
theorem destroyed_of_run
    (allowed : ∀ visit ∈ Run.tries step (start list events time) turns,
      Allowed visit.1 visit.2)
    (ran : Run.attempt step (start list events time) turns = some m) :
    ∃ rest etrs, m.q.destroy = some (rest, etrs) ∧
      (∀ etr, m.control.current = some etr → etr ∉ etrs) ∧ etrs.Nodup ∧
      let all := m.executed.map Prod.fst ++ ((m.control.control m.q.events).rest ++ rest)
      all.Perm m.added ∧ all.Pairwise Before ∧ ∀ x ∈ m.executed, x.1.ts ≤ x.2 := by
  obtain ⟨map, machine, follows, scheduled⟩ := reached_follows allowed ran
  refine ⟨_, _, follows.holds.destroy, follows.unlinked, follows.holds.distinct, ?_⟩
  rw [follows.control, follows.executed, follows.added]
  exact ⟨scheduled.account, scheduled.ordered, scheduled.due⟩

theorem destroyed_of_run_rearming :
    ∃ m etrs, Run.attempt step (start memory (fun _ => []) 0) rearming = some m ∧
      m.q.destroy = some ([⟨2, 3⟩, ⟨3, 1⟩], etrs) ∧ etrs.Nodup ∧
      let all : List Event :=
        [⟨1, 0⟩, ⟨1, 2⟩] ++ ((m.control.control m.q.events).rest ++ [⟨2, 3⟩, ⟨3, 1⟩])
      all.Perm m.added ∧ all.Pairwise Before := by
  obtain ⟨m, ran, executed, left⟩ := rearming_ran
  obtain ⟨rest, etrs, destroyed, -, distinct, account, order, -⟩ :=
    destroyed_of_run rearming_allowed ran
  rw [destroyed, Option.map_some, Option.some.injEq] at left
  obtain rfl := left
  rw [executed] at account order
  exact ⟨m, etrs, ran, destroyed, distinct, account, order⟩

/-- The time for which the program may sleep: no event that waits is slept past, the first one is
    reached, and without any it is a minute. -/
theorem idle_of_run
    (allowed : ∀ visit ∈ Run.tries step (start list events time) turns,
      Allowed visit.1 visit.2)
    (ran : Run.attempt step (start list events time) turns = some m) (now : Int) :
    ∃ rest etrs, m.q.destroy = some (rest, etrs) ∧ 0 ≤ m.q.getIdleTime now ∧
      (∀ e ∈ rest, now + m.q.getIdleTime now ≤ max e.ts now) ∧
      (rest ≠ [] → ∃ e ∈ rest, now + m.q.getIdleTime now = max e.ts now) ∧
      (rest = [] → m.q.getIdleTime now = 60) := by
  obtain ⟨map, machine, follows, scheduled⟩ := reached_follows allowed ran
  have first := follows.holds.first
  refine ⟨_, _, follows.holds.destroy, ?_⟩
  cases known : map.first with
  | none =>
      rw [known, Option.map_none] at first
      have idle : m.q.getIdleTime now = 60 := by
        simp only [getIdleTime, follows.first_eq, known, Option.map_none]
      rw [OrderedMap.items_of_none first, idle]
      exact ⟨by decide, List.forall_mem_nil _, fun some_ => absurd rfl some_, fun _ => rfl⟩
  | some e =>
      obtain ⟨ts, etr⟩ := e
      rw [known, Option.map_some] at first
      have member : (ts, etr) ∈ map.entries := by
        rw [OrderedMap.entries_of_first known]
        exact List.mem_cons_self
      have key : m.q.list.key etr = ts := follows.holds.represents.keys _ member
      have idle : now + m.q.getIdleTime now = max ts now := by
        simp only [getIdleTime, follows.first_eq, known, Option.map_some, key]
        split <;> omega
      have entry : (ts, m.q.events etr) ∈ machine.q.queue.entries := by
        rw [OrderedMap.entries_of_first first]
        exact List.mem_cons_self
      obtain ⟨e, own⟩ := List.exists_mem_of_ne_nil _ (follows.filled _ entry).1
      have there : e ∈ machine.q.queue.items := List.mem_flatMap.mpr ⟨_, entry, own⟩
      refine ⟨by omega, fun e inside => ?_, fun _ => ⟨e, there, ?_⟩, fun none_ => ?_⟩
      · have least := OrderedMap.first_le scheduled.filed first e inside
        dsimp only at least
        omega
      · have same : e.ts = ts := scheduled.filed _ entry e own
        rw [same, idle]
      · rw [none_] at there
        cases there

theorem idle_of_run_rearming :
    ∃ m, Run.attempt step (start memory (fun _ => []) 0) rearming = some m ∧
      m.q.getIdleTime 0 = 2 := by
  obtain ⟨m, ran, -, left⟩ := rearming_ran
  obtain ⟨rest, etrs, destroyed, -, least, reached, -⟩ := idle_of_run rearming_allowed ran 0
  rw [destroyed, Option.map_some, Option.some.injEq] at left
  obtain rfl := left
  have early := least ⟨2, 3⟩ (by decide)
  obtain ⟨e, member, exactly⟩ := reached (List.cons_ne_nil _ _)
  have late : 2 ≤ e.ts := by
    rcases List.mem_cons.mp member with rfl | member
    · exact Int.le_refl 2
    · rw [List.mem_singleton.mp member]
      decide
  dsimp only at early
  exact ⟨m, ran, by omega⟩

/-- An appended event comes behind those in the list, whatever time it was stamped with. In an
    empty list it is stamped 1, as the clock is never set. -/
theorem Follows.append (follows : m.Follows map machine) (scheduled : machine.Scheduled) {fresh : α}
    (unused : ∀ etrs ∈ m.q.list.traverse, fresh ∉ etrs) (e : Event) (flips : List Bool) :
    ∃ q' ts etrs', m.q.appendEvent e fresh flips = some q' ∧
      q'.destroy = some (machine.q.queue.items ++ [{ e with ts }], etrs') ∧
      (∀ e' ∈ machine.q.queue.items, e'.ts < ts) ∧ (machine.q.queue.items = [] → ts = 1) := by
  have names := unused _ follows.traverse
  have tail := follows.holds.represents.lists.tail_eq
  rw [List.getLast?_map] at tail
  cases known : map.entries.getLast? with
  | none =>
      rw [known, Option.map_none] at tail
      have nothing : machine.q.queue.items = [] := by
        rw [OrderedMap.items, follows.holds.values, List.getLast?_eq_none_iff.mp known]
        rfl
      have last : ∀ e' ∈ machine.q.queue.items, e'.ts < m.q.clock + 1 :=
        nothing ▸ List.forall_mem_nil _
      obtain ⟨q', etrs', done, destroyed⟩ := follows.holds.append scheduled.filed
        (e := { e with ts := m.q.clock + 1 }) (not_lt_of_gt (Int.lt_succ _)) names last flips
      refine ⟨q', _, etrs', ?_, destroyed, last, fun _ => ?_⟩
      · simp only [appendEvent, Skiplist.last, tail, done]
      · rw [follows.clock, scheduled.clock, Int.zero_add]
  | some entry =>
      rw [known, Option.map_some] at tail
      have member := List.mem_of_getLast? known
      have key : m.q.list.key entry.2 = entry.1 := follows.holds.represents.keys entry member
      have listed : (entry.1, m.q.events entry.2) ∈ machine.q.queue.entries :=
        follows.holds.values ▸ List.mem_map_of_mem member
      obtain ⟨some_, old⟩ := follows.filled _ listed
      rw [← follows.clock] at old
      have last : ∀ e' ∈ machine.q.queue.items, e'.ts < entry.1 + 1 := by
        intro e' inside
        obtain ⟨other, there, own⟩ := List.mem_flatMap.mp inside
        rw [scheduled.filed other there e' own]
        rw [follows.holds.values] at there
        obtain ⟨pair, listed, rfl⟩ := List.mem_map.mp there
        exact Int.lt_add_one_of_le (OrderedMap.le_getLast known pair listed)
      obtain ⟨q', etrs', done, destroyed⟩ := follows.holds.append scheduled.filed
        (e := { e with ts := entry.1 + 1 }) (by dsimp only at old ⊢; omega) names last flips
      refine ⟨q', _, etrs', ?_, destroyed, last, fun nothing => ?_⟩
      · simp only [appendEvent, Skiplist.last, tail, key, done]
      · obtain ⟨e', own⟩ := List.exists_mem_of_ne_nil _ some_
        have there : e' ∈ machine.q.queue.items := List.mem_flatMap.mpr ⟨_, listed, own⟩
        rw [nothing] at there
        cases there

/-- The stamp of an appended event is above all in the list. It is above what is left of the entry
    that `run` works on, too, unless the list is empty and that entry is one for a later time
    than 0: a handler that appends an event then has it stamped below its own. -/
theorem appended_of_run
    (allowed : ∀ visit ∈ Run.tries step (start list events time) turns,
      Allowed visit.1 visit.2)
    (ran : Run.attempt step (start list events time) turns = some m) {fresh : α}
    (unused : ∀ etrs ∈ m.q.list.traverse, fresh ∉ etrs) (e : Event)
    (flips : List Bool) :
    ∃ rest etrs q' ts etrs', m.q.destroy = some (rest, etrs) ∧
      m.q.appendEvent e fresh flips = some q' ∧
      q'.destroy = some (rest ++ [{ e with ts }], etrs') ∧ (∀ e' ∈ rest, e'.ts < ts) ∧
      let working := (m.control.control m.q.events).rest
      ((∀ e' ∈ working, e'.ts < ts) ↔ rest ≠ [] ∨ ∀ e' ∈ working, e'.ts ≤ 0) := by
  obtain ⟨map, machine, follows, scheduled⟩ := reached_follows allowed ran
  obtain ⟨q', ts, etrs', done, destroyed, last, alone⟩ := follows.append scheduled unused e flips
  refine ⟨_, _, q', ts, etrs', follows.holds.destroy, done, destroyed, last, ?_⟩
  rw [follows.control]
  by_cases nothing : machine.q.queue.items = []
  · rw [alone nothing]
    simp only [nothing, ne_eq, not_true, false_or]
    refine forall₂_congr fun e' _ => ?_
    omega
  · simp only [ne_eq, nothing, not_false_iff, true_or, iff_true]
    obtain ⟨later, there⟩ := List.exists_mem_of_ne_nil _ nothing
    intro e' member
    have pending := (List.pairwise_append.mp scheduled.ordered).2.1
    have before : Before e' later := (List.pairwise_append.mp pending).2.2 e' member later there
    have below := last later there
    obtain less | ⟨same, -⟩ := before
    · omega
    · omega

/-- Two events for the same second. While the handler of the first is at work, the list is empty. -/
def sharing : List (Turn Nat) :=
  [⟨.add 0 3, 0, [true]⟩, ⟨.add 0 3, 1, []⟩, ⟨.run 3, 0, []⟩, ⟨.execute, 0, []⟩]

theorem sharing_allowed :
    ∀ visit ∈ Run.tries step (start memory (fun _ => []) 0) sharing, Allowed visit.1 visit.2 := by
  decide +kernel

theorem appended_of_run_sharing :
    ∃ m q' ts etrs', Run.attempt step (start memory (fun _ => []) 0) sharing = some m ∧
      m.q.appendEvent ⟨0, 4⟩ 2 [true] = some q' ∧ q'.destroy = some ([⟨ts, 4⟩], etrs') ∧
      ∃ e' ∈ (m.control.control m.q.events).rest, ts ≤ e'.ts := by
  have state : (Run.attempt step (start memory (fun _ => []) 0) sharing).map
      (fun m => (m.q.destroy, m.q.list.traverse, (m.control.control m.q.events).rest)) =
        some (some ([], []), some [], [⟨3, 1⟩]) := by decide +kernel
  obtain ⟨m, ran, known⟩ := Option.map_eq_some_iff.mp state
  obtain ⟨destroyed, known⟩ := Prod.mk.inj known
  obtain ⟨nothing, working⟩ := Prod.mk.inj known
  have unused : ∀ etrs ∈ m.q.list.traverse, 2 ∉ etrs := by simp [nothing]
  obtain ⟨rest, etrs, q', ts, etrs', left, done, gone, -, above⟩ :=
    appended_of_run sharing_allowed ran unused ⟨0, 4⟩ [true]
  obtain ⟨rfl, -⟩ := Prod.mk.inj (Option.some.inj (destroyed.symm.trans left))
  refine ⟨m, q', ts, etrs', ran, done, gone, ?_⟩
  simpa [working] using above

end Engine

end EntryQueue

end Cors
