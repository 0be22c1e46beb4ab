import Mathlib.Data.List.SplitBy
import Cors.Lib.Wrapping
import Cors.Media.Player

/-! # Joined blocks

The queue always holds the blocks of one timestamp, and what is allocated for them is the room
that their start codes and data take, as long as an `int` can tell it.
-/

namespace Cors

namespace Store

theorem write_nil (store : Store) (pos : Int) : store.write pos [] = store := by
  funext p
  simp [write]

theorem write_append (store : Store) (pos : Int) (l r : Bytes) :
    (store.write pos l).write (pos + l.length) r = store.write pos (l ++ r) := by
  funext p
  by_cases before : p < pos
  · rw [write, if_neg (by omega), write, if_neg (by omega), write, if_neg (by omega)]
  · by_cases first : p < pos + l.length
    · have inside : (p - pos).toNat < l.length := by omega
      rw [write, if_neg (by omega), write, if_pos (by omega), write, if_pos (by omega),
        List.getElem?_append_left inside]
    · have beyond : l.length ≤ (p - pos).toNat := by omega
      have shift : (p - (pos + l.length)).toNat = (p - pos).toNat - l.length := by omega
      rw [write, if_pos (by omega), write, if_pos (by omega), write, if_pos (by omega),
        List.getElem?_append_right beyond, List.getElem?_eq_none beyond, shift, Option.none_or]

end Store

namespace BlockQueue

/-- What a block is joined as. -/
def startCode (block : Block) : Bytes := if block.mark ≠ 0 then [0, 0, 0, 1] else [0, 0, 1]

def coded (block : Block) : Bytes := startCode block ++ block.data

def content (group : List Block) : Bytes := group.flatMap coded

theorem content_append (group others : List Block) :
    content (group ++ others) = content group ++ content others := List.flatMap_append

theorem coded_length (block : Block) :
    (coded block).length = (if block.mark ≠ 0 then 4 else 3) + block.data.length := by
  rw [coded, startCode, List.length_append]
  split <;> rfl

/-- An `int` tells a length that is small enough. -/
theorem add_toInt_of_small {a b : Int32} {m n : Nat} (first : a.toInt = m) (second : b.toInt = n)
    (small : m + n < 2147483648) : (a + b).toInt = (m + n : Nat) := by
  have sum := Wrapping.add_toInt (a := a) (b := b) ⟨by omega, by omega⟩
  rw [sum, first, second]
  rfl

theorem room_toInt (block : Block) (small : (coded block).length < 2147483648) :
    (room block).toInt = (coded block).length := by
  rw [coded_length] at small ⊢
  rw [room]
  split
  · rw [if_pos ‹_›] at small
    exact add_toInt_of_small rfl block.size_toInt small
  · rw [if_neg ‹_›] at small
    exact add_toInt_of_small rfl block.size_toInt small

theorem write_parts (data : Store) {offset a b : Int32} {n : Nat} (here : offset.toInt = n)
    {zeros l : Bytes} (one : a.toInt = zeros.length) (behind : b.toInt = (zeros.length + 1 : Nat))
    (small : n + (zeros.length + 1) < 2147483648) :
    ((data.write offset.toInt zeros).write (offset + a).toInt [1]).write (offset + b).toInt l =
      data.write offset.toInt (zeros ++ [1] ++ l) := by
  have code := Store.write_append data n zeros [1]
  have all := Store.write_append data n (zeros ++ [1]) l
  rw [List.length_append, List.length_singleton] at all
  rw [here, add_toInt_of_small here one (by omega), add_toInt_of_small here behind small,
    Nat.cast_add, code, Nat.cast_add, all]

theorem drain_cons (data : Store) {offset : Int32} {n : Nat} (here : offset.toInt = n)
    (block : Block) (group : List Block) (small : n + (coded block).length < 2147483648) :
    drain data offset (block :: group) =
      drain (data.write offset.toInt (coded block)) (offset + room block) group := by
  rw [coded_length] at small
  rw [drain, room, coded, startCode]
  split
  · rw [if_pos ‹_›] at small
    have code : n + 4 < 2147483648 := by omega
    have parts := @write_parts data offset 3 4 n here [0, 0, 0] block.data rfl rfl code
    exact congrArg (drain · (offset + (4 + block.size)) group) parts
  · rw [if_neg ‹_›] at small
    have code : n + 3 < 2147483648 := by omega
    have parts := @write_parts data offset 2 3 n here [0, 0] block.data rfl rfl code
    exact congrArg (drain · (offset + (3 + block.size)) group) parts

theorem drain_eq (data : Store) {offset : Int32} {n : Nat} (here : offset.toInt = n)
    (group : List Block) (small : n + (content group).length < 2147483648) :
    drain data offset group = data.write offset.toInt (content group) := by
  induction group generalizing data offset n with
  | nil => exact (Store.write_nil data _).symm
  | cons block group ih =>
      have split : content (block :: group) = coded block ++ content group := List.flatMap_cons
      rw [split, List.length_append] at small
      have next : (offset + room block).toInt = (n + (coded block).length : Nat) :=
        add_toInt_of_small here (room_toInt block (by omega)) (by omega)
      rw [drain_cons data here block group (by omega), ih _ next (by omega), split, next, here,
        Nat.cast_add, Store.write_append]

/-! ## Groups -/

/-- What `sizeInQueue` is for the blocks in the queue. -/
def total (group : List Block) : Int32 := group.foldl (fun n block => n + room block) 0

def queueOf (group : List Block) : BlockQueue := ⟨group, total group⟩

def joinedOf (group : List Block) : Joined where
  allocated := total group
  size := total group
  ts := (group.getLast?.map (·.ts)).getD 0
  data := drain .empty 0 group

theorem total_concat (group : List Block) (block : Block) :
    total (group ++ [block]) = total group + room block := by
  rw [total, List.foldl_append]
  rfl

theorem total_toInt (group : List Block) (small : (content group).length < 2147483648) :
    (total group).toInt = (content group).length := by
  induction group using List.reverseRecOn with
  | nil => rfl
  | append_singleton group block ih =>
      have long : (content (group ++ [block])).length =
          (content group).length + (coded block).length := by
        rw [content_append, List.length_append, content, content, List.flatMap_singleton]
      rw [long] at small ⊢
      rw [total_concat]
      exact add_toInt_of_small (ih (by omega)) (room_toInt block (by omega)) small

theorem queueOf_singleton (block : Block) : queueOf [block] = ⟨[block], room block⟩ :=
  congrArg (BlockQueue.mk [block]) (Int32.zero_add _)

section Join
variable {group : List Block} {last block : Block}

theorem joinRTP_first (block : Block) : empty.joinRTP (some block) = (queueOf [block], none) :=
  congrArg (·, none) (queueOf_singleton block).symm

theorem joinRTP_same (there : group.getLast? = some last) (same : block.ts = last.ts) :
    (queueOf group).joinRTP (some block) = (queueOf (group ++ [block]), none) := by
  have kept : (some block).filter (·.ts = last.ts) = some block :=
    Option.filter_some_pos (decide_eq_true same)
  simp only [joinRTP, queueOf, there, kept, total_concat]

theorem joinRTP_other (there : group.getLast? = some last) (other : block.ts ≠ last.ts) :
    (queueOf group).joinRTP (some block) = (queueOf [block], some (joinedOf group)) := by
  have dropped : (some block).filter (·.ts = last.ts) = none :=
    Option.filter_some_neg (decide_eq_false other)
  rw [queueOf_singleton]
  simp only [joinRTP, queueOf, joinedOf, there, dropped, Option.map_some, Option.getD_some]

theorem joinRTP_flush (there : group.getLast? = some last) :
    (queueOf group).joinRTP none = (⟨[], total group⟩, some (joinedOf group)) := by
  simp only [joinRTP, queueOf, joinedOf, there, Option.filter_none, Option.map_some,
    Option.getD_some]

end Join

def sameTime (block other : Block) : Bool := block.ts = other.ts

/-- The maximal runs of blocks with one timestamp. -/
def runs (blocks : List Block) : List (List Block) := blocks.splitBy sameTime

section Runs
variable {group : List Block} {last block : Block}

theorem chain_concat (chain : group.IsChain (sameTime · ·)) (there : group.getLast? = some last)
    (same : block.ts = last.ts) : (group ++ [block]).IsChain (sameTime · ·) := by
  refine List.isChain_append.2 ⟨chain, List.isChain_singleton _, ?_⟩
  intro last' isLast
  rw [there] at isLast
  cases isLast
  rintro _ ⟨⟩
  exact decide_eq_true same.symm

/-- A run ends in front of another timestamp. -/
theorem runs_append_cons (chain : group.IsChain (sameTime · ·))
    (there : group.getLast? = some last) (other : block.ts ≠ last.ts) (blocks : List Block) :
    runs (group ++ block :: blocks) = group :: runs (block :: blocks) := by
  have some : group ≠ [] := by
    rintro rfl
    cases there
  have ends : ∀ last' ∈ group.getLast?, sameTime last' block = false := by
    intro last' isLast
    rw [there] at isLast
    cases isLast
    exact decide_eq_false other.symm
  rw [runs, List.splitBy_append_cons blocks ends, List.splitBy_of_isChain some chain]
  rfl

end Runs

/-- The queue holds the end of a run, and what is fed ends it or makes it longer. -/
theorem feed_queueOf (group : List Block) {last : Block} (there : group.getLast? = some last)
    (chain : group.IsChain (sameTime · ·)) (blocks : List Block) :
    ((queueOf group).feed blocks).1.blocks = [] ∧
      ((queueOf group).feed blocks).2 = (runs (group ++ blocks)).map joinedOf := by
  induction blocks generalizing group last with
  | nil =>
      have some : group ≠ [] := by
        rintro rfl
        cases there
      have alone : runs group = [group] := List.splitBy_of_isChain some chain
      rw [feed, joinRTP_flush there, List.append_nil, alone]
      exact ⟨rfl, rfl⟩
  | cons block blocks ih =>
      rw [feed]
      by_cases same : block.ts = last.ts
      · have rest := ih (group ++ [block]) List.getLast?_concat (chain_concat chain there same)
        rw [joinRTP_same there same, List.append_cons group block blocks]
        exact rest
      · obtain ⟨flushed, joined⟩ := ih [block] rfl (List.isChain_singleton _)
        rw [joinRTP_other there same, runs_append_cons chain there same]
        exact ⟨flushed, congrArg (joinedOf group :: ·) joined⟩

theorem feed_empty (blocks : List Block) :
    (empty.feed blocks).1.blocks = [] ∧ (empty.feed blocks).2 = (runs blocks).map joinedOf := by
  cases blocks with
  | nil => exact ⟨rfl, rfl⟩
  | cons block blocks =>
      rw [feed, joinRTP_first]
      exact feed_queueOf [block] rfl (List.isChain_singleton _) blocks

/-! ## What is joined -/

/-- The joined block carries the group, and what is allocated is enough. -/
structure Faithful (group : List Block) (joined : Joined) : Prop where
  time : ∀ block ∈ group, block.ts = joined.ts
  size : joined.size.toInt = (content group).length
  room : ((content group).length : Int) ≤ joined.allocated.toInt
  data : ∀ p, joined.data p = if 0 ≤ p then (content group)[p.toNat]? else none

/-- Every run is returned, in this order, and nothing is left in the queue. -/
def Assembled (blocks : List Block) : Prop :=
  List.Forall₂ Faithful (runs blocks) (empty.feed blocks).2 ∧ (empty.feed blocks).1.blocks = []

theorem time_of_chain {group : List Block} (chain : group.IsChain (sameTime · ·)) :
    ∀ block ∈ group, block.ts = (joinedOf group).ts := by
  have times : (group.map Block.ts).IsChain (· = ·) :=
    (List.isChain_map Block.ts).2 (chain.imp fun _ _ same => of_decide_eq_true same)
  have pairs := List.isChain_iff_pairwise.1 times
  induction group using List.reverseRecOn with
  | nil => exact List.forall_mem_nil _
  | append_singleton group last _ =>
      rw [joinedOf, List.getLast?_concat]
      intro block member
      rcases List.mem_append.1 member with earlier | isLast
      · rw [List.map_append] at pairs
        exact (List.pairwise_append.1 pairs).2.2 _ (List.mem_map_of_mem earlier) _
          (List.mem_singleton_self _)
      · rw [List.mem_singleton.1 isLast]
        rfl

theorem faithful_iff {group : List Block} (chain : group.IsChain (sameTime · ·)) :
    Faithful group (joinedOf group) ↔ (content group).length < 2147483648 := by
  constructor
  · rintro ⟨-, size, -, -⟩
    have bound := (joinedOf group).size.toInt_lt
    omega
  · intro small
    have told := total_toInt group small
    refine ⟨time_of_chain chain, told, told.ge, fun p => ?_⟩
    have written : (joinedOf group).data = Store.empty.write 0 (content group) :=
      drain_eq .empty (n := 0) rfl group (by omega)
    rw [written, Store.write]
    exact if_congr Iff.rfl (by rw [Int.sub_zero, Store.empty, Option.or_none]) rfl

/-- The frames are assembled exactly if an `int` tells the length of each. -/
theorem assembled_iff (blocks : List Block) :
    Assembled blocks ↔ ∀ group ∈ runs blocks, (content group).length < 2147483648 := by
  obtain ⟨flushed, joined⟩ := feed_empty blocks
  rw [Assembled, joined, List.forall₂_map_right_iff, List.forall₂_same, and_iff_left flushed]
  exact forall₂_congr fun group member => faithful_iff (List.isChain_of_mem_splitBy member)

/-- What is parsed from a datagram that fills the player's buffer. -/
def fullBlock : Block where
  data := List.replicate 2036 0
  mark := 0
  seq := 0
  ts := 0
  short := by
    rw [List.length_replicate]
    decide

/-- A run of more than a million such datagrams is not assembled. -/
theorem long_run_not_assembled : ¬Assembled (List.replicate 1100000 fullBlock) := by
  have size : (coded fullBlock).length = 2039 := by
    have data : fullBlock.data.length = 2036 := List.length_replicate
    rw [coded_length, data]
    rfl
  have chain : (List.replicate 1100000 fullBlock).IsChain (sameTime · ·) :=
    List.isChain_replicate_of_rel _ (decide_eq_true rfl)
  have alone : runs (List.replicate 1100000 fullBlock) = [List.replicate 1100000 fullBlock] :=
    List.splitBy_of_isChain (by rw [ne_eq, List.replicate_eq_nil_iff]; decide) chain
  rw [assembled_iff, alone, List.forall_mem_singleton, content, List.length_flatMap,
    List.map_replicate, size, List.sum_replicate_nat]
  decide

end BlockQueue

end Cors
