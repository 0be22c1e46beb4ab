import Cors.Lib.Wrapping
import Cors.Media.JitterBuffer

/-! # What a jitter buffer plays

Sequence numbers are compared as they are, so the order of two packets is right just in case they
are of the same 65536. A run is played in order if every packet that is written is of those of the
packet that is wanted next. A stream whose numbers begin again while packets are in the buffer is
not.
-/

namespace Cors

namespace JitterBuffer

variable {stream : Nat → RTPDataFrame} {start : Nat}

/-- The `i`-th packet has the number `start + i` in 16 bits. -/
def Numbered (start : Nat) (stream : Nat → RTPDataFrame) : Prop :=
  ∀ i, (stream i).getSequenceNumber.toNat = (start + i) % 65536

/-- The number of all that is in front of the cycle of 65536 that a position is in. -/
def cycle (start i : Nat) : Nat := (start + i) / 65536

theorem sequenceOf_lt_iff (numbered : Numbered start stream) {i j : Nat}
    (same : cycle start i = cycle start j) :
    sequenceOf stream i < sequenceOf stream j ↔ i < j := by
  unfold cycle at same
  rw [sequenceOf, sequenceOf, numbered, numbered]
  omega

theorem eq_of_sequenceOf (numbered : Numbered start stream) {i j : Nat}
    (same : cycle start i = cycle start j) (equal : sequenceOf stream i = sequenceOf stream j) :
    i = j := by
  unfold cycle at same
  rw [sequenceOf, sequenceOf, numbered, numbered] at equal
  omega

/-! ## Runs over positions -/

section Playing
variable (stream)

/-- The position behind the last packet that was returned; at first that of the first packet. -/
def wanted (es : List (Event Nat)) : Option Nat :=
  ((played stream es).getLast?.map (· + 1)).or (accepted stream es).head?

/-- A packet that is written is of the 65536 of the one that is wanted, and the counter is not at
    its end. -/
def InCycle (start : Nat) (es : List (Event Nat)) : Event Nat → Prop
  | .write i => (accepted stream es).length < 2147483647 ∧
      ∀ d ∈ wanted stream es, cycle start i = cycle start d
  | .read _ => True

/-- The packet was written, or one behind it was returned, or it is in front of the first. -/
def Justified (es : List (Event Nat)) (i : Nat) : Prop :=
  i ∈ accepted stream es ∨ (∃ p ∈ played stream es, i < p) ∨
    ∃ first ∈ (accepted stream es).head?, i < first

structure PlayedInOrder (es : List (Event Nat)) : Prop where
  /-- The frames that are returned are those at the positions that are. -/
  frames : played id (es.map (Event.map stream)) = (played stream es).map stream
  increasing : (played stream es).Pairwise (· < ·)
  refusals : ∀ before i behind, es = before ++ .write i :: behind →
    ((after stream before).write stream i).2 = false → Justified stream before i

/-- What the run has done with the packets, as long as the numbers tell their order. -/
structure Account (start : Nat) (es : List (Event Nat)) : Prop where
  count : (after stream es).recvPackets.toInt = (accepted stream es).length
  untimed : (after stream es).timestampDeadline = 0
  idle : accepted stream es = [] → (after stream es).buffer = [] ∧ played stream es = []
  deadline : ∀ d ∈ wanted stream es,
    (after stream es).sequenceDeadline.toNat = (start + d) % 65536
  current : ∀ d ∈ wanted stream es, ∀ x ∈ (after stream es).buffer,
    d ≤ x ∧ cycle start x = cycle start d
  ascending : (after stream es).buffer.Pairwise (· < ·)
  increasing : (played stream es).Pairwise (· < ·)
  kept : ∀ i, i ∈ accepted stream es ↔ i ∈ played stream es ∨ i ∈ (after stream es).buffer

end Playing

theorem account_nil : Account stream start [] where
  count := rfl
  untimed := rfl
  idle := fun _ => ⟨rfl, rfl⟩
  deadline := fun _ none => nomatch none
  current := fun _ none => nomatch none
  ascending := .nil
  increasing := .nil
  kept := fun _ => ⟨fun none => (nomatch none), fun none => none.elim id id⟩

section Steps
variable {es es' : List (Event Nat)}

theorem wanted_congr (accepts : accepted stream es' = accepted stream es)
    (plays : played stream es' = played stream es) : wanted stream es' = wanted stream es := by
  rw [wanted, wanted, accepts, plays]

theorem Account.of_same (account : Account stream start es)
    (accepts : accepted stream es' = accepted stream es)
    (plays : played stream es' = played stream es) (same : after stream es' = after stream es) :
    Account stream start es' := by
  have next := wanted_congr accepts plays
  constructor
  case count =>
    rw [same, accepts]
    exact account.count
  case untimed =>
    rw [same]
    exact account.untimed
  case idle =>
    rw [same, accepts, plays]
    exact account.idle
  case deadline =>
    rw [same, next]
    exact account.deadline
  case current =>
    rw [same, next]
    exact account.current
  case ascending =>
    rw [same]
    exact account.ascending
  case increasing =>
    rw [plays]
    exact account.increasing
  case kept =>
    rw [same, accepts, plays]
    exact account.kept

theorem Account.played_lt (account : Account stream start es) {d p : Nat}
    (next : d ∈ wanted stream es) (member : p ∈ played stream es) : p < d := by
  have nonempty := List.ne_nil_of_mem member
  rw [wanted, List.getLast?_eq_some_getLast nonempty] at next
  obtain rfl := Option.some.inj next
  have split := List.dropLast_append_getLast nonempty
  have increasing := account.increasing
  rw [← split] at member increasing
  cases List.mem_append.mp member with
  | inl earlier =>
      exact Nat.lt_succ_of_lt
        ((List.pairwise_append.mp increasing).2.2 p earlier _ (List.mem_singleton_self _))
  | inr last => exact Nat.lt_succ_of_le (Nat.le_of_eq (List.mem_singleton.mp last))

/-- Once there was a packet one is wanted. -/
theorem exists_wanted (some : accepted stream es ≠ []) : ∃ d, d ∈ wanted stream es := by
  rw [wanted]
  cases (played stream es).getLast? with
  | none => exact ⟨_, List.head?_eq_some_head some⟩
  | some p => exact ⟨p + 1, rfl⟩

theorem Account.refused (numbered : Numbered start stream) (account : Account stream start es)
    {i d : Nat} (next : d ∈ wanted stream es) (same : cycle start i = cycle start d)
    (refused : Late stream (after stream es) i ∨
      Insertion.insert (sequenceOf stream) i (after stream es).buffer = none) :
    Justified stream es i := by
  rcases refused with (late | early) | twice
  · -- it is in front of the packet that is wanted
    have before : i < d := by
      rw [account.deadline d next, sequenceOf, numbered] at late
      unfold cycle at same
      omega
    rw [wanted] at next
    cases last : (played stream es).getLast? with
    | none =>
        rw [last] at next
        exact .inr (.inr ⟨d, next, before⟩)
    | some p =>
        rw [last] at next
        obtain rfl := Option.some.inj next
        have member : p ∈ played stream es := List.mem_of_getLast? last
        by_cases own : i = p
        · exact .inl ((account.kept i).mpr (.inl (own ▸ member)))
        · exact .inr (.inl ⟨p, member, Nat.lt_of_le_of_ne (Nat.le_of_lt_succ before) own⟩)
  · rw [account.untimed] at early
    exact absurd early UInt32.not_lt_zero
  · obtain ⟨y, member, equal⟩ := Insertion.insert_none twice
    have there := (account.current d next y member).2
    obtain rfl := eq_of_sequenceOf numbered (there.trans same.symm) equal
    exact .inl ((account.kept y).mpr (.inr member))

theorem accepted_write {i : Nat} {ok : Bool} (wrote : ((after stream es).write stream i).2 = ok) :
    accepted stream (es ++ [.write i]) = accepted stream es ++ if ok then [i] else [] := by
  rw [accepted_concat, accepts, wrote]
  cases ok <;> rfl

theorem played_write (i : Nat) : played stream (es ++ [.write i]) = played stream es := by
  rw [played_concat]
  exact List.append_nil _

theorem accepted_read (timestamp : UInt32) :
    accepted stream (es ++ [.read timestamp]) = accepted stream es := by
  rw [accepted_concat]
  exact List.append_nil _

theorem played_read (timestamp : UInt32) :
    played stream (es ++ [.read timestamp]) =
      played stream es ++ ((after stream es).read stream timestamp).2.1.toList :=
  played_concat stream es _

theorem Account.first (numbered : Numbered start stream) (account : Account stream start es)
    {i : Nat} (none : (after stream es).recvPackets = 0)
    (wrote : (after stream es).write stream i =
      ({ after stream es with
         buffer := (after stream es).buffer ++ [i]
         sequenceDeadline := (stream i).getSequenceNumber
         recvPackets := (after stream es).recvPackets + 1 }, true)) :
    Account stream start (es ++ [.write i]) := by
  have nothing : accepted stream es = [] := by
    have count := account.count
    rw [none] at count
    exact List.length_eq_zero_iff.mp (Int.ofNat.inj count.symm)
  obtain ⟨empty, unplayed⟩ := account.idle nothing
  have accepts : accepted stream (es ++ [.write i]) = [i] := by
    rw [accepted_write (congrArg Prod.snd wrote), nothing]
    rfl
  have plays : played stream (es ++ [.write i]) = [] := by
    rw [played_write, unplayed]
  have state : after stream (es ++ [.write i]) = { after stream es with
      buffer := [i]
      sequenceDeadline := (stream i).getSequenceNumber
      recvPackets := 1 } := by
    rw [after_concat, step, wrote, empty, none]
    rfl
  have next : wanted stream (es ++ [.write i]) = some i := by
    rw [wanted, accepts, plays]
    rfl
  constructor
  case count =>
    rw [state, accepts]
    rfl
  case untimed =>
    rw [state]
    exact account.untimed
  case idle =>
    rw [accepts]
    exact fun none => absurd none (List.cons_ne_nil i [])
  case deadline =>
    rw [state, next]
    intro d own
    obtain rfl := Option.some.inj own
    exact numbered i
  case current =>
    rw [state, next]
    intro d own x member
    obtain rfl := Option.some.inj own
    obtain rfl := List.mem_singleton.mp member
    exact ⟨Nat.le_refl x, rfl⟩
  case ascending =>
    rw [state]
    exact List.pairwise_singleton _ i
  case increasing =>
    rw [plays]
    exact .nil
  case kept =>
    rw [state, accepts, plays]
    simp

/-- In a buffer of one cycle the order of the numbers is that of the positions. -/
theorem ascending_iff (numbered : Numbered start stream) {d : Nat} {xs : List Nat}
    (same : ∀ x ∈ xs, cycle start x = cycle start d) :
    Insertion.Ascending (sequenceOf stream) xs ↔ xs.Pairwise (· < ·) := by
  constructor
  · refine List.Pairwise.imp_of_mem fun {x y} hx hy less => ?_
    exact (sequenceOf_lt_iff numbered ((same x hx).trans (same y hy).symm)).mp less
  · refine List.Pairwise.imp_of_mem fun {x y} hx hy less => ?_
    exact (sequenceOf_lt_iff numbered ((same x hx).trans (same y hy).symm)).mpr less

theorem Account.insert (numbered : Numbered start stream) (account : Account stream start es)
    {i d : Nat} {buffer : List Nat} (counted : accepted stream es ≠ [])
    (room : (accepted stream es).length < 2147483647)
    (next : d ∈ wanted stream es) (same : cycle start i = cycle start d)
    (punctual : ¬Late stream (after stream es) i)
    (inserted : Insertion.insert (sequenceOf stream) i (after stream es).buffer = some buffer)
    (wrote : (after stream es).write stream i =
      ({ after stream es with buffer, recvPackets := (after stream es).recvPackets + 1 }, true)) :
    Account stream start (es ++ [.write i]) := by
  have accepts : accepted stream (es ++ [.write i]) = accepted stream es ++ [i] :=
    accepted_write (congrArg Prod.snd wrote)
  have plays : played stream (es ++ [.write i]) = played stream es := played_write i
  have state : after stream (es ++ [.write i]) =
      { after stream es with buffer, recvPackets := (after stream es).recvPackets + 1 } := by
    rw [after_concat, step, wrote]
  have unchanged : wanted stream (es ++ [.write i]) = wanted stream es := by
    rw [wanted, wanted, accepts, plays, List.head?_append_of_ne_nil _ counted]
  have ordered := (ascending_iff numbered fun x member => (account.current d next x member).2).mpr
    account.ascending
  have members := Insertion.mem_of_insert ordered inserted
  have behind : d ≤ i := by
    by_contra before
    refine punctual (.inl ?_)
    rw [account.deadline d next, sequenceOf, numbered]
    unfold cycle at same
    omega
  have cycles : ∀ x ∈ buffer, d ≤ x ∧ cycle start x = cycle start d := by
    intro x member
    cases (members x).mp member with
    | inl own => exact own ▸ ⟨behind, same⟩
    | inr old => exact account.current d next x old
  constructor
  case count =>
    rw [state, accepts, List.length_append]
    have count := account.count
    have one : (1 : Int32).toInt = 1 := rfl
    have sum := Wrapping.add_toInt (a := (after stream es).recvPackets) (b := 1) (by
      rw [count, one]
      exact ⟨by omega, by omega⟩)
    rw [sum, count, one]
    rfl
  case untimed =>
    rw [state]
    exact account.untimed
  case idle =>
    rw [accepts]
    exact fun none => absurd (List.append_eq_nil_iff.mp none).1 counted
  case deadline =>
    rw [state, unchanged]
    exact account.deadline
  case current =>
    rw [state, unchanged]
    intro d' own
    obtain rfl := Option.some.inj (next.symm.trans own)
    exact cycles
  case ascending =>
    rw [state]
    exact (ascending_iff numbered fun x member => (cycles x member).2).mp
      (Insertion.ascending_of_insert ordered inserted)
  case increasing =>
    rw [plays]
    exact account.increasing
  case kept =>
    intro x
    rw [state, accepts, plays, List.mem_append, List.mem_singleton, members, account.kept]
    rw [or_right_comm, or_assoc]

theorem Account.write (numbered : Numbered start stream) (account : Account stream start es)
    {i : Nat} (meets : InCycle stream start es (.write i)) :
    Account stream start (es ++ [.write i]) := by
  obtain ⟨none, wrote⟩ | ⟨some, ⟨-, wrote⟩ | ⟨buffer, punctual, inserted, wrote⟩⟩ :=
    write_cases stream (after stream es) i
  · exact account.first numbered none wrote
  · refine account.of_same ?_ (played_write i) ?_
    · rw [accepted_write (congrArg Prod.snd wrote)]
      exact List.append_nil _
    · rw [after_concat, step, wrote]
  · have counted : accepted stream es ≠ [] := by
      intro nothing
      refine some (Int32.toInt_inj.mp ?_)
      rw [account.count, nothing]
      rfl
    obtain ⟨d, next⟩ := exists_wanted counted
    exact account.insert numbered counted meets.1 next (meets.2 d next) punctual inserted wrote

/-- The front of the buffer is returned, and the one behind it is wanted. -/
theorem Account.play (numbered : Numbered start stream) (account : Account stream start es)
    {timestamp : UInt32} {x : Nat} {buffer : List Nat}
    (there : (after stream es).buffer = x :: buffer)
    (punctual : ¬timestamp < convertTimestamp (stream x).getTimestamp) :
    Account stream start (es ++ [.read timestamp]) := by
  have result := read_cons stream there timestamp
  rw [if_neg punctual] at result
  have accepts : accepted stream (es ++ [.read timestamp]) = accepted stream es :=
    accepted_read timestamp
  have plays : played stream (es ++ [.read timestamp]) = played stream es ++ [x] := by
    rw [played_read, result]
    rfl
  have state : after stream (es ++ [.read timestamp]) =
      { after stream es with buffer, sequenceDeadline := (stream x).getSequenceNumber + 1 } := by
    rw [after_concat, step, result]
  have unchanged : wanted stream (es ++ [.read timestamp]) = some (x + 1) := by
    rw [wanted, plays, List.getLast?_concat]
    rfl
  have taken : x ∈ accepted stream es := (account.kept x).mpr (.inr (there ▸ List.mem_cons_self))
  obtain ⟨d, next⟩ := exists_wanted (List.ne_nil_of_mem taken)
  have current := account.current d next
  have ascending := account.ascending
  rw [there] at current ascending
  obtain ⟨own, others⟩ := List.forall_mem_cons.mp current
  obtain ⟨least, rest⟩ := List.pairwise_cons.mp ascending
  constructor
  case count =>
    rw [state, accepts]
    exact account.count
  case untimed =>
    rw [state]
    exact account.untimed
  case idle =>
    rw [accepts]
    exact fun none => absurd taken (none ▸ List.not_mem_nil)
  case deadline =>
    rw [state, unchanged]
    intro d' is
    obtain rfl := Option.some.inj is
    have number := numbered x
    rw [UInt16.toNat_add, number]
    exact Nat.mod_add_mod _ _ _
  case current =>
    rw [state, unchanged]
    intro d' is y member
    obtain rfl := Option.some.inj is
    have less := least y member
    have cycles := (others y member).2.trans own.2.symm
    unfold cycle at cycles ⊢
    omega
  case ascending =>
    rw [state]
    exact rest
  case increasing =>
    rw [plays]
    refine List.pairwise_append.mpr ⟨account.increasing, List.pairwise_singleton _ x, ?_⟩
    intro p earlier y last
    obtain rfl := List.mem_singleton.mp last
    exact Nat.lt_of_lt_of_le (account.played_lt next earlier) own.1
  case kept =>
    intro y
    rw [state, accepts, plays, account.kept, there, List.mem_append, List.mem_cons,
      List.mem_singleton, or_assoc]

theorem Account.read (numbered : Numbered start stream) (account : Account stream start es)
    (timestamp : UInt32) : Account stream start (es ++ [.read timestamp]) := by
  have idle (result : (after stream es).read stream timestamp = (after stream es, none, true)) :
      Account stream start (es ++ [.read timestamp]) := by
    refine account.of_same (accepted_read timestamp) ?_ ?_
    · rw [played_read, result]
      exact List.append_nil _
    · rw [after_concat, step, result]
  cases there : (after stream es).buffer with
  | nil => exact idle (read_nil stream there timestamp)
  | cons x buffer =>
      by_cases early : timestamp < convertTimestamp (stream x).getTimestamp
      · exact idle (by rw [read_cons stream there, if_pos early])
      · exact account.play numbered there early

end Steps

/-! ## Playing in order -/

theorem account_of_kept (numbered : Numbered start stream) {es : List (Event Nat)}
    (kept : Run.Meets (InCycle stream start) es) : Account stream start es := by
  refine Run.history_of_kept account_nil (fun es e account meets => ?_) es kept
  cases e with
  | write i => exact account.write numbered meets
  | read timestamp => exact account.read numbered timestamp

/-- As long as every packet that comes is of the cycle of the one that is wanted, all are played in
    order. -/
theorem played_in_order (numbered : Numbered start stream) {es : List (Event Nat)}
    (kept : Run.Meets (InCycle stream start) es) : PlayedInOrder stream es where
  frames := played_map id stream es
  increasing := (account_of_kept numbered kept).increasing
  refusals := by
    intro before i behind split refused
    have earlier : Run.Meets (InCycle stream start) before := fun first e rest own =>
      kept first e (rest ++ .write i :: behind) (by rw [split, own, List.append_assoc]; rfl)
    have meets : InCycle stream start before (.write i) := kept before _ behind split
    have account := account_of_kept numbered earlier
    obtain ⟨-, wrote⟩ | ⟨some, ⟨cause, -⟩ | ⟨buffer, -, -, wrote⟩⟩ :=
      write_cases stream (after stream before) i
    · rw [wrote] at refused
      cases refused
    · have counted : accepted stream before ≠ [] := by
        intro nothing
        refine some (Int32.toInt_inj.mp ?_)
        rw [account.count, nothing]
        rfl
      obtain ⟨d, next⟩ := exists_wanted counted
      exact account.refused numbered next (meets.2 d next) cause
    · rw [wrote] at refused
      cases refused

/-! ## Runs across the wrap -/

/-- Packets with the numbers from `start` on. -/
def sampleStream (start i : Nat) : RTPDataFrame := .numbered (start + i)

theorem sampleStream_numbered (start : Nat) : Numbered start (sampleStream start) := fun i =>
  RTPDataFrame.numbered_toNat (start + i)

/-- The buffer is read empty before the numbers begin again. -/
theorem drained_played_in_order :
    PlayedInOrder (sampleStream 65535) [.write 0, .read 0, .write 1, .read 1] := by
  refine played_in_order (sampleStream_numbered 65535) ?_
  let Kept (es : List (Event Nat)) : Prop := Run.Meets (InCycle (sampleStream 65535) 65535) es
  have first : Kept ([] ++ [.write 0]) :=
    Run.meets_concat.mpr ⟨Run.meets_nil, by decide, fun _ none => nomatch none⟩
  have second : Kept ([.write 0] ++ [.read 0]) := Run.meets_concat.mpr ⟨first, trivial⟩
  have next : wanted (sampleStream 65535) [.write 0, .read 0] = some 1 := by decide
  have third : Kept ([.write 0, .read 0] ++ [.write 1]) := by
    refine Run.meets_concat.mpr ⟨second, by decide, fun d own => ?_⟩
    obtain rfl := Option.some.inj (next.symm.trans own)
    rfl
  exact (Run.meets_concat.mpr ⟨third, trivial⟩ : Kept ([.write 0, .read 0, .write 1] ++ [.read 1]))

/-- No packet overtakes another by 32768 positions or more. -/
def Displaced (es : List (Event Nat)) : Prop :=
  (es.filterMap fun | .write i => some i | .read _ => none).Pairwise fun j i => j < i + 32768

/-- The times that are read at do not go back. -/
def Timely (es : List (Event Nat)) : Prop :=
  (es.filterMap fun | .write _ => none | .read timestamp => some timestamp).Pairwise (· ≤ ·)

/-- The packet behind the one with the last number is refused. -/
theorem wrapped_packet_refused :
    ¬ ∀ (start : Nat) (stream : Nat → RTPDataFrame) (es : List (Event Nat)),
      Numbered start stream → Displaced es → Timely es → PlayedInOrder stream es := by
  intro always
  have order := always 65535 (sampleStream 65535) [.write 0, .write 1]
    (sampleStream_numbered 65535) (by simp [Displaced]) (by simp [Timely])
  have justified := order.refusals [.write 0] 1 [] rfl (by decide)
  have accepts : accepted (sampleStream 65535) [.write 0] = [0] := by decide
  have plays : played (sampleStream 65535) [.write 0] = [] := by decide
  simp [Justified, accepts, plays] at justified

end JitterBuffer

end Cors
