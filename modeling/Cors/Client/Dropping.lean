import Cors.Client.Handling
import Cors.Client.Selection

/-! # Relays that drop out of the list

The reply to a probe that took too long removes a relay from the list. The reply to a
reservation enters one; it pushes the last one out of a full list, or is not entered itself
when the list is full of faster ones. All other relays stay.
-/

namespace Cors

namespace SimpleRlysltr

/-- The entry that the reply to a probe removes, with those that stay. -/
def removed (s : SimpleRlysltr) (tmNow : Timeval) (probe : CorsProbe) :
    Option (RelayNode × List RelayNode) :=
  if probe.relay.addr = 0 ∨ meetRequirement s.req (elapsed tmNow probe.timestamp) then
    none
  else
    (s.relaylist.findIdx? fun node => node.relay.addr = probe.relay.addr).bind fun pos =>
      s.relaylist[pos]?.map fun node => (node, s.relaylist.eraseIdx pos)

/-- The entry that finds no place when a reservation is answered, the new one or the last,
    with those that are in the list then. -/
def displaced (s : SimpleRlysltr) (tmNow : Timeval) (lossrate : UInt32) (probe : CorsProbe) :
    Option (RelayNode × List RelayNode) :=
  let node := relayNode probe tmNow lossrate
  match slot s.req.relaynum.toNat node.delay 0 s.relaylist with
  | none => some (node, s.relaylist)
  | some _ =>
      if s.req.relaynum.toNat ≤ s.relaylist.length then
        s.relaylist.getLast?.map fun last => (last, node :: s.relaylist.dropLast)
      else
        none

/-- An entry is in the list, or it is the one that was dropped and the others are. -/
def Retained (node : RelayNode) (dropped : Option (RelayNode × List RelayNode))
    (relaylist : List RelayNode) : Prop :=
  node ∈ relaylist ∨ ∃ others, dropped = some (node, others) ∧ others ⊆ relaylist

/-- The list has no more entries than are required. -/
def Short (s : SimpleRlysltr) : Prop := s.relaylist.length ≤ s.req.relaynum.toNat

/-- What no event changes: the requirement, and who talks to whom. -/
structure Frame (s s' : SimpleRlysltr) : Prop where
  src : s'.psk.src = s.psk.src
  dst : s'.psk.dst.sockaddr = s.psk.dst.sockaddr
  req : s'.req = s.req

theorem Frame.refl (s : SimpleRlysltr) : Frame s s := ⟨rfl, rfl, rfl⟩

variable {s : SimpleRlysltr} {msg : Mem} {len : Nat} {probe : CorsProbe}

/-! ## Replies to probes -/

theorem remove_frame (s : SimpleRlysltr) (addr : UInt32) : Frame s (s.remove addr) := by
  unfold remove
  split <;> exact ⟨rfl, rfl, rfl⟩

theorem remove_relaylist (s : SimpleRlysltr) (addr : UInt32) :
    (s.remove addr).relaylist =
      match s.relaylist.findIdx? fun node => node.relay.addr = addr with
      | none => s.relaylist
      | some pos => s.relaylist.eraseIdx pos := by
  unfold remove
  cases s.relaylist.findIdx? fun node => node.relay.addr = addr with
  | none | some pos => rfl

theorem processFwReply_frame (s : SimpleRlysltr) (tmNow : Timeval) (msg : Mem) (len : Nat) :
    Frame s (s.processFwReply tmNow msg len).1 := by
  unfold processFwReply
  split
  · exact Frame.refl s
  · dsimp only
    split
    · exact ⟨rfl, rfl, rfl⟩
    · split
      · split <;> exact ⟨rfl, rfl, rfl⟩
      · obtain ⟨src, dst, req⟩ := remove_frame { s with psk := _ } _
        exact ⟨src, dst, req⟩

theorem processFwReply_relaylist (decoded : parse CorsProbe.deserialize msg len = some probe)
    (tmNow : Timeval) :
    (s.processFwReply tmNow msg len).1.relaylist =
      if probe.relay.addr = 0 ∨ meetRequirement s.req (elapsed tmNow probe.timestamp) then
        s.relaylist
      else
        (s.remove probe.relay.addr).relaylist := by
  simp only [processFwReply, decoded]
  by_cases direct : probe.relay.addr = 0
  · simp only [direct, if_true, true_or]
  · by_cases meets : meetRequirement s.req (elapsed tmNow probe.timestamp)
    · simp only [direct, meets, if_false, if_true, or_true]
      split <;> rfl
    · simp only [direct, meets, if_false, or_self, remove_relaylist, Bool.false_eq_true]

theorem processFwReply_retains (decoded : parse CorsProbe.deserialize msg len = some probe)
    (tmNow : Timeval) : ∀ node ∈ s.relaylist,
      Retained node (s.removed tmNow probe) (s.processFwReply tmNow msg len).1.relaylist := by
  intro node listed
  rw [processFwReply_relaylist decoded, removed]
  split
  · exact .inl listed
  · rw [remove_relaylist]
    cases found : s.relaylist.findIdx? fun node => node.relay.addr = probe.relay.addr with
    | none => exact .inl listed
    | some pos =>
        obtain ⟨inside, -⟩ := List.findIdx?_eq_some_iff_getElem.mp found
        have taken := List.getElem?_eq_getElem inside
        cases Network.mem_or_eraseIdx taken listed with
        | inl same =>
            refine .inr ⟨_, ?_, List.Subset.refl _⟩
            simp only [Option.bind_some, taken, Option.map_some, same]
        | inr other => exact .inl other

theorem processFwReply_short (short : s.Short) (tmNow : Timeval) (msg : Mem) (len : Nat) :
    (s.processFwReply tmNow msg len).1.Short := by
  have fewer : (s.processFwReply tmNow msg len).1.relaylist.length ≤ s.relaylist.length := by
    cases decoded : parse CorsProbe.deserialize msg len with
    | none => simp only [processFwReply, decoded, Nat.le_refl]
    | some probe =>
        rw [processFwReply_relaylist decoded, remove_relaylist]
        split
        · exact Nat.le_refl _
        · split
          · exact Nat.le_refl _
          · exact List.length_eraseIdx_le ..
  rw [Short, (s.processFwReply_frame tmNow msg len).req]
  exact Nat.le_trans fewer short

/-! ## Replies to reservations -/

theorem trim_of_short (short : s.Short) : s.trim = s :=
  if_neg (Nat.not_lt.mpr short)

theorem insertNode_trim_of_none (short : s.Short) {node : RelayNode}
    (found : slot s.req.relaynum.toNat node.delay 0 s.relaylist = none) :
    (s.insertNode node).trim = s := by
  simp only [insertNode, found, trim_of_short short]

theorem processBwReply_frame (s : SimpleRlysltr) (tmNow : Timeval) (lossrate : UInt32)
    (msg : Mem) (len : Nat) : Frame s (s.processBwReply tmNow lossrate msg len) := by
  unfold processBwReply
  split
  · exact Frame.refl s
  · unfold trim insertNode
    split <;> split <;> exact ⟨rfl, rfl, rfl⟩

theorem processBwReply_retains (short : s.Short)
    (decoded : parse CorsProbe.deserialize msg len = some probe) (tmNow : Timeval)
    (lossrate : UInt32) {node : RelayNode}
    (listed : node ∈ s.relaylist ∨ node = relayNode probe tmNow lossrate) :
    Retained node (s.displaced tmNow lossrate probe)
      (s.processBwReply tmNow lossrate msg len).relaylist := by
  let new := relayNode probe tmNow lossrate
  simp only [processBwReply, decoded, displaced]
  cases found : slot s.req.relaynum.toNat new.delay 0 s.relaylist with
  | none =>
      rw [insertNode_trim_of_none short found]
      cases listed with
      | inl old => exact .inl old
      | inr same => exact .inr ⟨s.relaylist, by rw [same], List.Subset.refl _⟩
  | some pos =>
      obtain ⟨inside, early⟩ := slot_inside found
      rw [insertNode_trim_relaylist s new found]
      by_cases full : s.req.relaynum.toNat ≤ s.relaylist.length
      · have within : pos ≤ s.relaylist.dropLast.length := by
          rw [List.length_dropLast]
          omega
        have members (other : RelayNode) : other ∈ s.relaylist.dropLast.insertIdx pos new ↔
            other = new ∨ other ∈ s.relaylist.dropLast := List.mem_insertIdx within
        simp only [if_pos full]
        cases listed with
        | inl old =>
            have more := List.ne_nil_of_mem old
            rw [← List.dropLast_append_getLast more, List.mem_append, List.mem_singleton] at old
            cases old with
            | inl early => exact .inl ((members node).mpr (.inr early))
            | inr last =>
                refine .inr ⟨new :: s.relaylist.dropLast, ?_, fun other stays => ?_⟩
                · rw [List.getLast?_eq_some_getLast more, last]
                  rfl
                · exact (members other).mpr (List.mem_cons.mp stays)
        | inr same => exact .inl ((members node).mpr (.inl same))
      · simp only [if_neg full]
        exact .inl ((List.mem_insertIdx inside).mpr listed.symm)

theorem processBwReply_short (short : s.Short) (tmNow : Timeval) (lossrate : UInt32)
    (msg : Mem) (len : Nat) : (s.processBwReply tmNow lossrate msg len).Short := by
  have frame := s.processBwReply_frame tmNow lossrate msg len
  rw [Short, frame.req]
  unfold processBwReply
  split
  · exact short
  · rename_i probe _
    let new := relayNode probe tmNow lossrate
    cases found : slot s.req.relaynum.toNat new.delay 0 s.relaylist with
    | none =>
        rw [insertNode_trim_of_none short found]
        exact short
    | some pos =>
        obtain ⟨inside, early⟩ := slot_inside found
        rw [insertNode_trim_relaylist s new found]
        have bound : s.relaylist.length ≤ s.req.relaynum.toNat := short
        split
        · rw [List.length_insertIdx_of_le_length] <;> rw [List.length_dropLast] <;> omega
        · rw [List.length_insertIdx_of_le_length inside]
          omega

end SimpleRlysltr

end Cors
