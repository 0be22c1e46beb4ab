import Mathlib.Data.List.Sort
import Cors.Lib.Text
import Cors.Proxy.Consistency

/-! # Saving and restarting

`SimpleNbmtr::save` and the loop of the constructor that reads the file it writes. The type of
a neighbour is written as one byte and all other fields as numbers. A line that is not accepted
leaves its fields in the record that the next line is read into.
-/

namespace Cors

namespace SimpleNbmtr

open Text

/-! ## Writing -/

/-- The fields of a neighbour as they stand in the file. -/
def confLine (type : Int8) (addr : UInt32) (port : UInt16) (rtt : Number) (ts : Int32)
    (asn : UInt16) (mask : UInt32) : Text :=
  byteChar type :: ' ' :: (decimal addr.toNat ++ ' ' :: (decimal port.toNat ++ ' ' ::
    (rtt.chars ++ ' ' :: (decimalInt ts.toInt ++ ' ' ::
      (decimal asn.toNat ++ ' ' :: decimal mask.toNat)))))

def saveLine (fmt : RealFormat) (nb : Neighbor) : Text :=
  confLine nb.type nb.addr nb.port (fmt.print nb.rtt) nb.ts nb.asn nb.mask

def KeyOrder (a b : (_ : UInt32) × Nat) : Prop := a.1 ≤ b.1

instance : DecidableRel KeyOrder := fun a b => inferInstanceAs (Decidable (a.1 ≤ b.1))

instance : Std.Total KeyOrder := ⟨fun a b => UInt32.le_total a.1 b.1⟩

instance : IsTrans ((_ : UInt32) × Nat) KeyOrder := ⟨fun _ _ _ => UInt32.le_trans⟩

/-- The entries in the order a map is iterated in. -/
def ascending (nm : Table UInt32 Nat) : List ((_ : UInt32) × Nat) :=
  nm.entries.insertionSort KeyOrder

/-- The neighbours in the order they are saved in. -/
def saved (s : SimpleNbmtr) : List Neighbor := (ascending s.nm).map fun it => s.deref it.2

/-- The text `save` leaves in the file. -/
def save (fmt : RealFormat) (s : SimpleNbmtr) : Text := unlines (s.saved.map (saveLine fmt))

/-! ## Reading -/

/-- `iss >> type >> addr >> port >> rtt >> ts >> asn >> mask`. -/
def extractLine (fmt : RealFormat) (line : Text) (nb : Neighbor) : Neighbor :=
  let (type, iss) := extract readI8 (.of line) nb.type
  let (addr, iss) := extract readU32 iss nb.addr
  let (port, iss) := extract readU16 iss nb.port
  let (rtt, iss) := extract (readNumber fmt.value) iss nb.rtt
  let (ts, iss) := extract readI32 iss nb.ts
  let (asn, iss) := extract readU16 iss nb.asn
  let (mask, _) := extract readU32 iss nb.mask
  { nb with type, addr, port, rtt, ts, asn, mask }

/-- `new Neighbor()`. -/
def blank : Neighbor := .learned Neighbor.peer 0 0 0

/-- The record as each line leaves it; a new one is taken once it is entered. -/
def extractLines (fmt : RealFormat) (ifvec : List NetInterface) :
    Neighbor → List Text → List Neighbor
  | _, [] => []
  | pn, line :: rest =>
      let nb := extractLine fmt line pn
      nb :: extractLines fmt ifvec (if accepts ifvec nb then blank else nb) rest

/-- The constructor on a file. -/
def construct (fmt : RealFormat) (param : Param) (ifvec : List NetInterface) (file : Text)
    (junk : Mem) : Option SimpleNbmtr :=
  load param ifvec (extractLines fmt ifvec blank (lines file)) junk

/-! ## One line -/

/-- The types that are in use are printed as bytes that are read back. -/
theorem type_byte {type : Int8} (used : type = Neighbor.oracle ∨ type = Neighbor.peer) :
    isSpace (byteChar type) = false ∧ charByte (byteChar type) = type := by
  cases used with
  | inl oracle => rw [oracle]; decide
  | inr peer => rw [peer]; decide

theorem extractLine_confLine (fmt : RealFormat) {type : Int8}
    (used : type = Neighbor.oracle ∨ type = Neighbor.peer) (addr : UInt32) (port : UInt16)
    {rtt : Number} (formed : rtt.WellFormed) (ts : Int32) (asn : UInt16) (mask : UInt32)
    {rest : Text} (ended : Ended rest) (old : Neighbor) :
    extractLine fmt (confLine type addr port rtt ts asn mask ++ rest) old =
      { old with type, addr, port, rtt := fmt.value rtt, ts, asn, mask } := by
  obtain ⟨solid, back⟩ := type_byte used
  have decimalField (n : Nat) : Solid (decimal n) ∧ decimal n ≠ [] :=
    ⟨(decimal_digits n).solid, decimal_ne_nil n⟩
  let tail5 := decimal mask.toNat ++ rest
  let tail4 := decimal asn.toNat ++ ' ' :: tail5
  let tail3 := decimalInt ts.toInt ++ ' ' :: tail4
  let tail2 := rtt.chars ++ ' ' :: tail3
  let tail1 := decimal port.toNat ++ ' ' :: tail2
  have shape : confLine type addr port rtt ts asn mask ++ rest =
      byteChar type :: ' ' :: (decimal addr.toNat ++ ' ' :: tail1) := by
    simp [confLine, tail1, tail2, tail3, tail4, tail5]
  have typeRead (t : Text) :
      extract readI8 (.of (byteChar type :: t)) old.type = (type, .of t) := by
    rw [extract_solid _ solid, readI8, readChar, Prod.map, back]
    rfl
  have addrRead := extract_field (decimalField _).1 (decimalField _).2
    (readU32_decimal addr (ended_space tail1)) old.addr
  have portRead := extract_field (decimalField _).1 (decimalField _).2
    (readU16_decimal port (ended_space tail2)) old.port
  have rttRead := extract_field formed.solid formed.chars_ne_nil
    (readNumber_chars fmt.value formed (ended_space tail3)) old.rtt
  have tsRead := extract_field (decimalInt_solid _) (decimalInt_ne_nil _)
    (readI32_decimal ts (ended_space tail4)) old.ts
  have asnRead := extract_field (decimalField _).1 (decimalField _).2
    (readU16_decimal asn (ended_space tail5)) old.asn
  have maskRead := extract_field (decimalField _).1 (decimalField _).2
    (readU32_decimal mask ended) old.mask
  simp only [extractLine, shape, typeRead, addrRead, tail1, portRead, tail2, rttRead, tail3, tsRead,
    tail4, asnRead, tail5, maskRead]

theorem confLine_newline_notMem {type : Int8}
    (used : type = Neighbor.oracle ∨ type = Neighbor.peer) (addr : UInt32) (port : UInt16)
    {rtt : Number} (formed : rtt.WellFormed) (ts : Int32) (asn : UInt16) (mask : UInt32) :
    '\n' ∉ confLine type addr port rtt ts asn mask := by
  have number (n : Nat) : '\n' ∉ decimal n := (decimal_digits n).solid.newline_notMem
  have type : '\n' ≠ byteChar type := by
    intro same
    have solid := (type_byte used).1
    rw [← same] at solid
    cases solid
  simp only [confLine, List.mem_cons, List.mem_append, not_or]
  have space : '\n' ≠ ' ' := by decide
  exact ⟨type, space, number _, space, number _, space, formed.solid.newline_notMem, space,
    (decimalInt_solid _).newline_notMem, space, number _, space, number _⟩

/-! ## The whole file -/

/-- A neighbour as it comes back: the counter starts again, and what is kept of the round trip
    time is what its token says. -/
def reread (fmt : RealFormat) (nb : Neighbor) : Neighbor :=
  { nb with rtt := fmt.value (fmt.print nb.rtt), seq := 0 }

/-- Where every line is accepted, no record is used twice. -/
theorem extractLines_saveLine (fmt : RealFormat) {ifvec : List NetInterface} {nbs : List Neighbor}
    (used : ∀ nb ∈ nbs, nb.type = Neighbor.oracle ∨ nb.type = Neighbor.peer)
    (accepted : ∀ nb ∈ nbs, accepts ifvec nb = true) :
    extractLines fmt ifvec blank (nbs.map (saveLine fmt)) = nbs.map (reread fmt) := by
  induction nbs with
  | nil => rfl
  | cons nb nbs ih =>
      rw [List.forall_mem_cons] at used accepted
      have line : extractLine fmt (saveLine fmt nb) blank = reread fmt nb := by
        have read := extractLine_confLine fmt used.1 nb.addr nb.port (fmt.formed nb.rtt) nb.ts
          nb.asn nb.mask ended_nil blank
        rw [List.append_nil] at read
        exact read
      have entered : accepts ifvec (reread fmt nb) = true := accepted.1
      rw [List.map_cons, extractLines, line, if_pos entered, ih used.2 accepted.2, List.map_cons]

theorem lines_save (fmt : RealFormat) {s : SimpleNbmtr}
    (used : ∀ nb ∈ s.saved, nb.type = Neighbor.oracle ∨ nb.type = Neighbor.peer) :
    lines (s.save fmt) = s.saved.map (saveLine fmt) := by
  apply lines_unlines
  intro line member
  obtain ⟨nb, listed, rfl⟩ := List.mem_map.mp member
  exact confLine_newline_notMem (used nb listed) nb.addr nb.port (fmt.formed nb.rtt) nb.ts nb.asn
    nb.mask

theorem ascending_perm (nm : Table UInt32 Nat) : (ascending nm).Perm nm.entries :=
  List.perm_insertionSort KeyOrder nm.entries

theorem ascending_keys (nm : Table UInt32 Nat) :
    ((ascending nm).map Sigma.fst).Pairwise (· < ·) := by
  have ordered : ((ascending nm).map Sigma.fst).Pairwise (· ≤ ·) :=
    List.pairwise_map.mpr (List.pairwise_insertionSort KeyOrder nm.entries)
  have distinct : ((ascending nm).map Sigma.fst).Nodup :=
    ((ascending_perm nm).map Sigma.fst).nodup_iff.mpr nm.nodupKeys
  refine (ordered.and distinct).imp fun both => ?_
  exact UInt32.lt_of_le_of_ne both.1 both.2

theorem mem_saved {s : SimpleNbmtr} {nb : Neighbor} :
    nb ∈ s.saved ↔ ∃ addr p, s.find addr = some p ∧ s.deref p = nb := by
  simp only [saved, List.mem_map, (ascending_perm s.nm).mem_iff]
  constructor
  · intro found
    obtain ⟨it, entry, rfl⟩ := found
    exact ⟨it.1, it.2, Table.lookup_of_entry entry, rfl⟩
  · intro found
    obtain ⟨addr, p, stored, rfl⟩ := found
    exact ⟨⟨addr, p⟩, Table.entry_of_lookup stored, rfl⟩

theorem saved_addrs {s : SimpleNbmtr}
    (keyed : ∀ addr p, s.find addr = some p → (s.deref p).addr = addr) :
    s.saved.map Neighbor.addr = (ascending s.nm).map Sigma.fst := by
  rw [saved, List.map_map]
  apply List.map_congr_left
  intro it member
  exact keyed it.1 it.2 (Table.lookup_of_entry ((ascending_perm s.nm).mem_iff.mp member))

/-! ## The restart -/

/-- What has to come back of a neighbour. -/
def kept (nb : Neighbor) : Int8 × UInt32 × UInt16 × Int32 × UInt16 × UInt32 :=
  (nb.type, nb.addr, nb.port, nb.ts, nb.asn, nb.mask)

/-- The second table maps the same addresses to the same neighbours, and its list holds each
    once, in the order of the addresses. -/
structure Restored (s s' : SimpleNbmtr) : Prop where
  fields : ∀ addr, (s'.find addr).map (fun p => kept (s'.deref p)) =
    (s.find addr).map fun p => kept (s.deref p)
  listed : ∀ addr p, s'.find addr = some p ↔ p ∈ s'.nl ∧ (s'.deref p).addr = addr
  once : s'.nl.Nodup
  ascending : (s'.nl.map fun p => (s'.deref p).addr).Pairwise (· < ·)

theorem restored_of_list (fmt : RealFormat) {s s' : SimpleNbmtr}
    (keyed : ∀ addr p, s.find addr = some p → (s.deref p).addr = addr) (sound : s'.Sound)
    (list : s'.nl.map s'.deref = s.saved.map (reread fmt)) : Restored s s' := by
  have listed (addr : UInt32) (p : Nat) :
      s'.find addr = some p ↔ p ∈ s'.nl ∧ (s'.deref p).addr = addr := by
    constructor
    · exact sound.of_find
    · intro own
      obtain ⟨member, rfl⟩ := own
      exact sound.find_own member rfl
  have addrs :
      (s'.nl.map fun p => (s'.deref p).addr) = (SimpleNbmtr.ascending s.nm).map Sigma.fst := by
    have mapped := congrArg (List.map Neighbor.addr) list
    rw [List.map_map, List.map_map] at mapped
    exact mapped.trans (saved_addrs keyed)
  refine ⟨fun addr => ?_, listed, sound.consistent.nodup, addrs ▸ ascending_keys s.nm⟩
  cases found : s'.find addr with
  | some q =>
      obtain ⟨member, own⟩ := (listed addr q).mp found
      have back : s'.deref q ∈ s.saved.map (reread fmt) := list ▸ List.mem_map_of_mem member
      obtain ⟨nb, present, same⟩ := List.mem_map.mp back
      obtain ⟨addr', p, stored, rfl⟩ := mem_saved.mp present
      have key : addr' = addr := by
        rw [← keyed addr' p stored, ← own, ← same]
        rfl
      rw [← key, stored, Option.map_some, Option.map_some, ← same]
      rfl
  | none =>
      cases stored : s.find addr with
      | none => rfl
      | some p =>
          have present : reread fmt (s.deref p) ∈ s'.nl.map s'.deref :=
            list ▸ List.mem_map_of_mem (mem_saved.mpr ⟨addr, p, stored, rfl⟩)
          obtain ⟨q, member, same⟩ := List.mem_map.mp present
          have own : (s'.deref q).addr = addr := by
            rw [same, ← keyed addr p stored]
            rfl
          rw [(listed addr q).mpr ⟨member, own⟩] at found
          cases found

theorem saved_ne_nil {s : SimpleNbmtr} (nonempty : s.nm ≠ ∅) : s.saved ≠ [] := by
  intro empty
  apply nonempty
  apply AList.ext
  have none : ascending s.nm = [] := List.map_eq_nil_iff.mp empty
  have perm := ascending_perm s.nm
  rw [none] at perm
  exact perm.nil_eq.symm

theorem load_of_accepted (param : Param) {ifvec : List NetInterface} {lines : List Neighbor}
    (junk : Mem) {nb : Neighbor} (line : nb ∈ lines) (accepted : accepts ifvec nb = true) :
    ∃ s, load param ifvec lines junk = some s := by
  have entered : nb ∈ lines.filter (accepts ifvec) := List.mem_filter.mpr ⟨line, accepted⟩
  have listed := (loadTable_neighbors ifvec lines).1
  unfold load
  dsimp only
  split
  · rename_i empty
    rw [← listed, empty] at entered
    cases entered
  · exact ⟨_, rfl⟩

/-- A proxy that is started on the file that was saved has the same neighbours. -/
theorem save_restores (fmt : RealFormat) (param : Param) (junk : Mem) {s : SimpleNbmtr}
    (nonempty : s.nm ≠ ∅)
    (keyed : ∀ addr p, s.find addr = some p → (s.deref p).addr = addr)
    (used : ∀ addr p, s.find addr = some p →
      (s.deref p).type = Neighbor.oracle ∨ (s.deref p).type = Neighbor.peer)
    (accepted : ∀ addr p, s.find addr = some p → accepts s.ifvec (s.deref p) = true) :
    ∃ s', construct fmt param s.ifvec (s.save fmt) junk = some s' ∧ Restored s s' := by
  have used' : ∀ nb ∈ s.saved, nb.type = Neighbor.oracle ∨ nb.type = Neighbor.peer := by
    intro nb member
    obtain ⟨addr, p, stored, rfl⟩ := mem_saved.mp member
    exact used addr p stored
  have accepted' : ∀ nb ∈ s.saved, accepts s.ifvec nb = true := by
    intro nb member
    obtain ⟨addr, p, stored, rfl⟩ := mem_saved.mp member
    exact accepted addr p stored
  have read : extractLines fmt s.ifvec blank (lines (s.save fmt)) = s.saved.map (reread fmt) := by
    rw [lines_save fmt used', extractLines_saveLine fmt used' accepted']
  have accepted'' : ∀ nb ∈ s.saved.map (reread fmt), accepts s.ifvec nb = true := by
    intro nb member
    obtain ⟨nb', listed, rfl⟩ := List.mem_map.mp member
    exact accepted' nb' listed
  obtain ⟨nb, first⟩ := List.exists_mem_of_ne_nil _ (saved_ne_nil nonempty)
  obtain ⟨s', loaded⟩ := load_of_accepted param junk (List.mem_map_of_mem first)
    (accepted'' _ (List.mem_map_of_mem first))
  have distinct :
      (((s.saved.map (reread fmt)).filter (accepts s.ifvec)).map Neighbor.addr).Nodup := by
    have same : (s.saved.map (reread fmt)).map Neighbor.addr = s.saved.map Neighbor.addr :=
      List.map_map ..
    rw [List.filter_eq_self.mpr accepted'', same, saved_addrs keyed]
    exact (ascending_keys s.nm).imp UInt32.ne_of_lt
  have list : s'.nl.map s'.deref = s.saved.map (reread fmt) := by
    rw [(load_cases loaded).1, List.filter_eq_self.mpr accepted'']
  refine ⟨s', ?_, restored_of_list fmt keyed (load_sound loaded distinct) list⟩
  rw [construct, read, loaded]

/-- Whole numbers as they are printed; what lies between them is rounded. -/
def wholeFormat : RealFormat where
  print x := ⟨if x.floor < 0 then ['-'] else [], decimal x.floor.natAbs, none, none⟩
  value y :=
    if y.sign = ['-'] then -(Nat.ofDigitChars 10 y.whole 0 : Rat) else Nat.ofDigitChars 10 y.whole 0
  formed x := by
    have none {α : Type} (P : α → Prop) : ∀ a ∈ (none : Option α), P a := by
      intro a present
      cases present
    refine ⟨?_, decimal_digits _, none _, .inl (decimal_ne_nil _), none _⟩
    dsimp only
    split <;> rfl

/-- A table of an oracle and a peer comes back. -/
theorem save_restores_mixed :
    ∃ s', construct wholeFormat defaults loadedMixed.ifvec (loadedMixed.save wholeFormat)
      (fun _ => 0) = some s' ∧ Restored loadedMixed s' := by
  have entries : ∀ e ∈ loadedMixed.nm.entries, (loadedMixed.deref e.2).addr = e.1 ∧
      ((loadedMixed.deref e.2).type = Neighbor.oracle ∨
        (loadedMixed.deref e.2).type = Neighbor.peer) ∧
      accepts loadedMixed.ifvec (loadedMixed.deref e.2) = true := by decide
  have stored (addr : UInt32) (p : Nat) (found : loadedMixed.find addr = some p) :=
    entries _ (Table.entry_of_lookup found)
  apply save_restores wholeFormat defaults (fun _ => 0)
  · intro empty
    exact absurd (congrArg Table.size empty) (by decide)
  · exact fun addr p found => (stored addr p found).1
  · exact fun addr p found => (stored addr p found).2.1
  · exact fun addr p found => (stored addr p found).2.2

end SimpleNbmtr

end Cors
