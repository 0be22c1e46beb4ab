import Mathlib.Data.List.Basic
import Cors.Lib.Run
import Cors.Lib.Text

/-! # Record sets

`RecordSet` of `cors_mysql`: the rows of a query, the names of its fields and a cursor. What
MySQL answers to a statement is given. `ExecuteSQL` appends the rows and the names to those that
are there, and nothing ever takes them away.
-/

namespace Cors

/-- What a query finds. A value may be NULL, and every row has one for each column. -/
structure ResultTable where
  columns : List Text
  rows : List (List (Option Text))
  full : ∀ row ∈ rows, row.length = columns.length

/-- What becomes of a statement: `mysql_real_query` fails, or there is no result, as for an
    insertion, or there is one. -/
inductive Answer where
  | failed
  | noResult
  | result (table : ResultTable)

/-- The members `m_s`, `pos` and `m_field.m_name`. -/
structure RecordSet where
  records : List (List Text)
  pos : Nat
  fieldNames : List Text

namespace RecordSet

def new : RecordSet := ⟨[], 0, []⟩

/-- A record of a row: NULL is stored as an empty text. -/
def recordOf (row : List (Option Text)) : List Text := row.map (·.getD [])

def executeSQL (rs : RecordSet) : Answer → RecordSet × Int
  | .failed => (rs, -1)
  | .noResult => (rs, -1)
  | .result table =>
      let fieldNames := rs.fieldNames ++ table.columns
      let records := rs.records ++ table.rows.map recordOf
      ({ rs with records, fieldNames }, records.length)

def moveNext (rs : RecordSet) : RecordSet := { rs with pos := rs.pos + 1 }

def moveFirst (rs : RecordSet) : RecordSet := { rs with pos := 0 }

def isEof (rs : RecordSet) : Bool := rs.pos = rs.records.length

/-- The record at the cursor. -/
def current (rs : RecordSet) : Option (List Text) := rs.records[rs.pos]?

/-- `GetCurrentFieldValue` into a buffer of `size` bytes. Nothing if the record or the field is
    not there or the value does not fit. -/
def getCurrentFieldValue (rs : RecordSet) (fieldName : Text) (size : Nat) : Option Text := do
  let record ← rs.current
  let i ← rs.fieldNames.idxOf? fieldName
  let value ← record[i]?
  if value.length < size then some value else none

/-- `while (!IsEof()) { …; MoveNext(); }` -/
def walk (visit : RecordSet → β) (rs : RecordSet) : List β × RecordSet :=
  if rs.isEof then
    ([], rs)
  else if rs.records.length < rs.pos then
    -- the cursor is behind the end, where the loop would not stop
    ([], rs)
  else
    let (seen, last) := walk visit rs.moveNext
    (visit rs :: seen, last)
termination_by rs.records.length - rs.pos
decreasing_by
  rename_i inside _
  have other : rs.pos ≠ rs.records.length := by simpa [isEof] using ‹¬rs.isEof = true›
  simp only [moveNext]
  omega

/-! ## Walks -/

section Walks
variable (visit : RecordSet → β)

/-- From a cursor inside, each record from there on is visited once and in order. -/
theorem walk_eq (rs : RecordSet) (inside : rs.pos ≤ rs.records.length) :
    rs.walk visit = ((List.range' rs.pos (rs.records.length - rs.pos)).map fun i =>
      visit { rs with pos := i }, { rs with pos := rs.records.length }) := by
  obtain ⟨n, left⟩ := Nat.exists_eq_add_of_le inside
  induction n generalizing rs with
  | zero =>
      have eof : rs.isEof = true := by simp [isEof, left]
      rw [walk, if_pos eof, left, Nat.add_zero, Nat.sub_self]
      rfl
  | succ n ih =>
      have more : ¬rs.isEof = true := by simp [isEof, left]
      have before : ¬rs.records.length < rs.pos := by omega
      have later := ih rs.moveNext (by simp only [moveNext]; omega) (by simp only [moveNext]; omega)
      have split : rs.records.length - rs.pos = n + 1 := by omega
      have rest : rs.records.length - (rs.pos + 1) = n := by omega
      simp only [moveNext, rest] at later
      rw [walk, if_neg more, if_neg before]
      simp only [moveNext, later, split, List.range'_succ, List.map_cons]

theorem walk_moveFirst (rs : RecordSet) :
    (rs.moveFirst.walk visit).1 = (List.range rs.records.length).map fun i =>
      visit { rs with pos := i } := by
  rw [walk_eq visit rs.moveFirst (Nat.zero_le _), List.range_eq_range']
  rfl

theorem walk_current (rs : RecordSet) : (rs.moveFirst.walk current).1 = rs.records.map some := by
  rw [walk_moveFirst]
  apply List.ext_getElem?
  intro i
  by_cases inside : i < rs.records.length
  · simp [current, inside]
  · simp [Nat.le_of_not_lt inside]

end Walks

/-! ## Runs -/

/-- What a program does with a record set. -/
inductive Call where
  | executeSQL (answer : Answer)
  | moveFirst
  | moveNext

def step (rs : RecordSet) : Call → RecordSet
  | .executeSQL answer => (rs.executeSQL answer).1
  | .moveFirst => rs.moveFirst
  | .moveNext => rs.moveNext

/-- The rows that the answer to a call brings. -/
def Call.rows : Call → List (List (Option Text))
  | .executeSQL (.result table) => table.rows
  | _ => []

theorem step_records (rs : RecordSet) (call : Call) :
    (rs.step call).records = rs.records ++ call.rows.map recordOf := by
  cases call with
  | executeSQL answer =>
      cases answer with
      | failed | noResult => exact (List.append_nil _).symm
      | result table => rfl
  | moveFirst | moveNext => exact (List.append_nil _).symm

theorem final_records (rs : RecordSet) (calls : List Call) :
    (Run.final step rs calls).records = rs.records ++ (calls.flatMap Call.rows).map recordOf := by
  induction calls generalizing rs with
  | nil => exact (List.append_nil _).symm
  | cons call calls ih =>
      rw [Run.final_cons, ih, step_records, List.flatMap_cons, List.map_append, List.append_assoc]

/-- After a query the walk from the first position visits its rows, each once and in order. -/
def WalkExact (rs : RecordSet) (table : ResultTable) : Prop :=
  let (visited, _) := (rs.executeSQL (.result table)).1.moveFirst.walk current
  visited = table.rows.map fun row => some (recordOf row)

theorem walkExact_iff_empty (rs : RecordSet) (table : ResultTable) :
    rs.WalkExact table ↔ rs.records = [] := by
  have visited := walk_current (rs.executeSQL (.result table)).1
  have rows : table.rows.map (fun row => some (recordOf row)) =
      (table.rows.map recordOf).map some := by
    rw [List.map_map]
    rfl
  rw [WalkExact]
  dsimp only
  rw [visited, rows]
  constructor
  · intro same
    have records := List.map_injective_iff.mpr (fun _ _ => Option.some.inj) same
    exact List.append_left_eq_self.mp records
  · intro empty
    rw [executeSQL, empty, List.nil_append]

theorem walkExact_iff (calls : List Call) (table : ResultTable) :
    (Run.final step new calls).WalkExact table ↔ ∀ call ∈ calls, call.rows = [] := by
  rw [walkExact_iff_empty, final_records]
  simp [new]

end RecordSet

end Cors
