import Cors.Database.Translator
import Cors.Protocol.RoundTrip

/-! # The rows of one query

A record set is used for all queries, so a walk over it visits the rows of all of them. What the
server sends is cut after twenty relays, and is right all the same when a long result starts like
the rows before it.
-/

namespace Cors

namespace Translator

open Text ByteFormat

/-! ## The table `path` -/

section Path
variable (columns : List Text)

/-- The value of `rly_asn` in a record of the table. -/
def rlyAsnOf (record : List Text) : Text := (record[columns.idxOf rlyAsn]?).getD []

def relayOf (record : List Text) : EndPoint := endpointOf (rlyAsnOf columns record)

/-- An answer to a query of the table: its fields, and no value too long for the buffer. -/
def OfPath : Answer → Prop
  | .result table => table.columns = columns ∧
      ∀ row ∈ table.rows, (rlyAsnOf columns (RecordSet.recordOf row)).length < 40
  | _ => True

/-- All records are of the table. -/
structure Serving (rs : RecordSet) : Prop where
  fields : rs.records ≠ [] → columns <+: rs.fieldNames
  begun : rs.fieldNames ≠ [] → columns <+: rs.fieldNames
  long : ∀ record ∈ rs.records, record.length = columns.length
  short : ∀ record ∈ rs.records, (rlyAsnOf columns record).length < 40

variable {columns}

theorem new_serving : Serving columns .new where
  fields := fun some => absurd rfl some
  begun := fun some => absurd rfl some
  long := fun _ none => nomatch none
  short := fun _ none => nomatch none

theorem Serving.moved {rs : RecordSet} (serving : Serving columns rs) (pos : Nat) :
    Serving columns { rs with pos } := ⟨serving.fields, serving.begun, serving.long, serving.short⟩

theorem Serving.executeSQL {rs : RecordSet} (serving : Serving columns rs) {answer : Answer}
    (path : OfPath columns answer) : Serving columns (rs.executeSQL answer).1 := by
  cases answer with
  | failed | noResult => exact serving
  | result table =>
      obtain ⟨own, narrow⟩ := path
      have begun : columns <+: rs.fieldNames ++ table.columns := by
        by_cases empty : rs.fieldNames = []
        · rw [empty, own]
          exact List.prefix_rfl
        · exact (serving.begun empty).trans (List.prefix_append _ _)
      refine ⟨fun _ => begun, fun _ => begun, ?_, ?_⟩
      · refine List.forall_mem_append.mpr
          ⟨serving.long, List.forall_mem_map.mpr fun row member => ?_⟩
        rw [RecordSet.recordOf, List.length_map, table.full row member, own]
      · exact List.forall_mem_append.mpr ⟨serving.short, List.forall_mem_map.mpr narrow⟩

theorem idxOf?_of_mem {name : Text} {names : List Text} (listed : name ∈ names) :
    names.idxOf? name = some (names.idxOf name) := by
  cases found : names.idxOf? name with
  | none => exact absurd listed (List.idxOf?_eq_none_iff.mp found)
  | some i => rw [List.idxOf_eq_getD_idxOf?, found, Option.getD_some]

theorem idxOf?_rlyAsn (listed : rlyAsn ∈ columns) {names : List Text} (begun : columns <+: names) :
    names.idxOf? rlyAsn = some (columns.idxOf rlyAsn) := by
  obtain ⟨more, rfl⟩ := begun
  rw [idxOf?_of_mem (List.mem_append_left more listed), List.idxOf_append_of_mem listed]

theorem currentRelay_eq (listed : rlyAsn ∈ columns) {rs : RecordSet}
    (serving : Serving columns rs) {record : List Text} (here : rs.current = some record) :
    currentRelay rs = some (relayOf columns record) := by
  have member : record ∈ rs.records := List.mem_of_getElem? here
  have names := idxOf?_rlyAsn listed (serving.fields (List.ne_nil_of_mem member))
  have inside : columns.idxOf rlyAsn < record.length := by
    rw [serving.long record member]
    exact List.idxOf_lt_length_of_mem listed
  have value : record[columns.idxOf rlyAsn]? = some (rlyAsnOf columns record) := by
    rw [rlyAsnOf, List.getElem?_eq_getElem inside, Option.getD_some]
  simp [currentRelay, RecordSet.getCurrentFieldValue, here, names, value,
    serving.short record member, relayOf]

theorem walk_currentRelay (listed : rlyAsn ∈ columns) {rs : RecordSet}
    (serving : Serving columns rs) :
    (rs.moveFirst.walk currentRelay).1 = (rs.records.map (relayOf columns)).map some := by
  rw [RecordSet.walk_moveFirst, List.map_map]
  apply List.ext_getElem?
  intro i
  by_cases inside : i < rs.records.length
  · have here : RecordSet.current { rs with pos := i } = some rs.records[i] :=
      List.getElem?_eq_getElem inside
    simp [inside, currentRelay_eq listed (serving.moved i) here]
  · simp [Nat.le_of_not_lt inside]

theorem mapM_some (xs : List α) : (xs.map some).mapM id = some xs := by
  induction xs with
  | nil => rfl
  | cons x xs ih =>
      rw [List.map_cons, List.mapM_cons, ih]
      rfl

theorem processInquiry_eq (listed : rlyAsn ∈ columns) {rs : RecordSet} {answer : Answer}
    (serving : Serving columns (rs.executeSQL answer).1) {msg : Mem} {len : Nat}
    {inquiry : CorsInquiry} (parsed : parse CorsInquiry.deserialize msg len = some inquiry) :
    processInquiry rs answer msg len =
      some (((rs.executeSQL answer).1.moveFirst.walk currentRelay).2,
        ⟨[selectSql], some (filterOf inquiry
          ((rs.executeSQL answer).1.records.map (relayOf columns))).serialize⟩) := by
  rw [processInquiry, parsed]
  dsimp only
  rw [walk_currentRelay listed serving, mapM_some]
  rfl

theorem walk_serving {rs : RecordSet} (serving : Serving columns rs) (visit : RecordSet → β) :
    Serving columns (rs.moveFirst.walk visit).2 := by
  rw [RecordSet.walk_eq visit rs.moveFirst (Nat.zero_le _)]
  exact serving.moved _

end Path

/-! ## Requests -/

/-- A datagram that comes into a buffer with something in it, the answers of MySQL and the
    readings of the clock. -/
structure Request where
  rest : Mem
  datagram : Bytes
  answers : Nat → Answer
  now : Nat → Int32

namespace Request

/-- The buffer when the datagram is in it. -/
def msg (r : Request) : Mem := r.rest.receive (r.datagram.take corsMaxMsgSize)

def Inquires (r : Request) : Prop :=
  0 < r.datagram.length ∧ PacketType.ofCode? (r.msg.get u8 0) = some .rlyInquiry

instance (r : Request) : Decidable r.Inquires := inferInstanceAs (Decidable (_ ∧ _))

/-- MySQL answers a query with rows of the table, and an insertion without a result. -/
def Answered (columns : List Text) (r : Request) : Prop :=
  if r.Inquires then OfPath columns (r.answers 0)
  else ∀ i, r.answers i = .failed ∨ r.answers i = .noResult

/-- The rows that the query of the request brings. -/
def rows (r : Request) : List (List (Option Text)) :=
  if r.Inquires then (RecordSet.Call.executeSQL (r.answers 0)).rows else []

end Request

def step (rs : RecordSet) (r : Request) : Option RecordSet :=
  (receive rs r.answers r.now r.rest r.datagram).map Prod.fst

/-- What the buffer holds where it is taken for an inquiry. -/
def inquiryIn (msg : Mem) : CorsInquiry where
  type := .rlyInquiry
  ttl := msg.get u8 1
  requiredRelays := msg.get u8 2
  source := msg.get EndPoint.format 3
  destination := msg.get EndPoint.format 15
  proxy := msg.get EndPoint.format 27

theorem inquiry_parsed {msg : Mem} (type : PacketType.ofCode? (msg.get u8 0) = some .rlyInquiry) :
    parse CorsInquiry.deserialize msg corsMaxMsgSize = some (inquiryIn msg) := by
  have first : msg.get u8 0 = msg 0 := Mem.get_u8 msg 0
  have known : recognise CorsInquiry.accepted (msg 0) = some .rlyInquiry := by
    rw [recognise, ← first, type]
    rfl
  have fits : Scan.Fits corsMaxMsgSize 1 CorsInquiry.layout := by decide
  simp only [parse, CorsInquiry.deserialize_run, known, if_pos fits, Option.map_some, inquiryIn]

theorem insertLoop_records {answers : Nat → Answer}
    (bare : ∀ i, answers i = .failed ∨ answers i = .noResult) (source destination : EndPoint)
    (now : Nat → Int32) (i : Nat) (values : Text) (rs : RecordSet) (entries : List ReportEntry) :
    (insertLoop source destination answers now i values rs entries).1 = rs := by
  induction entries generalizing i values rs with
  | nil => rfl
  | cons entry entries ih =>
      have same : (rs.executeSQL (answers i)).1 = rs := by
        cases bare i with
        | inl failed => rw [failed]; rfl
        | inr none => rw [none]; rfl
      rw [insertLoop]
      dsimp only
      rw [ih, same]

section Steps
variable {columns : List Text} {rs : RecordSet} {r : Request}

theorem receive_inquiry (inquires : r.Inquires) :
    receive rs r.answers r.now r.rest r.datagram =
      processInquiry rs (r.answers 0) r.msg corsMaxMsgSize := by
  have dispatched : dispatch rs r.answers r.now r.msg =
      processInquiry rs (r.answers 0) r.msg corsMaxMsgSize := by
    rw [dispatch, inquires.2]
  rw [receive, if_pos inquires.1]
  exact dispatched

theorem step_other (other : ¬r.Inquires)
    (bare : ∀ i, r.answers i = .failed ∨ r.answers i = .noResult) : step rs r = some rs := by
  rw [step, receive]
  by_cases some : 0 < r.datagram.length
  · rw [if_pos some]
    change (dispatch rs r.answers r.now r.msg).map Prod.fst = _
    unfold dispatch
    split
    · rename_i type
      exact absurd ⟨some, type⟩ other
    · rw [Option.map_some, processReport]
      split
      · rfl
      · exact congrArg Option.some (insertLoop_records bare _ _ _ _ _ _ _)
    · rfl
  · rw [if_neg some]
    rfl

theorem step_inquiry (listed : rlyAsn ∈ columns) (serving : Serving columns rs)
    (inquires : r.Inquires) (path : OfPath columns (r.answers 0)) :
    step rs r = some ((rs.executeSQL (r.answers 0)).1.moveFirst.walk currentRelay).2 := by
  rw [step, receive_inquiry inquires, processInquiry_eq listed (serving.executeSQL path)
    (inquiry_parsed inquires.2), Option.map_some]

/-- Every request is served, and only queries add rows. -/
theorem step_serves (listed : rlyAsn ∈ columns) (serving : Serving columns rs)
    (answered : r.Answered columns) :
    ∃ rs', step rs r = some rs' ∧ Serving columns rs' ∧
      rs'.records = rs.records ++ r.rows.map RecordSet.recordOf := by
  by_cases inquires : r.Inquires
  · rw [Request.Answered, if_pos inquires] at answered
    refine ⟨_, step_inquiry listed serving inquires answered,
      walk_serving (serving.executeSQL answered) _, ?_⟩
    rw [Request.rows, if_pos inquires, RecordSet.walk_eq _ _ (Nat.zero_le _)]
    exact RecordSet.step_records rs (.executeSQL (r.answers 0))
  · rw [Request.Answered, if_neg inquires] at answered
    refine ⟨rs, step_other inquires answered, serving, ?_⟩
    rw [Request.rows, if_neg inquires, List.map_nil, List.append_nil]

theorem attempt_serves (listed : rlyAsn ∈ columns) (serving : Serving columns rs)
    {requests : List Request} (answered : ∀ r ∈ requests, r.Answered columns) :
    ∃ rs', Run.attempt step rs requests = some rs' ∧ Serving columns rs' ∧
      rs'.records = rs.records ++ (requests.flatMap Request.rows).map RecordSet.recordOf := by
  induction requests generalizing rs with
  | nil => exact ⟨rs, rfl, serving, (List.append_nil _).symm⟩
  | cons r requests ih =>
      rw [List.forall_mem_cons] at answered
      obtain ⟨next, stepped, serves, added⟩ := step_serves listed serving answered.1
      obtain ⟨last, ran, ends, all⟩ := ih serves answered.2
      refine ⟨last, ?_, ends, ?_⟩
      · rw [Run.attempt_cons, stepped, Option.bind_some, ran]
      · rw [all, added, List.flatMap_cons, List.map_append, List.append_assoc]

end Steps

/-! ## Filters -/

/-- Filters are the same bytes just in case they list the same first twenty relays. -/
theorem filter_serialize_iff (inquiry : CorsInquiry) (relays relays' : List EndPoint) :
    (filterOf inquiry relays).serialize = (filterOf inquiry relays').serialize ↔
      relays.take maxAdvicedRelays.toNat = relays'.take maxAdvicedRelays.toNat := by
  have own (l : List EndPoint) : (filterOf inquiry l).type ∈ CorsAdvice.accepted := by
    simp [filterOf, CorsAdvice.accepted]
  constructor
  · intro same
    have parsed := CorsAdvice.parse_serialize (own relays)
      (Mem.receive_holds (fun _ => 0) (filterOf inquiry relays).serialize)
    have parsed' := CorsAdvice.parse_serialize (own relays')
      (Mem.receive_holds (fun _ => 0) (filterOf inquiry relays').serialize)
    rw [← same, parsed] at parsed'
    exact congrArg CorsAdvice.relays (Option.some.inj parsed')
  · intro same
    have count : cutSize maxAdvicedRelays relays = cutSize maxAdvicedRelays relays' := by
      apply UInt8.toNat_inj.mp
      have lengths := congrArg List.length same
      rw [List.length_take, List.length_take] at lengths
      rw [cutSize_toNat, cutSize_toNat, lengths]
    simp only [CorsAdvice.serialize, filterOf, count]
    rw [← count, take_cutSize, same, count, take_cutSize]

/-- The relays of some rows. -/
def relaysOf (columns : List Text) (rows : List (List (Option Text))) : List EndPoint :=
  (rows.map RecordSet.recordOf).map (relayOf columns)

/-- The FILTER lists the first relays of the query's own rows. -/
def FilterExact (columns : List Text) (rs : RecordSet) (r : Request) (table : ResultTable) : Prop :=
  (receive rs r.answers r.now r.rest r.datagram).map (fun out => out.2.filter) =
    some (some (filterOf (inquiryIn r.msg) (relaysOf columns table.rows)).serialize)

/-- Something in front does not show in the first `n` if these are all there and repeat it. -/
theorem take_append_iff (n : Nat) (xs ys : List α) :
    (xs ++ ys).take n = ys.take n ↔ xs = [] ∨ n ≤ ys.length ∧ xs.take n <+: ys ∧
      ∀ i, i + xs.length < n → ys[i + xs.length]? = ys[i]? := by
  constructor
  · intro same
    by_cases empty : xs = []
    · exact .inl empty
    · have front := List.length_pos_of_ne_nil empty
      have lengths := congrArg List.length same
      simp only [List.length_take, List.length_append] at lengths
      have agree (i : Nat) (inside : i < n) : (xs ++ ys)[i]? = ys[i]? := by
        rw [← List.getElem?_take_of_lt inside, same, List.getElem?_take_of_lt inside]
      refine .inr ⟨by omega, ?_, ?_⟩
      · have first : xs.take n <+: ys.take n := by
          rw [← same, List.take_append]
          exact List.prefix_append _ _
        exact first.trans (List.take_prefix n ys)
      · intro i inside
        rw [← agree _ inside, List.getElem?_append_right (Nat.le_add_left _ _), Nat.add_sub_cancel]
  · rintro (rfl | ⟨_, first, again⟩)
    · rfl
    · apply List.ext_getElem?
      intro i
      by_cases inside : i < n
      · rw [List.getElem?_take_of_lt inside, List.getElem?_take_of_lt inside]
        by_cases front : i < xs.length
        · have there : i < (xs.take n).length := by
            rw [List.length_take]
            omega
          have value := first.getElem there
          have bound : i < ys.length := Nat.lt_of_lt_of_le there first.length_le
          rw [List.getElem?_append_left front, List.getElem?_eq_getElem front,
            List.getElem?_eq_getElem bound, ← value, List.getElem_take]
        · have back := again (i - xs.length) (by omega)
          rw [Nat.sub_add_cancel (Nat.le_of_not_lt front)] at back
          rw [List.getElem?_append_right (Nat.le_of_not_lt front), back]
      · rw [List.getElem?_eq_none (by simp; omega), List.getElem?_eq_none (by simp; omega)]

section Exactness
variable {columns : List Text} {rs : RecordSet} {r : Request} {table : ResultTable}

theorem filterExact_iff (listed : rlyAsn ∈ columns) (serving : Serving columns rs)
    {rows : List (List (Option Text))} (held : rs.records = rows.map RecordSet.recordOf)
    (inquires : r.Inquires) (answer : r.answers 0 = .result table)
    (path : OfPath columns (.result table)) :
    FilterExact columns rs r table ↔ rows = [] ∨
      maxAdvicedRelays.toNat ≤ table.rows.length ∧
      (relaysOf columns rows).take maxAdvicedRelays.toNat <+: relaysOf columns table.rows ∧
      ∀ i, i + rows.length < maxAdvicedRelays.toNat →
        (relaysOf columns table.rows)[i + rows.length]? = (relaysOf columns table.rows)[i]? := by
  have all : ((rs.executeSQL (.result table)).1.records.map (relayOf columns)) =
      relaysOf columns rows ++ relaysOf columns table.rows := by
    rw [RecordSet.executeSQL, held, List.map_append]
    rfl
  have sent : (receive rs r.answers r.now r.rest r.datagram).map (fun out => out.2.filter) =
      some (some (filterOf (inquiryIn r.msg)
        (relaysOf columns rows ++ relaysOf columns table.rows)).serialize) := by
    rw [receive_inquiry inquires, answer, processInquiry_eq listed (serving.executeSQL path)
      (inquiry_parsed inquires.2), all, Option.map_some]
  have none : relaysOf columns rows = [] ↔ rows = [] := by simp [relaysOf]
  have long (l : List (List (Option Text))) : (relaysOf columns l).length = l.length := by
    simp [relaysOf]
  rw [FilterExact, sent, Option.some_inj, Option.some_inj, filter_serialize_iff, take_append_iff,
    none, long, long]

end Exactness

/-- A walk visits the rows of its query just in case no rows came before. A FILTER lists the
    relays of its query just in case none came before or the result is long and begins with the
    relays of those before, again and again. -/
theorem query_isolated_iff (calls : List RecordSet.Call) (selected : ResultTable) :
    ((Run.final RecordSet.step .new calls).WalkExact selected ↔
      ∀ call ∈ calls, call.rows = []) ∧
    ∀ (columns : List Text) (requests : List Request) (r : Request) (table : ResultTable)
        (rs : RecordSet), rlyAsn ∈ columns → (∀ earlier ∈ requests, earlier.Answered columns) →
      Run.attempt step .new requests = some rs → r.Inquires → r.answers 0 = .result table →
      OfPath columns (.result table) →
      (FilterExact columns rs r table ↔ requests.flatMap Request.rows = [] ∨
        maxAdvicedRelays.toNat ≤ table.rows.length ∧
        (relaysOf columns (requests.flatMap Request.rows)).take maxAdvicedRelays.toNat <+:
          relaysOf columns table.rows ∧
        ∀ i, i + (requests.flatMap Request.rows).length < maxAdvicedRelays.toNat →
          (relaysOf columns table.rows)[i + (requests.flatMap Request.rows).length]? =
            (relaysOf columns table.rows)[i]?) := by
  refine ⟨RecordSet.walkExact_iff calls selected, ?_⟩
  intro columns requests r table rs listed answered ran inquires answer path
  obtain ⟨rs', ran', serving, held⟩ := attempt_serves listed new_serving answered
  obtain rfl : rs' = rs := Option.some.inj (ran'.symm.trans ran)
  exact filterExact_iff listed serving held inquires answer path

def sampleTable (asns : List Char) : ResultTable where
  columns := [rlyAsn]
  rows := asns.map fun asn => [some [asn]]
  full := by simp

/-- An inquiry whose query finds the relays of some AS numbers of one digit. -/
def sampleQuery (asns : List Char) : Request where
  rest := fun _ => 9
  datagram := CorsInquiry.serialize
    { CorsInquiry.new with
      ttl := 3
      requiredRelays := 2
      source := ⟨10, 5060, 1, 0⟩
      destination := ⟨20, 5061, 2, 0⟩ }
  answers := fun _ => .result (sampleTable asns)
  now := fun _ => 7

theorem sampleQuery_inquires (asns : List Char) : (sampleQuery asns).Inquires :=
  ⟨by simp [sampleQuery, CorsInquiry.serialize], rfl⟩

theorem sampleTable_path (asns : List Char) : OfPath [rlyAsn] (.result (sampleTable asns)) := by
  refine ⟨rfl, ?_⟩
  simp [sampleTable, RecordSet.recordOf, rlyAsnOf]

theorem sampleQuery_answered (asns : List Char) : (sampleQuery asns).Answered [rlyAsn] := by
  rw [Request.Answered, if_pos (sampleQuery_inquires asns)]
  exact sampleTable_path asns

theorem sampleQuery_rows (asns : List Char) :
    (sampleQuery asns).rows = (sampleTable asns).rows := by
  rw [Request.rows, if_pos (sampleQuery_inquires asns)]
  rfl

/-- After two queries that found nothing the next is exact, and so is one with as many relays as
    a FILTER holds after one with the first of them, when they are all the same. -/
theorem later_queries_isolated :
    (∃ rs, Run.attempt step .new [sampleQuery [], sampleQuery []] = some rs ∧
      FilterExact [rlyAsn] rs (sampleQuery ['7', '8']) (sampleTable ['7', '8'])) ∧
    ∃ rs, Run.attempt step .new [sampleQuery ['7']] = some rs ∧
      FilterExact [rlyAsn] rs (sampleQuery (List.replicate 20 '7'))
        (sampleTable (List.replicate 20 '7')) := by
  have listed : rlyAsn ∈ [rlyAsn] := List.mem_cons_self
  constructor
  · have answered : ∀ r ∈ [sampleQuery [], sampleQuery []], r.Answered [rlyAsn] := by
      simp [sampleQuery_answered]
    obtain ⟨rs, ran, -⟩ := attempt_serves listed new_serving answered
    refine ⟨rs, ran, ((query_isolated_iff [] (sampleTable [])).2 [rlyAsn] _ _ _ rs listed answered
      ran (sampleQuery_inquires _) rfl (sampleTable_path _)).mpr (.inl ?_)⟩
    simp [sampleQuery_rows, sampleTable]
  · have answered : ∀ r ∈ [sampleQuery ['7']], r.Answered [rlyAsn] := by
      simp [sampleQuery_answered]
    obtain ⟨rs, ran, -⟩ := attempt_serves listed new_serving answered
    refine ⟨rs, ran, ((query_isolated_iff [] (sampleTable [])).2 [rlyAsn] _ _ _ rs listed answered
      ran (sampleQuery_inquires _) rfl (sampleTable_path _)).mpr (.inr ⟨by decide, ?_, ?_⟩)⟩
    · simp [sampleQuery_rows, sampleTable, relaysOf, List.replicate_succ, maxAdvicedRelays]
    · intro i inside
      have bound : maxAdvicedRelays.toNat = 20 := rfl
      simp only [sampleQuery_rows, sampleTable, relaysOf, List.flatMap_singleton, List.map_cons,
        List.map_nil, List.length_singleton, List.map_replicate, List.getElem?_replicate]
        at inside ⊢
      rw [if_pos (by omega), if_pos (by omega)]

/-- After a query of one row the walk of the next visits that row too, and the FILTER lists it. -/
theorem second_query_not_isolated :
    (¬ ∀ (calls : List RecordSet.Call) (table : ResultTable),
      (Run.final RecordSet.step .new calls).WalkExact table) ∧
    ¬ ∀ (columns : List Text) (requests : List Request) (r : Request) (table : ResultTable)
        (rs : RecordSet), rlyAsn ∈ columns → (∀ earlier ∈ requests, earlier.Answered columns) →
      Run.attempt step .new requests = some rs → r.Inquires → r.answers 0 = .result table →
      OfPath columns (.result table) → FilterExact columns rs r table := by
  constructor
  · intro always
    have none := (RecordSet.walkExact_iff [.executeSQL (.result (sampleTable ['7']))]
      (sampleTable ['8'])).mp (always _ _)
    exact absurd (none _ List.mem_cons_self) (by simp [RecordSet.Call.rows, sampleTable])
  · intro always
    have listed : rlyAsn ∈ [rlyAsn] := List.mem_cons_self
    have answered := sampleQuery_answered ['7']
    obtain ⟨rs, stepped, serving, held⟩ := step_serves listed new_serving answered
    have ran : Run.attempt step .new [sampleQuery ['7']] = some rs := by
      rw [Run.attempt_cons, stepped, Option.bind_some, Run.attempt_nil]
    have listsOwn := always [rlyAsn] [sampleQuery ['7']] (sampleQuery ['8']) (sampleTable ['8'])
      rs listed (by simpa using answered) ran (sampleQuery_inquires ['8']) rfl
        (sampleTable_path ['8'])
    rw [sampleQuery_rows] at held
    cases (filterExact_iff listed serving held (sampleQuery_inquires ['8']) rfl
      (sampleTable_path ['8'])).mp listsOwn with
    | inl none => cases none
    | inr long => exact absurd long.1 (by decide)

end Translator

end Cors
