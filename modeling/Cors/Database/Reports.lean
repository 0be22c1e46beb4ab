import Cors.Database.Translator

/-! # What the database is told of a report

Each entry of a report should become one statement with one tuple. The statements are read back
as the database reads them. The stream they are made from keeps what it was given for the
entries before, and prints a delay with six digits: only a report of one entry with a short delay
is stored as it is.
-/

namespace Cors

namespace Translator

open Text ByteFormat NbConf

/-! ## Reading statements -/

inductive Literal where
  | number (x : Rat)
  | text (t : Text)
  deriving DecidableEq

/-- A number, or a text between quotes. -/
def readLiteral (field : Text) : Option Literal :=
  let t := field.dropWhile isSpace
  let (x, rest) := takeNumber t
  if rest = [] ∧ Number.Mantissa x.whole x.point ∧ ∀ e ∈ x.exponent, e.2.2 ≠ [] then
    some (.number x.value)
  else if t.head? = some quote ∧ t.tail.getLast? = some quote ∧ quote ∉ t.tail.dropLast then
    some (.text t.tail.dropLast)
  else
    none

def readLiterals : List Text → Option (List Literal)
  | [] => some []
  | field :: fields => do
      let literal ← readLiteral field
      let literals ← readLiterals fields
      pure (literal :: literals)

/-- The tuple of an insertion into `path`. -/
def readInsert (sql : Text) : Option (List Literal) :=
  let body := (sql.drop insertOpen.length).take
    (sql.length - (insertOpen.length + insertClose.length))
  if sql = insertOpen ++ body ++ insertClose then
    readLiterals (split (· = ',') body)
  else
    none

/-! ## What is asked for -/

def pointLiterals (point : EndPoint) : List Literal :=
  [.number (ntohs point.asn).toNat, .text (inetNtop point.addr), .text (inetNtop point.mask),
    .number (ntohs point.port).toNat]

/-- Source, destination and relay, the delay in microseconds, and the time. -/
def tupleOf (source destination : EndPoint) (entry : ReportEntry) (now : Int32) : List Literal :=
  pointLiterals source ++ pointLiterals destination ++ pointLiterals entry.relay ++
    [.number (micros entry.delay), .number now.toInt]

/-- There is one statement for each entry, with its tuple and nothing else. -/
def Faithful (report : CorsReport) (now : Nat → Int32) (executed : List Text) : Prop :=
  executed.map readInsert = report.reports.mapIdx fun i entry =>
    some (tupleOf report.source report.destination entry (now i))

/-- The digits of the delay in microseconds behind the sixth are zeros. -/
def SixDigits (delay : Timeval) : Prop :=
  10 ^ excess 6 (micros delay).natAbs ∣ (micros delay).natAbs

instance (delay : Timeval) : Decidable (SixDigits delay) :=
  inferInstanceAs (Decidable (_ ∣ _))

/-! ## Fields of a statement -/

/-- The fields for an end point; `lead` is what stands in front of the first one. -/
def pointFields (lead : Text) (point : EndPoint) : List Text :=
  [lead ++ decimal (ntohs point.asn).toNat, ' ' :: quote :: (inetNtop point.addr ++ [quote]),
    ' ' :: quote :: (inetNtop point.mask ++ [quote]), ' ' :: decimal (ntohs point.port).toNat]

/-- The fields but for the time. -/
def entryFields (source destination : EndPoint) (entry : ReportEntry) : List Text :=
  pointFields [] source ++ pointFields [' '] destination ++ pointFields [' '] entry.relay ++
    [' ' :: printed entry.delay]

def timeField (now : Int32) : Text := ' ' :: decimalInt now.toInt

theorem joined_valuesOf (source destination : EndPoint) (entry : ReportEntry) (now : Int32) :
    joined ',' (entryFields source destination entry ++ [timeField now]) =
      valuesOf source destination entry now := by
  simp [entryFields, pointFields, timeField, joined, valuesOf, valueString, separator]

theorem clean_space {t : Text} (clean : Clean ',' t) : Clean ',' (' ' :: t) :=
  have space : Clean ',' [' '] := ⟨List.cons_ne_nil _ _, by decide⟩
  space.append clean

theorem clean_number (n : Nat) : Clean ',' (decimal n) :=
  ⟨decimal_ne_nil n, fun member => absurd (decimal_digits n _ member) (by decide)⟩

theorem clean_int (i : Int) : Clean ',' (decimalInt i) :=
  Number.ofInt_chars i ▸ (Number.ofInt_formed i).clean rfl

theorem dottedText_digit_or_dot (bs : Bytes) :
    ∀ c ∈ dottedText bs, c.isDigit = true ∨ c = '.' := by
  induction bs with
  | nil => exact fun _ none => nomatch none
  | cons b bs ih =>
      have own : ∀ c ∈ decimal b.toNat, c.isDigit = true ∨ c = '.' := fun c member =>
        .inl (decimal_digits _ c member)
      cases bs with
      | nil => exact own
      | cons d bs =>
          exact List.forall_mem_append.mpr ⟨own, List.forall_mem_cons.mpr ⟨.inr rfl, ih⟩⟩

theorem notMem_inetNtop {c : Char} (other : c.isDigit = false ∧ c ≠ '.') (addr : UInt32) :
    c ∉ inetNtop addr := by
  intro member
  cases dottedText_digit_or_dot _ c member with
  | inl digit =>
      rw [other.1] at digit
      cases digit
  | inr dot => exact other.2 dot

theorem clean_quoted (addr : UInt32) : Clean ',' (quote :: (inetNtop addr ++ [quote])) := by
  refine ⟨List.cons_ne_nil _ _, fun member => ?_⟩
  simp only [List.mem_cons, List.mem_append, List.not_mem_nil, or_false] at member
  obtain first | inside | last := member
  · exact absurd first (by decide)
  · exact notMem_inetNtop ⟨rfl, by decide⟩ addr inside
  · exact absurd last (by decide)

theorem pointFields_clean {lead : Text} (blank : lead = [] ∨ lead = [' ']) (point : EndPoint) :
    ∀ field ∈ pointFields lead point, Clean ',' field := by
  have first : Clean ',' (lead ++ decimal (ntohs point.asn).toNat) := by
    cases blank with
    | inl none => exact none ▸ clean_number _
    | inr space => exact space ▸ clean_space (clean_number _)
  simp only [pointFields, List.forall_mem_cons]
  exact ⟨first, clean_space (clean_quoted _), clean_space (clean_quoted _),
    clean_space (clean_number _), fun _ none => nomatch none⟩

theorem entryFields_clean (source destination : EndPoint) (entry : ReportEntry) :
    ∀ field ∈ entryFields source destination entry, Clean ',' field := by
  have delay : Clean ',' (printed entry.delay) := (significant_formed 6 _).clean rfl
  simp only [entryFields, List.forall_mem_append]
  exact ⟨⟨⟨pointFields_clean (.inl rfl) source, pointFields_clean (.inr rfl) destination⟩,
    pointFields_clean (.inr rfl) entry.relay⟩, List.forall_mem_singleton.mpr (clean_space delay)⟩

theorem timeField_clean (now : Int32) : Clean ',' (timeField now) := clean_space (clean_int _)

/-! ## Reading them back -/

theorem readLiteral_number {lead : Text} (blank : lead = [] ∨ lead = [' ']) {x : Number}
    (formed : x.WellFormed) : readLiteral (lead ++ x.chars) = some (.number x.value) := by
  have kept : x.chars.dropWhile isSpace = x.chars := by
    cases shown : x.chars with
    | nil => rfl
    | cons c t =>
        have solid := formed.solid c (shown ▸ List.mem_cons_self)
        exact List.dropWhile_cons_of_neg (by simp [solid])
  have bare : (lead ++ x.chars).dropWhile isSpace = x.chars := by
    cases blank with
    | inl none => rw [none, List.nil_append, kept]
    | inr space =>
        rw [space]
        exact kept
  have token := takeNumber_append formed ended_nil
  rw [List.append_nil] at token
  rw [readLiteral, bare, token]
  dsimp only
  rw [if_pos ⟨rfl, formed.mantissa, fun e raised => (formed.exponent e raised).2.2.2⟩]

theorem readLiteral_int {lead : Text} (blank : lead = [] ∨ lead = [' ']) (i : Int) :
    readLiteral (lead ++ decimalInt i) = some (.number i) := by
  rw [← Number.ofInt_chars, readLiteral_number blank (Number.ofInt_formed i), ofInt_value]

theorem readLiteral_quoted (addr : UInt32) :
    readLiteral (' ' :: quote :: (inetNtop addr ++ [quote])) = some (.text (inetNtop addr)) := by
  have bare : (' ' :: quote :: (inetNtop addr ++ [quote])).dropWhile isSpace =
      quote :: (inetNtop addr ++ [quote]) := rfl
  have token : takeNumber (quote :: (inetNtop addr ++ [quote])) =
      (⟨[], [], none, none⟩, quote :: (inetNtop addr ++ [quote])) := rfl
  have free : quote ∉ inetNtop addr := notMem_inetNtop ⟨rfl, by decide⟩ addr
  rw [readLiteral, bare, token]
  simp [free]

theorem readLiterals_append {fields others : List Text} {literals more : List Literal}
    (first : readLiterals fields = some literals) (second : readLiterals others = some more) :
    readLiterals (fields ++ others) = some (literals ++ more) := by
  induction fields generalizing literals with
  | nil =>
      obtain rfl := Option.some.inj first
      exact second
  | cons field fields ih =>
      obtain ⟨literal, own, rest⟩ := Option.bind_eq_some_iff.mp first
      obtain ⟨tail, later, same⟩ := Option.bind_eq_some_iff.mp rest
      obtain rfl := Option.some.inj same
      rw [List.cons_append, readLiterals, own, ih later]
      rfl

theorem readLiterals_length {fields : List Text} {literals : List Literal}
    (read : readLiterals fields = some literals) : literals.length = fields.length := by
  induction fields generalizing literals with
  | nil =>
      obtain rfl := Option.some.inj read
      rfl
  | cons field fields ih =>
      obtain ⟨literal, -, rest⟩ := Option.bind_eq_some_iff.mp read
      obtain ⟨tail, later, same⟩ := Option.bind_eq_some_iff.mp rest
      obtain rfl := Option.some.inj same
      rw [List.length_cons, List.length_cons, ih later]

theorem readLiterals_pointFields {lead : Text} (blank : lead = [] ∨ lead = [' '])
    (point : EndPoint) : readLiterals (pointFields lead point) = some (pointLiterals point) := by
  have asn := readLiteral_int blank ((ntohs point.asn).toNat : Int)
  have port := readLiteral_int (.inr rfl) ((ntohs point.port).toNat : Int)
  simp only [decimalInt, Int.cast_natCast, List.singleton_append] at asn port
  simp only [pointFields, readLiterals, asn, readLiteral_quoted, port, pointLiterals]
  rfl

theorem readLiterals_fields (source destination : EndPoint) (entry : ReportEntry) (now : Int32) :
    readLiterals (entryFields source destination entry ++ [timeField now]) =
      some (pointLiterals source ++ pointLiterals destination ++ pointLiterals entry.relay ++
        [.number (significant 6 (micros entry.delay)).value, .number now.toInt]) := by
  have delay := readLiteral_number (.inr rfl) (significant_formed 6 (micros entry.delay))
  have time := readLiteral_int (.inr rfl) now.toInt
  have last : readLiterals [' ' :: printed entry.delay, timeField now] =
      some [.number (significant 6 (micros entry.delay)).value, .number now.toInt] := by
    rw [List.singleton_append] at delay time
    simp only [readLiterals, printed, timeField, delay, time]
    rfl
  rw [entryFields, List.append_assoc, List.singleton_append]
  exact readLiterals_append (readLiterals_append
    (readLiterals_append (readLiterals_pointFields (.inl rfl) source)
      (readLiterals_pointFields (.inr rfl) destination))
    (readLiterals_pointFields (.inr rfl) entry.relay)) last

theorem readInsert_statement (body : Text) :
    readInsert (insertOpen ++ body ++ insertClose) = readLiterals (split (· = ',') body) := by
  have inner : ((insertOpen ++ body ++ insertClose).drop insertOpen.length).take
      ((insertOpen ++ body ++ insertClose).length - (insertOpen.length + insertClose.length)) =
        body := by
    have long : (insertOpen ++ body ++ insertClose).length -
        (insertOpen.length + insertClose.length) = body.length := by
      simp only [List.length_append]
      omega
    rw [long, List.append_assoc, List.drop_left, List.take_left]
  rw [readInsert, inner, if_pos rfl]

theorem readInsert_single (source destination : EndPoint) (entry : ReportEntry) (now : Int32) :
    readInsert (insertOpen ++ valuesOf source destination entry now ++ insertClose) =
        some (tupleOf source destination entry now) ↔ SixDigits entry.delay := by
  have clean : ∀ field ∈ entryFields source destination entry ++ [timeField now],
      Clean ',' field :=
    List.forall_mem_append.mpr ⟨entryFields_clean source destination entry,
      List.forall_mem_singleton.mpr (timeField_clean now)⟩
  rw [readInsert_statement, ← joined_valuesOf, split_joined clean, readLiterals_fields, tupleOf,
    Option.some.injEq, List.append_right_inj, List.cons.injEq, and_iff_left rfl,
    Literal.number.injEq, significant_exact_iff (by decide)]
  rfl

/-- What the second statement holds is longer than a tuple. -/
theorem readInsert_double (source destination : EndPoint) (first second : ReportEntry)
    (earlier later : Int32) (tuple : List Literal) (short : tuple.length = 14) :
    readInsert (insertOpen ++ (valuesOf source destination first earlier ++
      valuesOf source destination second later) ++ insertClose) ≠ some tuple := by
  intro read
  obtain ⟨lead, others, split⟩ : ∃ lead others,
      entryFields source destination second ++ [timeField later] = lead :: others ∧
        others.length = 13 := ⟨_, _, rfl, rfl⟩
  have cleanLater : ∀ field ∈ lead :: others, Clean ',' field :=
    split.1 ▸ List.forall_mem_append.mpr ⟨entryFields_clean source destination second,
      List.forall_mem_singleton.mpr (timeField_clean later)⟩
  obtain ⟨leadClean, othersClean⟩ := List.forall_mem_cons.mp cleanLater
  have clean : ∀ field ∈ entryFields source destination first ++
      (timeField earlier ++ lead) :: others, Clean ',' field :=
    List.forall_mem_append.mpr ⟨entryFields_clean source destination first,
      List.forall_mem_cons.mpr ⟨(timeField_clean earlier).append leadClean, othersClean⟩⟩
  rw [readInsert_statement, ← joined_valuesOf, ← joined_valuesOf, split.1, joined_glue,
    split_joined clean] at read
  have long := readLiterals_length read
  rw [List.length_append, List.length_cons, split.2, short] at long
  have count : (entryFields source destination first).length = 13 := rfl
  omega

/-! ## Reports -/

section Stored
variable (rs : RecordSet) (answers : Nat → Answer) (now : Nat → Int32) {msg : Mem} {len : Nat}
  {report : CorsReport}

theorem processReport_executed (accepted : parse CorsReport.new.deserialize msg len = some report) :
    (processReport rs answers now msg len).2.executed =
      (List.range report.reports.length).map fun k => insertOpen ++
        ([] ++ ((chunks report.source report.destination now 0 report.reports).take
          (k + 1)).flatten) ++ insertClose := by
  rw [processReport, accepted]
  exact insertLoop_executed _ _ answers now 0 [] rs report.reports

theorem two_not_faithful (accepted : parse CorsReport.new.deserialize msg len = some report)
    {first second : ReportEntry} {entries : List ReportEntry}
    (more : report.reports = first :: second :: entries) :
    ¬ Faithful report now (processReport rs answers now msg len).2.executed := by
  intro faithful
  rw [Faithful, processReport_executed rs answers now accepted, more] at faithful
  have statement := congrArg (·[1]?) faithful
  have double := readInsert_double report.source report.destination first second
    (now 0) (now 1) (tupleOf report.source report.destination second (now 1)) rfl
  exact double (by simpa [chunks] using statement)

/-- A report that is accepted is stored as it is just in case it has no more than one entry, and
    the delay of that one no more than six significant digits. -/
theorem stored_faithfully_iff (accepted : parse CorsReport.new.deserialize msg len = some report) :
    Faithful report now (processReport rs answers now msg len).2.executed ↔
      report.reports.length ≤ 1 ∧ ∀ entry ∈ report.reports, SixDigits entry.delay := by
  match entries : report.reports with
  | [] =>
      rw [Faithful, processReport_executed rs answers now accepted, entries]
      exact iff_of_true rfl ⟨Nat.zero_le 1, fun _ none => nomatch none⟩
  | [only] =>
      rw [Faithful, processReport_executed rs answers now accepted, entries]
      have single := readInsert_single report.source report.destination only (now 0)
      simpa [chunks] using single
  | first :: second :: entries' =>
      exact iff_of_false (two_not_faithful rs answers now accepted entries) (by simp)

end Stored

/-- A relay with a delay of 1.25 seconds. -/
def sampleEntry : ReportEntry := ⟨⟨30, 906, 3, 0⟩, ⟨1, 250000⟩⟩

/-- A report of that many such relays. -/
def sampleReport (n : Nat) : CorsReport where
  type := .rlyReport
  ttl := 7
  source := ⟨10, 5060, 1, 0⟩
  destination := ⟨20, 5061, 2, 0⟩
  reports := List.replicate n sampleEntry

theorem sampleReport_accepted_one : parse CorsReport.new.deserialize
    (Mem.padded (sampleReport 1).serialize) corsMaxMsgSize = some (sampleReport 1) := by
  rfl

theorem sampleReport_accepted_two : parse CorsReport.new.deserialize
    (Mem.padded (sampleReport 2).serialize) corsMaxMsgSize = some (sampleReport 2) := by
  rfl

theorem single_entry_stored : Faithful (sampleReport 1) (fun _ => 1200000000) (processReport .new
    (fun _ => .noResult) (fun _ => 1200000000) (Mem.padded (sampleReport 1).serialize)
      corsMaxMsgSize).2.executed :=
  (stored_faithfully_iff .new (fun _ => .noResult) (fun _ => 1200000000)
    sampleReport_accepted_one).mpr ⟨by decide, by decide⟩

/-- The statement for the second entry of a report also holds the tuple of the first. -/
theorem second_entry_not_stored :
    ¬ ∀ rs answers now msg len report, parse CorsReport.new.deserialize msg len = some report →
      Faithful report now (processReport rs answers now msg len).2.executed := by
  intro always
  exact two_not_faithful .new (fun _ => .noResult) (fun _ => 0) sampleReport_accepted_two rfl
    (always _ _ _ _ _ _ sampleReport_accepted_two)

end Translator

end Cors
