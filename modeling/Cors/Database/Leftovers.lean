import Cors.Database.Queries

/-! # What earlier datagrams leave behind

The handlers are told that all of the buffer was received, so a short datagram is read on into
what was there before. That does not show where nothing of it reaches a statement or a FILTER: of
an inquiry only the end points are used, a report that is longer than the buffer is refused, and
of a delay six digits are printed.
-/

namespace Cors

namespace Translator

open Text ByteFormat

/-! ## Reports in a buffer -/

theorem timeval_get (m : Mem) (pos : Nat) :
    m.get Timeval.format pos = ⟨m.get i32 pos, m.get i32 (pos + 4)⟩ := by
  rw [Timeval.format, Mem.get_via, Mem.get_seq]
  rfl

theorem entry_get (m : Mem) (pos : Nat) : m.get ReportEntry.format pos =
    ⟨m.get EndPoint.format pos, m.get Timeval.format (pos + 12)⟩ := by
  rw [ReportEntry.format, Mem.get_via, Mem.get_seq]
  rfl

theorem endPoint_get (m : Mem) (pos : Nat) : m.get EndPoint.format pos =
    ⟨m.get u16 pos, m.get u16 (pos + 2), m.get u32 (pos + 4), m.get u32 (pos + 8)⟩ := by
  simp only [EndPoint.format, Mem.get_via, Mem.get_seq]
  rfl

/-- Where the `k`-th entry of a report is. -/
def entryPos (k : Nat) : Nat := 27 + k * 20

def entryIn (m : Mem) (k : Nat) : ReportEntry := m.get ReportEntry.format (entryPos k)

/-- How many entries the buffer announces. -/
def entryCount (m : Mem) : Nat := (m sizePos).toNat

theorem report_fits_iff (size : UInt8) :
    Scan.Fits corsMaxMsgSize 1 (CorsReport.layout size) ↔ size.toNat ≤ 102 := by
  have front : Scan.Fits corsMaxMsgSize 1 [1, 1, 12, 12] := by decide
  rw [CorsReport.layout, Scan.fits_append, and_iff_right front, Scan.fits_replicate]
  constructor
  · intro fits
    by_contra many
    have last := fits 102 (by omega)
    exact absurd last (by decide)
  · intro few i inside
    have start : 1 + [1, 1, 12, 12].sum = 27 := rfl
    rw [start, corsMaxMsgSize]
    omega

theorem report_parsed {m : Mem} (type : PacketType.ofCode? (m.get u8 0) = some .rlyReport) :
    parse CorsReport.new.deserialize m corsMaxMsgSize =
      if entryCount m ≤ 102 then
        some { type := .rlyReport
               ttl := m.get u8 1
               source := m.get EndPoint.format 3
               destination := m.get EndPoint.format 15
               reports := (List.range (entryCount m)).map (entryIn m) }
      else none := by
  have known : recognise CorsReport.accepted (m 0) = some .rlyReport := by
    rw [recognise, ← Mem.get_u8 m 0, type]
    rfl
  have count : (m.get u8 sizePos).toNat = entryCount m := by
    rw [Mem.get_u8]
    rfl
  have listed : elements ReportEntry.format m 27 (m.get u8 sizePos) =
      (List.range (entryCount m)).map (entryIn m) := by
    rw [elements, count]
    rfl
  simp only [parse, CorsReport.deserialize_run, known, report_fits_iff, count, listed]
  by_cases few : entryCount m ≤ 102
  · rw [if_pos few, if_pos few]
    rfl
  · rw [if_neg few, if_neg few]
    rfl

/-- What goes into the stream for the `k`-th entry. -/
def chunkIn (now : Nat → Int32) (m : Mem) (k : Nat) : Text :=
  valuesOf (m.get EndPoint.format 3) (m.get EndPoint.format 15) (entryIn m k) (now k)

theorem chunks_range (source destination : EndPoint) (now : Nat → Int32)
    (entry : Nat → ReportEntry) (n : Nat) :
    chunks source destination now 0 ((List.range n).map entry) =
      (List.range n).map fun k => valuesOf source destination (entry k) (now k) := by
  apply List.ext_getElem (by simp [chunks])
  intro i _ _
  simp only [chunks, List.getElem_mapIdx, List.getElem_map, List.getElem_range, Nat.zero_add]

/-- One statement for each way to take some chunks from the front. -/
def statements (chunks : List Text) : List Text :=
  (List.range chunks.length).map fun k =>
    insertOpen ++ (chunks.take (k + 1)).flatten ++ insertClose

theorem statements_injective {cs ds : List Text} (same : statements cs = statements ds) :
    cs = ds := by
  have lengths : cs.length = ds.length := by
    simpa [statements] using congrArg List.length same
  have fronts (k : Nat) (le : k ≤ cs.length) :
      (cs.take k).flatten = (ds.take k).flatten := by
    cases k with
    | zero => rfl
    | succ k =>
        have statement := congrArg (·[k]?) same
        simp only [statements, List.getElem?_map, List.getElem?_range (by omega : k < cs.length),
          List.getElem?_range (by omega : k < ds.length), Option.map_some, Option.some.injEq,
          List.append_left_inj, List.append_right_inj] at statement
        exact statement
  apply List.ext_getElem lengths
  intro k here there
  have shorter := fronts k (by omega)
  have longer := fronts (k + 1) (by omega)
  rw [List.take_add_one, List.take_add_one, List.flatten_append, List.flatten_append, shorter,
    List.append_right_inj, List.getElem?_eq_getElem here, List.getElem?_eq_getElem there] at longer
  simpa using longer

theorem processReport_effect (rs : RecordSet) (answers : Nat → Answer) (now : Nat → Int32)
    {m : Mem} (type : PacketType.ofCode? (m.get u8 0) = some .rlyReport) :
    (processReport rs answers now m corsMaxMsgSize).2 =
      ⟨if entryCount m ≤ 102 then statements ((List.range (entryCount m)).map (chunkIn now m))
        else [], none⟩ := by
  rw [processReport, report_parsed type]
  by_cases few : entryCount m ≤ 102
  · rw [if_pos few, if_pos few]
    dsimp only
    rw [insertLoop_executed, chunks_range, statements, List.length_map, List.length_map]
    rfl
  · rw [if_neg few, if_neg few]

/-- What is executed is the same just in case what goes into the stream is. -/
theorem effects_eq_iff (rs : RecordSet) (answers : Nat → Answer) (now : Nat → Int32) {m m' : Mem}
    (type : PacketType.ofCode? (m.get u8 0) = some .rlyReport)
    (type' : PacketType.ofCode? (m'.get u8 0) = some .rlyReport)
    (count : entryCount m = entryCount m') :
    (processReport rs answers now m corsMaxMsgSize).2 =
        (processReport rs answers now m' corsMaxMsgSize).2 ↔
      (entryCount m ≤ 102 → ∀ k < entryCount m, chunkIn now m k = chunkIn now m' k) := by
  rw [processReport_effect rs answers now type, processReport_effect rs answers now type', ← count]
  by_cases few : entryCount m ≤ 102
  · rw [if_pos few, if_pos few]
    constructor
    · intro same _ k inside
      have chunks := statements_injective (Effect.mk.inj same).1
      exact List.map_inj_left.mp chunks k (List.mem_range.mpr inside)
    · intro same
      have chunks : (List.range (entryCount m)).map (chunkIn now m) =
          (List.range (entryCount m)).map (chunkIn now m') :=
        List.map_inj_left.mpr fun k member => same few k (List.mem_range.mp member)
      rw [chunks]
  · rw [if_neg few, if_neg few]
    exact iff_of_true rfl fun less => absurd less few

/-! ## Isolation -/

/-- The leftovers may differ inside the buffer only. -/
def SameBehind (rest rest' : Mem) : Prop := ∀ i, corsMaxMsgSize ≤ i → rest i = rest' i

/-- What is executed and sent does not depend on what was in the buffer. -/
def Isolated (datagram : Bytes) : Prop :=
  ∀ (rs : RecordSet) (answers : Nat → Answer) (now : Nat → Int32) (rest rest' : Mem),
    SameBehind rest rest' → (receive rs answers now rest datagram).map Prod.snd =
      (receive rs answers now rest' datagram).map Prod.snd

/-- The delay of the last of `n` entries, where the microseconds are filled up from `usec`. -/
def lastDelay (n : Nat) (received : Bytes) (usec : Int32) : Timeval :=
  ((Mem.put (fun _ => 0) i32 (entryPos n - 4) usec).receive received).get Timeval.format
    (entryPos n - 8)

/-- The least delay that the missing bytes leave open and the greatest have the same six digits. -/
def DigitsKnown (n : Nat) (received : Bytes) : Prop :=
  printed (lastDelay n received Int32.minValue) = printed (lastDelay n received Int32.maxValue)

/-- There is no entry, or the report is refused, or it ends behind the buffer and fills it, or of
    the last entry no more is missing than digits that are not printed. -/
def ReportKept (n : Nat) (received : Bytes) : Prop :=
  n = 0 ∨ 102 < n ∨ n = 102 ∧ corsMaxMsgSize ≤ received.length ∨
    n < 102 ∧ entryPos n ≤ received.length + 4 ∧ DigitsKnown n received

def announced (received : Bytes) : Nat := (received[sizePos]?.getD 0).toNat

/-- The bytes that reach a statement or a FILTER were received. -/
def Kept (received : Bytes) : Prop :=
  match PacketType.ofCode? (received.headD 0) with
  | some .rlyInquiry => entryPos 0 ≤ received.length
  | some .rlyReport => sizePos < received.length ∧ ReportKept (announced received) received
  | _ => True

instance (n : Nat) (received : Bytes) : Decidable (DigitsKnown n received) :=
  inferInstanceAs (Decidable (_ = _))

instance (n : Nat) (received : Bytes) : Decidable (ReportKept n received) :=
  inferInstanceAs (Decidable (_ ∨ _))

/-! ## Inquiries -/

theorem processInquiry_effect (rs : RecordSet) (answer : Answer) {m : Mem}
    (type : PacketType.ofCode? (m.get u8 0) = some .rlyInquiry) :
    (processInquiry rs answer m corsMaxMsgSize).map Prod.snd =
      (((rs.executeSQL answer).1.moveFirst.walk currentRelay).1.mapM id).map fun relays =>
        ⟨[selectSql], some (filterOf (inquiryIn m) relays).serialize⟩ := by
  rw [processInquiry, inquiry_parsed type]
  dsimp only
  generalize ((rs.executeSQL answer).1.moveFirst.walk currentRelay) = walked
  cases walked.1.mapM id with
  | none => rfl
  | some relays => rfl

theorem filter_endPoints {inquiry inquiry' : CorsInquiry} {relays relays' : List EndPoint}
    (same : (filterOf inquiry relays).serialize = (filterOf inquiry' relays').serialize) :
    inquiry.source = inquiry'.source ∧ inquiry.destination = inquiry'.destination := by
  have own (i : CorsInquiry) (l : List EndPoint) : (filterOf i l).type ∈ CorsAdvice.accepted := by
    simp [filterOf, CorsAdvice.accepted]
  have parsed := CorsAdvice.parse_serialize (own inquiry relays)
    (Mem.receive_holds (fun _ => 0) (filterOf inquiry relays).serialize)
  have parsed' := CorsAdvice.parse_serialize (own inquiry' relays')
    (Mem.receive_holds (fun _ => 0) (filterOf inquiry' relays').serialize)
  rw [← same, parsed] at parsed'
  have advices := Option.some.inj parsed'
  exact ⟨congrArg CorsAdvice.source advices, congrArg CorsAdvice.destination advices⟩

section Received
variable {received : Bytes}

theorem received_type (nonempty : received ≠ []) (rest : Mem) :
    (rest.receive received).get u8 0 = received.headD 0 := by
  have some := List.length_pos_of_ne_nil nonempty
  rw [Mem.get_u8, Mem.receive_inside rest some, List.headD_eq_head?_getD, List.head?_eq_getElem?,
    List.getElem?_eq_getElem some, Option.getD_some]

theorem bump_sameBehind (rest : Mem) {i : Nat} (inside : i < corsMaxMsgSize) :
    SameBehind rest (rest.bump i) := fun j behind =>
  (Function.update_of_ne (by omega) _ _).symm

theorem inquiry_isolated_iff
    (type : ∀ rest : Mem,
      PacketType.ofCode? ((rest.receive received).get u8 0) = some .rlyInquiry) :
    (∀ (rs : RecordSet) (answer : Answer) (rest rest' : Mem), SameBehind rest rest' →
      (processInquiry rs answer (rest.receive received) corsMaxMsgSize).map Prod.snd =
        (processInquiry rs answer (rest'.receive received) corsMaxMsgSize).map Prod.snd) ↔
      entryPos 0 ≤ received.length := by
  constructor
  · intro isolated
    by_contra cut
    -- the last byte of the destination is not there
    have beyond : received.length ≤ 26 := by
      have position : entryPos 0 = 27 := rfl
      omega
    have effects := isolated .new .noResult (fun _ => 0) (Mem.bump (fun _ => 0) 26)
      (bump_sameBehind _ (by decide))
    rw [processInquiry_effect _ _ (type _), processInquiry_effect _ _ (type _),
      Mem.receive_bump _ beyond] at effects
    have nothing : ((RecordSet.new.executeSQL .noResult).1.moveFirst.walk currentRelay).1 = [] := by
      rw [RecordSet.walk_moveFirst]
      rfl
    rw [nothing] at effects
    have filters := congrArg Effect.filter (Option.some.inj effects)
    have points := filter_endPoints (Option.some.inj filters)
    have other : (Mem.bump _ 26).get EndPoint.format 15 ≠ Mem.get _ EndPoint.format 15 :=
      Mem.bump_get_ne (Mem.receive (fun _ => 0) received) EndPoint.format (by decide) (by decide)
    exact other points.2.symm
  · intro whole rs answer rest rest' _
    have agree := Mem.receive_agree rest rest' received
    have source : Mem.get _ EndPoint.format 3 = Mem.get _ EndPoint.format 3 :=
      agree.get EndPoint.format (Nat.le_trans (by decide) whole)
    have destination : Mem.get _ EndPoint.format 15 = Mem.get _ EndPoint.format 15 :=
      agree.get EndPoint.format whole
    rw [processInquiry_effect _ _ (type _), processInquiry_effect _ _ (type _)]
    simp only [filterOf, inquiryIn, source, destination]

/-! ## Reports -/

theorem received_count (counted : sizePos < received.length) (rest : Mem) :
    entryCount (rest.receive received) = announced received := by
  rw [entryCount, Mem.receive_inside rest counted, announced, List.getElem?_eq_getElem counted]
  rfl

/-- If the count is not there it may be any. -/
theorem uncounted_not_isolated (uncounted : received.length ≤ sizePos)
    (type : ∀ rest : Mem, PacketType.ofCode? ((rest.receive received).get u8 0) = some .rlyReport) :
    (processReport .new (fun _ => .noResult) (fun _ => 0)
        (Mem.receive (fun _ => 0) received) corsMaxMsgSize).2 ≠
      (processReport .new (fun _ => .noResult) (fun _ => 0)
        (Mem.receive (Mem.bump (fun _ => 0) sizePos) received) corsMaxMsgSize).2 := by
  have none : entryCount (Mem.receive (fun _ => 0) received) = 0 := by
    rw [entryCount, Mem.receive_beyond _ uncounted]
    rfl
  have one : entryCount (Mem.receive (Mem.bump (fun _ => 0) sizePos) received) = 1 := by
    rw [entryCount, Mem.receive_beyond _ uncounted]
    rfl
  rw [processReport_effect _ _ _ (type _), processReport_effect _ _ _ (type _), none, one]
  intro same
  have chunks := statements_injective (Effect.mk.inj same).1
  exact absurd chunks (by simp)

theorem valuesOf_delay (source destination relay : EndPoint) (delay delay' : Timeval)
    (now : Int32) :
    valuesOf source destination ⟨relay, delay⟩ now =
        valuesOf source destination ⟨relay, delay'⟩ now ↔
      printed delay = printed delay' := by
  simp only [valuesOf, List.append_left_inj, List.append_right_inj]

theorem valuesOf_relay {source destination relay relay' : EndPoint} {delay : Timeval} {now : Int32}
    (same : valuesOf source destination ⟨relay, delay⟩ now =
      valuesOf source destination ⟨relay', delay⟩ now) :
    valueString relay = valueString relay' := by
  simpa only [valuesOf, List.append_left_inj, List.append_right_inj] using same

theorem valueString_asn {asn asn' port : UInt16} {addr mask : UInt32}
    (same : valueString ⟨asn, port, addr, mask⟩ = valueString ⟨asn', port, addr, mask⟩) :
    asn = asn' := by
  simp only [valueString, List.append_left_inj] at same
  have numbers := congrArg (Nat.ofDigitChars 10 · 0) same
  rw [ofDigitChars_decimal, ofDigitChars_decimal] at numbers
  exact htons_injective (UInt16.toNat_inj.mp numbers)

/-! ### The bytes of a delay -/

theorem receive_related {R : UInt8 → UInt8 → Prop} (refl : ∀ b, R b b) {rest rest' : Mem}
    (received : Bytes) {i : Nat} (left : R (rest i) (rest' i)) :
    R (rest.receive received i) (rest'.receive received i) := by
  by_cases inside : i < received.length
  · rw [Mem.receive_inside rest inside, Mem.receive_inside rest' inside]
    exact refl _
  · rw [Mem.receive_beyond rest (Nat.le_of_not_lt inside),
      Mem.receive_beyond rest' (Nat.le_of_not_lt inside)]
    exact left

theorem put_beyond (rest : Mem) (f : ByteFormat α) (x : α) {pos i : Nat}
    (behind : pos + f.width ≤ i) : rest.put f pos x i = rest i :=
  Mem.write_of_ge rest _ (by rwa [f.encode_length])

theorem put_before (rest : Mem) (f : ByteFormat α) (x : α) {pos i : Nat} (before : i < pos) :
    rest.put f pos x i = rest i :=
  Mem.write_of_lt rest _ before

theorem get_i32_le {m m' : Mem} {pos : Nat} (first : (m pos).toNat ≤ (m' pos).toNat)
    (second : (m (pos + 1)).toNat ≤ (m' (pos + 1)).toNat)
    (third : (m (pos + 2)).toNat ≤ (m' (pos + 2)).toNat)
    (top : Mem.signedByte (m (pos + 3)) ≤ Mem.signedByte (m' (pos + 3))) :
    (m.get i32 pos).toInt ≤ (m'.get i32 pos).toInt := by
  rw [Mem.get_i32_toInt, Mem.get_i32_toInt]
  omega

theorem put_bytes {x : Int32} {a b c d : UInt8} (bytes : i32.encode x = [a, b, c, d])
    (rest : Mem) (pos : Nat) :
    rest.put i32 pos x pos = a ∧ rest.put i32 pos x (pos + 1) = b ∧
      rest.put i32 pos x (pos + 2) = c ∧ rest.put i32 pos x (pos + 3) = d := by
  have stands := Mem.holds_put rest i32 pos x
  rw [bytes] at stands
  simpa [Mem.Holds, Mem.read] using stands

theorem signedByte_bounds (b : UInt8) :
    Mem.signedByte 128 ≤ Mem.signedByte b ∧ Mem.signedByte b ≤ Mem.signedByte 127 := by
  have small := b.toNat_lt
  have low : Mem.signedByte 128 = -128 := rfl
  have high : Mem.signedByte 127 = 127 := rfl
  rw [low, high, Mem.signedByte]
  split <;> omega

/-- However the missing bytes are filled up, the number is between these. -/
theorem usec_bounds (rest : Mem) (received : Bytes) (pos : Nat) :
    (((Mem.put (fun _ => 0) i32 pos Int32.minValue).receive received).get i32 pos).toInt ≤
        ((rest.receive received).get i32 pos).toInt ∧
      ((rest.receive received).get i32 pos).toInt ≤
        (((Mem.put (fun _ => 0) i32 pos Int32.maxValue).receive received).get i32 pos).toInt := by
  have least : i32.encode Int32.minValue = [0, 0, 0, 128] := rfl
  have greatest : i32.encode Int32.maxValue = [255, 255, 255, 127] := rfl
  obtain ⟨low, low', low'', lowest⟩ := put_bytes least (fun _ => 0) pos
  obtain ⟨high, high', high'', highest⟩ := put_bytes greatest (fun _ => 0) pos
  have full (b : UInt8) : b.toNat ≤ (255 : UInt8).toNat := Nat.le_of_lt_succ b.toNat_lt
  have bytes := @receive_related (·.toNat ≤ ·.toNat) (fun _ => Nat.le_refl _)
  have tops := @receive_related (Mem.signedByte · ≤ Mem.signedByte ·) (fun _ => Int.le_refl _)
  constructor
  · refine get_i32_le (bytes received ?_) (bytes received ?_) (bytes received ?_) (tops received ?_)
    · rw [low]
      exact Nat.zero_le _
    · rw [low']
      exact Nat.zero_le _
    · rw [low'']
      exact Nat.zero_le _
    · rw [lowest]
      exact (signedByte_bounds _).1
  · refine get_i32_le (bytes received ?_) (bytes received ?_) (bytes received ?_) (tops received ?_)
    · rw [high]
      exact full _
    · rw [high']
      exact full _
    · rw [high'']
      exact full _
    · rw [highest]
      exact (signedByte_bounds _).2

/-- The end points of a report and the front of its last entry. -/
structure SameFront (n : Nat) (m m' : Mem) : Prop where
  source : m.get EndPoint.format 3 = m'.get EndPoint.format 3
  destination : m.get EndPoint.format 15 = m'.get EndPoint.format 15
  relay : m.get EndPoint.format (entryPos n) = m'.get EndPoint.format (entryPos n)

theorem SameFront.of_agree {m m' : Mem} {n : Nat} (agree : Mem.Agree (entryPos n + 12) m m') :
    SameFront n m m' where
  source := agree.get EndPoint.format (by rw [EndPoint.format_width, entryPos]; omega)
  destination := agree.get EndPoint.format (by rw [EndPoint.format_width, entryPos]; omega)
  relay := agree.get EndPoint.format (Nat.le_refl _)

theorem chunkIn_eq (now : Nat → Int32) (m : Mem) (k : Nat) :
    chunkIn now m k = valuesOf (m.get EndPoint.format 3) (m.get EndPoint.format 15)
      ⟨m.get EndPoint.format (entryPos k), m.get Timeval.format (entryPos k + 12)⟩ (now k) := by
  rw [chunkIn, entryIn, entry_get]

theorem SameFront.chunkIn_iff {m m' : Mem} {k : Nat} (front : SameFront k m m')
    (now : Nat → Int32) :
    chunkIn now m k = chunkIn now m' k ↔
      printed (m.get Timeval.format (entryPos k + 12)) =
        printed (m'.get Timeval.format (entryPos k + 12)) := by
  rw [chunkIn_eq, chunkIn_eq, front.source, front.destination, front.relay, valuesOf_delay]

theorem micros_get (m : Mem) (pos : Nat) :
    micros (m.get Timeval.format pos) =
      (m.get i32 pos).toInt * 1000000 + (m.get i32 (pos + 4)).toInt := by
  rw [timeval_get]
  rfl

theorem unsigned_differs {pos : Nat} (cut : received.length ≤ pos + 3) :
    printed (((Mem.receive (fun _ => 0) received)).get Timeval.format pos) ≠
      printed ((Mem.receive (Mem.put (fun _ => 0) u8 (pos + 3) 128) received).get
        Timeval.format pos) := by
  have beyond (rest : Mem) {i : Nat} (behind : pos + 3 ≤ i) : rest.receive received i = rest i :=
    Mem.receive_beyond rest (by omega)
  have top : Mem.put (fun _ => 0) u8 (pos + 3) 128 (pos + 3) = 128 := by
    have stands := Mem.get_put (fun _ => 0) u8 (pos + 3) 128
    rwa [Mem.get_u8] at stands
  have behind {i : Nat} (other : pos + 4 ≤ i) : Mem.put (fun _ => 0) u8 (pos + 3) 128 i = 0 :=
    put_beyond _ u8 128 other
  have positive : 0 ≤ micros ((Mem.receive (fun _ => 0) received).get Timeval.format pos) := by
    rw [micros_get, Mem.get_i32_toInt, Mem.get_i32_toInt]
    simp only [beyond _ (by omega : pos + 3 ≤ pos + 3), beyond _ (by omega : pos + 3 ≤ pos + 4),
      beyond _ (by omega : pos + 3 ≤ pos + 4 + 1), beyond _ (by omega : pos + 3 ≤ pos + 4 + 2),
      beyond _ (by omega : pos + 3 ≤ pos + 4 + 3)]
    have zero : Mem.signedByte 0 = 0 := rfl
    rw [zero]
    simp only [UInt8.toNat_zero]
    omega
  have negative : micros ((Mem.receive (Mem.put (fun _ => 0) u8 (pos + 3) 128) received).get
      Timeval.format pos) < 0 := by
    rw [micros_get, Mem.get_i32_toInt, Mem.get_i32_toInt]
    simp only [beyond _ (by omega : pos + 3 ≤ pos + 3), beyond _ (by omega : pos + 3 ≤ pos + 4),
      beyond _ (by omega : pos + 3 ≤ pos + 4 + 1), beyond _ (by omega : pos + 3 ≤ pos + 4 + 2),
      beyond _ (by omega : pos + 3 ≤ pos + 4 + 3), top, behind (by omega : pos + 4 ≤ pos + 4),
      behind (by omega : pos + 4 ≤ pos + 4 + 1), behind (by omega : pos + 4 ≤ pos + 4 + 2),
      behind (by omega : pos + 4 ≤ pos + 4 + 3)]
    have zero : Mem.signedByte 0 = 0 := rfl
    have sign : Mem.signedByte 128 = -128 := rfl
    have first := (Mem.receive (Mem.put (fun _ => 0) u8 (pos + 3) 128) received pos).toNat_lt
    have second := (Mem.receive (Mem.put (fun _ => 0) u8 (pos + 3) 128) received (pos + 1)).toNat_lt
    have third := (Mem.receive (Mem.put (fun _ => 0) u8 (pos + 3) 128) received (pos + 2)).toNat_lt
    rw [zero, sign]
    simp only [UInt8.toNat_zero]
    omega
  intro same
  have heads := congrArg List.head? same
  exact absurd ((significant_head 6 _).mp (heads.trans ((significant_head 6 _).mpr negative)))
    (by omega)

/-- If the seconds are there, what is printed of the least and the greatest delay is printed. -/
theorem printed_of_known {n : Nat} (some : 0 < n) (enough : entryPos n ≤ received.length + 4)
    (known : DigitsKnown n received) (rest : Mem) :
    printed ((rest.receive received).get Timeval.format (entryPos n - 8)) =
      printed (lastDelay n received Int32.minValue) := by
  have seconds (rest' : Mem) : (rest'.receive received).get i32 (entryPos n - 8) =
      (rest.receive received).get i32 (entryPos n - 8) :=
    (Mem.receive_agree rest' rest received).get i32 (by
      rw [i32_width]
      unfold entryPos at enough ⊢
      omega)
  have position : entryPos n - 8 + 4 = entryPos n - 4 := by
    unfold entryPos
    omega
  have bounds := usec_bounds rest received (entryPos n - 4)
  have lowest : micros (lastDelay n received Int32.minValue) ≤
      micros ((rest.receive received).get Timeval.format (entryPos n - 8)) := by
    rw [lastDelay, micros_get, micros_get, seconds, position]
    omega
  have highest : micros ((rest.receive received).get Timeval.format (entryPos n - 8)) ≤
      micros (lastDelay n received Int32.maxValue) := by
    rw [lastDelay, micros_get, micros_get, seconds (Mem.put _ _ _ Int32.maxValue), position]
    omega
  exact congrArg Number.chars (significant_between (by decide) lowest highest known)

/-- What is executed for a report does not depend on what was in the buffer. -/
def ReportIsolated (received : Bytes) : Prop :=
  ∀ (rs : RecordSet) (answers : Nat → Answer) (now : Nat → Int32) (rest rest' : Mem),
    SameBehind rest rest' →
      (processReport rs answers now (rest.receive received) corsMaxMsgSize).2 =
      (processReport rs answers now (rest'.receive received) corsMaxMsgSize).2

theorem reportIsolated_iff
    (type : ∀ rest : Mem, PacketType.ofCode? ((rest.receive received).get u8 0) = some .rlyReport)
    (counted : sizePos < received.length) :
    ReportIsolated received ↔ (announced received ≤ 102 → ∀ (now : Nat → Int32) (rest rest' : Mem),
      SameBehind rest rest' → ∀ k < announced received,
        chunkIn now (rest.receive received) k = chunkIn now (rest'.receive received) k) := by
  have same (rs : RecordSet) (answers : Nat → Answer) (now : Nat → Int32) (rest rest' : Mem) :=
    effects_eq_iff rs answers now (type rest) (type rest')
      ((received_count counted rest).trans (received_count counted rest').symm)
  constructor
  · intro isolated few now rest rest' behind
    have chunks := (same .new (fun _ => .noResult) now rest rest').mp (isolated _ _ _ _ _ behind)
    rw [received_count counted] at chunks
    exact chunks few
  · intro chunks rs answers now rest rest' behind
    rw [same, received_count counted]
    exact fun few => chunks few now rest rest' behind

section Last
variable {last : Nat}

/-- The chunks of the last entry are the same, whatever was in the buffer. -/
def LastFixed (last : Nat) (received : Bytes) : Prop :=
  ∀ rest rest' : Mem, SameBehind rest rest' →
    chunkIn (fun _ => 0) (rest.receive received) last =
      chunkIn (fun _ => 0) (rest'.receive received) last

/-- The last entry that fits begins with the last byte of the buffer. -/
theorem full_of_fixed (place : entryPos last + 1 = corsMaxMsgSize)
    (fixed : LastFixed last received) : corsMaxMsgSize ≤ received.length := by
  by_contra cut
  have beyond : received.length ≤ entryPos last := by omega
  let m : Mem := Mem.receive (fun _ => 0) received
  have chunks : chunkIn (fun _ => 0) m last =
      chunkIn (fun _ => 0) (m.bump (entryPos last)) last := by
    have both := fixed (fun _ => 0) _ (bump_sameBehind (i := entryPos last) _ (by omega))
    rwa [Mem.receive_bump _ beyond] at both
  have apart {α : Type} (f : ByteFormat α) {pos : Nat}
      (away : entryPos last < pos ∨ pos + f.width ≤ entryPos last) :
      (m.bump (entryPos last)).get f pos = m.get f pos := Mem.bump_get_of_apart m f away
  have front : 27 ≤ entryPos last := Nat.le_add_right 27 _
  rw [chunkIn_eq, chunkIn_eq, endPoint_get m (entryPos last), endPoint_get _ (entryPos last),
    apart EndPoint.format (.inr (Nat.le_trans (by decide) front)),
    apart EndPoint.format (.inr front), apart Timeval.format (.inl (by omega)),
    @apart _ u16 (entryPos last + 2) (.inl (by omega)), apart u32 (.inl (by omega)),
    apart u32 (.inl (by omega))] at chunks
  exact Mem.bump_get_ne m u16 (Nat.le_refl _) (Nat.lt_add_of_pos_right (by decide))
    (valueString_asn (valuesOf_relay chunks)).symm

theorem seconds_of_fixed (inside : entryPos (last + 1) ≤ corsMaxMsgSize)
    (fixed : LastFixed last received) : entryPos (last + 1) ≤ received.length + 4 := by
  by_contra cut
  have positions : entryPos (last + 1) = entryPos last + 20 := by
    unfold entryPos
    omega
  have behind : SameBehind (fun _ => 0) (Mem.put (fun _ => 0) u8 (entryPos last + 12 + 3) 128) :=
    fun i outside => Eq.symm (put_beyond _ u8 _ (by rw [u8_width]; omega))
  have front : SameFront last (Mem.receive (fun _ => 0) received)
      (Mem.receive (Mem.put (fun _ => 0) u8 (entryPos last + 12 + 3) 128) received) := by
    refine .of_agree fun i inside => ?_
    apply receive_related (fun _ => rfl)
    exact Eq.symm (put_before _ u8 128 (by omega))
  exact unsigned_differs (by omega) ((front.chunkIn_iff _).mp (fixed _ _ behind))

theorem digitsKnown_of_fixed (inside : entryPos (last + 1) ≤ corsMaxMsgSize)
    (fixed : LastFixed last received) : DigitsKnown (last + 1) received := by
  have positions : entryPos (last + 1) = entryPos last + 20 := by
    unfold entryPos
    omega
  let filled (usec : Int32) : Mem := Mem.put (fun _ => 0) i32 (entryPos (last + 1) - 4) usec
  have outside (usec : Int32) : SameBehind (fun _ => 0) (filled usec) := fun i behind =>
    Eq.symm (put_beyond _ i32 usec (by rw [i32_width]; omega))
  have front : SameFront last ((filled Int32.minValue).receive received)
      ((filled Int32.maxValue).receive received) := by
    refine .of_agree fun i inside => ?_
    apply receive_related (fun _ => rfl)
    have untouched (usec : Int32) : filled usec i = 0 := put_before _ i32 usec (by omega)
    rw [untouched, untouched]
  have delays := (front.chunkIn_iff _).mp (fixed _ _ fun i behind =>
    (outside _ i behind).symm.trans (outside _ i behind))
  have place : entryPos (last + 1) - 8 = entryPos last + 12 := by omega
  rw [DigitsKnown, lastDelay, lastDelay, place]
  exact delays

end Last

/-- What was not received shows in the last entry. -/
theorem kept_of_isolated
    (type : ∀ rest : Mem, PacketType.ofCode? ((rest.receive received).get u8 0) = some .rlyReport)
    (counted : sizePos < received.length) (isolated : ReportIsolated received) :
    ReportKept (announced received) received := by
  rw [reportIsolated_iff type counted] at isolated
  generalize announced received = n at isolated ⊢
  by_cases none : n = 0
  · exact .inl none
  by_cases many : 102 < n
  · exact .inr (.inl many)
  obtain ⟨last, rfl⟩ := Nat.exists_eq_succ_of_ne_zero none
  have fixed : LastFixed last received := fun rest rest' behind =>
    isolated (by omega) (fun _ => 0) rest rest' behind last (Nat.lt_succ_self last)
  by_cases full : last + 1 = 102
  · have place : entryPos last + 1 = corsMaxMsgSize := by
      unfold entryPos corsMaxMsgSize
      omega
    exact .inr (.inr (.inl ⟨full, full_of_fixed place fixed⟩))
  · have inside : entryPos (last + 1) ≤ corsMaxMsgSize := by
      unfold entryPos corsMaxMsgSize
      omega
    exact .inr (.inr (.inr ⟨by omega, seconds_of_fixed inside fixed,
      digitsKnown_of_fixed inside fixed⟩))

theorem isolated_of_kept
    (type : ∀ rest : Mem, PacketType.ofCode? ((rest.receive received).get u8 0) = some .rlyReport)
    (counted : sizePos < received.length) (kept : ReportKept (announced received) received) :
    ReportIsolated received := by
  rw [reportIsolated_iff type counted]
  intro few now rest rest' behind k inside
  generalize announced received = n at *
  obtain none | many | ⟨-, full⟩ | ⟨less, enough, known⟩ := kept
  · omega
  · omega
  · have same : rest.receive received = rest'.receive received := by
      funext i
      by_cases there : i < received.length
      · exact Mem.receive_agree rest rest' received i there
      · have beyond := Nat.le_of_not_lt there
        rw [Mem.receive_beyond rest beyond, Mem.receive_beyond rest' beyond,
          behind i (Nat.le_trans full beyond)]
    rw [same]
  · have agree := Mem.receive_agree rest rest' received
    have before : entryPos k + 20 ≤ entryPos n := by
      unfold entryPos
      omega
    have front : SameFront k (rest.receive received) (rest'.receive received) :=
      .of_agree fun i here => agree i (by omega)
    rw [front.chunkIn_iff]
    by_cases earlier : k + 1 < n
    · have long : entryPos k + 40 ≤ entryPos n := by
        unfold entryPos
        omega
      rw [agree.get Timeval.format (by rw [Timeval.format_width]; omega)]
    · obtain rfl : n = k + 1 := by omega
      have place : entryPos k + 12 = entryPos (k + 1) - 8 := by
        unfold entryPos
        omega
      rw [place, printed_of_known (Nat.succ_pos k) enough known,
        printed_of_known (Nat.succ_pos k) enough known]

end Received

/-! ## Datagrams -/

theorem receive_effect {datagram : Bytes} (nonempty : datagram ≠ []) (rs : RecordSet)
    (answers : Nat → Answer) (now : Nat → Int32) (rest : Mem) :
    receive rs answers now rest datagram =
      dispatch rs answers now (rest.receive (datagram.take corsMaxMsgSize)) := by
  rw [receive, if_pos (List.length_pos_of_ne_nil nonempty)]

theorem take_ne_nil {datagram : Bytes} (nonempty : datagram ≠ []) :
    datagram.take corsMaxMsgSize ≠ [] := by
  intro none
  cases List.take_eq_nil_iff.mp none with
  | inl zero => exact absurd zero (by decide)
  | inr empty => exact nonempty empty

/-- What is done with a datagram does not depend on those before it just in case what is used of
    it was received. -/
theorem isolated_iff_kept {datagram : Bytes} (nonempty : datagram ≠ []) :
    Isolated datagram ↔ Kept (datagram.take corsMaxMsgSize) := by
  simp only [Isolated, receive_effect nonempty]
  have first (rest : Mem) := received_type (take_ne_nil nonempty) rest
  generalize datagram.take corsMaxMsgSize = received at *
  by_cases inquiry : PacketType.ofCode? (received.headD 0) = some .rlyInquiry
  · have type (rest : Mem) :
        PacketType.ofCode? ((rest.receive received).get u8 0) = some .rlyInquiry := by
      rw [first, inquiry]
    have dispatched (rs : RecordSet) (answers : Nat → Answer) (now : Nat → Int32) (rest : Mem) :
        dispatch rs answers now (rest.receive received) =
          processInquiry rs (answers 0) (rest.receive received) corsMaxMsgSize := by
      rw [dispatch, type rest]
    simp only [dispatched, Kept, inquiry, ← inquiry_isolated_iff type]
    constructor
    · intro isolated rs answer
      exact isolated rs (fun _ => answer) (fun _ => 0)
    · intro isolated rs answers _
      exact isolated rs (answers 0)
  by_cases report : PacketType.ofCode? (received.headD 0) = some .rlyReport
  · have type (rest : Mem) :
        PacketType.ofCode? ((rest.receive received).get u8 0) = some .rlyReport := by
      rw [first, report]
    have dispatched (rs : RecordSet) (answers : Nat → Answer) (now : Nat → Int32) (rest : Mem) :
        dispatch rs answers now (rest.receive received) =
          some (processReport rs answers now (rest.receive received) corsMaxMsgSize) := by
      rw [dispatch, type rest]
    simp only [dispatched, Kept, report, Option.map_some, Option.some.injEq]
    constructor
    · intro isolated
      have counted : sizePos < received.length := by
        by_contra uncounted
        exact uncounted_not_isolated (Nat.le_of_not_lt uncounted) type
          (isolated _ _ _ _ _ (bump_sameBehind _ (by decide)))
      exact ⟨counted, kept_of_isolated type counted isolated⟩
    · intro kept
      exact isolated_of_kept type kept.1 kept.2
  · have idle (rs : RecordSet) (answers : Nat → Answer) (now : Nat → Int32) (rest : Mem) :
        (dispatch rs answers now (rest.receive received)).map Prod.snd = some ⟨[], none⟩ := by
      rw [dispatch, first]
      split
      · rename_i type
        exact absurd type inquiry
      · rename_i type
        exact absurd type report
      · rfl
    refine iff_of_true (fun rs answers now rest rest' _ => by rw [idle, idle]) ?_
    rw [Kept]
    split
    · rename_i type
      exact absurd type inquiry
    · rename_i type
      exact absurd type report
    · trivial

/-- A report of two relays as it is sent. -/
def fullReport : CorsReport where
  type := .rlyReport
  ttl := 7
  source := ⟨10, 5060, 1, 0⟩
  destination := ⟨20, 5061, 2, 0⟩
  reports := [⟨⟨30, 906, 3, 0⟩, ⟨0, 123456⟩⟩, ⟨⟨40, 906, 4, 0⟩, ⟨1, 7⟩⟩]

theorem whole_datagrams_isolated :
    Isolated fullReport.serialize ∧ Isolated (sampleQuery []).datagram := by
  constructor
  · have kept : sizePos < fullReport.serialize.length ∧
        ReportKept (announced fullReport.serialize) fullReport.serialize := by
      decide +kernel
    exact (isolated_iff_kept (by decide)).mpr kept
  · have long : entryPos 0 ≤ (sampleQuery []).datagram.length := by decide
    exact (isolated_iff_kept (by decide)).mpr long

/-- A report that announces an entry and ends there is filled up with what was there before. -/
theorem empty_report_not_isolated : ¬ ∀ datagram : Bytes, datagram ≠ [] → Isolated datagram := by
  intro always
  have type (rest : Mem) : PacketType.ofCode? ((rest.receive [6, 4, 1]).get u8 0) =
      some .rlyReport := by
    rw [received_type (List.cons_ne_nil _ _)]
    rfl
  have isolated : ReportIsolated [6, 4, 1] := by
    intro rs answers now rest rest' behind
    have same := always [6, 4, 1] (List.cons_ne_nil _ _) rs answers now rest rest' behind
    rw [receive_effect (List.cons_ne_nil _ _), receive_effect (List.cons_ne_nil _ _)] at same
    simpa only [dispatch, List.take_of_length_le (by decide : [(6 : UInt8), 4, 1].length ≤ 2048),
      corsMaxMsgSize, type, Option.map_some, Option.some.injEq] using same
  exact absurd (kept_of_isolated type (by decide) isolated) (by decide)

end Translator

end Cors
