import Cors.Database.RecordSet
import Cors.Lib.Precision
import Cors.Protocol.Packets
import Cors.Proxy.NbConf

/-! # The database server

`Translator` answers inquiries from the table `path` and enters reports into it. All datagrams
are received into one buffer, and both handlers are told that all of it was received.
-/

namespace Cors

namespace Translator

open Text ByteFormat NbConf

/-- The statements that are executed, and the FILTER that is handed to `sendto` if there is
    one. -/
structure Effect where
  executed : List Text
  filter : Option Bytes
  deriving DecidableEq

/-! ## Reports -/

def quote : Char := Char.ofNat 39

def separator : Text := [',', ' ']

def valueString (point : EndPoint) : Text :=
  decimal (ntohs point.asn).toNat ++ separator ++ [quote] ++ inetNtop point.addr ++ [quote] ++
    separator ++ [quote] ++ inetNtop point.mask ++ [quote] ++ separator ++
    decimal (ntohs point.port).toNat

/-- `tv_sec * 1e6 + tv_usec`, which a double holds exactly. -/
def micros (delay : Timeval) : Int := delay.tvSec.toInt * 1000000 + delay.tvUsec.toInt

/-- A stream prints six significant digits if it is not told otherwise. -/
def printed (delay : Timeval) : Text := (significant 6 (micros delay)).chars

/-- What goes into the stream `values` for an entry. -/
def valuesOf (source destination : EndPoint) (entry : ReportEntry) (now : Int32) : Text :=
  valueString source ++ separator ++ valueString destination ++ separator ++
    valueString entry.relay ++ separator ++ printed entry.delay ++ separator ++
    decimalInt now.toInt

def insertOpen : Text := "insert into path values(".toList
def insertClose : Text := [')', ';']

/-- The loop over the entries, from the `i`-th one on. The stream `values` is not cleared. -/
def insertLoop (source destination : EndPoint) (answers : Nat → Answer) (now : Nat → Int32) :
    Nat → Text → RecordSet → List ReportEntry → RecordSet × List Text
  | _, _, rs, [] => (rs, [])
  | i, values, rs, entry :: entries =>
      let values := values ++ valuesOf source destination entry (now i)
      let insertSql := insertOpen ++ values ++ insertClose
      let rs := (rs.executeSQL (answers i)).1
      let (rs, executed) := insertLoop source destination answers now (i + 1) values rs entries
      (rs, insertSql :: executed)

def processReport (rs : RecordSet) (answers : Nat → Answer) (now : Nat → Int32) (msg : Mem)
    (len : Nat) : RecordSet × Effect :=
  match parse CorsReport.new.deserialize msg len with
  | none => (rs, ⟨[], none⟩)
  | some report =>
      let (rs, executed) :=
        insertLoop report.source report.destination answers now 0 [] rs report.reports
      (rs, ⟨executed, none⟩)

/-! ## Inquiries -/

def selectSql : Text := "select * from path;".toList
def rlyAsn : Text := "rly_asn".toList

def atoi (t : Text) : Int :=
  let (sign, t) := takeSign (t.dropWhile isSpace)
  let n : Int := Nat.ofDigitChars 10 (takeDigits t).1 0
  if sign = ['-'] then -n else n

/-- The relay for a value of the field `rly_asn`. -/
def endpointOf (sbuf : Text) : EndPoint where
  asn := htons (UInt16.ofInt (atoi sbuf))
  port := 0
  addr := 0
  mask := 0

/-- `sbuf` has 40 bytes. -/
def currentRelay (rs : RecordSet) : Option EndPoint :=
  (rs.getCurrentFieldValue rlyAsn 40).map endpointOf

def filterOf (inquiry : CorsInquiry) (relays : List EndPoint) : CorsAdvice :=
  { CorsAdvice.new with
    type := .rlyFilter
    source := inquiry.source
    destination := inquiry.destination
    relays }

/-- The record set and what was done, except where a value cannot be read. -/
def processInquiry (rs : RecordSet) (answer : Answer) (msg : Mem) (len : Nat) :
    Option (RecordSet × Effect) :=
  match parse CorsInquiry.deserialize msg len with
  | none => some (rs, ⟨[], none⟩)
  | some inquiry => do
      let (relays, rs) := ((rs.executeSQL answer).1.moveFirst).walk currentRelay
      let relays ← relays.mapM id
      pure (rs, ⟨[selectSql], some (filterOf inquiry relays).serialize⟩)

/-! ## The message loop -/

/-- What the loop does with the buffer, once there is a datagram in it. -/
def dispatch (rs : RecordSet) (answers : Nat → Answer) (now : Nat → Int32) (msg : Mem) :
    Option (RecordSet × Effect) :=
  match PacketType.ofCode? (msg.get u8 0) with
  | some .rlyInquiry => processInquiry rs (answers 0) msg corsMaxMsgSize
  | some .rlyReport => some (processReport rs answers now msg corsMaxMsgSize)
  | _ => some (rs, ⟨[], none⟩)

/-- A datagram comes into a buffer that holds `rest`. -/
def receive (rs : RecordSet) (answers : Nat → Answer) (now : Nat → Int32) (rest : Mem)
    (datagram : Bytes) : Option (RecordSet × Effect) :=
  if 0 < datagram.length then
    dispatch rs answers now (rest.receive (datagram.take corsMaxMsgSize))
  else
    some (rs, ⟨[], none⟩)

/-! ## The loop over the entries -/

section Inserting
variable (source destination : EndPoint) (answers : Nat → Answer) (now : Nat → Int32)

/-- The entries with their positions, counted from `i`, as they go into the stream. -/
def chunks (i : Nat) (entries : List ReportEntry) : List Text :=
  entries.mapIdx fun k entry => valuesOf source destination entry (now (i + k))

theorem chunks_cons (i : Nat) (entry : ReportEntry) (entries : List ReportEntry) :
    chunks source destination now i (entry :: entries) =
      valuesOf source destination entry (now i) ::
        chunks source destination now (i + 1) entries := by
  simp only [chunks, List.mapIdx_cons, Nat.add_zero, Nat.add_assoc, Nat.add_comm 1]

/-- Each statement holds all that went into the stream up to its entry. -/
theorem insertLoop_executed (i : Nat) (values : Text) (rs : RecordSet)
    (entries : List ReportEntry) :
    (insertLoop source destination answers now i values rs entries).2 =
      (List.range entries.length).map fun k =>
        insertOpen ++
          (values ++ ((chunks source destination now i entries).take (k + 1)).flatten) ++
            insertClose := by
  induction entries generalizing i values rs with
  | nil => rfl
  | cons entry entries ih =>
      rw [insertLoop]
      dsimp only
      rw [ih, List.length_cons, List.range_succ_eq_map, List.map_cons, List.map_map, chunks_cons]
      simp only [List.take_succ_cons, List.take_zero, List.flatten_cons, List.flatten_nil,
        List.append_nil, Function.comp_def, Nat.succ_eq_add_one, List.append_assoc]

end Inserting

end Translator

end Cors
