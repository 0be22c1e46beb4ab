import Mathlib.Data.List.DropRight
import Cors.Proxy.NbConf

/-! # From addresses to autonomous systems

`ip2asn.cpp`: a DNS server is taken from `resolv.conf`, asked for the TXT record of the address,
and the number is read from the text of the first answer.
-/

namespace Cors

namespace Ip2asn

open Text ByteFormat NbConf

/-! ## The server -/

def nameserverWord : Text := "nameserver".toList

/-- From the first digit behind the word to the last one; `substr` throws if there is none. -/
def serverText (line : Text) : Option Text :=
  let t := (line.drop 11).dropWhile fun c => !c.isDigit
  if t = [] then none else some (t.rdropWhile fun c => !c.isDigit)

/-- `dnsservip`, 0 if no line has an address, except where `substr` throws. -/
def findServer : List Text → Option UInt32
  | [] => some 0
  | line :: lines =>
      if line.take 10 = nameserverWord then
        match serverText line with
        | none => none
        | some t =>
            match inetPton t with
            | some addr => some addr
            | none => findServer lines
      else
        findServer lines

/-! ## The request -/

def msgId : UInt16 := htons 3421
def qtype : UInt16 := htons 16
def qclass : UInt16 := htons 1

def charBytes (t : Text) : Bytes := t.map fun c => UInt8.ofNat c.toNat
def bytesText (l : Bytes) : Text := l.map fun b => Char.ofNat b.toNat

def isDot (c : Char) : Bool := c = '.'

def zone : List Text := ["origin".toList, "asn".toList, "cymru".toList, "com".toList]

/-- `appl`: the parts of the address come in front, each before the one that was there. -/
def labels (ip : UInt32) : List Text := (split isDot (inetNtop ip)).reverse ++ zone

def header : Bytes :=
  u16.encode msgId ++ u16.encode (htons 0x0100) ++ u16.encode (htons 1) ++ u16.encode 0 ++
    u16.encode 0 ++ u16.encode 0

/-- What is sent. -/
def request (ip : UInt32) : Bytes :=
  header ++ ((labels ip).flatMap fun label => UInt8.ofNat label.length :: charBytes label) ++
    [0] ++ u16.encode qtype ++ u16.encode qclass

/-! ## The answer -/

def headerLen : Nat := 12
def dataLen : Nat := 512

/-- `msg.data`. -/
def dataOf (msg : Mem) : Mem := fun i => msg (headerLen + i)

/-- The loop that skips a name, except where it leaves the message. -/
def skipLoop (data : Mem) (tlen : UInt8) (pos : Nat) : Option Nat :=
  if tlen = 0 then
    some pos
  else if 0xc0 ≤ tlen then
    some (pos + 2)
  else if pos < dataLen then
    skipLoop data (data pos) (pos + (data pos).toNat + 1)
  else
    none
termination_by dataLen - pos

def skipName (data : Mem) (pos : Nat) : Option Nat :=
  if pos < dataLen then skipLoop data (data pos) pos else none

/-- The string from a position on, if it ends in the message. -/
def cString (data : Mem) (pos : Nat) : Option Text :=
  let l := data.read pos (dataLen - pos)
  if 0 ∈ l then some (bytesText (l.takeWhile (· ≠ 0))) else none

/-- `sscanf("%u")`, and the first two bytes of what is stored. The other two are written behind the
    `unsigned short`, where nothing that is read any more is taken to stand. -/
def scanUnsigned (t : Text) : Option UInt16 :=
  let (sign, t) := takeSign (t.dropWhile isSpace)
  let digits := (takeDigits t).1
  let n := Nat.ofDigitChars 10 digits 0
  if digits = [] ∨ 4294967296 ≤ n then
    none
  else
    some (UInt16.ofInt (if sign = ['-'] then -n else n))

/-- What is made of an answer, except where something undefined is read. -/
def readAnswer (msg : Mem) : Option UInt16 :=
  if msg.get u16 0 = msgId ∧ 0 < msg.get u16 6 then do
    let data := dataOf msg
    let pos ← skipName data 0
    let pos ← skipName data (pos + 4)
    if pos + 1 < dataLen then
      -- the type of the answer must be TXT
      if data (pos + 1) = 0x10 then
        let t ← cString data (pos + 11)
        let asn ← scanUnsigned t
        some (htons asn)
      else
        some 0
    else
      none
  else
    some 0

/-- The message keeps the request behind what is received. -/
def received (ip : UInt32) (response : Bytes) : Mem :=
  (Mem.padded (request ip)).receive (response.take 512)

/-- `ask` is what a server sends back in time. -/
def ip2asn (ask : UInt32 → Bytes → Option Bytes) (ip : UInt32) (resolveconf : Option Text) :
    Option UInt16 :=
  match resolveconf with
  | none => some 0
  | some conf =>
      match findServer (lines conf) with
      | none => none
      | some dnsservip =>
          if dnsservip = 0 then
            some 0
          else
            match ask dnsservip (request ip) with
            | none => some 0
            | some response => readAnswer (received ip response)

end Ip2asn

end Cors
