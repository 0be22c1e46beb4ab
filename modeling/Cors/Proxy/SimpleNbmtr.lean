import Mathlib.Data.Rat.Defs
import Cors.Lib.Registry
import Cors.Lib.Run
import Cors.Protocol.Control

/-! # The neighbour maintainer

`neighbor.h`, `simplenbmtr.h` and `simplenbmtr.cpp`: the table of neighbouring proxies,
its construction from a configuration file, the periodic probe and the handlers of
PING and PONG.

The map `nm` and the list `nl` hold pointers to the same heap objects, so they are the
index and the order of a registry. Clock readings of a handler are arguments.
Round trip times are exact rationals in milliseconds. The scratch buffer `buff` has no end
as far as a handler goes, but a run stops where its end is overrun.
-/

namespace Cors

open ByteFormat

structure Neighbor where
  type : Int8
  addr : UInt32
  port : UInt16
  ts : Int32
  mask : UInt32
  asn : UInt16
  rtt : Rat
  seq : UInt8
  deriving DecidableEq

namespace Neighbor

def oracle : Int8 := 0
def peer : Int8 := 1

/-- The constructor with `rtt` and `seq` at their defaults. -/
def new (type : Int8) (addr : UInt32) (port : UInt16) (ts : Int32) (mask : UInt32)
    (asn : UInt16) : Neighbor where
  type := type
  addr := addr
  port := port
  ts := ts
  mask := mask
  asn := asn
  rtt := 0
  seq := 0

/-- A neighbour of which only the address is known. -/
def learned (type : Int8) (addr : UInt32) (port : UInt16) (ts : Int32) : Neighbor :=
  new type addr port ts 0xFFFFFFFF 0

def sockaddr (nb : Neighbor) : SockaddrIn := ⟨nb.port, nb.addr⟩

end Neighbor

structure NetInterface where
  addr : UInt32
  mask : UInt32
  asn : UInt16
  deriving DecidableEq

/-- What one handler reads from `gettimeofday` and from `time`. -/
structure Clock where
  tv : Timeval
  now : Int32
  deriving DecidableEq

structure SimpleNbmtr where
  minsize : Int32
  maxsize : Int32
  numperquery : UInt8
  abateInterval : Int32
  ifvec : List NetInterface
  table : Registry UInt32 Neighbor
  buff : Mem

namespace SimpleNbmtr

/-! ## Packet format -/

def typePos : Nat := 0
def tsPos : Nat := 1
def nbnumPos : Nat := 9
def seqPos : Nat := 10
def addrPos : Nat := 11
def pingHeaderLen : Nat := 15
def maskPos : Nat := 15
def asnPos : Nat := 19
def pongHeaderLen : Nat := 21

/-- One element of the neighbour list in a PONG. -/
def entry (nb : Neighbor) : Bytes :=
  i8.encode nb.type ++ u32.encode nb.addr ++ u16.encode nb.port ++ u32.encode nb.mask ++
    u16.encode (htons nb.asn)

def entryLen : Nat := 13

/-! ## The table -/

abbrev nm (s : SimpleNbmtr) : Table UInt32 Nat := s.table.index
abbrev nl (s : SimpleNbmtr) : List Nat := s.table.order
abbrev find (s : SimpleNbmtr) (addr : UInt32) : Option Nat := s.nm.lookup addr
abbrev deref (s : SimpleNbmtr) (p : Nat) : Neighbor := s.table.heap p

def modify (s : SimpleNbmtr) (p : Nat) (f : Neighbor → Neighbor) : SimpleNbmtr :=
  { s with table := s.table.modify p f }

/-- `nm[addr] = pn; nl.push_front(pn);` for a new object. -/
def pushFront (s : SimpleNbmtr) (nb : Neighbor) : SimpleNbmtr :=
  { s with table := s.table.pushFront Neighbor.addr nb }

/-! ## Construction -/

def isself (ifvec : List NetInterface) (addr : UInt32) : Bool := ifvec.any fun it => it.addr = addr

/-- `inet_pton`: the address with the given bytes in memory. -/
def dotted (a b c d : UInt8) : UInt32 := u32.decode [a, b, c, d]

def inPrefix (addr pref mask : UInt32) : Bool := addr &&& mask = pref &&& mask

def isIntra (addr : UInt32) : Bool :=
  inPrefix addr (dotted 10 0 0 0) (dotted 255 0 0 0) ||
    inPrefix addr (dotted 172 16 0 0) (dotted 255 240 0 0) ||
    inPrefix addr (dotted 192 168 0 0) (dotted 255 255 0 0) ||
    inPrefix addr (dotted 169 254 0 0) (dotted 255 255 0 0)

/-- The test a configured neighbour has to pass. -/
def accepts (ifvec : List NetInterface) (nb : Neighbor) : Bool :=
  !(nb.type < 0 || nb.addr = 0 || nb.port = 0 || isself ifvec nb.addr || isIntra nb.addr)

/-- The part of the parameter vector the handlers read. -/
structure Param where
  minsize : Int32
  maxsize : Int32
  numperquery : UInt8
  abateInterval : Int32

def defaults : Param := ⟨60, 300, 20, 1200⟩

/-- Enter the accepted lines one by one; a line is given by the object its fields
    were extracted into. -/
def loadTable (ifvec : List NetInterface) (lines : List Neighbor) : Registry UInt32 Neighbor :=
  lines.foldl
    (fun table nb => if accepts ifvec nb then table.pushBack Neighbor.addr nb else table)
    (.empty (.learned Neighbor.peer 0 0 0))

/-- The constructor. It throws when no line is accepted. -/
def load (param : Param) (ifvec : List NetInterface) (lines : List Neighbor) (junk : Mem) :
    Option SimpleNbmtr :=
  let table := loadTable ifvec lines
  if table.order = [] then
    none
  else
    some { minsize := param.minsize
           maxsize := param.maxsize
           numperquery := param.numperquery
           abateInterval := param.abateInterval
           ifvec
           table
           buff := junk }

/-! ## Probing -/

/-- `++ seq; if (seq >= 250) seq = 0;` -/
def advance (seq : UInt8) : UInt8 := if seq + 1 ≥ 250 then 0 else seq + 1

/-- Send the PING in `buff` to a neighbour, with its counter and address filled in, and
    advance the counter. -/
def sendPing (s : SimpleNbmtr) (p : Nat) : SimpleNbmtr × Datagram :=
  let nb := s.deref p
  let buff := (s.buff.put u8 seqPos nb.seq).put u32 addrPos nb.addr
  let s := s.modify p fun nb => { nb with seq := advance nb.seq }
  ({ s with buff }, ⟨nb.sockaddr, buff.read 0 pingHeaderLen⟩)

/-- A small table asks for neighbours, and its last neighbour gets a request too. -/
def request (s : SimpleNbmtr) : SimpleNbmtr × List Datagram :=
  if (s.nm.size : Int) < s.minsize.toInt then
    let s := { s with buff := s.buff.put u8 nbnumPos s.numperquery }
    match s.nl with
    | _ :: p :: rest =>
        let (s, d) := s.sendPing ((p :: rest).getLast (List.cons_ne_nil p rest))
        (s, [d])
    | _ => (s, [])
  else
    ({ s with buff := s.buff.put u8 nbnumPos 0 }, [])

/-- The neighbour at the back goes when it was silent for long. Its age is the exact
    difference, which is that of `time_t` as long as neither time is before 1970. -/
def abate (s : SimpleNbmtr) (back : Nat) (now : Int32) : Option SimpleNbmtr :=
  if now.toInt - (s.deref back).ts.toInt ≥ s.abateInterval.toInt ∧
      (s.deref back).type ≠ Neighbor.oracle ∧ 1 < s.nm.size then
    (s.table.evict Neighbor.addr).map fun table => { s with table }
  else
    some s

def rotate (s : SimpleNbmtr) : SimpleNbmtr := { s with table := s.table.rotate }

/-- `probe`. It is stuck when `nl` is empty, or when the neighbour it evicts is not
    found in `nm`. -/
def probe (s : SimpleNbmtr) (clock : Clock) : Option (SimpleNbmtr × List Datagram) := do
  let pn ← s.nl.head?
  let back ← s.nl.getLast?
  let buff := s.buff.put u8 typePos PacketType.probePing.code
  let s := { s with buff := buff.put Timeval.format tsPos clock.tv }
  let (s, asked) := s.request
  let (s, probed) := s.sendPing pn
  let s := s.modify pn fun nb => { nb with ts := clock.now }
  let s ← s.abate back clock.now
  pure (s.rotate, asked ++ [probed])

/-! ## The answer to a PING -/

/-- Mask and AS number of the interface that was pinged, as they go on the wire. -/
def interfaceInfo (ifvec : List NetInterface) (addr : UInt32) : UInt32 × UInt16 :=
  match ifvec.find? fun it => it.addr = addr with
  | some it => (it.mask, htons it.asn)
  | none => (0xFFFFFFFF, 0)

/-- The loop that provides neighbours: `m` have been written, the next goes to `pos`. -/
def provide (s : SimpleNbmtr) (peeraddr : SockaddrIn) (n : UInt8) :
    List Nat → UInt8 → Nat → Mem → UInt8 × Nat × Mem
  | [], m, pos, buff => (m, pos, buff)
  | p :: rest, m, pos, buff =>
      if m < n then
        if (s.deref p).addr ≠ peeraddr.addr then
          s.provide peeraddr n rest (m + 1) (pos + entryLen) (buff.write pos (entry (s.deref p)))
        else
          s.provide peeraddr n rest m pos buff
      else
        (m, pos, buff)

/-- Reverse learning. -/
def learnPeer (s : SimpleNbmtr) (now : Int32) (peeraddr : SockaddrIn) : SimpleNbmtr :=
  match s.find peeraddr.addr with
  | some _ => s
  | none => s.pushFront (.learned Neighbor.peer peeraddr.addr peeraddr.port now)

/-- The PONG without its neighbour list. -/
def pongHeader (ifvec : List NetInterface) (buff : Mem) : Mem :=
  let buff := buff.put u8 typePos PacketType.probePong.code
  let buff := buff.put u8 seqPos (buff.get u8 seqPos + 1)
  let (mask, asn) := interfaceInfo ifvec (buff.get u32 addrPos)
  (buff.put u32 maskPos mask).put u16 asnPos asn

def processProbePing (s : SimpleNbmtr) (now : Int32) (msg : Mem) (len : Nat)
    (peeraddr : SockaddrIn) : SimpleNbmtr × List Datagram :=
  let s := s.learnPeer now peeraddr
  let buff := s.buff.write 0 (msg.read 0 len)
  let n := buff.get u8 nbnumPos
  let buff := pongHeader s.ifvec buff
  let (m, pos, buff) := s.provide peeraddr n s.nl.reverse 0 pongHeaderLen buff
  let buff := buff.put u8 nbnumPos m
  ({ s with buff }, [⟨peeraddr, buff.read 0 pos⟩])

/-- `pos - buff` when all neighbours are written. -/
def finalPos (s : SimpleNbmtr) (now : Int32) (msg : Mem) (len : Nat) (peeraddr : SockaddrIn) :
    Nat :=
  let s := s.learnPeer now peeraddr
  let buff := s.buff.write 0 (msg.read 0 len)
  let n := buff.get u8 nbnumPos
  let buff := pongHeader s.ifvec buff
  (s.provide peeraddr n s.nl.reverse 0 pongHeaderLen buff).2.1

/-! ## Taking in a PONG -/

/-- Why a PONG is not expected: 1 for an address that is not the sender's, 2 for an
    unknown sender, 4 for the wrong sequence number. -/
def pongFlag (s : SimpleNbmtr) (msg : Mem) (peeraddr : SockaddrIn) : UInt8 :=
  let wrongAddr := if msg.get u32 addrPos ≠ peeraddr.addr then 1 else 0
  match s.find peeraddr.addr with
  | none => wrongAddr ||| 2
  | some p => wrongAddr ||| if (s.deref p).seq ≠ msg.get u8 seqPos then 4 else 0

/-- Milliseconds from the time stamped into the packet. The source multiplies the seconds
    in an `int`, so its result is this one for up to 24 days either way. -/
def roundTrip (tvnow tvsent : Timeval) : Rat :=
  ((tvnow.tvUsec.toInt - tvsent.tvUsec.toInt : Int) : Rat) / 1000 +
    ((tvnow.tvSec.toInt - tvsent.tvSec.toInt) * 1000 : Int)

/-- The probed neighbour with what its PONG says. -/
def updated (clock : Clock) (msg : Mem) (nb : Neighbor) : Neighbor :=
  { nb with
    rtt := roundTrip clock.tv (msg.get Timeval.format tsPos)
    ts := clock.now
    mask := msg.get u32 maskPos
    asn := ntohs (msg.get u16 asnPos) }

/-- The listed neighbour at `pos`, its AS number as it stands in the packet. -/
def listedAt (now : Int32) (msg : Mem) (pos : Nat) : Neighbor :=
  .new (msg.get i8 pos) (msg.get u32 (pos + 1)) (msg.get u16 (pos + 5)) now
    (msg.get u32 (pos + 7)) (msg.get u16 (pos + 11))

/-- The loop over the list: only a novel neighbour moves the position. -/
def learnListed (now : Int32) (msg : Mem) : Nat → Nat → SimpleNbmtr → SimpleNbmtr
  | 0, _, s => s
  | k + 1, pos, s =>
      match s.find (msg.get u32 (pos + 1)) with
      | some _ => learnListed now msg k pos s
      | none => learnListed now msg k (pos + entryLen) (s.pushFront (listedAt now msg pos))

def processProbePong (s : SimpleNbmtr) (clock : Clock) (msg : Mem) (peeraddr : SockaddrIn) :
    SimpleNbmtr :=
  if s.pongFlag msg peeraddr ≠ 0 then
    s
  else
    match s.find peeraddr.addr with
    | none => s
    | some p =>
        let s := s.modify p (updated clock msg)
        learnListed clock.now msg (msg.get u8 nbnumPos).toNat pongHeaderLen s

/-! ## Runs -/

inductive Event where
  | probe (clock : Clock)
  | ping (now : Int32) (msg : Mem) (len : Nat) (peeraddr : SockaddrIn)
  | pong (clock : Clock) (msg : Mem) (peeraddr : SockaddrIn)

/-- Behind `buff` stands `ifvec`, so there is no telling what follows a PING that is copied,
    or answered, beyond the end. -/
def step (s : SimpleNbmtr) : Event → Option SimpleNbmtr
  | .probe clock => (s.probe clock).map Prod.fst
  | .ping now msg len peeraddr =>
      if max len (s.finalPos now msg len peeraddr) ≤ corsMaxMsgSize then
        some (s.processProbePing now msg len peeraddr).1
      else
        none
  | .pong clock msg peeraddr => some (s.processProbePong clock msg peeraddr)

theorem step_ping {s s' : SimpleNbmtr} {now : Int32} {msg : Mem} {len : Nat}
    {peeraddr : SockaddrIn} (stepped : s.step (.ping now msg len peeraddr) = some s') :
    max len (s.finalPos now msg len peeraddr) ≤ corsMaxMsgSize ∧
      s' = (s.processProbePing now msg len peeraddr).1 := by
  obtain ⟨inside, taken⟩ := Option.ite_none_right_eq_some.mp stepped
  exact ⟨inside, (Option.some.inj taken).symm⟩

/-! ## What a probe does -/

/-- A neighbour after a PING to it. -/
def pinged (nb : Neighbor) : Neighbor := { nb with seq := advance nb.seq }

/-- The neighbour in front after a probe. -/
def probed (now : Int32) (nb : Neighbor) : Neighbor := { pinged nb with ts := now }

theorem pinged_type (nb : Neighbor) : (pinged nb).type = nb.type := rfl
theorem pinged_addr (nb : Neighbor) : (pinged nb).addr = nb.addr := rfl
theorem probed_type (now : Int32) (nb : Neighbor) : (probed now nb).type = nb.type := rfl
theorem probed_addr (now : Int32) (nb : Neighbor) : (probed now nb).addr = nb.addr := rfl

theorem updated_type (clock : Clock) (msg : Mem) (nb : Neighbor) :
    (updated clock msg nb).type = nb.type := rfl

theorem updated_addr (clock : Clock) (msg : Mem) (nb : Neighbor) :
    (updated clock msg nb).addr = nb.addr := rfl

/-- The datagram is a PING to the neighbour with its counter as it stands. -/
structure IsPing (d : Datagram) (nb : Neighbor) : Prop where
  dst : d.dst = nb.sockaddr
  length : d.bytes.length = pingHeaderLen
  seq : ∀ rest : Mem, (rest.receive d.bytes).get u8 seqPos = nb.seq
  addr : ∀ rest : Mem, (rest.receive d.bytes).get u32 addrPos = nb.addr

theorem sendPing_table (s : SimpleNbmtr) (p : Nat) :
    (s.sendPing p).1.table = s.table.modify p pinged := rfl

theorem sendPing_isPing (s : SimpleNbmtr) (p : Nat) : IsPing (s.sendPing p).2 (s.deref p) where
  dst := rfl
  length := Mem.read_length _ _ _
  seq rest := by
    rw [sendPing, Mem.receive_get _ _ _ (by decide),
      Mem.get_put_disjoint _ _ _ _ (.inl (by decide)), Mem.get_put]
  addr rest := by
    rw [sendPing, Mem.receive_get _ _ _ (by decide), Mem.get_put]

theorem request_cases (s : SimpleNbmtr) :
    (s.request.2 = [] ∧ s.request.1.table = s.table) ∨
      ∃ head tail back d, s.nl = head :: tail ∧ tail.getLast? = some back ∧
        s.request.2 = [d] ∧ IsPing d (s.deref back) ∧
        s.request.1.table = s.table.modify back pinged := by
  by_cases small : (s.nm.size : Int) < s.minsize.toInt
  · simp only [request, if_pos small]
    split
    · rename_i head p rest split
      have last := List.getLast?_eq_some_getLast (List.cons_ne_nil p rest)
      refine .inr ⟨head, p :: rest, _, _, split, last, rfl, ?_, ?_⟩
      · exact sendPing_isPing _ _
      · exact sendPing_table _ _
    · exact .inl ⟨rfl, rfl⟩
  · refine .inl ⟨?_, ?_⟩ <;> simp only [request, if_neg small]

/-- The parameters and the interfaces are the same. -/
structure SameSettings (s s' : SimpleNbmtr) : Prop where
  maxsize : s'.maxsize = s.maxsize
  abateInterval : s'.abateInterval = s.abateInterval
  ifvec : s'.ifvec = s.ifvec

theorem request_settings (s : SimpleNbmtr) : SameSettings s s.request.1 := by
  unfold request
  split
  · dsimp only
    split <;> exact ⟨rfl, rfl, rfl⟩
  · exact ⟨rfl, rfl, rfl⟩

/-- Up to the eviction a probe sends one or two PINGs and changes the neighbours they
    go to. -/
theorem probe_cases {s : SimpleNbmtr} {head : Nat} {tail : List Nat} (split : s.nl = head :: tail)
    (clock : Clock) :
    ∃ (t : SimpleNbmtr) (sent : List Datagram) (back : Nat), s.nl.getLast? = some back ∧
      SameSettings s t ∧
      s.probe clock = (t.abate back clock.now).map (fun t' => (t'.rotate, sent)) ∧
      ((∃ d, sent = [d] ∧ IsPing d (s.deref head) ∧
          t.table = s.table.modify head (probed clock.now)) ∨
        (back ∈ tail ∧ ∃ d' d, sent = [d', d] ∧ IsPing d' (s.deref back) ∧
          IsPing d ((s.table.modify back pinged).heap head) ∧
          t.table = (s.table.modify back pinged).modify head (probed clock.now))) := by
  obtain ⟨back, last⟩ : ∃ back, s.nl.getLast? = some back :=
    Option.isSome_iff_exists.mp (by simp [split])
  let stamped := { s with
    buff := (s.buff.put u8 typePos PacketType.probePing.code).put Timeval.format tsPos clock.tv }
  let asked := stamped.request
  let t := (asked.1.sendPing head).1.modify head fun nb => { nb with ts := clock.now }
  have table : t.table = asked.1.table.modify head (probed clock.now) :=
    Registry.modify_modify asked.1.table head pinged fun nb => { nb with ts := clock.now }
  have settings : SameSettings s t :=
    ⟨stamped.request_settings.maxsize, stamped.request_settings.abateInterval,
      stamped.request_settings.ifvec⟩
  refine ⟨t, asked.2 ++ [(asked.1.sendPing head).2], back, last, settings, ?_, ?_⟩
  · have first : s.nl.head? = some head := by simp [split]
    simp only [probe, first, last, Option.bind_eq_bind, Option.bind_some]
    exact (Option.map_eq_bind ..).symm
  · have ping := sendPing_isPing asked.1 head
    rcases request_cases stamped with
      ⟨silent, same⟩ | ⟨head', tail', back', d, split', last', sent, asks, same⟩
    · refine .inl ⟨_, by rw [silent]; rfl, ?_, table.trans (by rw [same])⟩
      rwa [deref, same] at ping
    · obtain ⟨rfl, rfl⟩ := List.cons.inj (split.symm.trans split')
      have own : back' = back := by
        rw [split, List.getLast?_cons, last'] at last
        exact Option.some.inj last
      subst own
      refine .inr ⟨List.mem_of_getLast? last', d, _, by rw [sent]; rfl, asks, ?_, ?_⟩
      · rwa [deref, same] at ping
      · rw [table, same]

/-- In a consistent table an eviction succeeds; it spares oracles and the last
    neighbour. -/
theorem abate_cases {t : SimpleNbmtr} (ok : t.table.Consistent Neighbor.addr) {back : Nat}
    (last : t.nl.getLast? = some back) (now : Int32) :
    ∃ t', t.abate back now = some t' ∧ t'.table.Consistent Neighbor.addr ∧
      t'.table.heap = t.table.heap ∧
      (t'.nl = t.nl ∨
        ((t.deref back).type ≠ Neighbor.oracle ∧ 1 < t.nl.length ∧ t'.nl = t.nl.dropLast)) := by
  by_cases due : now.toInt - (t.deref back).ts.toInt ≥ t.abateInterval.toInt ∧
      (t.deref back).type ≠ Neighbor.oracle ∧ 1 < t.nm.size
  · have evicted := ok.evict last
    let table := { t.table with
      index := t.nm.erase (t.deref back).addr
      order := t.nl.dropLast }
    refine ⟨{ t with table }, ?_, ok.of_evict evicted, rfl, .inr ?_⟩
    · rw [abate, if_pos due, evicted, Option.map_some]
    · exact ⟨due.2.1, ok.size ▸ due.2.2, rfl⟩
  · exact ⟨t, by rw [abate, if_neg due], ok, rfl, .inl rfl⟩

/-! ## What the answer to a PING says -/

/-- The neighbours the loop has to choose from, in its order. -/
def candidates (s : SimpleNbmtr) (peeraddr : SockaddrIn) (ps : List Nat) : List Neighbor :=
  (ps.map s.deref).filter fun nb => nb.addr ≠ peeraddr.addr

/-- The neighbours a PONG lists: the last ones of `nl` first, without the asker. -/
def listed (s : SimpleNbmtr) (peeraddr : SockaddrIn) (n : UInt8) : List Neighbor :=
  (s.candidates peeraddr s.nl.reverse).take n.toNat

@[simp] theorem entry_length (nb : Neighbor) : (entry nb).length = entryLen := by
  simp [entry, entryLen]

theorem entries_length (nbs : List Neighbor) :
    (nbs.flatMap entry).length = entryLen * nbs.length := by
  simp [List.length_flatMap, Nat.mul_comm]

theorem provide_eq (s : SimpleNbmtr) (peeraddr : SockaddrIn) (n : UInt8) (ps : List Nat)
    (m : UInt8) (pos : Nat) (buff : Mem) (room : m ≤ n) :
    s.provide peeraddr n ps m pos buff =
      let nbs := (s.candidates peeraddr ps).take (n.toNat - m.toNat)
      (m + UInt8.ofNat nbs.length, pos + entryLen * nbs.length,
        buff.write pos (nbs.flatMap entry)) := by
  induction ps generalizing m pos buff with
  | nil => simp [provide, candidates, Mem.write_nil]
  | cons p ps ih =>
      have room' : m.toNat ≤ n.toNat := UInt8.le_iff_toNat_le.mp room
      by_cases more : m < n
      · have less : m.toNat < n.toNat := UInt8.lt_iff_toNat_lt.mp more
        have small : n.toNat < 256 := n.toNat_lt
        by_cases other : (s.deref p).addr ≠ peeraddr.addr
        · have next : (m + 1).toNat = m.toNat + 1 := by
            rw [UInt8.toNat_add, UInt8.toNat_one]
            omega
          have room'' : m + 1 ≤ n := UInt8.le_iff_toNat_le.mpr (by omega)
          have left : n.toNat - m.toNat = (n.toNat - (m + 1).toNat) + 1 := by omega
          have chosen : s.candidates peeraddr (p :: ps) =
              s.deref p :: s.candidates peeraddr ps := by
            simp [candidates, other]
          have behind := Mem.write_append buff pos (entry (s.deref p))
          simp only [entry_length] at behind
          have counted : ∀ k, m + 1 + UInt8.ofNat k = m + UInt8.ofNat (k + 1) := by
            intro k
            rw [UInt8.ofNat_add, UInt8.add_comm (UInt8.ofNat k), ← UInt8.add_assoc]
            rfl
          have moved : ∀ k, pos + entryLen + entryLen * k = pos + entryLen * (k + 1) := by
            intro k
            rw [Nat.mul_succ, Nat.add_assoc, Nat.add_comm entryLen]
          simp only [provide, if_pos more, if_pos other, ih _ _ _ room'', chosen, left,
            List.take_succ_cons, List.length_cons, List.flatMap_cons, behind, counted, moved]
        · have skipped : s.candidates peeraddr (p :: ps) = s.candidates peeraddr ps := by
            simp [candidates, not_not.mp other]
          simp only [provide, if_pos more, if_neg other, ih _ _ _ room, skipped]
      · have full : n.toNat - m.toNat = 0 := by
          have := mt UInt8.lt_iff_toNat_lt.mpr more
          omega
        simp [provide, more, full, Mem.write_nil]

/-- The buffer a PONG is sent from, made from the PING that was copied to it. -/
def pongBuffer (ifvec : List NetInterface) (ping : Mem) (nbs : List Neighbor) : Mem :=
  ((pongHeader ifvec ping).write pongHeaderLen (nbs.flatMap entry)).put u8 nbnumPos
    (UInt8.ofNat nbs.length)

def pong (ifvec : List NetInterface) (ping : Mem) (nbs : List Neighbor) : Bytes :=
  (pongBuffer ifvec ping nbs).read 0 (pongHeaderLen + entryLen * nbs.length)

theorem processProbePing_spec (s : SimpleNbmtr) (now : Int32) (msg : Mem) (len : Nat)
    (peeraddr : SockaddrIn) :
    s.processProbePing now msg len peeraddr =
      let t := s.learnPeer now peeraddr
      let ping := t.buff.write 0 (msg.read 0 len)
      let nbs := t.listed peeraddr (ping.get u8 nbnumPos)
      ({ t with buff := pongBuffer t.ifvec ping nbs }, [⟨peeraddr, pong t.ifvec ping nbs⟩]) := by
  simp only [processProbePing]
  rw [provide_eq _ peeraddr _ _ 0 _ _ (UInt8.le_iff_toNat_le.mpr (Nat.zero_le _))]
  simp only [UInt8.toNat_zero, Nat.sub_zero, UInt8.zero_add]
  rfl

/-- A PING that was received whole says itself how many neighbours it wants. -/
theorem processProbePing_eq (s : SimpleNbmtr) (now : Int32) (msg : Mem) {len : Nat}
    (whole : pingHeaderLen ≤ len) (peeraddr : SockaddrIn) :
    s.processProbePing now msg len peeraddr =
      let t := s.learnPeer now peeraddr
      let ping := t.buff.write 0 (msg.read 0 len)
      let nbs := t.listed peeraddr (msg.get u8 nbnumPos)
      ({ t with buff := pongBuffer t.ifvec ping nbs }, [⟨peeraddr, pong t.ifvec ping nbs⟩]) := by
  have asked : ((s.learnPeer now peeraddr).buff.write 0 (msg.read 0 len)).get u8 nbnumPos =
      msg.get u8 nbnumPos := Mem.receive_get _ msg u8 (Nat.le_trans (by decide) whole)
  simp only [processProbePing_spec, asked]

theorem pongHeader_get (ifvec : List NetInterface) (buff : Mem) :
    (pongHeader ifvec buff).get Timeval.format tsPos = buff.get Timeval.format tsPos ∧
      (pongHeader ifvec buff).get u8 seqPos = buff.get u8 seqPos + 1 ∧
      (pongHeader ifvec buff).get u32 addrPos = buff.get u32 addrPos := by
  have seq : (buff.put u8 typePos PacketType.probePong.code).get u8 seqPos = buff.get u8 seqPos :=
    Mem.get_put_disjoint _ _ _ _ (.inr (by decide))
  refine ⟨?_, ?_, ?_⟩
  · rw [pongHeader, Mem.get_put_disjoint _ _ _ _ (.inl (by decide)),
      Mem.get_put_disjoint _ _ _ _ (.inl (by decide)),
      Mem.get_put_disjoint _ _ _ _ (.inl (by decide)),
      Mem.get_put_disjoint _ _ _ _ (.inr (by decide))]
  · rw [pongHeader, Mem.get_put_disjoint _ _ _ _ (.inl (by decide)),
      Mem.get_put_disjoint _ _ _ _ (.inl (by decide)), Mem.get_put, seq]
  · rw [pongHeader, Mem.get_put_disjoint _ _ _ _ (.inl (by decide)),
      Mem.get_put_disjoint _ _ _ _ (.inl (by decide)),
      Mem.get_put_disjoint _ _ _ _ (.inr (by decide)),
      Mem.get_put_disjoint _ _ _ _ (.inr (by decide))]

theorem pong_get (ifvec : List NetInterface) (ping : Mem) (nbs : List Neighbor) (rest : Mem)
    (f : ByteFormat α) {pos : Nat} (inHeader : pos + f.width ≤ pongHeaderLen)
    (notCount : pos + f.width ≤ nbnumPos ∨ nbnumPos + 1 ≤ pos) :
    (rest.receive (pong ifvec ping nbs)).get f pos = (pongHeader ifvec ping).get f pos := by
  rw [pong, Mem.receive_get _ _ _ (Nat.le_trans inHeader (Nat.le_add_right _ _)), pongBuffer,
    Mem.get_put_disjoint _ u8 f _ notCount, Mem.get, Mem.get,
    Mem.read_write_disjoint _ _ (.inl inHeader)]

end SimpleNbmtr

end Cors
