import Cors.Proxy.NeighborTable

/-! # What PING and PONG leave open

A short PING is answered with bytes that the scratch buffer held before. A short PONG
is read on into the bytes of earlier datagrams, and the number of its list entries is
the sender's word alone. This module says which PINGs and PONGs determine what their
handler does.
-/

namespace Cors

open ByteFormat

namespace SimpleNbmtr

/-! ## The answer to a PING -/

def withBuff (s : SimpleNbmtr) (buff : Mem) : SimpleNbmtr := { s with buff }

@[simp] theorem withBuff_table (s : SimpleNbmtr) (buff : Mem) :
    (s.withBuff buff).table = s.table := rfl

theorem learnPeer_withBuff (s : SimpleNbmtr) (buff : Mem) (now : Int32) (peeraddr : SockaddrIn) :
    (s.withBuff buff).learnPeer now peeraddr = (s.learnPeer now peeraddr).withBuff buff := by
  simp only [learnPeer, withBuff]
  cases s.find peeraddr.addr <;> rfl

/-- The part of a PONG header that is made from the same bytes of the PING. -/
def echoed (buff : Mem) : Mem :=
  let buff := buff.put u8 typePos PacketType.probePong.code
  buff.put u8 seqPos (buff.get u8 seqPos + 1)

theorem pongHeader_eq (ifvec : List NetInterface) (buff : Mem) :
    pongHeader ifvec buff =
      ((echoed buff).put u32 maskPos (interfaceInfo ifvec ((echoed buff).get u32 addrPos)).1).put
        u16 asnPos (interfaceInfo ifvec ((echoed buff).get u32 addrPos)).2 := rfl

theorem pongHeader_agree (ifvec : List NetInterface) {m m' : Mem}
    (agree : Mem.Agree pingHeaderLen m m') :
    Mem.Agree pongHeaderLen (pongHeader ifvec m) (pongHeader ifvec m') := by
  have typed := agree.put u8 typePos PacketType.probePong.code
  have seq : (m.put u8 typePos PacketType.probePong.code).get u8 seqPos =
      (m'.put u8 typePos PacketType.probePong.code).get u8 seqPos := typed.get u8 (by decide)
  have same : Mem.Agree pingHeaderLen (echoed m) (echoed m') := by
    rw [echoed, echoed, seq]
    exact typed.put u8 seqPos _
  have addr : (echoed m).get u32 addrPos = (echoed m').get u32 addrPos :=
    same.get u32 (by decide)
  rw [pongHeader_eq, pongHeader_eq, addr]
  have masked := same.extend (u32.encode (interfaceInfo ifvec ((echoed m').get u32 addrPos)).1)
  rw [encode_length] at masked
  have whole := masked.extend (u16.encode (interfaceInfo ifvec ((echoed m').get u32 addrPos)).2)
  rw [encode_length] at whole
  exact whole

/-- What a PING does to the table, and what is sent, when the scratch buffer and the
    receive buffer held `buff` and `rest`. -/
def answer (s : SimpleNbmtr) (now : Int32) (l : Bytes) (peeraddr : SockaddrIn) (buff rest : Mem) :
    Registry UInt32 Neighbor × List Datagram :=
  let r := (s.withBuff buff).processProbePing now (rest.receive l) l.length peeraddr
  (r.1.table, r.2)

theorem answer_eq (s : SimpleNbmtr) (now : Int32) (l : Bytes) (peeraddr : SockaddrIn)
    (buff rest : Mem) :
    s.answer now l peeraddr buff rest =
      let t := s.learnPeer now peeraddr
      let nbs := t.listed peeraddr ((buff.receive l).get u8 nbnumPos)
      (t.table, [⟨peeraddr, pong t.ifvec (buff.receive l) nbs⟩]) := by
  have copied : (rest.receive l).read 0 l.length = l := Mem.receive_holds rest l
  simp only [answer, processProbePing_spec, learnPeer_withBuff, copied]
  rfl

/-- The PONG repeats the last byte of a PING. -/
theorem answer_determined_iff (s : SimpleNbmtr) (now : Int32) (l : Bytes) (peeraddr : SockaddrIn) :
    (∀ buff buff' rest rest',
      s.answer now l peeraddr buff rest = s.answer now l peeraddr buff' rest') ↔
      pingHeaderLen ≤ l.length := by
  constructor
  · intro settled
    apply (Mem.determines_get_iff u32 l (by decide)).mp
    intro buff buff'
    let reply (buff : Mem) : Bytes :=
      let t := s.learnPeer now peeraddr
      pong t.ifvec (buff.receive l) (t.listed peeraddr ((buff.receive l).get u8 nbnumPos))
    have repeated : ∀ buff : Mem, (Mem.padded (reply buff)).get u32 addrPos =
        (buff.receive l).get u32 addrPos := fun buff =>
      (pong_get _ _ _ _ u32 (by decide) (.inr (by decide))).trans (pongHeader_get _ _).2.2
    have sent : reply buff = reply buff' := by
      have same := settled buff buff' buff buff'
      rw [answer_eq, answer_eq] at same
      exact congrArg Datagram.bytes (List.head_eq_of_cons_eq (congrArg Prod.snd same))
    calc
      _ = (Mem.padded (reply buff)).get u32 addrPos := (repeated buff).symm
      _ = (Mem.padded (reply buff')).get u32 addrPos := by rw [sent]
      _ = _ := repeated buff'
  · intro whole buff buff' rest rest'
    have agree := Mem.receive_agree buff buff' l
    have asked : (buff.receive l).get u8 nbnumPos = (buff'.receive l).get u8 nbnumPos :=
      agree.get u8 (Nat.le_trans (by decide) whole)
    simp only [answer_eq, asked]
    have header := pongHeader_agree (s.learnPeer now peeraddr).ifvec
      (fun i inside => agree i (Nat.lt_of_lt_of_le inside whole))
    have listed := header.extend (List.flatMap entry ((s.learnPeer now peeraddr).listed peeraddr
      ((buff'.receive l).get u8 nbnumPos)))
    rw [entries_length] at listed
    rw [pong, pong, pongBuffer, pongBuffer, (listed.put u8 nbnumPos _).read (by simp)]

/-! ## The list of a PONG -/

/-- The loop reads nothing behind the datagram: of an entry it visits the address, and
    the rest if the address is novel. It also stops when every address the missing bytes
    could make is known. -/
def entriesReceived (now : Int32) (l : Bytes) : Nat → Nat → SimpleNbmtr → Prop
  | 0, _, _ => True
  | k + 1, pos, s =>
      if pos + 5 ≤ l.length then
        match s.find ((Mem.padded l).get u32 (pos + 1)) with
        | some _ => True
        | none =>
            pos + entryLen ≤ l.length ∧
              entriesReceived now l k (pos + entryLen)
                (s.pushFront (listedAt now (Mem.padded l) pos))
      else
        ∀ rest : Mem, s.find ((rest.receive l).get u32 (pos + 1)) ≠ none

theorem listedAt_agree {n : Nat} {m m' : Mem} (agree : Mem.Agree n m m') {pos : Nat}
    (whole : pos + entryLen ≤ n) (now : Int32) : listedAt now m pos = listedAt now m' pos := by
  have inside : ∀ {α : Type} (f : ByteFormat α) (offset : Nat), offset + f.width ≤ entryLen →
      m.get f (pos + offset) = m'.get f (pos + offset) := fun f offset early =>
    agree.get f (by omega)
  have type : m.get i8 pos = m'.get i8 pos := inside i8 0 (by decide)
  rw [listedAt, listedAt, type, inside u32 1 (by decide), inside u16 5 (by decide),
    inside u32 7 (by decide), inside u16 11 (by decide)]

theorem learnListed_fresh {s : SimpleNbmtr} (sound : s.Sound) (now : Int32) (msg : Mem) (k : Nat)
    {pos : Nat} (novel : s.find (msg.get u32 (pos + 1)) = none) :
    (learnListed now msg (k + 1) pos s).deref s.table.fresh = listedAt now msg pos := by
  rw [learnListed, novel]
  have sound' := pushFront_sound sound (listedAt now msg pos) novel
  exact (learnListed_deref sound' now msg k _ List.mem_cons_self).trans
    (Registry.enter_heap_self _ _ _)

theorem learnListed_asn {s : SimpleNbmtr} (sound : s.Sound) {now : Int32} {m m' : Mem} {k : Nat}
    {pos : Nat} (novel : s.find (m.get u32 (pos + 1)) = none)
    (novel' : s.find (m'.get u32 (pos + 1)) = none)
    (same : (learnListed now m (k + 1) pos s).table = (learnListed now m' (k + 1) pos s).table) :
    m.get u16 (pos + 11) = m'.get u16 (pos + 11) := by
  have object := learnListed_fresh sound now m k novel
  have object' := learnListed_fresh sound now m' k novel'
  rw [deref, same] at object
  exact congrArg Neighbor.asn (object.symm.trans object')

/-- A novel entry has to be whole, and the loop goes on behind it. -/
theorem learnListed_novel_iff {s : SimpleNbmtr} (sound : s.Sound) (now : Int32) {l : Bytes}
    (k : Nat) {pos : Nat}
    (novel : ∀ rest : Mem, s.find ((rest.receive l).get u32 (pos + 1)) = none) :
    (Mem.Determines l fun msg => (learnListed now msg (k + 1) pos s).table) ↔
      pos + entryLen ≤ l.length ∧ Mem.Determines l fun msg => (learnListed now msg k
        (pos + entryLen) (s.pushFront (listedAt now (Mem.padded l) pos))).table := by
  have next : pos + entryLen ≤ l.length →
      ((Mem.Determines l fun msg => (learnListed now msg (k + 1) pos s).table) ↔
        Mem.Determines l fun msg => (learnListed now msg k (pos + entryLen)
          (s.pushFront (listedAt now (Mem.padded l) pos))).table) := by
    intro whole
    apply Mem.determines_congr
    intro rest
    rw [learnListed, novel rest, Mem.padded,
      listedAt_agree (Mem.receive_agree (fun _ => 0) rest l) whole]
  constructor
  · intro settled
    have whole : pos + entryLen ≤ l.length := by
      apply (Mem.determines_get_iff u16 l (by decide)).mp
      intro rest rest'
      exact learnListed_asn sound (novel rest) (novel rest') (settled rest rest')
    exact ⟨whole, (next whole).mp settled⟩
  · rintro ⟨whole, others⟩
    exact (next whole).mpr others

/-- An entry whose address is cut must not be novel, whatever its missing bytes. -/
theorem learnListed_cut_iff {s : SimpleNbmtr} (sound : s.Sound) (now : Int32) {l : Bytes}
    (k : Nat) {pos : Nat} (cut : l.length < pos + 5) :
    (Mem.Determines l fun msg => (learnListed now msg (k + 1) pos s).table) ↔
      ∀ rest : Mem, s.find ((rest.receive l).get u32 (pos + 1)) ≠ none := by
  constructor
  · intro settled rest novel
    have beyond : l.length ≤ pos + 12 := by omega
    have apart : pos + 1 + u32.width ≤ pos + 12 := by
      rw [u32_width]
      omega
    have novel' : s.find (((rest.bump (pos + 12)).receive l).get u32 (pos + 1)) = none := by
      rw [Mem.receive_bump _ beyond, Mem.bump_get_of_apart _ _ (.inr apart)]
      exact novel
    have asn := learnListed_asn sound novel' novel (settled _ rest)
    rw [Mem.receive_bump _ beyond] at asn
    exact Mem.bump_get_ne _ u16 (by omega) (by rw [u16_width]; omega) asn
  · intro known rest rest'
    have stuck : ∀ rest : Mem, learnListed now (rest.receive l) (k + 1) pos s = s := by
      intro rest
      obtain ⟨p, found⟩ := Option.ne_none_iff_exists'.mp (known rest)
      exact learnListed_stuck now _ _ found
    simp only [stuck]

theorem learnListed_determined_iff {s : SimpleNbmtr} (sound : s.Sound) (now : Int32) (l : Bytes)
    (k pos : Nat) :
    (Mem.Determines l fun msg => (learnListed now msg k pos s).table) ↔
      entriesReceived now l k pos s := by
  induction k generalizing pos s with
  | zero => exact iff_of_true (fun _ _ => rfl) trivial
  | succ k ih =>
      by_cases received : pos + 5 ≤ l.length
      · have addr : ∀ rest : Mem, (rest.receive l).get u32 (pos + 1) =
            (Mem.padded l).get u32 (pos + 1) := fun rest =>
          (Mem.receive_agree rest _ l).get u32 (by rw [u32_width]; omega)
        rw [entriesReceived, if_pos received]
        cases known : s.find ((Mem.padded l).get u32 (pos + 1)) with
        | some p =>
            have stuck : ∀ rest : Mem, learnListed now (rest.receive l) (k + 1) pos s = s :=
              fun rest => learnListed_stuck now _ _ (addr rest ▸ known)
            exact iff_of_true (fun rest rest' => by simp only [stuck]) trivial
        | none =>
            have sound' := pushFront_sound sound (listedAt now (Mem.padded l) pos) known
            rw [learnListed_novel_iff sound now k fun rest => addr rest ▸ known, ih sound']
      · rw [entriesReceived, if_neg received]
        exact learnListed_cut_iff sound now k (Nat.lt_of_not_le received)

/-! ## The header of a PONG -/

theorem pongFlag_agree (s : SimpleNbmtr) {n : Nat} {m m' : Mem} (agree : Mem.Agree n m m')
    (whole : pingHeaderLen ≤ n) (peeraddr : SockaddrIn) :
    s.pongFlag m peeraddr = s.pongFlag m' peeraddr := by
  have addr : m.get u32 addrPos = m'.get u32 addrPos := agree.get u32 whole
  have seq : m.get u8 seqPos = m'.get u8 seqPos := agree.get u8 (Nat.le_trans (by decide) whole)
  simp only [pongFlag, addr, seq]

theorem updated_agree {n : Nat} {m m' : Mem} (agree : Mem.Agree n m m')
    (whole : pongHeaderLen ≤ n) (clock : Clock) : updated clock m = updated clock m' := by
  have ts : m.get Timeval.format tsPos = m'.get Timeval.format tsPos :=
    agree.get _ (Nat.le_trans (by decide) whole)
  have mask : m.get u32 maskPos = m'.get u32 maskPos :=
    agree.get u32 (Nat.le_trans (by decide) whole)
  have asn : m.get u16 asnPos = m'.get u16 asnPos := agree.get u16 whole
  funext nb
  rw [updated, updated, ts, mask, asn]

theorem learnListed_withBuff (now : Int32) (msg : Mem) (k pos : Nat) (s : SimpleNbmtr)
    (buff : Mem) :
    learnListed now msg k pos (s.withBuff buff) = (learnListed now msg k pos s).withBuff buff := by
  induction k generalizing pos s with
  | zero => rfl
  | succ k ih =>
      have same : (s.withBuff buff).find (msg.get u32 (pos + 1)) = s.find (msg.get u32 (pos + 1)) :=
        rfl
      rw [learnListed, learnListed, same]
      cases s.find (msg.get u32 (pos + 1)) with
      | some p => exact ih pos s
      | none => exact ih (pos + entryLen) (s.pushFront (listedAt now msg pos))

theorem processProbePong_withBuff (s : SimpleNbmtr) (buff : Mem) (clock : Clock) (msg : Mem)
    (peeraddr : SockaddrIn) :
    (s.withBuff buff).processProbePong clock msg peeraddr =
      (s.processProbePong clock msg peeraddr).withBuff buff := by
  have flag : (s.withBuff buff).pongFlag msg peeraddr = s.pongFlag msg peeraddr := rfl
  have found : (s.withBuff buff).find peeraddr.addr = s.find peeraddr.addr := rfl
  rw [processProbePong, processProbePong, flag, found]
  split
  · rfl
  · cases s.find peeraddr.addr with
    | none => rfl
    | some x => exact learnListed_withBuff clock.now msg _ _ (s.modify x (updated clock msg)) buff

/-- The datagram is no PONG the table expects, whatever the missing bytes, or its header
    is whole and so is what the loop visits. -/
def pongReceived (s : SimpleNbmtr) (clock : Clock) (l : Bytes) (peeraddr : SockaddrIn) : Prop :=
  (∀ rest : Mem, s.pongFlag (rest.receive l) peeraddr ≠ 0) ∨
    (pongHeaderLen ≤ l.length ∧ ∀ x, s.find peeraddr.addr = some x →
      entriesReceived clock.now l ((Mem.padded l).get u8 nbnumPos).toNat pongHeaderLen
        (s.modify x (updated clock (Mem.padded l))))

theorem whole_of_determined {s : SimpleNbmtr} (sound : s.Sound) {clock : Clock} {l : Bytes}
    {peeraddr : SockaddrIn} {rest : Mem} (expected : s.pongFlag (rest.receive l) peeraddr = 0)
    (settled : Mem.Determines l fun msg => (s.processProbePong clock msg peeraddr).table) :
    pongHeaderLen ≤ l.length := by
  by_contra cut
  have beyond : l.length ≤ 20 := by
    simp only [pongHeaderLen] at cut
    omega
  have expected' : s.pongFlag ((rest.bump 20).receive l) peeraddr = 0 := by
    rw [Mem.receive_bump _ beyond, ← expected]
    apply pongFlag_agree s _ (Nat.le_refl _)
    exact fun i inside => Function.update_of_ne (by simp only [pingHeaderLen] at inside; omega) ..
  obtain ⟨x, prober, -⟩ := processProbePong_eq expected clock
  have object := processProbePong_deref sound expected clock prober
  have object' := processProbePong_deref sound expected' clock prober
  have same : (s.processProbePong clock (rest.receive l) peeraddr).table =
      (s.processProbePong clock ((rest.bump 20).receive l) peeraddr).table := settled _ _
  rw [deref, same] at object
  have asn := congrArg Neighbor.asn (object'.symm.trans object)
  have field := htons_injective asn
  rw [Mem.receive_bump _ beyond] at field
  exact Mem.bump_get_ne _ u16 (by decide) (by decide) field

theorem processProbePong_determined_iff {s : SimpleNbmtr} (sound : s.Sound) (clock : Clock)
    (l : Bytes) (peeraddr : SockaddrIn) :
    (Mem.Determines l fun msg => (s.processProbePong clock msg peeraddr).table) ↔
      s.pongReceived clock l peeraddr := by
  by_cases refused : ∀ rest : Mem, s.pongFlag (rest.receive l) peeraddr ≠ 0
  · refine iff_of_true (fun rest rest' => ?_) (.inl refused)
    simp only [processProbePong_refused (refused _)]
  · obtain ⟨rest, expected⟩ := not_forall_not.mp refused
    obtain ⟨x, prober, -⟩ := processProbePong_eq expected clock
    have taken : pongHeaderLen ≤ l.length →
        ((Mem.Determines l fun msg => (s.processProbePong clock msg peeraddr).table) ↔
          entriesReceived clock.now l ((Mem.padded l).get u8 nbnumPos).toNat pongHeaderLen
            (s.modify x (updated clock (Mem.padded l)))) := by
      intro whole
      rw [← learnListed_determined_iff (modify_sound sound x (updated_addr clock _))]
      apply Mem.determines_congr
      intro rest'
      have agree := Mem.receive_agree rest' (fun _ => 0) l
      have expected' : s.pongFlag (rest'.receive l) peeraddr = 0 := by
        rw [← expected]
        exact pongFlag_agree s (Mem.receive_agree rest' rest l)
          (Nat.le_trans (by decide) whole) peeraddr
      obtain ⟨x', prober', result⟩ := processProbePong_eq expected' clock
      obtain rfl := Option.some.inj (prober.symm.trans prober')
      have number : (rest'.receive l).get u8 nbnumPos = (Mem.padded l).get u8 nbnumPos :=
        agree.get u8 (Nat.le_trans (by decide) whole)
      rw [result, number, updated_agree agree whole]
      rfl
    constructor
    · intro settled
      have whole := whole_of_determined sound expected settled
      refine .inr ⟨whole, fun x' prober' => ?_⟩
      obtain rfl := Option.some.inj (prober.symm.trans prober')
      exact (taken whole).mp settled
    · rintro (never | ⟨whole, entries⟩)
      · exact absurd never refused
      · exact (taken whole).mpr (entries x prober)

end SimpleNbmtr

end Cors
