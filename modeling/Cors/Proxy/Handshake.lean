import Cors.Proxy.NeighborTable

/-! # The sequence numbers of PING and PONG

The prober advances the counter of a neighbour when it sends a PING, the responder
adds one to the number it echoes, and the prober compares the two. They agree until
the prober's counter wraps to zero at 250, where the responder goes on.
-/

namespace Cors

open ByteFormat

namespace SimpleNbmtr

/-- A run of `probe` alone, with everything it sends. -/
def probes (s : SimpleNbmtr) : List Clock → Option (SimpleNbmtr × List Datagram)
  | [] => some (s, [])
  | clock :: clocks => do
      let (s, sent) ← s.probe clock
      let (s, later) ← s.probes clocks
      pure (s, sent ++ later)

/-- In a run of probes from `a` to `t`, the last PING to the neighbour `x` is `d`, sent
    by the probe that meets the state `s`. -/
def LastPing (a s t : SimpleNbmtr) (x : Nat) (d : Datagram) : Prop :=
  ∃ before clock after s' earlier sent later,
    a.probes before = some (s, earlier) ∧ s.probe clock = some (s', sent) ∧
    s'.probes after = some (t, later) ∧ x ∈ s.nl ∧ d ∈ sent ∧
    d.dst.addr = (s.deref x).addr ∧ ∀ d' ∈ later, d'.dst.addr ≠ (s.deref x).addr

/-- The PONG passes the checks and its measurements are taken over for `x`. -/
def Accepts (t : SimpleNbmtr) (clock : Clock) (msg : Mem) (peeraddr : SockaddrIn) (x : Nat) :
    Prop :=
  t.pongFlag msg peeraddr = 0 ∧
    (t.processProbePong clock msg peeraddr).deref x = updated clock msg (t.deref x)

/-! ## Counters along a run of probes -/

/-- A probe keeps addresses and advances the counters of the neighbours it sends a
    PING to, and no others. -/
theorem probe_counters {s s' : SimpleNbmtr} (sound : s.Sound) {clock : Clock}
    {sent : List Datagram} (run : s.probe clock = some (s', sent)) :
    s'.Sound ∧ (∀ p ∈ s'.nl, p ∈ s.nl) ∧ ∀ p ∈ s.nl, (s'.deref p).addr = (s.deref p).addr ∧
      ((∀ d ∈ sent, d.dst.addr ≠ (s.deref p).addr) → (s'.deref p).seq = (s.deref p).seq) ∧
      ∀ d ∈ sent, d.dst.addr = (s.deref p).addr →
        IsPing d (s.deref p) ∧ (s'.deref p).seq = advance (s.deref p).seq := by
  obtain ⟨s'', sent', head, tail, back, run', sound', split, last, turned, effect⟩ :=
    probe_spec sound clock
  obtain ⟨rfl, rfl⟩ := Prod.mk.inj (Option.some.inj (run.symm.trans run'))
  have atHead : head ∈ s.nl := by simp [split]
  have atBack : back ∈ s.nl := List.mem_of_getLast? last
  have own : ∀ {p q}, p ∈ s.nl → q ∈ s.nl → (s.deref q).addr = (s.deref p).addr → p = q :=
    fun one other same => sound.consistent.eq_of_key one other same.symm
  refine ⟨sound', fun p member => ?_, fun p member => ⟨(effect.spares p).2, ?_, ?_⟩⟩
  · rw [split]
    cases turned with
    | inl kept => simpa [kept, or_comm] using member
    | inr dropped =>
        rw [dropped.2, List.mem_append, List.mem_singleton] at member
        exact member.elim (fun early => .tail head ((List.dropLast_sublist tail).subset early))
          (fun last => last ▸ List.mem_cons_self)
  · intro quiet
    rcases effect with ⟨d, one, ping, heap⟩ | ⟨-, d', d, two, request, ping, heap⟩
    · have apart : p ≠ head := by
        rintro rfl
        exact quiet d (by simp [one]) (congrArg SockaddrIn.addr ping.dst)
      simp only [deref, heap, Registry.modify_heap_ne _ _ apart]
    · have apart : p ≠ head := by
        rintro rfl
        exact quiet d (by simp [two]) (congrArg SockaddrIn.addr ping.dst)
      have apart' : p ≠ back := by
        rintro rfl
        exact quiet d' (by simp [two]) (congrArg SockaddrIn.addr request.dst)
      simp only [deref, heap, Registry.modify_heap_ne _ _ apart, Registry.modify_heap_ne _ _ apart']
  · intro d' member' toward
    rcases effect with ⟨d, one, ping, heap⟩ | ⟨apart, request, d, two, asks, ping, heap⟩
    · obtain rfl : d' = d := by simpa [one] using member'
      obtain rfl := own member atHead (by rw [← toward, ping.dst]; rfl)
      exact ⟨ping, by simp only [deref, heap, Registry.modify_heap_self]; rfl⟩
    · have which : d' = request ∨ d' = d := by simpa [two] using member'
      rcases which with rfl | rfl
      · obtain rfl := own member atBack (by rw [← toward, asks.dst]; rfl)
        refine ⟨asks, ?_⟩
        simp only [deref, heap, Registry.modify_heap_ne _ _ apart, Registry.modify_heap_self]
        rfl
      · obtain rfl := own member atHead (by rw [← toward, ping.dst]; rfl)
        refine ⟨ping, ?_⟩
        simp only [deref, heap, Registry.modify_heap_self, Registry.modify_heap_ne _ _ apart.symm]
        rfl

theorem probes_counters {s t : SimpleNbmtr} (sound : s.Sound) {clocks : List Clock}
    {sent : List Datagram} (run : s.probes clocks = some (t, sent)) :
    t.Sound ∧ ∀ p ∈ t.nl, p ∈ s.nl ∧ (t.deref p).addr = (s.deref p).addr ∧
      ((∀ d ∈ sent, d.dst.addr ≠ (s.deref p).addr) → (t.deref p).seq = (s.deref p).seq) := by
  induction clocks generalizing s sent with
  | nil =>
      obtain ⟨rfl, rfl⟩ := Prod.mk.inj (Option.some.inj run)
      exact ⟨sound, fun p member => ⟨member, rfl, fun _ => rfl⟩⟩
  | cons clock clocks ih =>
      obtain ⟨⟨s', now⟩, first, more⟩ := Option.bind_eq_some_iff.mp run
      obtain ⟨⟨t', later⟩, others, done⟩ := Option.bind_eq_some_iff.mp more
      obtain ⟨rfl, rfl⟩ := Prod.mk.inj (Option.some.inj done)
      obtain ⟨sound', joined, counters⟩ := probe_counters sound first
      obtain ⟨soundT, rest⟩ := ih sound' others
      refine ⟨soundT, fun p member => ?_⟩
      obtain ⟨member', addr', seq'⟩ := rest p member
      obtain ⟨addr, seq, -⟩ := counters p (joined p member')
      refine ⟨joined p member', addr'.trans addr, fun quiet => ?_⟩
      have quietNow := fun d sent => quiet d (List.mem_append_left later sent)
      have quietLater := fun d sent => quiet d (List.mem_append_right now sent)
      exact (seq' (addr ▸ quietLater)).trans (seq quietNow)

/-! ## The answer and its check -/

theorem ping_answered (b : SimpleNbmtr) (now : Int32) {d : Datagram} {nb : Neighbor}
    (ping : IsPing d nb) (rest : Mem) (source : SockaddrIn) :
    ∃ reply, (b.processProbePing now (rest.receive d.bytes) d.bytes.length source).2 =
        [⟨source, reply⟩] ∧
      ∀ rest' : Mem, (rest'.receive reply).get u8 seqPos = nb.seq + 1 ∧
        (rest'.receive reply).get u32 addrPos = nb.addr := by
  let msg := rest.receive d.bytes
  let t := b.learnPeer now source
  let copy := t.buff.write 0 (msg.read 0 d.bytes.length)
  have answer := processProbePing_eq b now msg (Nat.le_of_eq ping.length.symm) source
  obtain ⟨-, seq, addr⟩ := pongHeader_get t.ifvec copy
  have seq' : copy.get u8 seqPos = nb.seq :=
    (Mem.receive_get t.buff msg u8 (by rw [ping.length]; decide)).trans (ping.seq rest)
  have addr' : copy.get u32 addrPos = nb.addr :=
    (Mem.receive_get t.buff msg u32 (by rw [ping.length]; decide)).trans (ping.addr rest)
  refine ⟨_, congrArg Prod.snd answer, fun rest' => ⟨?_, ?_⟩⟩
  · rw [pong_get _ _ _ _ u8 (by decide) (.inr (by decide)), seq, seq']
  · rw [pong_get _ _ _ _ u32 (by decide) (.inr (by decide)), addr, addr']

/-- A PONG from the address of a neighbour that repeats this address is accepted just
    in case the neighbour's counter is the one in the PONG. -/
theorem accepts_iff {t : SimpleNbmtr} (sound : t.Sound) {x : Nat} {peeraddr : SockaddrIn}
    (clock : Clock) {msg : Mem} (echoed : msg.get u32 addrPos = peeraddr.addr)
    (member : x ∈ t.nl) (own : (t.deref x).addr = peeraddr.addr) :
    t.Accepts clock msg peeraddr x ↔ (t.deref x).seq = msg.get u8 seqPos := by
  have found : t.find peeraddr.addr = some x := own ▸ sound.consistent.keyed x member
  by_cases agree : (t.deref x).seq = msg.get u8 seqPos
  · have flag : t.pongFlag msg peeraddr = 0 := by
      simp [pongFlag, echoed, found, agree]
    refine iff_of_true ⟨flag, ?_⟩ agree
    exact processProbePong_deref sound flag clock found
  · have flag : t.pongFlag msg peeraddr ≠ 0 := by
      simp [pongFlag, echoed, found, agree]
    exact iff_of_false (fun accepted => flag accepted.1) agree

theorem advance_eq_iff (seq : UInt8) : advance seq = seq + 1 ↔ seq + 1 < 250 := by
  rw [advance]
  split
  · rename_i wraps
    refine iff_of_false (fun same => ?_) (UInt8.not_lt.mpr wraps)
    rw [← same] at wraps
    exact absurd wraps (by decide)
  · rename_i below
    exact iff_of_true rfl (UInt8.not_le.mp below)

theorem LastPing.remains {a s t : SimpleNbmtr} (sound : a.Sound) {x : Nat} {d : Datagram}
    (last : LastPing a s t x d) :
    t.Sound ∧ IsPing d (s.deref x) ∧
      (x ∈ t.nl → (t.deref x).addr = d.dst.addr ∧ (t.deref x).seq = advance (s.deref x).seq) ∧
      (x ∉ t.nl → t.find d.dst.addr = none) := by
  obtain ⟨before, c, after, s', earlier, sent, later, ran, probed, ran', member, inSent, toward,
    quiet⟩ := last
  obtain ⟨soundS, -⟩ := probes_counters sound ran
  obtain ⟨soundS', joined, counters⟩ := probe_counters soundS probed
  obtain ⟨soundT, remaining⟩ := probes_counters soundS' ran'
  obtain ⟨addr, -, pings⟩ := counters x member
  obtain ⟨ping, advanced⟩ := pings d inSent toward
  refine ⟨soundT, ping, fun present => ?_, fun gone => ?_⟩
  · obtain ⟨-, addr', seq'⟩ := remaining x present
    exact ⟨(addr'.trans addr).trans toward.symm,
      (seq' (by simpa only [addr] using quiet)).trans advanced⟩
  · cases found : t.find d.dst.addr with
    | none => rfl
    | some p =>
        obtain ⟨inT, own⟩ := soundT.consistent.listed _ p found
        obtain ⟨inS', addr', -⟩ := remaining p inT
        have inS := joined p inS'
        have same : (s.deref p).addr = (s.deref x).addr := by
          rw [← (counters p inS).1, ← addr', ← toward]
          exact own
        exact absurd (soundS.consistent.eq_of_key inS member same ▸ inT) gone

/-- A PONG that answers the last PING to a neighbour is accepted just in case the
    neighbour has not been evicted since and its counter did not wrap with this PING. -/
theorem accepts_reply_iff {a s t : SimpleNbmtr} (sound : a.Sound) {x : Nat} {d : Datagram}
    (last : LastPing a s t x d) (clock : Clock) {msg : Mem}
    (seq : msg.get u8 seqPos = (s.deref x).seq + 1)
    (addr : msg.get u32 addrPos = (s.deref x).addr) :
    t.Accepts clock msg d.dst x ↔ x ∈ t.nl ∧ (s.deref x).seq + 1 < 250 := by
  obtain ⟨soundT, ping, kept, gone⟩ := last.remains sound
  have echoed : msg.get u32 addrPos = d.dst.addr := by
    rw [addr, ping.dst]
    rfl
  by_cases present : x ∈ t.nl
  · obtain ⟨own, counter⟩ := kept present
    rw [accepts_iff soundT clock echoed present own, counter, seq, advance_eq_iff]
    exact (and_iff_right present).symm
  · refine iff_of_false (fun accepted => ?_) (fun both => present both.1)
    exact absurd accepted.1 (by simp [pongFlag, echoed, gone present])

/-- The responder is any proxy in any state, and any memory lies behind the datagrams. -/
theorem handshake_iff {a s t : SimpleNbmtr} (sound : a.Sound) {x : Nat} {d : Datagram}
    (last : LastPing a s t x d) (b : SimpleNbmtr) (now : Int32) (clock : Clock)
    (source : SockaddrIn) (rest rest' : Mem) :
    ∃ reply, (b.processProbePing now (rest.receive d.bytes) d.bytes.length source).2 =
        [⟨source, reply⟩] ∧
      (t.Accepts clock (rest'.receive reply) d.dst x ↔ x ∈ t.nl ∧ (s.deref x).seq + 1 < 250) := by
  obtain ⟨-, ping, -, -⟩ := last.remains sound
  obtain ⟨reply, answered, echo⟩ := ping_answered b now ping rest source
  obtain ⟨seq, addr⟩ := echo rest'
  exact ⟨reply, answered, accepts_reply_iff sound last clock seq addr⟩

/-! ## The counter of a single neighbour -/

theorem probe_single {s : SimpleNbmtr} (sound : s.Sound) {p : Nat} (only : s.nl = [p])
    (clock : Clock) :
    ∃ s' d, s.probe clock = some (s', [d]) ∧ s'.Sound ∧ s'.nl = [p] ∧ IsPing d (s.deref p) ∧
      (s'.deref p).seq = advance (s.deref p).seq := by
  obtain ⟨s', sent, head, tail, back, run, sound', split, last, turned, effect⟩ :=
    probe_spec sound clock
  obtain ⟨rfl, rfl⟩ := List.cons.inj (only.symm.trans split)
  obtain rfl : p = back := by simpa [only] using last
  rcases effect with ⟨d, rfl, ping, heap⟩ | ⟨apart, -⟩
  · refine ⟨s', d, run, sound', by rcases turned with kept | ⟨-, kept⟩ <;> exact kept, ping, ?_⟩
    simp only [deref, heap, Registry.modify_heap_self]
    rfl
  · exact absurd rfl apart

theorem probes_single {s : SimpleNbmtr} (sound : s.Sound) {p : Nat} (only : s.nl = [p])
    (clocks : List Clock) :
    ∃ t sent, s.probes clocks = some (t, sent) ∧ t.Sound ∧ t.nl = [p] ∧
      (t.deref p).seq = advance^[clocks.length] (s.deref p).seq := by
  induction clocks generalizing s with
  | nil => exact ⟨s, [], rfl, sound, only, rfl⟩
  | cons clock clocks ih =>
      obtain ⟨s', d, run, sound', only', -, seq⟩ := probe_single sound only clock
      obtain ⟨t, later, run', soundT, onlyT, seq'⟩ := ih sound' only'
      refine ⟨t, [d] ++ later, by simp [probes, run, run'], soundT, onlyT, ?_⟩
      rw [seq', seq, List.length_cons, Function.iterate_succ_apply]

theorem loadedSingle_nl : loadedSingle.nl = [0] := rfl

theorem first_ping_accepted :
    ∃ t d reply, LastPing loadedSingle loadedSingle t 0 d ∧
      (loadedSingle.processProbePing 0 (Mem.receive (fun _ => 0) d.bytes) d.bytes.length
        ⟨80, dotted 9 9 9 9⟩).2 = [⟨⟨80, dotted 9 9 9 9⟩, reply⟩] ∧
      t.Accepts ⟨⟨0, 0⟩, 0⟩ (Mem.receive (fun _ => 0) reply) d.dst 0 := by
  obtain ⟨t, d, run, -, only, ping, -⟩ :=
    probe_single loadedSingle_sound loadedSingle_nl ⟨⟨0, 0⟩, 0⟩
  have last : LastPing loadedSingle loadedSingle t 0 d :=
    ⟨[], _, [], t, [], [d], [], rfl, run, rfl, by decide, by simp,
      congrArg SockaddrIn.addr ping.dst, by simp⟩
  obtain ⟨reply, answered, law⟩ := handshake_iff loadedSingle_sound last loadedSingle 0 ⟨⟨0, 0⟩, 0⟩
    ⟨80, dotted 9 9 9 9⟩ (fun _ => 0) (fun _ => 0)
  exact ⟨t, d, reply, last, answered, law.mpr ⟨by simp [only], by decide⟩⟩

/-- The 250th PING to a neighbour carries 249 and wraps its counter to 0; the PONG
    carries 250. -/
theorem wrapped_counter_refused :
    ¬ ∀ (a s t b : SimpleNbmtr) x d now clock source rest rest' reply,
      a.Sound → LastPing a s t x d → x ∈ t.nl →
      (b.processProbePing now (Mem.receive rest d.bytes) d.bytes.length source).2 =
        [⟨source, reply⟩] →
      t.Accepts clock (Mem.receive rest' reply) d.dst x := by
  intro always
  obtain ⟨s, earlier, ran, soundS, onlyS, counter⟩ :=
    probes_single loadedSingle_sound loadedSingle_nl (List.replicate 249 ⟨⟨0, 0⟩, 0⟩)
  obtain ⟨t, d, run, -, onlyT, ping, -⟩ := probe_single soundS onlyS ⟨⟨0, 0⟩, 0⟩
  have last : LastPing loadedSingle s t 0 d :=
    ⟨_, _, [], t, earlier, [d], [], ran, run, rfl, by simp [onlyS], by simp,
      congrArg SockaddrIn.addr ping.dst, by simp⟩
  obtain ⟨reply, answered, echo⟩ := ping_answered loadedSingle 0 ping (fun _ => 0)
    ⟨80, dotted 9 9 9 9⟩
  obtain ⟨seq, addr⟩ := echo fun _ => 0
  have accepted := always _ s t loadedSingle 0 d 0 ⟨⟨0, 0⟩, 0⟩ _ _ (fun _ => 0) reply
    loadedSingle_sound last (by simp [onlyT]) answered
  have small := ((accepts_reply_iff loadedSingle_sound last ⟨⟨0, 0⟩, 0⟩ seq addr).mp accepted).2
  have wrapped : (s.deref 0).seq = 249 := counter.trans (by decide +kernel)
  rw [wrapped] at small
  exact absurd small (by decide)

end SimpleNbmtr

end Cors
