import Cors.Lib.Network
import Cors.Proxy.Inquiring

/-! # Inquiries among proxies

An inquiry goes from proxy to proxy, and each of them answers the client. However the neighbours
change and the datagrams are delayed, duplicated or lost on the way, what is in flight comes from
what somebody asked, and without duplicates it ends.
-/

namespace Cors

open ByteFormat

namespace SimpleRldvr

/-! ## A chain of proxies -/

def isInquiry (d : Datagram) : Bool :=
  d.bytes.getD Inquiry.typePos 0 = PacketType.rlyInquiry.code

/-- The inquiry as a proxy with these neighbours sends it on. -/
def passOn (b : Bytes) (nl : List Neighbor) : Option Bytes :=
  ((processRlInquiry (Mem.padded b) b.length nl).find? isInquiry).map Datagram.bytes

section Chains
variable {b : Bytes} {ns : List Nat} {n : Nat}

theorem Permits.nil (b : Bytes) : Permits b [] :=
  ⟨nofun, fun none_ => absurd rfl none_, Nat.zero_le _⟩

theorem Permits.sum_le (permits : Permits b ns) : ns.sum ≤ (required b).toNat := by
  by_cases nothing : ns = []
  · simp [nothing]
  · exact Nat.le_of_lt (permits.few nothing)

theorem Asking.passesOn_copy (asking : Asking b) (permits : Permits b ns) :
    PassesOn (SimpleRldvr.copy b ns) n ↔
      ns.sum + n < (required b).toNat ∧ ns.length < hops (ttl b) := by
  have less := permits.sum_le
  rw [PassesOn, asking.ttl_copy, asking.required_copy, toNat_sub_ofNat less,
    hops_sub permits.left]
  omega

theorem permits_concat :
    Permits b (ns ++ [n]) ↔
      Permits b ns ∧ 0 < n ∧ ns.sum + n < (required b).toNat ∧ ns.length < hops (ttl b) := by
  constructor
  · intro permits
    have sum := permits.few (by simp)
    have left := permits.left
    rw [List.sum_append, List.sum_singleton] at sum
    rw [List.length_append, List.length_singleton] at left
    have before : Permits b ns :=
      ⟨fun m member => permits.positive m (List.mem_append_left _ member),
        fun _ => by omega, by omega⟩
    exact ⟨before, permits.positive n List.mem_concat_self, sum, left⟩
  · intro both
    obtain ⟨permits, positive, sum, left⟩ := both
    refine ⟨fun m member => ?_, fun _ => ?_, ?_⟩
    · obtain earlier | last := List.mem_append.mp member
      · exact permits.positive m earlier
      · rw [List.mem_singleton.mp last]
        exact positive
    · rwa [List.sum_append, List.sum_singleton]
    · rwa [List.length_append, List.length_singleton]

theorem advice_type (b : Bytes) (nl : List Neighbor) :
    (advice b nl).bytes.getD Inquiry.typePos 0 = PacketType.rlyAdvice.code := by
  obtain ⟨size, advises⟩ := packRlAdvice_advises (Mem.padded b) (fun _ => 0)
    (UInt8.ofNat nl.length) (rlList nl)
  have nonempty : 0 < (advice b nl).bytes.length := by
    rw [advice, size]
    exact Nat.lt_of_lt_of_le (by decide) (Nat.le_add_right _ _)
  exact (get_received _ nonempty).symm.trans ((Mem.get_u8 _ _).trans advises.type)

theorem advice_isInquiry (b : Bytes) (nl : List Neighbor) : ¬isInquiry (advice b nl) = true := by
  rw [isInquiry, advice_type]
  decide

theorem Asking.processRlInquiry_copy (asking : Asking b) (permits : Permits b ns) (before : Mem)
    {nl : List Neighbor} (some_ : nl ≠ []) :
    processRlInquiry (before.receive (SimpleRldvr.copy b ns)) b.length nl =
      (if ns.sum + nl.length < (required b).toNat ∧ ns.length < hops (ttl b) then
        [⟨(nl.getLast some_).sockaddr, SimpleRldvr.copy b (ns ++ [nl.length])⟩]
      else
        []) ++ [advice b nl] := by
  have sent := processRlInquiry_eq (asking.copy ns) before some_
  rw [copy_length, asking.advice_copy, ← asking.copy_concat] at sent
  simp only [asking.passesOn_copy permits] at sent
  exact sent

/-- It passes the inquiry on just in case that is permitted. -/
theorem Asking.passOn_copy (asking : Asking b) (permits : Permits b ns) (nl : List Neighbor)
    (b' : Bytes) :
    passOn (SimpleRldvr.copy b ns) nl = some b' ↔
      Permits b (ns ++ [nl.length]) ∧ SimpleRldvr.copy b (ns ++ [nl.length]) = b' := by
  rw [permits_concat, passOn, copy_length]
  by_cases alone : nl = []
  · subst alone
    refine iff_of_false (by simp [processRlInquiry]) fun permitted => ?_
    exact absurd permitted.1.2.1 (Nat.lt_irrefl 0)
  · rw [Mem.padded, asking.processRlInquiry_copy permits _ alone]
    by_cases onward : ns.sum + nl.length < (required b).toNat ∧ ns.length < hops (ttl b)
    · have own : isInquiry
          ⟨(nl.getLast alone).sockaddr, SimpleRldvr.copy b (ns ++ [nl.length])⟩ = true :=
        decide_eq_true (asking.copy (ns ++ [nl.length])).type
      have some_ := List.length_pos_of_ne_nil alone
      rw [if_pos onward, List.cons_append, List.find?_cons_of_pos own]
      simp only [Option.map_some, Option.some.injEq, permits, some_, onward, true_and, and_self]
    · rw [if_neg onward, List.nil_append, List.find?_cons_of_neg (advice_isInquiry b nl)]
      exact iff_of_false (by simp) fun permitted => onward permitted.1.2.2

theorem Asking.attempt_passOn (asking : Asking b) (nls : List (List Neighbor)) (b' : Bytes) :
    Run.attempt passOn b nls = some b' ↔
      Permits b (nls.map List.length) ∧ SimpleRldvr.copy b (nls.map List.length) = b' := by
  induction nls using List.reverseRecOn generalizing b' with
  | nil => simp [Permits.nil, asking.copy_nil]
  | append_singleton nls nl ih =>
      have last (b' : Bytes) : Run.attempt passOn b' [nl] = passOn b' nl :=
        Option.bind_fun_some _
      rw [Run.attempt_append, Option.bind_eq_some_iff, List.map_append, List.map_singleton]
      simp only [ih, last]
      constructor
      · rintro ⟨_, ⟨permits, rfl⟩, passed⟩
        exact (asking.passOn_copy permits nl b').mp passed
      · intro permitted
        have permits := (permits_concat.mp permitted.1).1
        exact ⟨_, ⟨permits, rfl⟩, (asking.passOn_copy permits nl b').mpr permitted⟩

/-- The relays that the client reads out of a datagram. -/
def told (before : Mem) (d : Datagram) : List RelayUnit :=
  (parseRlAdvice (before.receive d.bytes) ⟨0, []⟩ d.bytes.length).out.rlList

theorem told_advice (before : Mem) (b : Bytes) (nl : List Neighbor) :
    told before (advice b nl) = (rlList nl).take (min (nl.length % 256) maxRlNum.toNat) := by
  obtain ⟨size, advises⟩ := packRlAdvice_advises (Mem.padded b) before
    (UInt8.ofNat nl.length) (rlList nl)
  obtain ⟨extent, -, left, parsed⟩ := advises.parses (listed_le _ _) ⟨0, []⟩
  have length : (rlList nl).length = nl.length := by
    rw [rlList, List.length_map, List.length_reverse]
  have count : listed (UInt8.ofNat nl.length) (rlList nl).length =
      min (nl.length % 256) maxRlNum.toNat := by
    have byte : (UInt8.ofNat nl.length).toNat = nl.length % 256 := UInt8.toNat_ofNat'
    have less := Nat.mod_le nl.length 256
    rw [listed, byte, length]
    omega
  have whole : (advice b nl).bytes.length =
      adviceLen ((rlList nl).take (listed (UInt8.ofNat nl.length) (rlList nl).length)).length :=
    size
  rw [told, whole]
  unfold advice
  dsimp only
  rw [parsed, count, List.nil_append]

theorem told_length (before : Mem) (b : Bytes) (nl : List Neighbor) :
    (told before (advice b nl)).length = min (nl.length % 256) maxRlNum.toNat := by
  have less := Nat.mod_le nl.length 256
  rw [told_advice, List.length_take, rlList, List.length_map, List.length_reverse]
  omega

/-- Through which proxies an inquiry goes, and what the one it came to sends: the others are asked
    just in case the neighbours on the way are fewer than were asked for and hops are left. -/
theorem chain_of_inquiry {b : Bytes} (asking : Asking b) (nls : List (List Neighbor))
    (before : Mem) :
    let ns := nls.map List.length
    (∀ b', Run.attempt passOn b nls = some b' ↔ Permits b ns ∧ copy b ns = b') ∧
      (Permits b ns → ∀ nl, ∀ some_ : nl ≠ [],
        processRlInquiry (before.receive (copy b ns)) b.length nl =
          (if ns.sum + nl.length < (required b).toNat ∧ ns.length < hops (ttl b) then
            [⟨(nl.getLast some_).sockaddr, copy b (ns ++ [nl.length])⟩]
          else
            []) ++ [advice b nl] ∧
        told before (advice b nl) =
          (rlList nl).take (min (nl.length % 256) maxRlNum.toNat)) := by
  intro ns
  refine ⟨asking.attempt_passOn nls, fun permits nl some_ => ⟨?_, told_advice before b nl⟩⟩
  exact asking.processRlInquiry_copy permits before some_

/-- An inquiry for three relays, with four hops. -/
def sampleInquiry : Bytes := packRlInquiry 3 1 2 3 4 5 6 7

def oneNeighbor : List Neighbor := [Neighbor.learned Neighbor.peer 1 1 0]

theorem chain_of_inquiry_sample :
    Run.attempt passOn sampleInquiry [oneNeighbor, oneNeighbor] =
        some (copy sampleInquiry [1, 1]) ∧
      processRlInquiry (Mem.padded (copy sampleInquiry [1, 1])) sampleInquiry.length oneNeighbor =
        [advice sampleInquiry oneNeighbor] := by
  have permits : Permits sampleInquiry [1, 1] := ⟨by decide, fun _ => by decide, by decide⟩
  obtain ⟨chain, answers⟩ := chain_of_inquiry (b := sampleInquiry) ⟨by decide, by decide⟩
    [oneNeighbor, oneNeighbor] fun _ => 0
  exact ⟨(chain _).mpr ⟨permits, rfl⟩, (answers permits oneNeighbor (by decide)).1⟩

/-- When the inquiry is passed on no more though hops are left, there are as many neighbours as
    were asked for. The client is told of as many if no proxy has more than an advice lists. -/
theorem told_of_chain {b : Bytes} (asking : Asking b) {nls : List (List Neighbor)}
    {nl : List Neighbor} {b' : Bytes} (passed : Run.attempt passOn b nls = some b')
    (some_ : nl ≠ []) (ends : passOn b' nl = none) (left : nls.length < hops (ttl b))
    (before : Mem) :
    (required b).toNat ≤ ((nls ++ [nl]).map List.length).sum ∧
      ((∀ table ∈ nls ++ [nl], table.length ≤ maxRlNum.toNat) →
        (required b).toNat ≤
          ((nls ++ [nl]).map fun table => (told before (advice b table)).length).sum) := by
  obtain ⟨permits, rfl⟩ := (asking.attempt_passOn nls b').mp passed
  have enough : (required b).toNat ≤ ((nls ++ [nl]).map List.length).sum := by
    by_contra fewer
    rw [List.map_append, List.sum_append, List.map_singleton, List.sum_singleton] at fewer
    have onward := permits_concat.mpr ⟨permits, List.length_pos_of_ne_nil some_, by omega,
      by rwa [List.length_map]⟩
    rw [(asking.passOn_copy permits nl _).mpr ⟨onward, rfl⟩] at ends
    cases ends
  refine ⟨enough, fun few => ?_⟩
  have same : (nls ++ [nl]).map (fun table => (told before (advice b table)).length) =
      (nls ++ [nl]).map List.length := by
    refine List.map_congr_left fun table member => ?_
    have small := few table member
    have ten : maxRlNum.toNat = 10 := rfl
    rw [told_length, Nat.mod_eq_of_lt (by omega)]
    omega
  rwa [same]

theorem told_of_chain_sample :
    3 ≤ (([oneNeighbor, oneNeighbor] ++ [oneNeighbor]).map List.length).sum ∧
      ((∀ table ∈ [oneNeighbor, oneNeighbor] ++ [oneNeighbor], table.length ≤ maxRlNum.toNat) →
        3 ≤ (([oneNeighbor, oneNeighbor] ++ [oneNeighbor]).map fun table =>
          (told (fun _ => 0) (advice sampleInquiry table)).length).sum) := by
  have passed : Run.attempt passOn sampleInquiry [oneNeighbor, oneNeighbor] =
      some (copy sampleInquiry [1, 1]) := by decide +kernel
  have ends : passOn (copy sampleInquiry [1, 1]) oneNeighbor = none := by decide +kernel
  exact told_of_chain ⟨by decide, by decide⟩ passed (by decide) ends (by decide) fun _ => 0

end Chains

/-! ## A network of proxies -/

/-- For each address the neighbours of the proxy there. -/
abbrev Proxies := SockaddrIn → List Neighbor

inductive Action where
  | ask (d : Datagram)
  | learn (proxy : SockaddrIn) (nl : List Neighbor)

/-- Anybody may ask anything, and the neighbours change as they like. -/
def act (n : Proxies) : Action → Proxies × List Datagram
  | .ask d => (n, [d])
  | .learn proxy nl => (Function.update n proxy nl, [])

/-- What `recvfrom` leaves of a datagram. -/
def cut (d : Datagram) : Bytes := d.bytes.take corsMaxMsgSize

/-- `dispatch`, as far as inquiries are concerned. -/
def handle (n : Proxies) (before : Mem) (d : Datagram) : Proxies × List Datagram :=
  if 0 < (cut d).length ∧ isInquiry ⟨d.dst, cut d⟩ then
    (n, processRlInquiry (before.receive (cut d)) (cut d).length (n d.dst))
  else
    (n, [])

abbrev Event := Network.Event Action Mem

def step : Network Proxies Datagram → Event → Network Proxies Datagram := Network.step act handle

/-- What a datagram that somebody sent leads to: copies of it, passed on by one proxy after the
    other, and the answers of these. -/
inductive Leads (known : List Neighbor → Prop) (l : Datagram) : Datagram → Prop
  | own : Leads known l l
  | passed (asking : Asking (cut l)) (nls : List (List Neighbor)) (nl : List Neighbor)
      (some_ : nl ≠ []) (through : ∀ table ∈ nls ++ [nl], known table)
      (permits : Permits (cut l) ((nls ++ [nl]).map List.length)) :
      Leads known l ⟨(nl.getLast some_).sockaddr, copy (cut l) ((nls ++ [nl]).map List.length)⟩
  | answered (asking : Asking (cut l)) (nls : List (List Neighbor)) (nl : List Neighbor)
      (some_ : nl ≠ []) (through : ∀ table ∈ nls ++ [nl], known table)
      (permits : Permits (cut l) (nls.map List.length)) :
      Leads known l (advice (cut l) nl)

section Runs
variable {known : List Neighbor → Prop} {l m : Datagram} {n : Proxies}

/-- A proxy that a copy comes to sends another copy and an answer. -/
theorem leads_onward (asking : Asking (cut l)) {nls : List (List Neighbor)}
    (through : ∀ table ∈ nls, known table) (permits : Permits (cut l) (nls.map List.length))
    (before : Mem) {nl : List Neighbor} (knows : known nl) :
    ∀ m ∈ processRlInquiry (before.receive (copy (cut l) (nls.map List.length))) (cut l).length nl,
      Leads known l m := by
  intro m sent
  by_cases alone : nl = []
  · subst alone
    cases sent
  · have whole : ∀ table ∈ nls ++ [nl], known table := by
      intro table member
      obtain earlier | last := List.mem_append.mp member
      · exact through table earlier
      · rw [List.mem_singleton.mp last]
        exact knows
    rw [asking.processRlInquiry_copy permits before alone] at sent
    obtain forwarded | answer := List.mem_append.mp sent
    · split at forwarded
      · next onward =>
        have permitted := permits_concat.mpr
          ⟨permits, List.length_pos_of_ne_nil alone, onward.1, onward.2⟩
        obtain rfl := List.mem_singleton.mp forwarded
        have last : nls.map List.length ++ [nl.length] = (nls ++ [nl]).map List.length := by
          rw [List.map_append, List.map_singleton]
        rw [last] at permitted ⊢
        exact .passed asking nls nl alone whole permitted
      · cases forwarded
    · obtain rfl := List.mem_singleton.mp answer
      exact .answered asking nls nl alone whole permits

theorem cut_of_le {dst : SockaddrIn} {b : Bytes} (fits : b.length ≤ corsMaxMsgSize) :
    cut ⟨dst, b⟩ = b := List.take_of_length_le fits

theorem cut_length_le (d : Datagram) : (cut d).length ≤ corsMaxMsgSize := by
  rw [cut, List.length_take]
  exact Nat.min_le_left _ _

theorem advice_fits (b : Bytes) (nl : List Neighbor) :
    (advice b nl).bytes.length ≤ corsMaxMsgSize := by
  obtain ⟨size, -⟩ := packRlAdvice_advises (Mem.padded b) (fun _ => 0)
    (UInt8.ofNat nl.length) (rlList nl)
  have few := listed_le (UInt8.ofNat nl.length) (rlList nl)
  have ten : maxRlNum.toNat = 10 := rfl
  have position : Advice.rlsPos = 21 := rfl
  rw [advice, size, RelayUnit.format_width, position, corsMaxMsgSize]
  omega

theorem advice_not_asking (b : Bytes) (nl : List Neighbor) : ¬Asking (cut (advice b nl)) := by
  intro asking
  have whole : cut (advice b nl) = (advice b nl).bytes := cut_of_le (advice_fits b nl)
  have type := asking.type
  rw [whole] at type
  exact absurd ((advice_type b nl).symm.trans type) (by decide)

/-- What comes in is an inquiry and has a proxy with neighbours answer it, or nothing happens. -/
theorem handle_eq (n : Proxies) (before : Mem) (d : Datagram) :
    handle n before d =
      (n, if Asking (cut d) ∧ n d.dst ≠ [] then
        processRlInquiry (before.receive (cut d)) (cut d).length (n d.dst) else []) := by
  unfold handle
  by_cases inquiry : 0 < (cut d).length ∧ isInquiry ⟨d.dst, cut d⟩
  · rw [if_pos inquiry]
    by_cases asking : Asking (cut d) ∧ n d.dst ≠ []
    · rw [if_pos asking]
    · have type : (cut d).getD Inquiry.typePos 0 = PacketType.rlyInquiry.code :=
        of_decide_eq_true inquiry.2
      rw [if_neg asking, processRlInquiry_nil before type inquiry.1 asking]
  · have other : ¬(Asking (cut d) ∧ n d.dst ≠ []) := by
      intro both
      exact inquiry ⟨Nat.lt_of_lt_of_le (by decide) both.1.whole, decide_eq_true both.1.type⟩
    rw [if_neg inquiry, if_neg other]

theorem mem_handle {before : Mem} {d m : Datagram} (sent : m ∈ (handle n before d).2) :
    Asking (cut d) ∧ m ∈ processRlInquiry (before.receive (cut d)) (cut d).length (n d.dst) := by
  rw [handle_eq] at sent
  dsimp only at sent
  split at sent
  · next asking => exact ⟨asking.1, sent⟩
  · cases sent

theorem handle_leads (leads : Leads known l m) (before : Mem) (knows : known (n m.dst)) :
    ∀ m' ∈ (handle n before m).2, Leads known l m' := by
  intro m' sent
  obtain ⟨asked, sent⟩ := mem_handle sent
  cases leads with
  | own =>
      have through : ∀ table ∈ ([] : List (List Neighbor)), known table := nofun
      have onward := leads_onward asked through (.nil _) before knows m'
      rw [List.map_nil, asked.copy_nil] at onward
      exact onward sent
  | passed asking nls nl some_ through permits =>
      have fits : (copy (cut l) ((nls ++ [nl]).map List.length)).length ≤ corsMaxMsgSize := by
        rw [copy_length]
        exact cut_length_le l
      rw [cut_of_le fits, copy_length] at sent
      exact leads_onward asking through permits before knows m' sent
  | answered asking nls nl some_ through permits =>
      exact absurd asked (advice_not_asking (cut l) nl)

/-! ## What comes of what was asked -/

/-- The neighbours that a proxy had at the beginning, or learned of in the run. -/
def Known (n : Proxies) (es : List Event) (nl : List Neighbor) : Prop :=
  (∃ proxy, n proxy = nl) ∨ ∃ proxy, .act (.learn proxy nl) ∈ es

theorem Leads.mono {known' : List Neighbor → Prop} (more : ∀ nl, known nl → known' nl)
    (leads : Leads known l m) : Leads known' l m := by
  cases leads with
  | own => exact .own
  | passed asking nls nl some_ through permits =>
      exact .passed asking nls nl some_ (fun t member => more t (through t member)) permits
  | answered asking nls nl some_ through permits =>
      exact .answered asking nls nl some_ (fun t member => more t (through t member)) permits

theorem Known.later {es : List Event} {nl : List Neighbor} (e : Event) (knows : Known n es nl) :
    Known n (es ++ [e]) nl :=
  knows.imp_right fun learned => learned.imp fun _ member => List.mem_append_left _ member

/-- Whatever is in flight comes of something that somebody sent, and every proxy knows the
    neighbours that it learned of. -/
def Traced (n : Proxies) (es : List Event) : Network Proxies Datagram → Prop :=
  Network.Holds (fun nodes => ∀ proxy, Known n es (nodes proxy)) fun m =>
    ∃ l, .act (.ask l) ∈ es ∧ Leads (Known n es) l m

theorem Traced.later {es : List Event} {s : Network Proxies Datagram} (e : Event)
    (traced : Traced n es s) : Traced n (es ++ [e]) s := by
  refine ⟨fun proxy => (traced.1 proxy).later e, fun m flies => ?_⟩
  obtain ⟨l, asked, leads⟩ := traced.2 m flies
  exact ⟨l, List.mem_append_left _ asked, leads.mono fun _ knows => knows.later e⟩

theorem step_traced {es : List Event} {s : Network Proxies Datagram} (e : Event)
    (traced : Traced n es s) : Traced n (es ++ [e]) (step s e) := by
  cases e with
  | act a =>
      refine Network.act_holds (traced.later _) fun nodes => ?_
      cases a with
      | ask d =>
          refine ⟨nodes, fun m sent => ?_⟩
          obtain rfl := List.mem_singleton.mp sent
          exact ⟨m, List.mem_concat_self, .own⟩
      | learn proxy nl =>
          refine ⟨fun other => ?_, nofun⟩
          change Known n _ (Function.update s.nodes proxy nl other)
          by_cases same : other = proxy
          · rw [same, Function.update_self]
            exact .inr ⟨proxy, List.mem_concat_self⟩
          · rw [Function.update_of_ne same]
            exact nodes other
  | deliver k keep before =>
      refine Network.deliver_holds (traced.later _) fun m _ nodes comes => ?_
      rw [show (handle s.nodes before m).1 = s.nodes from congrArg Prod.fst (handle_eq _ _ _)]
      refine ⟨nodes, fun m' sent => ?_⟩
      obtain ⟨l, asked, leads⟩ := comes
      exact ⟨l, asked, handle_leads leads before (nodes m.dst) m' sent⟩

/-- In every run and whatever is in flight: it was sent by somebody, or is a copy of that which
    proxies with neighbours passed on one after the other while hops and demand were left, or is
    the answer of a proxy that such a copy came to. -/
theorem inquiries_of_run (n : Proxies) (es : List Event) :
    ∀ m ∈ (Run.final step ⟨n, []⟩ es).flight,
      ∃ l, .act (.ask l) ∈ es ∧ Leads (Known n es) l m := by
  have traced : Traced n es (Run.final step ⟨n, []⟩ es) :=
    Run.final_of_history (P := Traced n)
      ⟨fun proxy => .inl ⟨proxy, rfl⟩, fun _ flies => absurd flies List.not_mem_nil⟩
      (fun _ e holds => step_traced e holds) es
  exact traced.2

/-- Every proxy has the one neighbour. The first one handles the inquiry. -/
def sampleProxies : Proxies := fun _ => oneNeighbor

def sampleEvents : List Event :=
  [.act (.ask ⟨⟨2, 2⟩, sampleInquiry⟩), .deliver 0 false fun _ => 0]

theorem inquiries_of_run_sample :
    ∃ l, .act (.ask l) ∈ sampleEvents ∧
      Leads (Known sampleProxies sampleEvents) l
        ⟨(Neighbor.learned Neighbor.peer 1 1 0).sockaddr, copy sampleInquiry [1]⟩ :=
  inquiries_of_run sampleProxies sampleEvents _ (by decide +kernel)

/-! ## How long it goes on -/

/-- An upper bound of the deliveries that a datagram leads to, its own among them. -/
def weight (d : Datagram) : Nat :=
  if Asking (cut d) then
    2 * min (hops (ttl (cut d))) ((required (cut d)).toNat - 1) + 2
  else
    1

def total (ds : List Datagram) : Nat := (ds.map weight).sum

theorem weight_pos (d : Datagram) : 0 < weight d := by
  unfold weight
  split <;> omega

/-- What is sent when a datagram is handled leads to less than the datagram did. -/
theorem total_handle_lt (n : Proxies) (before : Mem) (d : Datagram) :
    total (handle n before d).2 < weight d := by
  rw [handle_eq]
  dsimp only
  split
  · next both =>
    obtain ⟨asking, some_⟩ := both
    have sent := asking.processRlInquiry_copy (.nil _) before some_
    have answer : weight (advice (cut d) (n d.dst)) = 1 := if_neg (advice_not_asking _ _)
    rw [asking.copy_nil] at sent
    rw [sent]
    by_cases onward : ([] : List Nat).sum + (n d.dst).length < (required (cut d)).toNat ∧
        ([] : List Nat).length < hops (ttl (cut d))
    · have passed := asking.copy [(n d.dst).length]
      have fits : (copy (cut d) [(n d.dst).length]).length ≤ corsMaxMsgSize := by
        rw [copy_length]
        exact cut_length_le d
      have some_' := List.length_pos_of_ne_nil some_
      simp only [List.sum_nil, List.length_nil, Nat.zero_add] at onward
      have left : hops (ttl (cut d) - UInt8.ofNat 1) = hops (ttl (cut d)) - 1 :=
        hops_sub (Nat.succ_le_of_lt onward.2)
      simp only [List.sum_nil, List.length_nil, Nat.zero_add, onward, and_self, if_true,
        List.nil_append, List.singleton_append, total, List.map_cons, List.map_nil, List.sum_cons,
        answer]
      rw [weight, cut_of_le fits, if_pos passed, asking.ttl_copy, asking.required_copy,
        List.length_singleton, List.sum_singleton, left, toNat_sub_ofNat (by omega), weight,
        if_pos asking]
      omega
    · rw [if_neg onward, weight, if_pos asking]
      simp only [total, List.nil_append, List.map_singleton, List.sum_singleton, answer]
      omega
  · exact weight_pos d

/-- Datagrams that are delivered. -/
def delivered (s : Network Proxies Datagram) : Event → Nat
  | .act _ => 0
  | .deliver k _ _ => if k < s.flight.length then 1 else 0

/-- What is sent anew, and what is left behind as a duplicate. -/
def gained (s : Network Proxies Datagram) : Event → List Datagram
  | .act (.ask d) => [d]
  | .act (.learn _ _) => []
  | .deliver k keep _ => if keep then s.flight[k]?.toList else []

theorem step_ledger (s : Network Proxies Datagram) (e : Event) :
    delivered s e + total (step s e).flight ≤ total s.flight + total (gained s e) := by
  cases e with
  | act a =>
      cases a with
      | ask d => exact Network.act_load (Nat.le_of_eq (Nat.zero_add _))
      | learn proxy nl => exact Network.act_load (Nat.le_of_eq (Nat.zero_add _))
  | deliver k keep before =>
      cases taken : s.flight[k]? with
      | none =>
          have behind : ¬k < s.flight.length := Nat.not_lt.mpr (List.getElem?_eq_none_iff.mp taken)
          rw [step, Network.step_deliver_none taken, delivered, if_neg behind, Nat.zero_add]
          exact Nat.le_add_right _ _
      | some m =>
          have inside : k < s.flight.length := (List.getElem?_eq_some_iff.mp taken).1
          have less : 1 + total (handle s.nodes before m).2 ≤ weight m := by
            rw [Nat.add_comm]
            exact total_handle_lt s.nodes before m
          have load := Network.deliver_load act taken less keep
          rw [delivered, if_pos inside, gained, taken]
          cases keep with
          | true => exact load
          | false => exact load

theorem weight_le (d : Datagram) : weight d ≤ 256 := by
  have left : hops (ttl (cut d)) ≤ 127 := by
    unfold hops
    split <;> omega
  unfold weight
  split <;> omega

/-- However the datagrams are delayed, reordered and lost, no more are delivered than what was
    asked, and the duplicates that were left, lead to; with what is in flight still. What one
    leads to is bounded. -/
theorem deliveries_of_run (n : Proxies) (es : List Event) :
    let visits := Run.visits step ⟨n, []⟩ es
    (visits.map fun visit => delivered visit.1 visit.2).sum +
          total (Run.final step ⟨n, []⟩ es).flight ≤
        (visits.map fun visit => total (gained visit.1 visit.2)).sum ∧
      ∀ d, 0 < weight d ∧ weight d ≤ 256 := by
  intro visits
  refine ⟨?_, fun d => ⟨weight_pos d, weight_le d⟩⟩
  have ledger := Run.visits_ledger delivered (fun s e => total (gained s e))
    (fun s => total s.flight) step_ledger (⟨n, []⟩ : Network Proxies Datagram) es
  have nothing : total [] = 0 := rfl
  simpa only [nothing, Nat.zero_add] using ledger

end Runs

end SimpleRldvr

end Cors
