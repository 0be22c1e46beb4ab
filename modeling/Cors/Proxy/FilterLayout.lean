import Cors.Protocol.RoundTrip
import Cors.Proxy.SimpleRldvr

/-! # From an inquiry to a filter

A filter gets its end points by one copy out of an inquiry, as if both had one layout. The source
stands at the same place in both. The destination does not: what the parser takes for its address
is the second half of the address and the first half of the mask.
-/

namespace Cors

open ByteFormat

namespace SimpleRldvr

open Countdown

/-- The filter is read as one of the networks, for the end points of the inquiry. -/
structure Recovers (r : Counted FilterOut) (srcPort : UInt16) (srcIp srcMask dstIp dstMask : UInt32)
    (netSet : NetSet) : Prop where
  zero : r.ok = true
  srcPort : r.out.srcPort = srcPort
  srcIp : r.out.srcIp = srcIp
  srcMask : r.out.srcMask = srcMask
  dstIp : r.out.dstIp = dstIp
  dstMask : r.out.dstMask = dstMask
  netSet : r.out.netSet = netSet

/-! ## Inquiries -/

/-- What stands in an inquiry where a filter has its end points. -/
structure Asks (m : Mem) (srcPort : UInt16) (srcIp srcMask dstIp dstMask : UInt32) : Prop where
  srcPort : m.get u16 Inquiry.srcPortPos = srcPort
  srcIp : m.get u32 Inquiry.srcAddrPos = srcIp
  srcMask : m.get u32 Inquiry.srcMaskPos = srcMask
  dstIp : m.get u32 Inquiry.dstAddrPos = dstIp
  dstMask : m.get u32 Inquiry.dstMaskPos = dstMask
  proxy : m.get u16 Inquiry.prxPortPos = 0

theorem packRlInquiry_asks (rlNum : UInt8) (srcPort : UInt16) (srcIp srcMask dstIp dstMask : UInt32)
    (reqUpdate : Int32) (reqDelay : UInt32) (rest : Mem) :
    Asks (rest.receive
        (packRlInquiry rlNum srcPort srcIp srcMask dstIp dstMask reqUpdate reqDelay))
      srcPort srcIp srcMask dstIp dstMask := by
  unfold packRlInquiry
  -- each field is written once, and no two overlap
  constructor <;>
    simp (disch := decide) only [Mem.receive_get, Mem.get_put_disjoint, Mem.get_put]
  rfl

/-! ## The destination -/

theorem read_four (m : Mem) (pos : Nat) :
    m.read pos u32.width = [m pos, m (pos + 1), m (pos + 2), m (pos + 3)] := rfl

theorem get_eq_iff (m : Mem) (pos spot : Nat) :
    m.get u32 pos = m.get u32 spot ↔ m pos = m spot ∧ m (pos + 1) = m (spot + 1) ∧
      m (pos + 2) = m (spot + 2) ∧ m (pos + 3) = m (spot + 3) := by
  have same : m.get u32 pos = m.get u32 spot ↔ m.read pos u32.width = m.read spot u32.width :=
    ⟨u32.decode_injective (Mem.read_length m pos _) (Mem.read_length m spot _),
      congrArg u32.decode⟩
  rw [same, read_four, read_four]
  simp only [List.cons.injEq, and_true]

theorem get_zero_iff (m : Mem) (pos : Nat) :
    m.get u32 pos = 0 ↔ m pos = 0 ∧ m (pos + 1) = 0 ∧ m (pos + 2) = 0 ∧ m (pos + 3) = 0 := by
  have same : m.get u32 pos = 0 ↔ m.read pos u32.width = [0, 0, 0, 0] :=
    ⟨fun zero => u32.decode_injective (r := [0, 0, 0, 0]) (Mem.read_length m pos _) rfl zero,
      congrArg u32.decode⟩
  rw [same, read_four]
  simp only [List.cons.injEq, and_true]

/-- Two bytes on, the destination is the same just in case it is zero. -/
theorem Asks.shifted_iff {m : Mem} {srcPort : UInt16} {srcIp srcMask dstIp dstMask : UInt32}
    (asks : Asks m srcPort srcIp srcMask dstIp dstMask) :
    m.get u32 Filter.dstAddrPos = dstIp ∧ m.get u32 Filter.dstMaskPos = dstMask ↔
      dstIp = 0 ∧ dstMask = 0 := by
  have proxy : m.read 21 2 = [0, 0] :=
    u16.decode_injective (r := [0, 0]) (Mem.read_length m 21 2) rfl asks.proxy
  obtain ⟨first, second, -⟩ : m 21 = 0 ∧ m 22 = 0 ∧ True := by
    simpa only [Mem.read, List.cons.injEq, and_true] using proxy
  rw [← asks.dstIp, ← asks.dstMask, get_eq_iff, get_eq_iff, get_zero_iff, get_zero_iff]
  change (m 15 = m 13 ∧ m 16 = m 14 ∧ m 17 = m 15 ∧ m 18 = m 16) ∧
      (m 19 = m 17 ∧ m 20 = m 18 ∧ m 21 = m 19 ∧ m 22 = m 20) ↔
    (m 13 = 0 ∧ m 14 = 0 ∧ m 15 = 0 ∧ m 16 = 0) ∧ m 17 = 0 ∧ m 18 = 0 ∧ m 19 = 0 ∧ m 20 = 0
  -- the zeros behind the mask come forward, two bytes at a time
  grind

/-! ## Filters -/

theorem putNets_eq (msg : Mem) (pos : Nat) (nets : List UInt32) :
    putNets msg pos nets = msg.write pos (nets.flatMap u32.encode) := by
  induction nets generalizing msg pos with
  | nil => exact (Mem.write_nil msg pos).symm
  | cons net nets ih =>
      have behind := Mem.write_append msg pos (u32.encode net) (nets.flatMap u32.encode)
      rw [u32.encode_length] at behind
      rw [putNets, ih, List.flatMap_cons]
      exact behind

theorem elements_length (netSet : NetSet) : netSet.elements.length = netSet.card :=
  Finset.length_sort _

theorem elements_toFinset (netSet : NetSet) : netSet.elements.toFinset = netSet :=
  Finset.sort_toFinset _ _

/-- A filter of all networks of the set, with what stands in the inquiry. -/
structure Filters (f : Mem) (inquiry : Mem) (netSet : NetSet) : Prop where
  type : f 0 = PacketType.rlyFilter.code
  number : (f.get u8 Filter.numPos).toNat = netSet.card
  copied : f.read Filter.srcPortPos 22 = inquiry.read Filter.srcPortPos 22
  nets : f.Holds Filter.rprtPos (netSet.elements.flatMap u32.encode)

/-- Neither bound on the number is in the way. -/
theorem netNum_eq {netSet : NetSet} {netNum : UInt8} (small : netSet.card ≤ maxFilterSize.toNat)
    (announced : netSet.card ≤ netNum.toNat) :
    let bounded := if netNum > maxFilterSize then maxFilterSize else netNum
    (if bounded.toNat > netSet.card then UInt8.ofNat netSet.card else bounded).toNat =
      netSet.card := by
  intro bounded
  have most : netSet.card ≤ bounded.toNat := by
    dsimp only [bounded]
    split
    · exact small
    · exact announced
  have byte : netSet.card < 256 := Nat.lt_of_le_of_lt announced netNum.toNat_lt
  split
  · exact UInt8.toNat_ofNat_of_lt' byte
  · omega

theorem packRlFilter_filters {netSet : NetSet} {netNum : UInt8}
    (small : netSet.card ≤ maxFilterSize.toNat) (announced : netSet.card ≤ netNum.toNat)
    (inquiry rest : Mem) :
    (packRlFilter inquiry netNum netSet).length = Filter.rprtPos + netSet.card * u32.width ∧
      Filters (rest.receive (packRlFilter inquiry netNum netSet)) inquiry netSet := by
  have number := netNum_eq small announced
  unfold packRlFilter
  dsimp only at number ⊢
  generalize (if _ > netSet.card then UInt8.ofNat netSet.card else _) = netNum at number ⊢
  have listed : netSet.elements.take netNum.toNat = netSet.elements := by
    rw [number, ← elements_length, List.take_length]
  rw [listed, number, putNets_eq]
  let ends := inquiry.read Inquiry.srcPortPos (Filter.rprtPos - Filter.srcPortPos)
  let header := Mem.put (Mem.put (fun _ => 0) u8 Filter.typePos PacketType.rlyFilter.code) u8
    Filter.numPos netNum
  let nets := netSet.elements.flatMap u32.encode
  let msg := (header.write Filter.srcPortPos ends).write Filter.rprtPos nets
  have size : nets.length = netSet.card * u32.width :=
    (flatMap_encode_length u32 _).trans (by rw [elements_length])
  have received {α : Type} (f : ByteFormat α) {pos : Nat}
      (early : pos + f.width ≤ Filter.srcPortPos) :
      (rest.receive (msg.read 0 (Filter.rprtPos + netSet.card * u32.width))).get f pos =
        header.get f pos := by
    have front : pos + f.width ≤ Filter.rprtPos := Nat.le_trans early (by decide)
    rw [Mem.receive_get rest msg f (Nat.le_add_right_of_le front),
      Mem.get_write_disjoint _ f _ (.inl front), Mem.get_write_disjoint _ f _ (.inl early)]
  refine ⟨Mem.read_length _ _ _, ?_, ?_, ?_, ?_⟩
  · have first : 0 + u8.width ≤ Filter.srcPortPos := by decide
    exact (Mem.get_u8 _ 0).symm.trans ((received u8 first).trans (Mem.get_u8 _ 0))
  · have stated : header.get u8 Filter.numPos = netNum := Mem.get_put _ u8 _ _
    rw [received u8 (by decide), stated, number]
  · have front : Filter.srcPortPos + 22 ≤ Filter.rprtPos := by decide
    rw [Mem.receive_read rest msg (Nat.le_add_right_of_le front),
      Mem.read_write_disjoint _ _ (.inl front)]
    have whole := Mem.read_write header Filter.srcPortPos ends
    rw [Mem.read_length] at whole
    exact whole
  · have written : msg.Holds Filter.rprtPos nets := Mem.holds_write _ _ _
    rw [Mem.Holds, Mem.receive_read rest msg (by rw [size])]
    exact written

theorem Filters.read_nets {f inquiry : Mem} {netSet : NetSet} (filters : Filters f inquiry netSet) :
    ((List.range netSet.card).map fun i => f.get u32 (Filter.rprtPos + i * u32.width)).toFinset =
      netSet := by
  rw [← elements_length, filters.nets.getAll, elements_toFinset]

theorem Filters.get_eq {f inquiry : Mem} {netSet : NetSet} (filters : Filters f inquiry netSet)
    (g : ByteFormat α) {pos : Nat} (behind : Filter.srcPortPos ≤ pos)
    (before : pos + g.width ≤ Filter.rprtPos) : f.get g pos = inquiry.get g pos := by
  obtain ⟨i, rfl⟩ := Nat.exists_eq_add_of_le behind
  have copied : Filter.srcPortPos + 22 = Filter.rprtPos := rfl
  refine Mem.get_congr g fun j inside => ?_
  rw [Nat.add_assoc]
  exact Mem.eq_of_read_eq filters.copied (by omega)

theorem Filters.recovers_iff {f inquiry : Mem} {netSet : NetSet}
    (filters : Filters f inquiry netSet) (few : netSet.card ≤ maxFilterSize.toNat)
    {srcPort : UInt16} {srcIp srcMask dstIp dstMask : UInt32}
    (asks : Asks inquiry srcPort srcIp srcMask dstIp dstMask) {out : FilterOut}
    (fresh : out.netSet = ∅) :
    Recovers (parseRlFilter f out (Filter.rprtPos + netSet.card * u32.width : Nat))
        srcPort srcIp srcMask dstIp dstMask netSet ↔
      dstIp = 0 ∧ dstMask = 0 := by
  have position : Filter.rprtPos = 25 := rfl
  have limit : netSet.card ≤ 20 := few
  have nonempty : 1 ≤ 25 + netSet.card * 4 := by omega
  have walks := parseRlFilter_walks filters.type nonempty (by omega) out
  rw [filters.number, filters.read_nets, fresh, Finset.empty_union] at walks
  have all : Passes (25 + netSet.card * 4) (filterGuards netSet.card) := by
    refine passes_append.mpr ⟨?_, (passes_elementGuards (by omega) _ _ _).mpr ?_⟩
    · simp only [passes_cons, passes_nil, and_true]
      omega
    · rw [u32_width]
      omega
  have parsed := walks.passes all
  rw [Nat.cast_zero, Int.sub_zero] at parsed
  rw [position, u32_width, parsed, ← asks.shifted_iff]
  constructor
  · intro recovers
    exact ⟨(filters.get_eq u32 (by decide) (by decide)).symm.trans recovers.dstIp,
      (filters.get_eq u32 (by decide) (by decide)).symm.trans recovers.dstMask⟩
  · intro same
    exact {
      zero := rfl
      srcPort := (filters.get_eq u16 (by decide) (by decide)).trans asks.srcPort
      srcIp := (filters.get_eq u32 (by decide) (by decide)).trans asks.srcIp
      srcMask := (filters.get_eq u32 (by decide) (by decide)).trans asks.srcMask
      dstIp := (filters.get_eq u32 (by decide) (by decide)).trans same.1
      dstMask := (filters.get_eq u32 (by decide) (by decide)).trans same.2
      netSet := rfl }

/-- A filter is read as it was meant just in case the inquiry names no destination. -/
theorem filter_recovers_iff (rlNum : UInt8) (srcPort : UInt16)
    (srcIp srcMask dstIp dstMask : UInt32) (reqUpdate : Int32) (reqDelay : UInt32)
    {netSet : NetSet} {netNum : UInt8} (few : netSet.card ≤ maxFilterSize.toNat)
    (announced : netSet.card ≤ netNum.toNat) (behind rest : Mem) {out : FilterOut}
    (fresh : out.netSet = ∅) :
    let inquiry := packRlInquiry rlNum srcPort srcIp srcMask dstIp dstMask reqUpdate reqDelay
    let msg := packRlFilter (behind.receive inquiry) netNum netSet
    Recovers (parseRlFilter (rest.receive msg) out msg.length)
        srcPort srcIp srcMask dstIp dstMask netSet ↔
      dstIp = 0 ∧ dstMask = 0 := by
  intro inquiry msg
  obtain ⟨size, filters⟩ := packRlFilter_filters few announced (behind.receive inquiry) rest
  have asks := packRlInquiry_asks rlNum srcPort srcIp srcMask dstIp dstMask reqUpdate reqDelay
    behind
  rw [size]
  exact filters.recovers_iff few asks fresh

/-- A filter of three networks, for no destination. -/
theorem no_destination_recovered :
    let netSet : NetSet := {0x0A000000, 0xAC100000, 0xC0A80000}
    let inquiry := packRlInquiry 9 5060 0x0A000001 0xFF000000 0 0 7 150
    let msg := packRlFilter (Mem.padded inquiry) 3 netSet
    Recovers (parseRlFilter (Mem.padded msg) ⟨1, 2, 3, 4, 5, 6, ∅⟩ msg.length)
      5060 0x0A000001 0xFF000000 0 0 netSet := by
  intro netSet inquiry msg
  exact (filter_recovers_iff 9 5060 0x0A000001 0xFF000000 0 0 7 150 (by decide) (by decide) _ _
    rfl).mpr ⟨rfl, rfl⟩

/-- The destination is 4 with the mask 5. -/
theorem destination_not_recovered :
    ¬ ∀ rlNum srcPort srcIp srcMask dstIp dstMask reqUpdate reqDelay netSet netNum behind rest out,
      Finset.card netSet ≤ maxFilterSize.toNat → Finset.card netSet ≤ UInt8.toNat netNum →
      FilterOut.netSet out = ∅ →
      let inquiry := packRlInquiry rlNum srcPort srcIp srcMask dstIp dstMask reqUpdate reqDelay
      let msg := packRlFilter (Mem.receive behind inquiry) netNum netSet
      Recovers (parseRlFilter (Mem.receive rest msg) out msg.length)
        srcPort srcIp srcMask dstIp dstMask netSet := by
  intro always
  have recovers := always 0 1 2 3 4 5 0 0 ∅ 0 (fun _ => 0) (fun _ => 0) ⟨0, 0, 0, 0, 0, 0, ∅⟩
    (Nat.zero_le _) (Nat.zero_le _) rfl
  have asks := packRlInquiry_asks 0 1 2 3 4 5 0 0 (fun _ => 0)
  have few : Finset.card (∅ : NetSet) ≤ maxFilterSize.toNat := Nat.zero_le _
  have announced : Finset.card (∅ : NetSet) ≤ (0 : UInt8).toNat := Nat.zero_le _
  obtain ⟨size, filters⟩ := packRlFilter_filters few announced
    (Mem.receive (fun _ => 0) (packRlInquiry 0 1 2 3 4 5 0 0)) (fun _ => 0)
  dsimp only at recovers
  rw [size] at recovers
  exact absurd ((filters.recovers_iff few asks rfl).mp recovers).1 (by decide)

end SimpleRldvr

end Cors
