import Cors.Protocol.Packets

/-! # Round trip of the control packets

`Deserialize` of a fresh object inverts `Serialize`, whatever stands in memory
behind the packet. Lists come back cut at the limit of their class.
-/

namespace Cors

open ByteFormat

theorem cutSize_toNat (limit : UInt8) (xs : List α) :
    (cutSize limit xs).toNat = min limit.toNat xs.length := by
  have small : limit.toNat < 256 := limit.toNat_lt
  by_cases long : limit.toNat < xs.length
  · simp only [cutSize, if_pos long]
    omega
  · have exact_size : (UInt8.ofNat xs.length).toNat = xs.length :=
      UInt8.toNat_ofNat_of_lt' (by rw [UInt8.size]; omega)
    simp only [cutSize, if_neg long, exact_size]
    omega

theorem take_cutSize (limit : UInt8) (xs : List α) :
    xs.take (cutSize limit xs).toNat = xs.take limit.toNat := by
  rw [cutSize_toNat, List.take_eq_take_iff]
  omega

theorem elements_of_holds {f : ByteFormat α} {buf : Mem} {pos : Nat} {size : UInt8} {xs : List α}
    (counted : xs.length = size.toNat) (stands : buf.Holds pos (xs.flatMap f.encode)) :
    elements f buf pos size = xs := by
  simpa only [elements, ← counted] using stands.getAll

theorem recognise_code {accepted : List PacketType} {type : PacketType} (own : type ∈ accepted) :
    recognise accepted type.code = some type := by
  simp only [recognise, PacketType.ofCode?_code, Option.bind_some, if_pos own]

theorem recognise_mem {accepted : List PacketType} {b : UInt8} {type : PacketType}
    (found : recognise accepted b = some type) : type ∈ accepted := by
  obtain ⟨other, -, kept⟩ := Option.bind_eq_some_iff.mp found
  split at kept
  · rename_i own
    exact Option.some.inj kept ▸ own
  · cases kept

theorem flatMap_encode_length (f : ByteFormat α) (xs : List α) :
    (xs.flatMap f.encode).length = xs.length * f.width := by
  simp [List.length_flatMap]

theorem CorsInquiry.serialize_length (x : CorsInquiry) : x.serialize.length = 39 := by
  simp [serialize]

theorem CorsAdvice.serialize_length (x : CorsAdvice) :
    x.serialize.length = 27 + 12 * (cutSize maxAdvicedRelays x.relays).toNat := by
  simp only [serialize, List.length_append, encode_length, u8_width, EndPoint.format_width,
    flatMap_encode_length, List.length_take, cutSize_toNat]
  omega

theorem CorsReport.serialize_length (x : CorsReport) :
    x.serialize.length = 27 + 20 * (cutSize maxReportEntrys x.reports).toNat := by
  simp only [serialize, List.length_append, encode_length, u8_width, EndPoint.format_width,
    ReportEntry.format_width, flatMap_encode_length, List.length_take, cutSize_toNat]
  omega

theorem CorsProbe.serialize_length (x : CorsProbe) : x.serialize.length = 54 := by
  simp [serialize]

theorem CorsProbe.holds_serialize {x : CorsProbe} {buf : Mem} :
    buf.Holds 0 x.serialize ↔
      buf.Holds 0 (u8.encode x.type.code) ∧ buf.Holds 1 (u8.encode x.ttl) ∧
        buf.Holds 2 (EndPoint.format.encode x.source) ∧
        buf.Holds 14 (EndPoint.format.encode x.relay) ∧
        buf.Holds 26 (EndPoint.format.encode x.destination) ∧
        buf.Holds 38 (Timeval.format.encode x.timestamp) ∧
        buf.Holds 46 (u32.encode (htonl x.bandwidth)) ∧
        buf.Holds 50 (u32.encode (htonl x.loadNum)) := by
  simp only [serialize, Mem.holds_append, List.length_append, encode_length, u8_width, u32_width,
    EndPoint.format_width, Timeval.format_width, Nat.reduceAdd, Nat.zero_add, and_assoc]

theorem CorsInquiry.parse_serialize {x : CorsInquiry} (own : x.type ∈ accepted) {buf : Mem}
    (stands : buf.Holds 0 x.serialize) :
    parse deserialize buf x.serialize.length = some x := by
  simp only [serialize, Mem.holds_append, List.length_append, encode_length, u8_width,
    EndPoint.format_width, Nat.reduceAdd, Nat.zero_add] at stands
  obtain ⟨⟨⟨⟨⟨tag, ttl⟩, required⟩, source⟩, destination⟩, proxy⟩ := stands
  have first : buf 0 = x.type.code := by simpa [u8_encode, Mem.Holds, Mem.read] using tag
  have fits : Scan.Fits 39 1 layout := by decide
  simp only [parse, serialize_length, deserialize_run, first, recognise_code own, if_pos fits,
    Option.map_some, ttl.get, required.get, source.get, destination.get, proxy.get]

theorem CorsInquiry.parse_type {buf : Mem} {len : Nat} {x : CorsInquiry}
    (decoded : parse deserialize buf len = some x) : x.type ∈ accepted := by
  simp only [parse, deserialize_run] at decoded
  cases found : recognise accepted (buf 0) with
  | none => simp [found] at decoded
  | some type =>
      simp only [found] at decoded
      split at decoded
      · obtain rfl := Option.some.inj decoded
        exact recognise_mem found
      · cases decoded

theorem CorsAdvice.parse_serialize {x : CorsAdvice} (own : x.type ∈ accepted) {buf : Mem}
    (stands : buf.Holds 0 x.serialize) :
    parse new.deserialize buf x.serialize.length =
      some { x with relays := x.relays.take maxAdvicedRelays.toNat } := by
  have complete : 1 + (layout (cutSize maxAdvicedRelays x.relays)).sum ≤ x.serialize.length := by
    rw [layout_sum, serialize_length]
    omega
  have fits : Scan.Fits x.serialize.length 1 (layout (cutSize maxAdvicedRelays x.relays)) :=
    Scan.fits_of_complete (by simp [layout, List.mem_replicate]) complete
  have counted : (x.relays.take (cutSize maxAdvicedRelays x.relays).toNat).length =
      (cutSize maxAdvicedRelays x.relays).toNat := by
    simp only [List.length_take, cutSize_toNat]
    omega
  simp only [serialize, Mem.holds_append, List.length_append, encode_length, u8_width,
    EndPoint.format_width, Nat.reduceAdd, Nat.zero_add] at stands
  obtain ⟨⟨⟨⟨⟨tag, ttl⟩, size⟩, source⟩, destination⟩, relays⟩ := stands
  have first : buf 0 = x.type.code := by simpa [u8_encode, Mem.Holds, Mem.read] using tag
  have announced : buf.get u8 sizePos = cutSize maxAdvicedRelays x.relays := size.get
  simp only [parse, deserialize_run, first, recognise_code own, announced, if_pos fits,
    Option.map_some, ttl.get, source.get, destination.get, elements_of_holds counted relays,
    take_cutSize, new, List.nil_append]

theorem CorsReport.parse_serialize {x : CorsReport} (own : x.type ∈ accepted) {buf : Mem}
    (stands : buf.Holds 0 x.serialize) :
    parse new.deserialize buf x.serialize.length =
      some { x with reports := x.reports.take maxReportEntrys.toNat } := by
  have complete : 1 + (layout (cutSize maxReportEntrys x.reports)).sum ≤ x.serialize.length := by
    rw [layout_sum, serialize_length]
    omega
  have fits : Scan.Fits x.serialize.length 1 (layout (cutSize maxReportEntrys x.reports)) :=
    Scan.fits_of_complete (by simp [layout, List.mem_replicate]) complete
  have counted : (x.reports.take (cutSize maxReportEntrys x.reports).toNat).length =
      (cutSize maxReportEntrys x.reports).toNat := by
    simp only [List.length_take, cutSize_toNat]
    omega
  simp only [serialize, Mem.holds_append, List.length_append, encode_length, u8_width,
    EndPoint.format_width, Nat.reduceAdd, Nat.zero_add] at stands
  obtain ⟨⟨⟨⟨⟨tag, ttl⟩, size⟩, source⟩, destination⟩, reports⟩ := stands
  have first : buf 0 = x.type.code := by simpa [u8_encode, Mem.Holds, Mem.read] using tag
  have announced : buf.get u8 sizePos = cutSize maxReportEntrys x.reports := size.get
  simp only [parse, deserialize_run, first, recognise_code own, announced, if_pos fits,
    Option.map_some, ttl.get, source.get, destination.get, elements_of_holds counted reports,
    take_cutSize, new, List.nil_append]

theorem CorsProbe.parse_serialize {x : CorsProbe} (own : x.type ∈ accepted) {buf : Mem}
    (stands : buf.Holds 0 x.serialize) :
    parse deserialize buf x.serialize.length = some x := by
  obtain ⟨tag, ttl, source, relay, destination, timestamp, bandwidth, load⟩ :=
    holds_serialize.mp stands
  have first : buf 0 = x.type.code := by simpa [u8_encode, Mem.Holds, Mem.read] using tag
  have fits : Scan.Fits 54 1 layout := by decide
  simp only [parse, serialize_length, deserialize_run, first, recognise_code own, if_pos fits,
    Option.map_some, ttl.get, source.get, relay.get, destination.get, timestamp.get, bandwidth.get,
    load.get, ntohl_htonl]

/-- All four classes at once, for every packet and whatever the memory behind it holds. -/
theorem control_packets_round_trip (rest : Mem) :
    (∀ x : CorsInquiry, x.type ∈ CorsInquiry.accepted →
      parse CorsInquiry.deserialize (rest.receive x.serialize) x.serialize.length = some x) ∧
    (∀ x : CorsAdvice, x.type ∈ CorsAdvice.accepted →
      parse CorsAdvice.new.deserialize (rest.receive x.serialize) x.serialize.length =
        some { x with relays := x.relays.take maxAdvicedRelays.toNat }) ∧
    (∀ x : CorsReport, x.type ∈ CorsReport.accepted →
      parse CorsReport.new.deserialize (rest.receive x.serialize) x.serialize.length =
        some { x with reports := x.reports.take maxReportEntrys.toNat }) ∧
    (∀ x : CorsProbe, x.type ∈ CorsProbe.accepted →
      parse CorsProbe.deserialize (rest.receive x.serialize) x.serialize.length = some x) := by
  refine ⟨?_, ?_, ?_, ?_⟩
  · intro x own
    exact CorsInquiry.parse_serialize own (rest.receive_holds _)
  · intro x own
    exact CorsAdvice.parse_serialize own (rest.receive_holds _)
  · intro x own
    exact CorsReport.parse_serialize own (rest.receive_holds _)
  · intro x own
    exact CorsProbe.parse_serialize own (rest.receive_holds _)

/-- Twelve relays, two more than are serialized. -/
def sampleAdvice : CorsAdvice where
  type := .rlyAdvice
  ttl := 7
  source := ⟨1, 0xABCD, 0x01020304, 0xFFFFFF00⟩
  destination := ⟨0xFF00, 80, 0x05060708, 0xFFFFFFFF⟩
  relays := (List.range 12).map fun i => ⟨UInt16.ofNat i, 5, UInt32.ofNat (1000 + i), 6⟩

def sampleProbe : CorsProbe where
  type := .bwReserve
  ttl := 3
  source := ⟨1, 0xABCD, 0x01020304, 0xFFFFFF00⟩
  relay := ⟨2, 0xEF01, 0x0A0B0C0D, 0xFFFF0000⟩
  destination := ⟨0xFF00, 80, 0x05060708, 0xFFFFFFFF⟩
  timestamp := ⟨-2, 999999⟩
  bandwidth := 0x80000001
  loadNum := 17

theorem control_packets_round_trip_sample :
    parse CorsAdvice.new.deserialize (Mem.receive (fun _ => 255) sampleAdvice.serialize)
        sampleAdvice.serialize.length =
          some { sampleAdvice with relays := sampleAdvice.relays.take maxAdvicedRelays.toNat } ∧
      parse CorsProbe.deserialize (Mem.receive (fun _ => 255) sampleProbe.serialize)
        sampleProbe.serialize.length = some sampleProbe := by
  obtain ⟨-, advice, -, probe⟩ := control_packets_round_trip fun _ => 255
  exact ⟨advice sampleAdvice (by decide), probe sampleProbe (by decide)⟩

end Cors
