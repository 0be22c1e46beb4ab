import Cors.Proxy.SimpleFwd

/-! # What control packets leave open

The handlers of control packets do not look at the length: they read the session key
and the demand of a short packet from whatever stands behind it. This module says for
each of them which packets determine what it does.
-/

namespace Cors

open ByteFormat

theorem SessionKey.between_dst {src src' dst dst' : SockaddrIn}
    (same : SessionKey.between src dst = SessionKey.between src' dst') : dst = dst' := by
  cases dst
  cases dst'
  simp only [SessionKey.between, SessionKey.mk.injEq] at same
  simp only [same]

namespace SimpleFwd

theorem forwarded_agree {n : Nat} {m m' : Mem} (agree : Mem.Agree n m m') (type : PacketType)
    (hops : 2 ≤ n) : Mem.Agree n (forwarded m type) (forwarded m' type) := by
  have typed := agree.put u8 Control.typePos type.code
  have hop : (m.put u8 Control.typePos type.code).get u8 Control.ttlPos =
      (m'.put u8 Control.typePos type.code).get u8 Control.ttlPos := typed.get u8 hops
  rw [forwarded, forwarded, hop]
  exact typed.put u8 _ _

theorem answered_agree {n : Nat} {m m' : Mem} (agree : Mem.Agree n m m')
    (addressed : Control.dstPortPos + 6 ≤ n) (nBw : UInt32) (sessionN : Nat) :
    answered m n nBw sessionN = answered m' n nBw sessionN := by
  have filled := (agree.put u32 Control.bwPos nBw).put u32 Control.taskPos
    (htonl (UInt32.ofNat sessionN))
  rw [answered, answered, filled.get SockaddrIn.format addressed, filled.read (by omega)]

theorem answered_dst (msg : Mem) (type : PacketType) (len : Nat) (nBw : UInt32) (sessionN : Nat) :
    (answered (forwarded msg type) len nBw sessionN).dst =
      msg.get SockaddrIn.format Control.dstPortPos := by
  rw [answered, Mem.get_put_disjoint _ _ _ _ (.inl (by decide)),
    Mem.get_put_disjoint _ _ _ _ (.inl (by decide)), forwarded_get _ _ _ (by decide)]

/-- Where an answer depends on the datagram only, the destination is in the datagram. -/
theorem addressed_of_answers {σ : Type} {l : Bytes} {handle : Mem → σ × List Datagram}
    (settled : Mem.Determines l handle)
    (answers : ∀ msg, (handle msg).2.head?.map Datagram.dst =
      some (msg.get SockaddrIn.format Control.dstPortPos)) :
    Control.dstPortPos + 6 ≤ l.length := by
  apply (Mem.determines_get_iff SockaddrIn.format l (by decide)).mp
  intro rest rest'
  have same := answers (rest.receive l)
  rw [settled rest rest', answers] at same
  exact (Option.some.inj same).symm

theorem processProbe_determined_iff (s : SimpleFwd) (l : Bytes) :
    (Mem.Determines l fun msg => s.processProbe msg l.length) ↔
      Control.dstPortPos + 6 ≤ l.length := by
  constructor
  · intro settled
    exact addressed_of_answers settled fun msg => congrArg some (answered_dst ..)
  · intro addressed rest rest'
    have agree := forwarded_agree (Mem.receive_agree rest rest' l) .fwForward
      (Nat.le_trans (by decide) addressed)
    simp only [processProbe]
    rw [answered_agree agree addressed]

theorem demand_toNat (msg : Mem) :
    (demand msg).toNat = (msg 49).toNat +
      256 * ((msg 48).toNat + 256 * ((msg 47).toNat + 256 * (msg 46).toNat)) := by
  have full : (msg.read Control.bwPos u32.width).length = 4 := Mem.read_length _ _ _
  rw [demand, Mem.get, ntohl_decode full, u32_decode_toNat (by rw [List.length_reverse, full])]
  simp [Mem.read, Control.bwPos, ofLE]

theorem demand_padded_le (rest : Mem) (l : Bytes) :
    (demand (Mem.padded l)).toNat ≤ (demand (rest.receive l)).toNat := by
  have least : ∀ i, (Mem.padded l i).toNat ≤ (rest.receive l i).toNat := by
    intro i
    by_cases inside : i < l.length
    · rw [Mem.padded, Mem.receive_inside _ inside, Mem.receive_inside _ inside]
    · rw [Mem.padded, Mem.receive_beyond _ (Nat.le_of_not_lt inside)]
      exact Nat.zero_le _
  have := least 46
  have := least 47
  have := least 48
  have := least 49
  rw [demand_toNat, demand_toNat]
  omega

theorem demand_bump {m : Mem} (blank : m 49 = 0) :
    (demand (m.bump 49)).toNat = (demand m).toNat + 1 := by
  have last : m.bump 49 49 = 1 := by
    rw [Mem.bump, Function.update_self, blank]
    rfl
  have others : ∀ i < 49, m.bump 49 i = m i := fun _ before =>
    Function.update_of_ne (Nat.ne_of_lt before) ..
  rw [demand_toNat, demand_toNat, last, blank, others 48 (by omega), others 47 (by omega),
    others 46 (by omega), UInt8.toNat_one, UInt8.toNat_zero]
  omega

/-- The grant depends on leftovers unless the demand was received, or what was received of
    it already exceeds what is left. -/
theorem granted_determined_iff (s : SimpleFwd) (key : SessionKey) (l : Bytes) :
    (Mem.Determines l fun msg => s.granted key (demand msg)) ↔
      Control.bwPos + 4 ≤ l.length ∨
        maxFwdBw.toNat - (s.unclaimed key).toNat ≤ (demand (Mem.padded l)).toNat := by
  constructor
  · intro settled
    by_contra neither
    obtain ⟨cut, low⟩ := not_or.mp neither
    have beyond : l.length ≤ 49 := by
      simp only [Control.bwPos] at cut
      omega
    have blank : Mem.padded l 49 = 0 := Mem.receive_beyond _ beyond
    have same : s.granted key (demand ((Mem.padded l).bump 49)) =
        s.granted key (demand (Mem.padded l)) := by
      rw [Mem.padded, ← Mem.receive_bump _ beyond]
      exact settled _ _
    have equal := congrArg UInt16.toNat same
    rw [granted_toNat, granted_toNat, demand_bump blank] at equal
    omega
  · rintro (whole | high) rest rest'
    · have same : demand (rest.receive l) = demand (rest'.receive l) :=
        congrArg ntohl ((Mem.receive_agree rest rest' l).get u32 whole)
      simp only [same]
    · have enough := Nat.le_trans high (demand_padded_le rest l)
      have enough' := Nat.le_trans high (demand_padded_le rest' l)
      apply UInt16.toNat_inj.mp
      rw [granted_toNat, granted_toNat, Nat.min_eq_right enough, Nat.min_eq_right enough']

theorem controlKey_agree {n : Nat} {m m' : Mem} (agree : Mem.Agree n m m')
    (addressed : Control.dstPortPos + 6 ≤ n) : controlKey m = controlKey m' := by
  have src := agree.get SockaddrIn.format (Nat.le_trans (by decide) addressed :
    Control.srcPortPos + SockaddrIn.format.width ≤ n)
  have dst := agree.get SockaddrIn.format addressed
  rw [controlKey, controlKey, src, dst]

theorem processBwReserve_determined_iff (s : SimpleFwd) (curTime : Timeval) (l : Bytes) :
    (Mem.Determines l fun msg => s.processBwReserve curTime msg l.length) ↔
      Control.dstPortPos + 6 ≤ l.length ∧
        (Control.bwPos + 4 ≤ l.length ∨
          maxFwdBw.toNat - (s.unclaimed (controlKey (Mem.padded l))).toNat ≤
            (demand (Mem.padded l)).toNat) := by
  have key : Control.dstPortPos + 6 ≤ l.length → ∀ rest : Mem,
      controlKey (rest.receive l) = controlKey (Mem.padded l) := fun addressed rest =>
    controlKey_agree (Mem.receive_agree rest _ l) addressed
  rw [← granted_determined_iff]
  constructor
  · intro settled
    have addressed := addressed_of_answers settled fun msg => congrArg some (answered_dst ..)
    refine ⟨addressed, fun rest rest' => ?_⟩
    have charged := congrArg (fun r => r.1.curRqBw) (settled rest rest')
    simp only [processBwReserve_eq, reserve_eq, key addressed] at charged
    exact (UInt16.add_right_inj _).mp charged
  · rintro ⟨addressed, granted⟩ rest rest'
    have agree := forwarded_agree (Mem.receive_agree rest rest' l) .bwForward
      (Nat.le_trans (by decide) addressed)
    simp only [processBwReserve_eq, reserve_eq, key addressed, granted rest rest']
    rw [answered_agree agree addressed]

theorem processBwRelease_determined_iff (s : SimpleFwd) (l : Bytes) :
    Mem.Determines l s.processBwRelease ↔
      Control.dstPortPos + 6 ≤ l.length ∨
        ∀ rest : Mem, s.fwdHmap.lookup (controlKey (rest.receive l)) = none := by
  constructor
  · intro settled
    by_contra neither
    obtain ⟨cut, stored⟩ := not_or.mp neither
    obtain ⟨rest, found⟩ := not_forall.mp stored
    have beyond : l.length ≤ 33 := by
      simp only [Control.dstPortPos] at cut
      omega
    have apart : controlKey (rest.receive l) ≠ controlKey ((rest.bump 33).receive l) := by
      intro same
      have dst : (rest.receive l).get SockaddrIn.format Control.dstPortPos =
          ((rest.bump 33).receive l).get SockaddrIn.format Control.dstPortPos :=
        SessionKey.between_dst same
      rw [Mem.receive_bump _ beyond] at dst
      exact Mem.bump_get_ne _ SockaddrIn.format (by decide) (by decide) dst.symm
    have released := congrArg (fun r => r.1.fwdHmap.lookup (controlKey (rest.receive l)))
      (settled rest (rest.bump 33))
    simp only [processBwRelease, release_lookup, release_lookup_ne apart] at released
    exact found released.symm
  · rintro (addressed | absent) rest rest'
    · rw [processBwRelease, controlKey_agree (Mem.receive_agree rest rest' l) addressed]
      rfl
    · simp only [processBwRelease, release, absent]

end SimpleFwd

end Cors
