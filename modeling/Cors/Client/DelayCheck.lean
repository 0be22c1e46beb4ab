import Cors.Client.Dropping
import Cors.Lib.Wrapping

/-! # The delay check

The reply to a probe counts as in time when the delay since the probe was sent, in
milliseconds, is at most one and a half times what is required. The delay is computed in 32
bits from a timestamp that came over the network. It is exact for a timestamp that is not in
the future and less than 2 ^ 31 milliseconds in the past. An older one can come out as no
delay at all.
-/

namespace Cors

/-- A time as it is read from the clock, with less than a second of microseconds. -/
def Timeval.Normal (t : Timeval) : Prop := 0 ≤ t.tvUsec.toInt ∧ t.tvUsec.toInt < 1000000

instance (t : Timeval) : Decidable t.Normal := inferInstanceAs (Decidable (_ ∧ _))

/-- Microseconds. -/
def Timeval.micros (t : Timeval) : Int := t.tvSec.toInt * 1000000 + t.tvUsec.toInt

namespace SimpleRlysltr

open Wrapping

/-! ## The exact delay -/

/-- The time since a probe was sent, in microseconds. -/
def sinceSent (now timestamp : Timeval) : Int := now.micros - timestamp.micros

/-- The same in milliseconds, rounded down. -/
def millis (now timestamp : Timeval) : Int := sinceSent now timestamp / 1000

/-- What the reply handler asks of a relay that answered a probe. -/
def inTime (req : Requirement) (now timestamp : Timeval) : Bool :=
  meetRequirement req (elapsed now timestamp)

/-- What it should ask. -/
def Timely (req : Requirement) (now timestamp : Timeval) : Prop :=
  0 ≤ sinceSent now timestamp ∧ 2 * millis now timestamp ≤ 3 * req.delay.toNat

/-- The second that is borrowed. -/
def borrow (now timestamp : Timeval) : Int := if now.tvUsec < timestamp.tvUsec then 1 else 0

/-- The delay in milliseconds, before it is taken for unsigned. -/
def delay32 (t : Timeval) : Int32 := t.tvSec * 1000 + t.tvUsec / 1000

/-- Every value that is computed on the way is the exact one. -/
structure NoWrap (now timestamp : Timeval) : Prop where
  difference : (now.tvSec - timestamp.tvSec).toInt = now.tvSec.toInt - timestamp.tvSec.toInt
  seconds : (elapsed now timestamp).tvSec.toInt =
    now.tvSec.toInt - timestamp.tvSec.toInt - borrow now timestamp
  raised : (1000000 + now.tvUsec).toInt = 1000000 + now.tvUsec.toInt
  microseconds : (elapsed now timestamp).tvUsec.toInt =
    now.tvUsec.toInt - timestamp.tvUsec.toInt + 1000000 * borrow now timestamp
  product : ((elapsed now timestamp).tvSec * 1000).toInt =
    (elapsed now timestamp).tvSec.toInt * 1000
  sum : (delay32 (elapsed now timestamp)).toInt =
    ((elapsed now timestamp).tvSec * 1000).toInt + ((elapsed now timestamp).tvUsec / 1000).toInt
  unsigned : ((delay32 (elapsed now timestamp)).toUInt32.toNat : Int) =
    (delay32 (elapsed now timestamp)).toInt

/-- The decision is right, and so is all that leads to it. -/
structure CheckExact (req : Requirement) (now timestamp : Timeval) : Prop where
  decision : inTime req now timestamp = true ↔ Timely req now timestamp
  normal : (elapsed now timestamp).Normal
  noWrap : NoWrap now timestamp

/-! ## What is computed -/

theorem borrow_cases (now timestamp : Timeval) :
    (now.tvUsec.toInt < timestamp.tvUsec.toInt ∧ borrow now timestamp = 1 ∧
      elapsed now timestamp = ⟨now.tvSec - timestamp.tvSec - 1,
        1000000 + now.tvUsec - timestamp.tvUsec⟩) ∨
    (timestamp.tvUsec.toInt ≤ now.tvUsec.toInt ∧ borrow now timestamp = 0 ∧
      elapsed now timestamp = ⟨now.tvSec - timestamp.tvSec,
        now.tvUsec - timestamp.tvUsec⟩) := by
  by_cases less : now.tvUsec < timestamp.tvUsec
  · exact .inl ⟨Int32.lt_iff_toInt_lt.mp less, if_pos less, if_pos less⟩
  · exact .inr ⟨Int32.le_iff_toInt_le.mp (Int32.not_lt.mp less), if_neg less, if_neg less⟩

section Normal
variable {now timestamp : Timeval}

theorem raised_toInt (current : now.Normal) :
    (1000000 + now.tvUsec).toInt = 1000000 + now.tvUsec.toInt := by
  obtain ⟨low, high⟩ := current
  have million : (1000000 : Int32).toInt = 1000000 := rfl
  rw [add_toInt, million]
  rw [million]
  constructor <;> omega

theorem elapsed_tvUsec (current : now.Normal) (sent : timestamp.Normal) :
    (elapsed now timestamp).tvUsec.toInt =
      now.tvUsec.toInt - timestamp.tvUsec.toInt + 1000000 * borrow now timestamp := by
  have raised := raised_toInt current
  obtain ⟨low, high⟩ := current
  obtain ⟨low', high'⟩ := sent
  obtain ⟨less, one, same⟩ | ⟨most, zero, same⟩ := borrow_cases now timestamp
  · rw [same, one]
    dsimp only
    rw [sub_toInt, raised]
    · omega
    · rw [raised]
      constructor <;> omega
  · rw [same, zero, Int.mul_zero, Int.add_zero]
    apply sub_toInt
    constructor <;> omega

theorem elapsed_normal (current : now.Normal) (sent : timestamp.Normal) :
    (elapsed now timestamp).Normal := by
  rw [Timeval.Normal, elapsed_tvUsec current sent]
  obtain ⟨low, high⟩ := current
  obtain ⟨low', high'⟩ := sent
  obtain ⟨less, one, -⟩ | ⟨most, zero, -⟩ := borrow_cases now timestamp
  · omega
  · omega

theorem elapsed_tvSec_emod (now timestamp : Timeval) :
    (elapsed now timestamp).tvSec.toInt % 4294967296 =
      (now.tvSec.toInt - timestamp.tvSec.toInt - borrow now timestamp) % 4294967296 := by
  have difference := sub_toInt_emod now.tvSec timestamp.tvSec
  obtain ⟨-, one, same⟩ | ⟨-, zero, same⟩ := borrow_cases now timestamp
  · have unit : (1 : Int32).toInt = 1 := rfl
    have less := sub_toInt_emod (now.tvSec - timestamp.tvSec) 1
    rw [same, one]
    dsimp only
    omega
  · rw [same, zero]
    dsimp only
    omega

theorem div_tvUsec (current : now.Normal) (sent : timestamp.Normal) :
    ((elapsed now timestamp).tvUsec / 1000).toInt = (elapsed now timestamp).tvUsec.toInt / 1000 :=
  div_toInt (elapsed_normal current sent).1 (by decide)

theorem millis_eq (current : now.Normal) (sent : timestamp.Normal) :
    millis now timestamp =
      (now.tvSec.toInt - timestamp.tvSec.toInt - borrow now timestamp) * 1000 +
        (elapsed now timestamp).tvUsec.toInt / 1000 := by
  rw [elapsed_tvUsec current sent, millis, sinceSent, Timeval.micros, Timeval.micros]
  obtain ⟨-, one, -⟩ | ⟨-, zero, -⟩ := borrow_cases now timestamp
  · omega
  · omega

/-- The delay is computed up to multiples of 2 ^ 32. -/
theorem delay32_emod (current : now.Normal) (sent : timestamp.Normal) :
    (delay32 (elapsed now timestamp)).toInt % 4294967296 = millis now timestamp % 4294967296 := by
  have seconds := elapsed_tvSec_emod now timestamp
  have product := mul_toInt_emod (elapsed now timestamp).tvSec 1000
  have thousand : (1000 : Int32).toInt = 1000 := rfl
  have total := add_toInt_emod ((elapsed now timestamp).tvSec * 1000)
    ((elapsed now timestamp).tvUsec / 1000)
  rw [thousand] at product
  rw [div_tvUsec current sent] at total
  rw [millis_eq current sent, delay32]
  omega

theorem millis_nonneg_iff : 0 ≤ millis now timestamp ↔ 0 ≤ sinceSent now timestamp := by
  rw [millis]
  omega

theorem inTime_iff (req : Requirement) (current : now.Normal) (sent : timestamp.Normal) :
    inTime req now timestamp = true ↔
      2 * (millis now timestamp % 4294967296) ≤ 3 * req.delay.toNat := by
  have unsigned := toUInt32_toNat (delay32 (elapsed now timestamp))
  rw [delay32_emod current sent] at unsigned
  rw [← unsigned, inTime, meetRequirement, decide_eq_true_eq, ← delay32]
  omega

/-- The decision can only be wrong where the delay in 32 bits is small enough and the exact
    one is not. -/
theorem decision_iff (req : Requirement) (current : now.Normal) (sent : timestamp.Normal) :
    (inTime req now timestamp = true ↔ Timely req now timestamp) ↔
      (2 * (millis now timestamp % 4294967296) ≤ 3 * req.delay.toNat →
        Timely req now timestamp) := by
  rw [inTime_iff req current sent]
  constructor
  · exact Iff.mp
  · intro sound
    refine ⟨sound, fun timely => ?_⟩
    obtain ⟨past, small⟩ := timely
    have positive := millis_nonneg_iff.mpr past
    omega

/-- The seconds are computed without a wrap when their exact number fits in a word. -/
theorem elapsed_tvSec
    (difference : (now.tvSec - timestamp.tvSec).toInt = now.tvSec.toInt - timestamp.tvSec.toInt)
    (inside : InRange (now.tvSec.toInt - timestamp.tvSec.toInt - borrow now timestamp)) :
    (elapsed now timestamp).tvSec.toInt =
      now.tvSec.toInt - timestamp.tvSec.toInt - borrow now timestamp := by
  obtain ⟨-, one, same⟩ | ⟨-, zero, same⟩ := borrow_cases now timestamp
  · have unit : (1 : Int32).toInt = 1 := rfl
    rw [one] at inside
    rw [same, one]
    dsimp only
    rw [sub_toInt, difference, unit]
    rwa [difference, unit]
  · rw [same, zero, Int.sub_zero]
    exact difference

theorem noWrap_of_millis (current : now.Normal) (sent : timestamp.Normal)
    (low : 0 ≤ millis now timestamp) (high : millis now timestamp < 2147483648) :
    NoWrap now timestamp := by
  have thousand : (1000 : Int32).toInt = 1000 := rfl
  have exact_millis := millis_eq current sent
  have part := div_tvUsec current sent
  obtain ⟨floor, ceiling⟩ := elapsed_normal current sent
  have difference : (now.tvSec - timestamp.tvSec).toInt =
      now.tvSec.toInt - timestamp.tvSec.toInt := by
    apply sub_toInt
    obtain ⟨-, one, -⟩ | ⟨-, zero, -⟩ := borrow_cases now timestamp
    · constructor <;> omega
    · constructor <;> omega
  have seconds : (elapsed now timestamp).tvSec.toInt =
      now.tvSec.toInt - timestamp.tvSec.toInt - borrow now timestamp := by
    apply elapsed_tvSec difference
    constructor <;> omega
  have product : ((elapsed now timestamp).tvSec * 1000).toInt =
      (elapsed now timestamp).tvSec.toInt * 1000 := by
    apply mul_toInt
    rw [seconds, thousand]
    constructor <;> omega
  have total : (delay32 (elapsed now timestamp)).toInt =
      ((elapsed now timestamp).tvSec * 1000).toInt +
        ((elapsed now timestamp).tvUsec / 1000).toInt := by
    apply add_toInt
    rw [product, seconds, part]
    constructor <;> omega
  refine ⟨difference, seconds, raised_toInt current, elapsed_tvUsec current sent, product, total,
    ?_⟩
  rw [toUInt32_toNat, total, product, seconds, part]
  exact Int.emod_eq_of_lt (by omega) (by omega)

theorem noWrap_iff (current : now.Normal) (sent : timestamp.Normal) :
    NoWrap now timestamp ↔
      0 ≤ sinceSent now timestamp ∧ millis now timestamp < 2147483648 := by
  rw [← millis_nonneg_iff]
  constructor
  · intro noWrap
    have exact_millis := millis_eq current sent
    have part := div_tvUsec current sent
    have high := (delay32 (elapsed now timestamp)).toInt_lt
    have seconds := noWrap.seconds
    have product := noWrap.product
    have total := noWrap.sum
    have unsigned := noWrap.unsigned
    omega
  · rintro ⟨low, high⟩
    exact noWrap_of_millis current sent low high

theorem decision_of_noWrap (req : Requirement) (current : now.Normal) (sent : timestamp.Normal)
    (noWrap : NoWrap now timestamp) :
    inTime req now timestamp = true ↔ Timely req now timestamp := by
  obtain ⟨past, small⟩ := (noWrap_iff current sent).mp noWrap
  have positive := millis_nonneg_iff.mpr past
  refine (decision_iff req current sent).mpr fun accepted => ⟨past, ?_⟩
  omega

end Normal

/-! ## The check -/

theorem processFwReply_inTime {s : SimpleRlysltr} {msg : Mem} {len : Nat} {probe : CorsProbe}
    (decoded : parse CorsProbe.deserialize msg len = some probe) (now : Timeval) :
    (s.processFwReply now msg len).1.relaylist =
      if probe.relay.addr = 0 ∨ inTime s.req now probe.timestamp then s.relaylist
      else (s.remove probe.relay.addr).relaylist :=
  processFwReply_relaylist decoded now

/-- The check is exact just in case the probe was sent in the past and less than 2 ^ 31
    milliseconds ago. Its outcome is right beyond that unless it accepts, by the remainder of
    the delay, a probe that is not in time. -/
theorem check_exact_iff (req : Requirement) (now timestamp : Timeval) (current : now.Normal)
    (sent : timestamp.Normal) :
    (CheckExact req now timestamp ↔
        0 ≤ sinceSent now timestamp ∧ millis now timestamp < 2147483648) ∧
      ((inTime req now timestamp = true ↔ Timely req now timestamp) ↔
        (2 * (millis now timestamp % 4294967296) ≤ 3 * req.delay.toNat →
          Timely req now timestamp)) := by
  refine ⟨?_, decision_iff req current sent⟩
  rw [← noWrap_iff current sent]
  constructor
  · exact CheckExact.noWrap
  · intro noWrap
    exact ⟨decision_of_noWrap req current sent noWrap, elapsed_normal current sent, noWrap⟩

/-- A probe that comes back after 100.5 milliseconds. -/
theorem check_exact_recent :
    CheckExact ⟨150, 0, 0, 1⟩ ⟨1200000001, 500⟩ ⟨1200000000, 900000⟩ :=
  (check_exact_iff ⟨150, 0, 0, 1⟩ ⟨1200000001, 500⟩ ⟨1200000000, 900000⟩ (by decide)
    (by decide)).1.mpr (by decide)

/-- A timestamp of seventeen years ago comes out as no delay. -/
theorem old_timestamp_in_time :
    ¬ ∀ req now timestamp, Timeval.Normal now → Timeval.Normal timestamp →
      CheckExact req now timestamp := by
  intro always
  let now : Timeval := ⟨1200000000, 0⟩
  let timestamp : Timeval := ⟨1200000000 - 536870912, 0⟩
  have exact_ := always ⟨150, 0, 0, 1⟩ now timestamp (by decide) (by decide)
  have accepted : inTime ⟨150, 0, 0, 1⟩ now timestamp = true := by decide
  have timely := (exact_.decision.mp accepted).2
  exact absurd timely (by decide)

end SimpleRlysltr

end Cors
