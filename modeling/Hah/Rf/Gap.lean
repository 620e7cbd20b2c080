import Hah.Rf.Hex

/-!
# The gap between bursts: `setupUniversalRF`

`delayMicroseconds` waits for 16383 microseconds at most, so the transmitter splits a longer delay
into more and shorter ones. `adjustInterburst` is that adjustment in the widths of the AVR: the
product of the repeat and the delay is formed in 16 bits, and widened only then. As long as it fits,
the delays add up to the gap that was asked for but for the rest of a division.
`adjustGap`, the same on numbers, is what the transmitter of the sequences is defined with.
-/

namespace Hah.Rf
open C

/-- The adjustment of `interburstRepeat` and `interburstDelay` for `delayMicroseconds`. -/
def adjustInterburst (interburstRepeat : UInt8) (interburstDelay : UInt16) : UInt8 × UInt16 :=
  if 16383 < interburstDelay then
    -- `int` has 16 bits: the operands become `unsigned int`, the product is widened as it is stored
    let x : UInt32 := (interburstRepeat.toUInt16 * interburstDelay).toUInt32
    let interburstRepeat : UInt8 := (x / 16383 + 1).toUInt8
    (interburstRepeat, (x / interburstRepeat.toUInt32).toUInt16)
  else (interburstRepeat, interburstDelay)

/-- The gap of `r'` delays of `d'` microseconds is the one of `r` delays of `d`, in delays that
`delayMicroseconds` can wait for and but for less than a microsecond in each. -/
structure GapKept (r d r' d' : Nat) : Prop where
  limit : d' ≤ 16383
  atMost : r' * d' ≤ r * d
  short : r * d < r' * d' + r'

/-! ## In numbers -/

/-- A quotient of 16 bits by 16383 leaves room in a byte. -/
theorem adjusted_repeat_toNat {x : UInt32} (small : x.toNat < 65536) :
    (x / 16383 + 1).toUInt8.toNat = x.toNat / 16383 + 1 := by
  have quotient := UInt32.toNat_div x 16383
  have next : (x / 16383 + 1).toNat = x.toNat / 16383 + 1 := by
    rw [UInt32.toNat_add, quotient]
    exact Nat.mod_eq_of_lt (show x.toNat / 16383 + 1 < 4294967296 by omega)
  rw [UInt32.toNat_toUInt8, next]
  exact Nat.mod_eq_of_lt (show x.toNat / 16383 + 1 < 256 by omega)

theorem adjusted_delay_toNat {x : UInt32} {k : UInt8} (small : x.toNat < 65536) :
    (x / k.toUInt32).toUInt16.toNat = x.toNat / k.toNat := by
  rw [UInt32.toNat_toUInt16, UInt32.toNat_div, UInt8.toNat_toUInt32]
  exact Nat.mod_eq_of_lt (Nat.lt_of_le_of_lt (Nat.div_le_self _ _) small)

/-- The widths of the AVR change nothing but the product. -/
theorem adjustInterburst_eq (interburstRepeat : UInt8) (interburstDelay : UInt16) :
    ((adjustInterburst interburstRepeat interburstDelay).1.toNat,
      (adjustInterburst interburstRepeat interburstDelay).2.toNat) =
    adjustGap interburstRepeat.toNat interburstDelay.toNat := by
  unfold adjustInterburst adjustGap
  by_cases long : 16383 < interburstDelay
  · have longNat : 16383 < interburstDelay.toNat := UInt16.lt_iff_toNat_lt.1 long
    have product : (interburstRepeat.toUInt16 * interburstDelay).toUInt32.toNat =
        interburstRepeat.toNat * interburstDelay.toNat % 65536 := by
      rw [UInt16.toNat_toUInt32, UInt16.toNat_mul, UInt8.toNat_toUInt16]
    have small : (interburstRepeat.toUInt16 * interburstDelay).toUInt32.toNat < 65536 := by
      rw [product]
      exact Nat.mod_lt _ (by decide)
    rw [if_pos long, if_pos longNat]
    rw [adjusted_delay_toNat small, adjusted_repeat_toNat small, product]
  · have shortNat : ¬ 16383 < interburstDelay.toNat := fun h => long (UInt16.lt_iff_toNat_lt.2 h)
    rw [if_neg long, if_neg shortNat]

/-! ## The gap -/

/-- Splitting a total of `x` microseconds: the delays are short enough, and only the rest of the
division is lost. -/
theorem split_total (x : Nat) :
    x / (x / 16383 + 1) ≤ 16383 ∧ (x / 16383 + 1) * (x / (x / 16383 + 1)) ≤ x ∧
      x < (x / 16383 + 1) * (x / (x / 16383 + 1)) + (x / 16383 + 1) := by
  have positive : 0 < x / 16383 + 1 := Nat.succ_pos _
  refine ⟨?_, Nat.mul_div_le x _, ?_⟩
  · apply Nat.le_of_lt
    rw [Nat.div_lt_iff_lt_mul positive]
    exact Nat.lt_mul_div_succ x (by decide)
  · exact Nat.lt_mul_div_succ x positive

/-- A delay that needs no adjustment is kept. -/
theorem adjustGap_short {r d : Nat} (some : 0 < r) (short : d ≤ 16383) :
    GapKept r d (adjustGap r d).1 (adjustGap r d).2 := by
  rw [adjustGap, if_neg (Nat.not_lt.2 short)]
  exact ⟨short, Nat.le_refl _, Nat.lt_add_of_pos_right some⟩

/-- A product that fits into 16 bits is split. -/
theorem adjustGap_fits {r d : Nat} (long : 16383 < d) (fits : r * d < 65536) :
    GapKept r d (adjustGap r d).1 (adjustGap r d).2 := by
  rw [adjustGap, if_pos long, Nat.mod_eq_of_lt fits]
  obtain ⟨limit, atMost, short⟩ := split_total (r * d)
  exact ⟨limit, atMost, short⟩

/-- A product that does not fit is short by 65536 microseconds at least, and there are five
delays at most. -/
theorem adjustGap_wraps {r d : Nat} (long : 16383 < d) (wraps : 65536 ≤ r * d) :
    ¬ GapKept r d (adjustGap r d).1 (adjustGap r d).2 := by
  rw [adjustGap, if_pos long]
  intro kept
  obtain ⟨-, atMost, -⟩ := split_total (r * d % 65536)
  have short : r * d < _ := kept.short
  dsimp only at short
  omega

theorem adjustGap_kept_iff {r d : Nat} (some : 0 < r) :
    GapKept r d (adjustGap r d).1 (adjustGap r d).2 ↔ d ≤ 16383 ∨ r * d < 65536 := by
  by_cases short : d ≤ 16383
  · exact iff_of_true (adjustGap_short some short) (.inl short)
  by_cases fits : r * d < 65536
  · exact iff_of_true (adjustGap_fits (Nat.lt_of_not_le short) fits) (.inr fits)
  · exact iff_of_false (adjustGap_wraps (Nat.lt_of_not_le short) (Nat.le_of_not_lt fits)) (by simp [short, fits])

/-- **The gap is kept exactly as long as it fits.** For every repeat and delay of a sequence the
adjusted delays can be waited for and make up the gap that was asked for, if the delay needed no
adjustment or the gap is less than 65536 microseconds, and in no other case. -/
theorem interburst_gap_kept_iff (interburstRepeat : UInt8) (interburstDelay : UInt16) (once : 1 ≤ interburstRepeat) :
    GapKept interburstRepeat.toNat interburstDelay.toNat
        (adjustInterburst interburstRepeat interburstDelay).1.toNat
        (adjustInterburst interburstRepeat interburstDelay).2.toNat ↔
      interburstDelay.toNat ≤ 16383 ∨ interburstRepeat.toNat * interburstDelay.toNat < 65536 := by
  have positive := UInt8.le_iff_toNat_le.1 once
  obtain ⟨count, delay⟩ := Prod.mk.inj (adjustInterburst_eq interburstRepeat interburstDelay)
  rw [count, delay]
  exact adjustGap_kept_iff positive

theorem interburst_gap_kept_three :
    GapKept 3 20000 (adjustInterburst 3 20000).1.toNat (adjustInterburst 3 20000).2.toNat :=
  (interburst_gap_kept_iff 3 20000 (by decide)).2 (by decide)

/-- Four delays of 20 milliseconds become one of 14464 microseconds. -/
theorem interburst_gap_lost :
    adjustInterburst 4 20000 = (1, 14464) ∧
      ¬ GapKept 4 20000 (adjustInterburst 4 20000).1.toNat (adjustInterburst 4 20000).2.toNat := by
  have adjusted : adjustInterburst 4 20000 = (1, 14464) := by decide
  refine ⟨adjusted, fun kept => ?_⟩
  rw [adjusted] at kept
  exact absurd kept.short (by decide)

end Hah.Rf
