import Mathlib.Data.List.Basic

/-!
# Bit lists

The lowest bits of a number as a list, least significant bit first, and the number that such a list
denotes. The bits of numbers that are packed one behind the other are the lists one behind the other
(`bits_append`), a slice of the list has the bits of the number shifted down (`bits_slice`), and with
every bit turned over the list denotes the complement (`value_not`).
-/

namespace Hah.Bits

/-- The lowest `k` bits of `n`. -/
def bits : Nat → Nat → List Bool
  | 0, _ => []
  | k + 1, n => decide (n % 2 = 1) :: bits k (n / 2)

/-- The number that a list of bits denotes. -/
def value (bs : List Bool) : Nat := bs.foldr (fun b n => 2 * n + b.toNat) 0

theorem pow_two_succ (k : Nat) : Nat.pow 2 (k + 1) = 2 * Nat.pow 2 k := Nat.mul_comm _ _

@[simp] theorem bits_length (k n : Nat) : (bits k n).length = k := by
  induction k generalizing n with
  | zero => rfl
  | succ k ih => rw [bits, List.length_cons, ih]

/-- The number 0 has no bit set. -/
theorem bits_zero (k : Nat) : bits k 0 = List.replicate k false := by
  induction k with
  | zero => rfl
  | succ k ih => exact congrArg (false :: ·) ih

theorem value_bits (k n : Nat) : value (bits k n) = n % Nat.pow 2 k := by
  induction k generalizing n with
  | zero => exact (Nat.mod_one n).symm
  | succ k ih =>
    have low : (decide (n % 2 = 1)).toNat = n % 2 := by
      rcases Nat.mod_two_eq_zero_or_one n with even | odd
      · rw [even]
        rfl
      · rw [odd]
        rfl
    calc value (bits (k + 1) n)
      _ = 2 * value (bits k (n / 2)) + (decide (n % 2 = 1)).toNat := rfl
      _ = 2 * (n / 2 % Nat.pow 2 k) + n % 2 := by rw [ih, low]
      _ = n % Nat.pow 2 (k + 1) := by rw [pow_two_succ, Nat.mod_mul, Nat.add_comm]

/-- **Packing.** A number that fits below another one has its bits before those of the other. -/
theorem bits_append {a b x : Nat} (fits : x < Nat.pow 2 a) (y : Nat) :
    bits (a + b) (x + Nat.pow 2 a * y) = bits a x ++ bits b y := by
  induction a generalizing x with
  | zero =>
    obtain rfl : x = 0 := Nat.lt_one_iff.1 fits
    rw [Nat.zero_add, Nat.zero_add, show Nat.pow 2 0 * y = y from Nat.one_mul y]
    rfl
  | succ a ih =>
    rw [pow_two_succ] at fits
    rw [pow_two_succ, Nat.mul_assoc, show a + 1 + b = a + b + 1 from Nat.add_right_comm a 1 b, bits, bits]
    have low : (x + 2 * (Nat.pow 2 a * y)) % 2 = x % 2 := by omega
    have high : (x + 2 * (Nat.pow 2 a * y)) / 2 = x / 2 + Nat.pow 2 a * y := by omega
    rw [low, high, ih (by omega), List.cons_append]

theorem bits_drop (m offset n : Nat) : (bits m n).drop offset = bits (m - offset) (n / Nat.pow 2 offset) := by
  induction offset generalizing m n with
  | zero => exact (congrArg (bits m) (Nat.div_one n)).symm
  | succ offset ih =>
    cases m with
    | zero =>
      rw [Nat.zero_sub]
      rfl
    | succ m =>
      rw [bits, List.drop_succ_cons, ih, Nat.div_div_eq_div_mul, ← pow_two_succ, Nat.add_sub_add_right]

theorem bits_take {k m : Nat} (within : k ≤ m) (n : Nat) : (bits m n).take k = bits k n := by
  induction k generalizing m n with
  | zero => rfl
  | succ k ih =>
    obtain ⟨m, rfl⟩ : ∃ j, m = j + 1 := ⟨m - 1, by omega⟩
    rw [bits, bits, List.take_succ_cons, ih (by omega)]

/-- **A slice** of the bits has the bits of the number from the offset on. -/
theorem bits_slice {m offset k : Nat} (within : offset + k ≤ m) (n : Nat) :
    ((bits m n).drop offset).take k = bits k (n / Nat.pow 2 offset) := by
  rw [bits_drop, bits_take (by omega)]

/-- The top bit is the last one. -/
theorem bits_succ (k n : Nat) : bits (k + 1) n = bits k n ++ [decide (n / Nat.pow 2 k % 2 = 1)] := by
  induction k generalizing n with
  | zero =>
    rw [show n / Nat.pow 2 0 = n from Nat.div_one n]
    rfl
  | succ k ih => rw [bits, ih, pow_two_succ, ← Nat.div_div_eq_div_mul, bits, List.cons_append]

/-- The list with every bit turned over denotes what is missing to the largest number of its length. -/
theorem value_not (bs : List Bool) : value (bs.map not) + value bs + 1 = Nat.pow 2 bs.length := by
  induction bs with
  | nil => rfl
  | cons b bs ih =>
    have halves : value ((b :: bs).map not) + value (b :: bs) =
        2 * value (bs.map not) + (!b).toNat + (2 * value bs + b.toNat) := rfl
    have bit : (!b).toNat + b.toNat = 1 := by cases b <;> rfl
    rw [List.length_cons, pow_two_succ, ← ih, halves]
    omega

end Hah.Bits
