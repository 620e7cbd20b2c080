import Mathlib.Data.List.TakeWhile
import Hah.C.Strings

/-!
# C numbers

`int` arithmetic in 32-bit two's complement and `atoi`, on the bytes of a string.
-/

namespace Hah.C
open List Bool

/-- The `int` that 32-bit two's complement arithmetic leaves for `x`. -/
def wrap32 (x : Int) : Int := (x + 2147483648) % 4294967296 - 2147483648

variable {x : Int} {n k : Nat}

theorem wrap32_of_range (low : -2147483648 ≤ x) (high : x < 2147483648) : wrap32 x = x := by
  unfold wrap32
  omega

/-- `isspace` in the "C" locale. -/
def isspace (c : UInt8) : Bool := c == 32 || (9 ≤ c && c ≤ 13)

def isdigit (c : UInt8) : Bool := 48 ≤ c && c ≤ 57

def isxdigit (c : UInt8) : Bool := (48 ≤ c && c ≤ 57) || (65 ≤ c && c ≤ 70) || (97 ≤ c && c ≤ 102)

/-- The number that the leading decimal digits of a string denote. -/
def leadingNumber (s : Bytes) : Nat :=
  (s.takeWhile isdigit).foldl (fun n c => 10 * n + (c.toNat - 48)) 0

/-- `atoi`, which is `strtol` to the base 10 with a 32-bit `long`: spaces, a sign, digits; a
number out of range gives the nearest one in range. -/
def atoi (s : Bytes) : Int :=
  let s := s.dropWhile isspace
  let n : Int :=
    match s with
    | [] => 0
    | c :: digits =>
      if c = 45 then -(leadingNumber digits : Int)
      else if c = 43 then leadingNumber digits
      else leadingNumber s
  max (-2147483648) (min n 2147483647)

example : atoi " -42x" = -42 := by decide

def xdigitValue (c : UInt8) : Nat :=
  if isdigit c then c.toNat - 48 else if c < 97 then c.toNat - 55 else c.toNat - 87

/-- `sscanf` with `%x`, of a number that fits: spaces, a sign, `0x`, hexadecimal digits; `none` if
there is no digit and nothing is stored. -/
def sscanfHex (s : Bytes) : Option Int :=
  let s := s.dropWhile isspace
  let negative := s.head? == some 45
  let s := if s.head? == some 45 || s.head? == some 43 then s.drop 1 else s
  let s := if s.take 2 == "0x" || s.take 2 == "0X" then s.drop 2 else s
  let digits := s.takeWhile isxdigit
  if digits = [] then none
  else
    let n : Int := digits.foldl (fun n c => 16 * n + xdigitValue c) (0 : Nat)
    some (if negative then -n else n)

example : sscanfHex "0x4E" = some 78 := by decide

/-- What `sscanf` with `%d` comes to: the end of the text, no number, or one. -/
inductive Scan where
  | eof
  | nothing
  | value (v : Int)
  deriving DecidableEq, Repr

/-- `sscanf` with `%d`, of a number that fits: spaces, a sign, digits. `EOF` is for a text of spaces
only; a sign without a digit is no number, and nothing is stored. -/
def sscanfInt (s : Bytes) : Scan :=
  let s := s.dropWhile isspace
  if s = [] then .eof
  else
    let digits := if s.head? = some 45 ∨ s.head? = some 43 then s.drop 1 else s
    if digits.takeWhile isdigit = [] then .nothing
    else .value (if s.head? = some 45 then -(leadingNumber digits : Int) else leadingNumber digits)

example : sscanfInt "12-7" = .value 12 ∧ sscanfInt "--7" = .nothing := by decide

/-! ## Printing -/

def digit (n : Nat) : UInt8 := (48 + n).toUInt8

/-- The digits of `n`, at most `fuel` of them. -/
def decimalDigits : Nat → Nat → Bytes
  | 0, _ => []
  | fuel + 1, n => if n < 10 then [digit n] else decimalDigits fuel (n / 10) ++ [digit (n % 10)]

/-- `%u`. -/
def decimal (n : Nat) : Bytes := decimalDigits (n + 1) n

/-- `%d`. -/
def decimalInt (x : Int) : Bytes := if x < 0 then 45 :: decimal x.natAbs else decimal x.natAbs

def hexChar (n : Nat) : UInt8 := if n < 10 then digit n else (55 + n).toUInt8

/-- `%02X` of a byte. -/
def hex02 (b : UInt8) : Bytes := [hexChar (b.toNat / 16), hexChar (b.toNat % 16)]

theorem digit_toNat (small : n < 10) : (digit n).toNat = 48 + n := by
  have fits : (48 + n) % 256 = 48 + n := by omega
  simpa [digit] using fits

theorem isdigit_digit (small : n < 10) : isdigit (digit n) = true := by
  revert n
  decide

theorem isdigit_decimalDigits (fuel n : Nat) : ∀ c ∈ decimalDigits fuel n, isdigit c = true := by
  induction fuel generalizing n with
  | zero => simp [decimalDigits]
  | succ fuel ih =>
    unfold decimalDigits
    split
    next small => exact forall_mem_singleton.2 (isdigit_digit small)
    next =>
      have last := isdigit_digit (Nat.mod_lt n (show 0 < 10 by omega))
      exact forall_mem_append.2 ⟨ih _, forall_mem_singleton.2 last⟩

theorem isdigit_decimal : ∀ c ∈ decimal n, isdigit c = true := isdigit_decimalDigits _ n

theorem decimalDigits_value {fuel : Nat} (enough : n < fuel) :
    (decimalDigits fuel n).foldl (fun n c => 10 * n + (c.toNat - 48)) 0 = n := by
  induction fuel generalizing n with
  | zero => omega
  | succ fuel ih =>
    unfold decimalDigits
    split
    next small => simp [digit_toNat small]
    next large =>
      have last := digit_toNat (Nat.mod_lt n (show 0 < 10 by omega))
      rw [foldl_append, ih (by omega), foldl_cons, foldl_nil, last]
      omega

theorem leadingNumber_decimal (n : Nat) : leadingNumber (decimal n) = n := by
  unfold leadingNumber
  rw [takeWhile_eq_self_iff.2 isdigit_decimal]
  exact decimalDigits_value (Nat.lt_succ_self n)

theorem decimal_ne_nil (n : Nat) : decimal n ≠ [] := by
  unfold decimal decimalDigits
  split
  next => exact cons_ne_nil _ _
  next => exact append_ne_nil_of_right_ne_nil _ (cons_ne_nil _ _)

/-- A digit is neither a space nor a sign. -/
theorem digit_plain {c : UInt8} (h : isdigit c = true) : isspace c = false ∧ c ≠ 45 ∧ c ≠ 43 := by
  revert h
  exact byte_cases (by decide +kernel) c

/-- What `%d` prints, `atoi` reads back. -/
theorem atoi_decimalInt (low : -2147483648 ≤ x) (high : x < 2147483648) : atoi (decimalInt x) = x := by
  obtain ⟨c, digits, text⟩ := exists_cons_of_ne_nil (decimal_ne_nil x.natAbs)
  have plain : isspace c = false ∧ c ≠ 45 ∧ c ≠ 43 := by
    apply digit_plain
    apply isdigit_decimal (n := x.natAbs)
    rw [text]
    exact mem_cons_self
  have value := leadingNumber_decimal x.natAbs
  rw [text] at value
  unfold decimalInt
  split
  next negative =>
    have minus : isspace 45 = false := by decide
    simp only [atoi, text, dropWhile_cons, minus, false_eq_true, if_false, if_true, value]
    omega
  next =>
    simp only [atoi, text, dropWhile_cons, plain, false_eq_true, if_false, value]
    omega

theorem atoi_decimal (small : n < 2147483648) : atoi (decimal n) = n := by
  have read := atoi_decimalInt (x := n) (by omega) (by omega)
  rwa [decimalInt, if_neg (by omega), Int.natAbs_natCast] at read

theorem decimalDigits_length {fuel : Nat} (nonempty : 1 ≤ k) (small : n < Nat.pow 10 k) :
    (decimalDigits fuel n).length ≤ k := by
  induction fuel generalizing k n with
  | zero => exact Nat.zero_le k
  | succ fuel ih =>
    unfold decimalDigits
    split
    next => exact nonempty
    next large =>
      obtain ⟨j, rfl⟩ : ∃ j, k = j + 1 := ⟨k - 1, by omega⟩
      have step : Nat.pow 10 (j + 1) = Nat.pow 10 j * 10 := rfl
      rw [step] at small
      have more : 1 ≤ j := by
        rcases Nat.eq_zero_or_pos j with rfl | positive
        · exact absurd small (Nat.not_lt.2 (Nat.not_lt.1 large))
        · exact positive
      rw [length_append, length_singleton]
      exact Nat.succ_le_succ (ih more (by omega))

theorem decimal_length (nonempty : 1 ≤ k) (small : n < Nat.pow 10 k) : (decimal n).length ≤ k :=
  decimalDigits_length nonempty small

theorem decimalInt_length (low : -2147483648 ≤ x) (high : x < 2147483648) : (decimalInt x).length ≤ 11 := by
  have digits : (decimal x.natAbs).length ≤ 10 :=
    decimal_length (by omega) (show x.natAbs < 10000000000 by omega)
  unfold decimalInt
  split
  next => exact Nat.succ_le_succ digits
  next => omega

theorem decimalInt_injective {y : Int} (lowX : -2147483648 ≤ x) (highX : x < 2147483648)
    (lowY : -2147483648 ≤ y) (highY : y < 2147483648) (same : decimalInt x = decimalInt y) : x = y := by
  rw [← atoi_decimalInt lowX highX, same, atoi_decimalInt lowY highY]

/-- `k` digits denote a number below `10 ^ k`. -/
theorem leadingNumber_lt {text : Bytes} (short : text.length ≤ k) : leadingNumber text < Nat.pow 10 k := by
  have bound : ∀ (digits : Bytes) (n : Nat), (∀ c ∈ digits, isdigit c = true) →
      digits.foldl (fun n c => 10 * n + (c.toNat - 48)) n < (n + 1) * Nat.pow 10 digits.length := by
    intro digits
    induction digits with
    | nil => exact fun n _ => by simp
    | cons c digits ih =>
      intro n all
      obtain ⟨first, rest⟩ := forall_mem_cons.1 all
      simp only [isdigit, and_eq_true, decide_eq_true_eq, UInt8.le_iff_toNat_le, UInt8.reduceToNat] at first
      have step : Nat.pow 10 (digits.length + 1) = Nat.pow 10 digits.length * 10 := rfl
      rw [foldl_cons, length_cons, step]
      calc digits.foldl (fun n c => 10 * n + (c.toNat - 48)) (10 * n + (c.toNat - 48))
          < (10 * n + (c.toNat - 48) + 1) * Nat.pow 10 digits.length := ih _ rest
        _ ≤ (n + 1) * 10 * Nat.pow 10 digits.length := Nat.mul_le_mul_right _ (by omega)
        _ = (n + 1) * (Nat.pow 10 digits.length * 10) := by rw [Nat.mul_assoc, Nat.mul_comm 10]
  have taken := bound (text.takeWhile isdigit) 0 fun c mem => mem_takeWhile_imp mem
  have fewer : (text.takeWhile isdigit).length ≤ k := (takeWhile_sublist _).length_le.trans short
  rw [Nat.zero_add, Nat.one_mul] at taken
  exact Nat.lt_of_lt_of_le taken (Nat.pow_le_pow_right (by omega) fewer)

/-- `atoi` of a text that starts with a digit. -/
theorem atoi_digits {c : UInt8} {text : Bytes} (first : isdigit c = true)
    (fits : leadingNumber (c :: text) < 2147483648) : atoi (c :: text) = leadingNumber (c :: text) := by
  obtain ⟨space, minus, plus⟩ := digit_plain first
  simp only [atoi, dropWhile_cons, space, false_eq_true, if_false, minus, plus]
  omega

/-! ## Tenths

Decimal texts with one digit behind the point, as exact numbers of tenths. -/

/-- `%.1f` of a number of tenths. -/
def tenthsText (x : Int) : Bytes :=
  (if x < 0 then [45] else []) ++ decimal (x.natAbs / 10) ++ [46, digit (x.natAbs % 10)]

/-- The tenths that the digits, the point and one more digit denote. -/
def leadingTenths (s : Bytes) : Nat :=
  10 * leadingNumber s +
    match s.dropWhile isdigit with
    | 46 :: d :: _ => if isdigit d then d.toNat - 48 else 0
    | _ => 0

/-- `atof` in tenths, of a text with at most one digit behind the point. -/
def atofTenths (s : Bytes) : Int :=
  let s := s.dropWhile isspace
  match s with
  | [] => 0
  | c :: digits =>
    if c = 45 then -(leadingTenths digits : Int)
    else if c = 43 then leadingTenths digits
    else leadingTenths s

example : atofTenths "-12.5" = -125 := by decide
example : atofTenths "?" = 0 := by decide

theorem leadingTenths_text (n : Nat) : leadingTenths (decimal (n / 10) ++ [46, digit (n % 10)]) = n := by
  have last : n % 10 < 10 := Nat.mod_lt n (by omega)
  have point : isdigit 46 = false := by decide
  have taken : (decimal (n / 10) ++ [46, digit (n % 10)]).takeWhile isdigit = decimal (n / 10) := by
    rw [takeWhile_append_of_pos isdigit_decimal, takeWhile_cons_of_neg (by simp [point]), append_nil]
  have rest : (decimal (n / 10) ++ [46, digit (n % 10)]).dropWhile isdigit = [46, digit (n % 10)] := by
    rw [dropWhile_append_of_pos isdigit_decimal, dropWhile_cons_of_neg (by simp [point])]
  have whole : leadingNumber (decimal (n / 10) ++ [46, digit (n % 10)]) = n / 10 := by
    unfold leadingNumber
    rw [taken]
    exact decimalDigits_value (Nat.lt_succ_self _)
  unfold leadingTenths
  rw [whole, rest]
  show 10 * (n / 10) + (if isdigit (digit (n % 10)) then (digit (n % 10)).toNat - 48 else 0) = n
  rw [if_pos (isdigit_digit last), digit_toNat last]
  omega

/-- What `%.1f` prints, `atof` reads back. -/
theorem atofTenths_tenthsText (x : Int) : atofTenths (tenthsText x) = x := by
  have value := leadingTenths_text x.natAbs
  obtain ⟨c, digits, text⟩ := exists_cons_of_ne_nil (decimal_ne_nil (x.natAbs / 10))
  have plain : isspace c = false ∧ c ≠ 45 ∧ c ≠ 43 := by
    apply digit_plain
    apply isdigit_decimal (n := x.natAbs / 10)
    rw [text]
    exact mem_cons_self
  rw [text] at value
  unfold tenthsText
  rw [text]
  split
  next negative =>
    have minus : isspace 45 = false := by decide
    have read : atofTenths ([45] ++ c :: digits ++ [46, digit (x.natAbs % 10)]) =
        -(leadingTenths (c :: digits ++ [46, digit (x.natAbs % 10)]) : Int) := by
      simp [atofTenths, minus]
    rw [read, value]
    omega
  next =>
    have read : atofTenths ([] ++ c :: digits ++ [46, digit (x.natAbs % 10)]) =
        (leadingTenths (c :: digits ++ [46, digit (x.natAbs % 10)]) : Int) := by
      simp [atofTenths, plain]
    rw [read, value]
    omega

/-- From -99.9 to 999.9 a text has at most five characters. -/
theorem tenthsText_length (low : -999 ≤ x) (high : x ≤ 9999) : (tenthsText x).length ≤ 5 := by
  unfold tenthsText
  split
  next =>
    have two : (decimal (x.natAbs / 10)).length ≤ 2 :=
      decimal_length (by omega) (show x.natAbs / 10 < 100 by omega)
    simp only [length_append, length_cons, length_nil]
    omega
  next =>
    have three : (decimal (x.natAbs / 10)).length ≤ 3 :=
      decimal_length (by omega) (show x.natAbs / 10 < 1000 by omega)
    simp only [length_append, length_cons, length_nil]
    omega

end Hah.C
