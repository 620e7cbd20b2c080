import Hah.Rf.Sequence

/-!
# Hexadecimal text in memory

A sequence is written as text, two hexadecimal digits for a byte, in either case. `hexBytes`
are the bytes that a text stands for, `hexPad` is what `printf` writes for a number. A text
in memory is followed byte by byte by the readers of the sequence: `Spelled` says what they
find from an address on, and every reader has a lemma that takes what it reads off it.
-/

namespace Hah.Rf
open C List Option

/-! ## Printing -/

def hexLower (n : Nat) : UInt8 := if n < 10 then digit n else (87 + n).toUInt8

/-- The digits of `n`, at most `fuel` of them. -/
def hexDigits : Nat → Nat → Bytes
  | 0, _ => []
  | fuel + 1, n => if n < 16 then [hexLower n] else hexDigits fuel (n / 16) ++ [hexLower (n % 16)]

/-- `%02x`, `%04x`: an `unsigned int` of 32 bits in at least `width` digits. -/
def hexPad (width n : Nat) : Bytes :=
  let digits := hexDigits 8 n
  List.replicate (width - digits.length) 48 ++ digits

/-- The bytes of a text of pairs of hexadecimal digits. -/
def hexBytes : Bytes → Option Bytes
  | [] => some []
  | [_] => none
  | hi :: lo :: text =>
    if isxdigit hi && isxdigit lo then (hexBytes text).map ((hexToByte hi <<< 4 ||| hexToByte lo) :: ·) else none

variable {text table : Bytes} {n p : Nat} {m : Mem}
  {fuel q : Nat} {rest : Bytes} {msb lsb bits bursts : UInt8} {h : Header}

theorem hexBytes_cons {hi lo : UInt8} {bytes : Bytes} (spelled : hexBytes (hi :: lo :: text) = some bytes) :
    isxdigit hi = true ∧ isxdigit lo = true ∧
      ∃ rest, hexBytes text = some rest ∧ bytes = (hexToByte hi <<< 4 ||| hexToByte lo) :: rest := by
  unfold hexBytes at spelled
  split_ifs at spelled with digits
  obtain ⟨rest, here, rfl⟩ := map_eq_some_iff.1 spelled
  rw [Bool.and_eq_true] at digits
  exact ⟨digits.1, digits.2, rest, here, rfl⟩

/-- The bytes that pairs of characters are read as, hexadecimal or not. -/
def pairBytes : Bytes → Option Bytes
  | [] => some []
  | [_] => none
  | hi :: lo :: text => (pairBytes text).map ((hexToByte hi <<< 4 ||| hexToByte lo) :: ·)

theorem hexBytes_iff {bytes : Bytes} :
    hexBytes text = some bytes ↔ pairBytes text = some bytes ∧ ∀ c ∈ text, isxdigit c = true := by
  induction text using hexBytes.induct generalizing bytes with
  | case1 => simp [hexBytes, pairBytes]
  | case2 c => simp [hexBytes, pairBytes]
  | case3 hi lo text digits ih =>
    obtain ⟨first, second⟩ := Bool.and_eq_true_iff.1 digits
    rw [hexBytes, if_pos digits, pairBytes, map_eq_some_iff, map_eq_some_iff]
    simp only [ih, forall_mem_cons, first, second, true_and]
    constructor
    · rintro ⟨rest, ⟨here, all⟩, same⟩
      exact ⟨⟨rest, here, same⟩, all⟩
    · rintro ⟨⟨rest, here, same⟩, all⟩
      exact ⟨rest, ⟨here, all⟩, same⟩
  | case4 hi lo text odd =>
    rw [hexBytes, if_neg odd]
    refine iff_of_false (fun nothing => by cases nothing) fun both => odd ?_
    rw [both.2 hi (by simp), both.2 lo (by simp)]
    rfl

theorem hexBytes_append {a b x y : Bytes} (first : hexBytes a = some x) (second : hexBytes b = some y) :
    hexBytes (a ++ b) = some (x ++ y) := by
  induction a using hexBytes.induct generalizing x with
  | case1 =>
    cases first
    exact second
  | case2 c => cases first
  | case3 hi lo text digits ih =>
    obtain ⟨-, -, rest, here, rfl⟩ := hexBytes_cons first
    rw [cons_append, cons_append, hexBytes, if_pos digits, ih here]
    rfl
  | case4 hi lo text odd =>
    rw [hexBytes, if_neg odd] at first
    cases first

theorem isxdigit_ne_zero {c : UInt8} (isDigit : isxdigit c = true) : c ≠ 0 := by
  rintro rfl
  exact absurd isDigit (by decide)

theorem hexBytes_clean {bytes : Bytes} (spelled : hexBytes text = some bytes) : ∀ c ∈ text, c ≠ 0 := by
  induction text using hexBytes.induct generalizing bytes with
  | case1 => exact fun c mem => absurd mem not_mem_nil
  | case2 c => cases spelled
  | case3 hi lo text digits ih =>
    obtain ⟨first, second, rest, here, -⟩ := hexBytes_cons spelled
    intro c mem
    rcases mem_cons.1 mem with rfl | mem
    · exact isxdigit_ne_zero first
    rcases mem_cons.1 mem with rfl | mem
    · exact isxdigit_ne_zero second
    · exact ih here c mem
  | case4 hi lo text odd =>
    rw [hexBytes, if_neg odd] at spelled
    cases spelled

theorem hexDigits_clean (fuel n : Nat) : ∀ c ∈ hexDigits fuel n, c ≠ 0 := by
  have digit : ∀ n < 16, hexLower n ≠ 0 := by decide
  induction fuel generalizing n with
  | zero => exact fun c mem => absurd mem not_mem_nil
  | succ fuel ih =>
    intro c mem
    rw [hexDigits] at mem
    split_ifs at mem with small
    · exact mem_singleton.1 mem ▸ digit n small
    · rcases mem_append.1 mem with mem | mem
      · exact ih _ c mem
      · exact mem_singleton.1 mem ▸ digit _ (Nat.mod_lt _ (by decide))

theorem hexPad_clean (width n : Nat) : ∀ c ∈ hexPad width n, c ≠ 0 := by
  intro c mem
  rcases mem_append.1 mem with mem | mem
  · rw [(mem_replicate.1 mem).2]
    decide
  · exact hexDigits_clean 8 n c mem

/-- A byte is printed in two digits. -/
theorem hexBytes_two (small : n < 256) : hexBytes (hexPad 2 n) = some [n.toUInt8] := by
  have checked : ∀ n < 256, hexBytes (hexPad 2 n) = some [n.toUInt8] := by decide +kernel
  exact checked n small

theorem hexPad_two (small : n < 256) : hexPad 2 n = [hexLower (n / 16), hexLower (n % 16)] := by
  have checked : ∀ n < 256, hexPad 2 n = [hexLower (n / 16), hexLower (n % 16)] := by decide +kernel
  exact checked n small

theorem hexDigits_more (large : ¬ n < 16) : hexDigits (fuel + 1) n = hexDigits fuel (n / 16) ++ [hexLower (n % 16)] :=
  if_neg large

theorem hexDigits_one (small : n < 16) : hexDigits (fuel + 1) n = [hexLower n] := if_pos small

/-- A word is printed as its two bytes. -/
theorem hexPad_four (small : n < 65536) : hexPad 4 n = hexPad 2 (n / 256) ++ hexPad 2 (n % 256) := by
  have zero : hexLower 0 = 48 := by decide
  rw [hexPad_two (show n / 256 < 256 by omega), hexPad_two (show n % 256 < 256 by omega)]
  have third : n % 256 / 16 = n / 16 % 16 := by omega
  have fourth : n % 256 % 16 = n % 16 := by omega
  have first : n / 16 / 16 = n / 256 := by omega
  rw [third, fourth]
  -- by the number of digits that are not padding
  by_cases one : n < 16
  · have byte : n / 256 = 0 := by omega
    have nibble : n / 16 = 0 := by omega
    have whole : n % 16 = n := by omega
    simp [hexPad, hexDigits_one one, zero, byte, nibble, whole]
  by_cases two : n / 16 < 16
  · have byte : n / 256 = 0 := by omega
    have nibble : n / 16 % 16 = n / 16 := by omega
    simp [hexPad, hexDigits_more one, hexDigits_one two, zero, byte, nibble]
  by_cases three : n / 256 < 16
  · have nothing : n / 256 / 16 = 0 := by omega
    have nibble : n / 256 % 16 = n / 256 := by omega
    simp [hexPad, hexDigits_more one, hexDigits_more two, first, hexDigits_one three, zero, nothing, nibble]
  · have last : n / 256 / 16 < 16 := by omega
    simp [hexPad, hexDigits_more one, hexDigits_more two, first, hexDigits_more three, hexDigits_one last]

theorem hexBytes_four (small : n < 65536) : hexBytes (hexPad 4 n) = some [(n / 256).toUInt8, (n % 256).toUInt8] := by
  rw [hexPad_four small]
  exact hexBytes_append (hexBytes_two (by omega)) (hexBytes_two (by omega))

/-! ## Reading -/

/-- What is read from pairs of characters. -/
theorem spelled_of_pairs {bytes : Bytes} (pairs : pairBytes text = some bytes)
    (h : CStr m p (text ++ rest)) : Spelled m p bytes := by
  induction text using pairBytes.induct generalizing p bytes with
  | case1 =>
    cases pairs
    trivial
  | case2 c => cases pairs
  | case3 hi lo text ih =>
    obtain ⟨more, here, rfl⟩ := map_eq_some_iff.1 pairs
    have at_hi : m p = hi := h.bytes 0 (by simp)
    have at_lo : m (p + 1) = lo := h.bytes 1 (by simp)
    refine ⟨?_, ih here h.tail.tail⟩
    rw [readByte, at_hi, at_lo, if_neg (h.clean hi (by simp)), if_neg (h.clean lo (by simp))]

theorem spelled_of_text {bytes : Bytes} (spelled : hexBytes text = some bytes)
    (h : CStr m p (text ++ rest)) : Spelled m p bytes :=
  spelled_of_pairs (hexBytes_iff.1 spelled).1 h

theorem wordOf_bytes (small : n < 65536) : wordOf (n / 256).toUInt8 (n % 256).toUInt8 = n := by
  have high : (n / 256).toUInt8.toNat = n / 256 := UInt8.toNat_ofNat_of_lt (show n / 256 < 256 by omega)
  have low : (n % 256).toUInt8.toNat = n % 256 := UInt8.toNat_ofNat_of_lt (show n % 256 < 256 by omega)
  rw [wordOf, high, low, ← Nat.shiftLeft_add_eq_or_of_lt (show n % 256 < 2 ^ 8 by omega), Nat.shiftLeft_eq]
  omega

theorem Spelled.word {bytes : Bytes} (h : Spelled m p (msb :: lsb :: bytes)) :
    readWord m p = some (wordOf msb lsb, p + 4) ∧ Spelled m (p + 4) bytes := by
  obtain ⟨first, second, rest⟩ := h
  refine ⟨?_, rest⟩
  rw [readWord, first]
  dsimp only [bind_eq_bind, bind_some]
  rw [second]
  rfl

theorem Spelled.pulses {bytes : Bytes} (entries : table.length = 4 * n) (h : Spelled m p (table ++ bytes)) :
    readPulses m n p = some (pulsesOf table, p + 8 * n) ∧ Spelled m (p + 8 * n) bytes := by
  induction n generalizing p table with
  | zero =>
    rw [length_eq_zero_iff.1 entries] at h ⊢
    exact ⟨rfl, h⟩
  | succ n ih =>
    match table, entries with
    | a :: b :: c :: d :: table, entries =>
      obtain ⟨hi, rest⟩ := Spelled.word h
      obtain ⟨lo, rest⟩ := Spelled.word rest
      obtain ⟨more, rest⟩ := ih (by simp only [length_cons] at entries; omega) rest
      have place : p + 4 + 4 + 8 * n = p + 8 * (n + 1) := by omega
      rw [place] at more rest
      refine ⟨?_, rest⟩
      rw [readPulses, hi]
      dsimp only [bind_eq_bind, bind_some]
      rw [lo]
      dsimp only [bind_eq_bind, bind_some]
      rw [more]
      rfl

theorem Spelled.bytes {bytes : Bytes} (h : Spelled m p bytes) : readBytes m bytes.length p = some bytes := by
  induction bytes generalizing p with
  | nil => rfl
  | cons b bytes ih =>
    obtain ⟨first, rest⟩ := h
    rw [length_cons, readBytes, first]
    dsimp only [bind_eq_bind, bind_some]
    rw [ih rest]
    rfl

/-- **A header** is read as it is spelled. -/
theorem Spelled.header {gapRepeat frames : UInt8} {bytes : Bytes}
    (valid : validBits bits = true) (entries : table.length = 4 * encodings bits)
    (h : Spelled m p (bits :: (table ++ bursts :: gapRepeat :: msb :: lsb :: frames :: bytes))) :
    ∃ q, readHeader m p = some (⟨bits, pulsesOf table, bursts.toNat, gapRepeat.toNat, wordOf msb lsb, frames.toNat⟩,
      q) ∧ Spelled m q bytes := by
  obtain ⟨readBits, rest⟩ := h
  obtain ⟨readTable, rest⟩ := Spelled.pulses entries rest
  obtain ⟨readBursts, readRepeat, rest⟩ := rest
  obtain ⟨readDelay, readFrames, rest⟩ := Spelled.word rest
  refine ⟨_, ?_, rest⟩
  rw [readHeader, readBits]
  dsimp only [bind_eq_bind, bind_some]
  rw [if_pos valid, show ((1 : UInt8) <<< bits).toNat = encodings bits from rfl, readTable]
  dsimp only [bind_eq_bind, bind_some]
  rw [readBursts]
  dsimp only [bind_eq_bind, bind_some]
  rw [readRepeat]
  dsimp only [bind_eq_bind, bind_some]
  rw [readDelay]
  dsimp only [bind_eq_bind, bind_some]
  rw [readFrames]
  rfl

theorem Spelled.part {a b : Bytes} (first : Spelled m p a) (second : Spelled m p b) (short : a.length ≤ b.length) :
    a <+: b := by
  induction a generalizing b p with
  | nil => exact nil_prefix
  | cons c a ih =>
    cases b with
    | nil => cases short
    | cons d b =>
      obtain ⟨here, rest⟩ := first
      obtain ⟨here', rest'⟩ := second
      rw [here] at here'
      cases here'
      exact (prefix_cons_inj c).2 (ih rest rest' (Nat.le_of_succ_le_succ short))

/-- The repeat of the gap stands behind the table and the bursts. -/
theorem Spelled.gapRepeat {gapRepeat : UInt8}
    (entries : table.length = 4 * encodings bits) (spelled : Spelled m p (bits :: (table ++ [bursts, gapRepeat])))
    (read : readHeader m p = some (h, q)) : h.interburstRepeat = gapRepeat.toNat := by
  obtain ⟨bits', bursts', gapRepeat', msb, lsb, frames, table', -, entries', spelled', rfl, -⟩ := spelled_of_header read
  obtain rfl : bits = bits' := (Prod.mk.inj (some.inj (spelled.1.symm.trans spelled'.1))).1
  obtain ⟨more, split⟩ := spelled.2.part spelled'.2 (by simp [entries, entries'])
  rw [append_assoc] at split
  have behind := (append_inj split (entries.trans entries'.symm)).2
  cases behind
  rfl

end Hah.Rf
