import Hah.Lib.Bits
import Hah.Lua.Endpoint

/-!
# The bit fields of a JeeNode packet: `bitslicer` in `xap/jeenode.lua`

A JeeNode sends a C bit field structure as bytes, and they arrive as decimal numbers between spaces.
`stream2bin` makes a string of binary digits of them, the least significant digit of the first byte
first; `bitslicer` cuts it into fields, turns each one around and reads it to the base 2. A negative
width is that of a signed field.

The string has the bits of the one number that the bytes denote, little-endian (`stream2bin_eq`), so
that a field is a slice of that number wherever the bytes end (`slice_eq`).
-/

namespace Hah.Lua.BitSlicer
open C Bits List

/-! ## The functions -/

/-- `dec2bin`, in at most `fuel` calls. -/
def dec2binCalls : Nat → Nat → Bytes
  | 0, _ => []
  | fuel + 1, dec => if dec > 0 then dec2binCalls fuel (dec / 2) ++ decimal (dec % 2) else []

/-- `dec2bin`; the number is halved from call to call. -/
def dec2bin (dec : Nat) : Bytes := dec2binCalls dec dec

def dec2Bin (dec num : Nat) : Bytes := rjust (dec2bin dec) num 48

/-- `Bin2Dec`, of a text of binary digits: `tonumber` to the base 2 is `strtoul`, with a 32-bit
`unsigned long`, and `nil` if there is no digit. -/
def bin2Dec (num : Bytes) : Option Nat :=
  if num ≠ [] ∧ num.all (fun c => c == 48 || c == 49) then
    some (min (num.foldl (fun n c => 2 * n + (c.toNat - 48)) 0) 4294967295)
  else none

/-- The loop of `utils.split` with the default delimiter `%s+`, for at most `fuel` turns. -/
def splitLoop : Nat → Bytes → List Bytes
  | 0, _ => []
  | fuel + 1, s =>
    let word := s.takeWhile fun c => !isspace c
    let rest := s.dropWhile fun c => !isspace c
    if rest = [] then if word = [] then [] else [word] else word :: splitLoop fuel (rest.dropWhile isspace)

/-- `utils.split`. -/
def split (s : Bytes) : List Bytes :=
  let ls := splitLoop (s.length + 1) s
  if ls = [[]] then [] else ls

/-- `tonumber` of an unsigned decimal numeral, which is what a JeeNode writes for a byte. -/
def tonumber (s : Bytes) : Option Nat := if s ≠ [] ∧ s.all isdigit then some (leadingNumber s) else none

def stream2bin (stream : Bytes) : Option Bytes :=
  ((split stream).mapM tonumber).map fun numbers => (numbers.map fun x => (dec2Bin x 8).reverse).flatten

def onesComplement (b : Bytes) : Bytes :=
  b.map fun x => if x = 48 ∨ x = 49 then if x = 48 then 49 else 48 else x

/-- `s:sub(i, j)` with a positive `i`. -/
def substring (s : Bytes) (i j : Nat) : Bytes := (s.drop (i - 1)).take (j + 1 - i)

/-- The value that `bitslicer` reads for the width `v` at `pos`; `none` for a field without a digit. -/
def sliceAt (binary : Bytes) (pos : Nat) (v : Int) : Option Int :=
  let n := v.natAbs
  let b := (substring binary pos (pos + n - 1)).reverse
  if v < 0 ∧ substring b 1 1 = "1" then (bin2Dec (onesComplement b)).map fun (x : Nat) => -((x : Int) + 1)
  else (bin2Dec b).map fun (x : Nat) => (x : Int)

def sliceLoop (binary : Bytes) : Nat → List Int → Option (List Int)
  | _, [] => some []
  | pos, v :: widths => do
    let x ← sliceAt binary pos v
    let rest ← sliceLoop binary (pos + v.natAbs) widths
    return x :: rest

def bitslicer (raw : Bytes) (widths : List Int) : Option (List Int) := do
  let binary ← stream2bin raw
  sliceLoop binary 1 widths

/-! ## What is packed -/

/-- The number that the bytes denote: the sum of `byte_j * 256^j`, from the byte `j` on. -/
def packed : Nat → Bytes → Nat
  | _, [] => 0
  | j, byte :: bytes => byte.toNat * Nat.pow 256 j + packed (j + 1) bytes

/-- The field of a width at an offset of `n`, with a sign if the width is negative. -/
def field (n offset : Nat) (width : Int) : Int :=
  let x := n / Nat.pow 2 offset % Nat.pow 2 width.natAbs
  if width < 0 ∧ x.testBit (width.natAbs - 1) then (x : Int) - (Nat.pow 2 width.natAbs : Nat) else x

/-- The fields of some widths, one behind the other. -/
def fields (n : Nat) : Nat → List Int → List Int
  | _, [] => []
  | offset, width :: widths => field n offset width :: fields n (offset + width.natAbs) widths

def total (widths : List Int) : Nat := widths.foldr (fun width n => width.natAbs + n) 0

/-- A decimal numeral for a byte. -/
structure Numeral (word : Bytes) (byte : UInt8) : Prop where
  nonempty : word ≠ []
  digits : ∀ c ∈ word, isdigit c = true
  value : leadingNumber word = byte.toNat

def spaced : List Bytes → Bytes
  | [] => []
  | word :: words => word ++ words.flatMap (32 :: ·)

/-! ## The string of binary digits -/

def char (b : Bool) : UInt8 := if b then 49 else 48

variable {words : List Bytes} {bytes : Bytes} {fuel m offset n : Nat} {word : Bytes}

theorem dec2binCalls_eq {k dec : Nat} (enough : dec ≤ fuel) (fits : dec < Nat.pow 2 k) :
    (dec2binCalls fuel dec).reverse ++ List.replicate (k - (dec2binCalls fuel dec).length) 48 =
      (bits k dec).map char := by
  induction k generalizing fuel dec with
  | zero =>
    obtain rfl : dec = 0 := Nat.lt_one_iff.1 fits
    cases fuel <;> rfl
  | succ k ih =>
    by_cases zero : dec = 0
    · subst zero
      rw [bits_zero, map_replicate]
      cases fuel <;> rfl
    · obtain ⟨fuel, rfl⟩ : ∃ f, fuel = f + 1 := ⟨fuel - 1, by omega⟩
      have last : decimal (dec % 2) = [char (decide (dec % 2 = 1))] := by
        rcases Nat.mod_two_eq_zero_or_one dec with even | odd
        · rw [even]
          rfl
        · rw [odd]
          rfl
      have shorter : dec2binCalls (fuel + 1) dec = dec2binCalls fuel (dec / 2) ++ [char (decide (dec % 2 = 1))] := by
        rw [dec2binCalls, if_pos (Nat.pos_of_ne_zero zero), last]
      rw [pow_two_succ] at fits
      rw [shorter, reverse_append, length_append, length_singleton, Nat.add_sub_add_right,
        reverse_singleton, singleton_append, cons_append, ih (by omega) (by omega), bits, map_cons]

/-- **A byte** gives its eight bits, the lowest one first. -/
theorem dec2Bin_eq (byte : UInt8) : (dec2Bin byte.toNat 8).reverse = (bits 8 byte.toNat).map char := by
  have fits := UInt8.toNat_lt byte
  rw [← dec2binCalls_eq (Nat.le_refl _) fits, dec2Bin, rjust, reverse_append, reverse_replicate]
  rfl

theorem packed_succ (j : Nat) (bytes : Bytes) : packed (j + 1) bytes = 256 * packed j bytes := by
  induction bytes generalizing j with
  | nil => rfl
  | cons byte bytes ih =>
    have power : Nat.pow 256 (j + 1) = 256 * Nat.pow 256 j := Nat.mul_comm _ _
    rw [packed, packed, ih, Nat.mul_add, power, Nat.mul_left_comm]

theorem packed_cons (byte : UInt8) (bytes : Bytes) :
    packed 0 (byte :: bytes) = byte.toNat + Nat.pow 2 8 * packed 0 bytes := by
  rw [packed, packed_succ, show byte.toNat * Nat.pow 256 0 = byte.toNat from Nat.mul_one _]

/-- The bits of the bytes are the bits of the number that they denote. -/
theorem bits_packed (bytes : Bytes) :
    (bytes.map fun byte => bits 8 byte.toNat).flatten = bits (8 * bytes.length) (packed 0 bytes) := by
  induction bytes with
  | nil => rfl
  | cons byte bytes ih =>
    have count : 8 * (byte :: bytes).length = 8 + 8 * bytes.length := by
      rw [length_cons]
      omega
    rw [count, packed_cons, bits_append (UInt8.toNat_lt byte), map_cons, flatten_cons, ih]

theorem takeWhile_word (plain : ∀ c ∈ word, isspace c = false) (rest : Bytes) :
    (word ++ 32 :: rest).takeWhile (fun c => !isspace c) = word ∧
      (word ++ 32 :: rest).dropWhile (fun c => !isspace c) = 32 :: rest := by
  have passes : ∀ c ∈ word, (!isspace c) = true := fun c mem => by rw [plain c mem]; rfl
  constructor
  · rw [takeWhile_append_of_pos passes, takeWhile_cons_of_neg (by decide), append_nil]
  · rw [dropWhile_append_of_pos passes, dropWhile_cons_of_neg (by decide)]

/-- Words are split where they were joined. -/
theorem splitLoop_spaced (plain : ∀ word ∈ words, word ≠ [] ∧ ∀ c ∈ word, isspace c = false)
    (enough : words.length < fuel) : splitLoop fuel (spaced words) = words := by
  induction words generalizing fuel with
  | nil =>
    obtain ⟨fuel, rfl⟩ : ∃ f, fuel = f + 1 := ⟨fuel - 1, by omega⟩
    rfl
  | cons word words ih =>
    obtain ⟨fuel, rfl⟩ : ∃ f, fuel = f + 1 := ⟨fuel - 1, by omega⟩
    obtain ⟨⟨nonempty, letters⟩, more⟩ := forall_mem_cons.1 plain
    have passes : ∀ c ∈ word, (!isspace c) = true := fun c mem => by rw [letters c mem]; rfl
    cases words with
    | nil =>
      have alone : spaced [word] = word := append_nil word
      rw [alone, splitLoop, takeWhile_eq_self_iff.2 passes, dropWhile_eq_nil_iff.2 passes]
      rw [if_pos rfl, if_neg nonempty]
    | cons next words =>
      have joined : spaced (word :: next :: words) = word ++ 32 :: spaced (next :: words) := rfl
      obtain ⟨c, tail, rfl⟩ := exists_cons_of_ne_nil (more next mem_cons_self).1
      have letter := (more _ mem_cons_self).2 c mem_cons_self
      have skipped : (32 :: spaced ((c :: tail) :: words)).dropWhile isspace = spaced ((c :: tail) :: words) := by
        rw [dropWhile_cons_of_pos (by decide)]
        exact dropWhile_cons_of_neg (by rw [letter]; exact Bool.false_ne_true)
      rw [joined, splitLoop, (takeWhile_word letters _).1, (takeWhile_word letters _).2, if_neg (cons_ne_nil _ _),
        skipped, ih more (Nat.lt_of_succ_lt_succ enough)]

theorem length_le_spaced (nonempty : ∀ word ∈ words, word ≠ []) : words.length ≤ (spaced words).length := by
  have behind : ∀ words : List Bytes, words.length ≤ (words.flatMap (32 :: ·)).length := by
    intro words
    induction words with
    | nil => exact Nat.le_refl 0
    | cons word words ih =>
      rw [flatMap_cons, length_append, length_cons, length_cons]
      omega
  cases words with
  | nil => exact Nat.le_refl 0
  | cons word words =>
    have first := length_pos_iff.2 (nonempty word mem_cons_self)
    have others := behind words
    rw [spaced, length_append, length_cons]
    omega

theorem split_spaced (plain : ∀ word ∈ words, word ≠ [] ∧ ∀ c ∈ word, isspace c = false) :
    split (spaced words) = words := by
  have enough := length_le_spaced fun word mem => (plain word mem).1
  have words_of : splitLoop ((spaced words).length + 1) (spaced words) = words := splitLoop_spaced plain (by omega)
  rw [split, words_of]
  refine if_neg fun blank => ?_
  rw [blank] at plain
  exact (plain [] mem_cons_self).1 rfl

theorem tonumber_numeral {byte : UInt8} (numeral : Numeral word byte) : tonumber word = some byte.toNat := by
  rw [tonumber, if_pos ⟨numeral.nonempty, all_eq_true.2 numeral.digits⟩, numeral.value]

section

variable (numerals : List.Forall₂ Numeral words bytes)
include numerals

theorem mapM_tonumber :
    words.mapM tonumber = some (bytes.map fun byte => byte.toNat) := by
  induction numerals with
  | nil => rfl
  | cons numeral _ ih =>
    rw [mapM_cons, tonumber_numeral numeral, ih]
    rfl

theorem numerals_plain :
    ∀ word ∈ words, word ≠ [] ∧ ∀ c ∈ word, isspace c = false := by
  induction numerals with
  | nil => exact forall_mem_nil _
  | cons numeral _ ih =>
    exact forall_mem_cons.2 ⟨⟨numeral.nonempty, fun c mem => (digit_plain (numeral.digits c mem)).1⟩, ih⟩

/-- **The string** has the bits of the number that the bytes denote, the lowest one first. -/
theorem stream2bin_eq :
    stream2bin (spaced words) = some ((bits (8 * bytes.length) (packed 0 bytes)).map char) := by
  rw [stream2bin, split_spaced (numerals_plain numerals), mapM_tonumber numerals, ← bits_packed, map_flatten,
    map_map, Option.map_some, map_map]
  refine congrArg (fun texts => some (List.flatten texts)) (map_congr_left fun byte _ => ?_)
  exact dec2Bin_eq byte

end

/-! ## A field -/

/-- Binary digits, the highest one first, are read as the number that the bits denote. -/
theorem bin2Dec_eq {bs : List Bool} (nonempty : bs ≠ []) (short : bs.length ≤ 32) :
    bin2Dec (bs.map char).reverse = some (value bs) := by
  have digits : (bs.map char).reverse.all (fun c => c == 48 || c == 49) = true := by
    rw [all_reverse, all_map]
    exact all_eq_true.2 fun b _ => by cases b <;> rfl
  have some_digit : (bs.map char).reverse ≠ [] := by simpa using nonempty
  have number : (bs.map char).reverse.foldl (fun n c => 2 * n + (c.toNat - 48)) 0 = value bs := by
    rw [foldl_reverse, foldr_map, value]
    have bit : ∀ b : Bool, (char b).toNat - 48 = b.toNat := fun b => by cases b <;> rfl
    simp only [bit]
  have small : value bs ≤ 4294967295 := by
    have complement := value_not bs
    have bound : Nat.pow 2 bs.length ≤ Nat.pow 2 32 := Nat.pow_le_pow_right (by decide) short
    have largest : Nat.pow 2 32 = 4294967296 := by decide
    omega
  rw [bin2Dec, if_pos ⟨some_digit, digits⟩, number, Nat.min_eq_left small]

theorem onesComplement_eq (bs : List Bool) :
    onesComplement (bs.map char).reverse = ((bs.map not).map char).reverse := by
  rw [onesComplement, map_reverse, map_map, map_map]
  exact congrArg List.reverse (map_congr_left fun b _ => by cases b <;> rfl)

/-- The first digit of a field is its top bit. -/
theorem first_digit (k x : Nat) :
    substring ((bits (k + 1) x).map char).reverse 1 1 = "1" ↔ (x % Nat.pow 2 (k + 1)).testBit k = true := by
  have low : (x % Nat.pow 2 (k + 1)).testBit k = (decide (k < k + 1) && x.testBit k) :=
    Nat.testBit_mod_two_pow x (k + 1) k
  have top : x.testBit k = decide (x / Nat.pow 2 k % 2 = 1) := Nat.testBit_eq_decide_div_mod_eq
  have first : ∀ (b : Bool) (digits : Bytes), substring (([b].map char).reverse ++ digits) 1 1 = [char b] :=
    fun _ _ => rfl
  rw [low, top, decide_eq_true (Nat.lt_succ_self k), Bool.true_and, bits_succ, map_append, reverse_append,
    first]
  cases decide (x / Nat.pow 2 k % 2 = 1) <;> decide

/-- **A slice** that lies in the string is a field of the number whose bits the string has. -/
theorem slice_eq {width : Int} (nonzero : width ≠ 0) (short : width.natAbs ≤ 32) (within : offset + width.natAbs ≤ m) :
    sliceAt ((bits m n).map char) (offset + 1) width = some (field n offset width) := by
  obtain ⟨k, size⟩ : ∃ k, width.natAbs = k + 1 := ⟨width.natAbs - 1, by omega⟩
  have cut : substring ((bits m n).map char) (offset + 1) (offset + 1 + (k + 1) - 1) =
      (bits (k + 1) (n / Nat.pow 2 offset)).map char := by
    have count : offset + 1 + (k + 1) - 1 + 1 - (offset + 1) = k + 1 := by omega
    rw [substring, count, Nat.add_sub_cancel, ← map_drop, ← map_take, bits_slice (by omega)]
  have long : (bits (k + 1) (n / Nat.pow 2 offset)).length = k + 1 := bits_length _ _
  have unsigned := value_bits (k + 1) (n / Nat.pow 2 offset)
  have complement := value_not (bits (k + 1) (n / Nat.pow 2 offset))
  rw [long, unsigned] at complement
  have some_bit : bits (k + 1) (n / Nat.pow 2 offset) ≠ [] := cons_ne_nil _ _
  unfold sliceAt field
  dsimp only
  rw [size, Nat.add_sub_cancel, cut]
  simp only [first_digit]
  split
  next =>
    -- the complement of the field, and one more, is what is missing to the next power
    have length_not : ((bits (k + 1) (n / Nat.pow 2 offset)).map not).length = k + 1 := (length_map _).trans long
    rw [onesComplement_eq, bin2Dec_eq (by simpa using some_bit) (by omega), Option.map_some]
    congr 1
    omega
  next => rw [bin2Dec_eq some_bit (by omega), unsigned, Option.map_some]

/-! ## The loop -/

theorem total_cons (width : Int) (widths : List Int) : total (width :: widths) = width.natAbs + total widths := rfl

theorem sliceLoop_eq {widths : List Int} (widths_ok : ∀ width ∈ widths, width ≠ 0 ∧ width.natAbs ≤ 32)
    (within : offset + total widths ≤ m) :
    sliceLoop ((bits m n).map char) (offset + 1) widths = some (fields n offset widths) := by
  induction widths generalizing offset with
  | nil => rfl
  | cons width widths ih =>
    obtain ⟨⟨nonzero, short⟩, more⟩ := forall_mem_cons.1 widths_ok
    rw [total_cons] at within
    rw [sliceLoop, slice_eq nonzero short (by omega), Nat.add_right_comm, ih more (by omega)]
    rfl

/-- **`bitslicer` unpacks.** For bytes that are written as decimal numerals between spaces and widths
other than 0, of 32 at most and together no more than the bytes have, the values are the little-endian
fields of the number that the bytes denote. -/
theorem bitslicer_eq {words : List Bytes} {bytes : Bytes} {widths : List Int}
    (numerals : List.Forall₂ Numeral words bytes) (widths_ok : ∀ width ∈ widths, width ≠ 0 ∧ width.natAbs ≤ 32)
    (within : total widths ≤ 8 * bytes.length) :
    bitslicer (spaced words) widths = some (fields (packed 0 bytes) 0 widths) := by
  rw [bitslicer, stream2bin_eq numerals]
  exact sliceLoop_eq widths_ok (by omega)

/-- A packet of a room node: light 131, no motion, humidity 46, the temperature -5.2 degrees, a good battery. -/
theorem bitslicer_room :
    bitslicer "131 92 204 3" [8, 1, 7, -10, 1] = some [131, 0, 46, -52, 0] := by
  have numerals : List.Forall₂ Numeral ["131", "92", "204", "3"] [131, 92, 204, 3] := by
    refine .cons ?_ (.cons ?_ (.cons ?_ (.cons ?_ .nil))) <;> exact ⟨by decide, bytes_of_all (by decide), by decide⟩
  have text : spaced ["131", "92", "204", "3"] = "131 92 204 3" := by decide
  have values : fields (packed 0 [131, 92, 204, 3]) 0 [8, 1, 7, -10, 1] = [131, 0, 46, -52, 0] := by decide +kernel
  rw [← text, ← values]
  exact bitslicer_eq numerals (by decide) (by decide)

end Hah.Lua.BitSlicer
