import Hah.C.Numbers

/-!
# Escapes in the data of `Serial.Send`

`unescape` of `xap-serial/serial.c` reads the escapes of C strings: a letter, up to two
hexadecimal digits behind `x`, or up to three octal digits. The result may hold NUL bytes and
is written with its length.

`unescapeInto` is the function of the source, which moves through the data by a pointer and stores
into the buffer that `xapSerialTx` allocates; `unescape` is its result on the bytes of the data.
A byte can be written in several ways (`Renders`), and whichever is chosen for each, the decoder
returns the bytes (`Rendering.unescape_eq`).
-/

namespace Hah.XapSerial
open C List

def backslash : UInt8 := 92

def isoctal (c : UInt8) : Bool := isdigit c && c != 56 && c != 57

/-- The digits of an escape, at most two, behind the value `oval`. -/
def escapeDigits (isDigit : UInt8 → Bool) (base oval : Nat) (data : Bytes) : UInt8 × Bytes :=
  let digits := (data.takeWhile isDigit).take 2
  ((digits.foldl (fun oval c => base * oval + xdigitValue c) oval).toUInt8, data.drop digits.length)

/-- The `switch` of `unescape`, on the byte behind the backslash: the byte it stands for and what is
left of the data. -/
def escape (c : UInt8) (data : Bytes) : UInt8 × Bytes :=
  if c = 97 then (7, data)
  else if c = 98 then (8, data)
  else if c = 102 then (12, data)
  else if c = 110 then (10, data)
  else if c = 114 then (13, data)
  else if c = 116 then (9, data)
  else if c = 118 then (11, data)
  else if c = 120 then escapeDigits isxdigit 16 0 data
  else if isoctal c then escapeDigits isoctal 8 (xdigitValue c) data
  else (c, data)

/-- The loop of `unescape`; every turn takes a byte at least. -/
def unescapeLoop : Nat → Bytes → Bytes
  | 0, _ => []
  | _ + 1, [] => []
  | room + 1, c :: data =>
    if c = backslash then
      match data with
      | [] => []
      | c :: data => (escape c data).1 :: unescapeLoop room (escape c data).2
    else c :: unescapeLoop room data

/-- `unescape`: the bytes of the result. -/
def unescape (data : Bytes) : Bytes := unescapeLoop data.length data

example : unescape "a\\x4f\\101\\n" = [97, 79, 65, 10] := by decide

/-! ## The pointers -/

/-- `for(i=0; i<2 && (ch = *data)!=0 && isDigit(ch); i++, data++) oval = (oval << shift) | value(ch)`,
with the turns that are left. -/
def digitLoop (m : Mem) (isDigit : UInt8 → Bool) (value : UInt8 → Nat) (shift : Nat) :
    (turns data oval : Nat) → Nat × Nat
  | 0, data, oval => (oval, data)
  | turns + 1, data, oval =>
    if m data ≠ 0 ∧ isDigit (m data) then
      digitLoop m isDigit value shift turns (data + 1) (oval <<< shift ||| value (m data))
    else (oval, data)

def toupper (c : UInt8) : UInt8 := if 97 ≤ c ∧ c ≤ 122 then c - 32 else c

/-- The value of a digit behind `x`. -/
def hexDigit (ch : UInt8) : Nat := if 65 ≤ ch then (toupper ch).toNat - 65 + 10 else ch.toNat - 48

def octalDigit (ch : UInt8) : Nat := ch.toNat - 48

/-- The letters of the `switch`. -/
def letterEscape (ch : UInt8) : Option UInt8 :=
  if ch = 97 then some 7
  else if ch = 98 then some 8
  else if ch = 102 then some 12
  else if ch = 110 then some 10
  else if ch = 114 then some 13
  else if ch = 116 then some 9
  else if ch = 118 then some 11
  else if ch = 92 then some 92
  else none

/-- The `switch`, with `data` behind the byte `ch`. -/
def escapeAt (m : Mem) (ch : UInt8) (data : Nat) : UInt8 × Nat :=
  match letterEscape ch with
  | some ch => (ch, data)
  | none =>
    if ch = 120 then
      let (oval, data) := digitLoop m isxdigit hexDigit 4 2 data 0
      (oval.toUInt8, data)
    else if 48 ≤ ch ∧ ch ≤ 55 then
      let (oval, data) := digitLoop m isoctal octalDigit 3 2 data (octalDigit ch)
      (oval.toUInt8, data)
    else (ch, data)

/-- `unescape` from `data` on, with `len` bytes in the buffer of `size` bytes; `none` for a store
behind the buffer, or when the turns do not suffice. -/
def unescapeInto (size : Nat) (m : Mem) : (turns data : Nat) → (result : Mem) → (len : Nat) → Option (Mem × Nat)
  | 0, _, _, _ => none
  | turns + 1, data, result, len =>
    if m data = 0 then (storeIn size result len 0).map (·, len)
    else if m data = backslash then
      if m (data + 1) = 0 then (storeIn size result len 0).map (·, len)
      else
        let (ch, data) := escapeAt m (m (data + 1)) (data + 2)
        (storeIn size result len ch).bind fun result => unescapeInto size m turns data result (len + 1)
    else (storeIn size result len (m data)).bind fun result => unescapeInto size m turns (data + 1) result (len + 1)

/-! ## The turns of the loop -/

variable {c b : UInt8} {m : Mem} {text : Bytes} {data bytes : Bytes} {shift : Nat} {isDigit : UInt8 → Bool}

theorem escapeDigits_rest (isDigit : UInt8 → Bool) (base oval : Nat) (data : Bytes) :
    (escapeDigits isDigit base oval data).2.length ≤ data.length := by
  rw [escapeDigits, length_drop]
  exact Nat.sub_le _ _

theorem escape_rest (c : UInt8) (data : Bytes) : (escape c data).2.length ≤ data.length := by
  unfold escape
  repeat' split
  all_goals first | exact Nat.le_refl _ | exact escapeDigits_rest _ _ _ _

/-- Induction along the turns of the loop. -/
theorem turns_induction {motive : Bytes → Prop} (empty : motive []) (cut : motive [backslash])
    (escaped : ∀ c data, motive (escape c data).2 → motive (backslash :: c :: data))
    (literal : ∀ c data, c ≠ backslash → motive data → motive (c :: data)) (data : Bytes) : motive data := by
  have any : ∀ n data, List.length data ≤ n → motive data := by
    intro n
    induction n with
    | zero =>
      intro data short
      exact length_eq_zero_iff.1 (Nat.le_zero.1 short) ▸ empty
    | succ n ih =>
      intro data short
      match data, short with
      | [], _ => exact empty
      | c :: data, short =>
        have fewer := Nat.le_of_succ_le_succ short
        by_cases plain : c = backslash
        · subst plain
          match data, fewer with
          | [], _ => exact cut
          | d :: data, fewer =>
            have left := Nat.le_trans (escape_rest d data) (Nat.le_of_succ_le fewer)
            exact escaped d data (ih _ left)
        · exact literal c data plain (ih data fewer)
  exact any data.length data (Nat.le_refl _)

theorem unescapeLoop_literal (plain : c ≠ backslash) (room : Nat) (data : Bytes) :
    unescapeLoop (room + 1) (c :: data) = c :: unescapeLoop room data :=
  if_neg plain

/-- More room than bytes makes no difference. -/
theorem unescapeLoop_eq : ∀ room : Nat, data.length ≤ room → unescapeLoop room data = unescape data := by
  induction data using turns_induction with
  | empty => rintro (_ | room) - <;> rfl
  | cut =>
    rintro (_ | room) enough
    · cases enough
    · rfl
  | escaped c data ih =>
    have left := escape_rest c data
    rintro (_ | room) enough
    · cases enough
    · have here := ih room (Nat.le_trans left (Nat.le_of_succ_le (Nat.le_of_succ_le_succ enough)))
      have own := ih (data.length + 1) (Nat.le_succ_of_le left)
      exact congrArg _ (here.trans own.symm)
  | literal c data plain ih =>
    rintro (_ | room) enough
    · cases enough
    · rw [unescape, length_cons, unescapeLoop_literal plain, unescapeLoop_literal plain,
        ih room (Nat.le_of_succ_le_succ enough), ih _ (Nat.le_refl _)]

theorem unescape_literal (plain : c ≠ backslash) (data : Bytes) : unescape (c :: data) = c :: unescape data :=
  unescapeLoop_literal plain data.length data

theorem unescape_escape (c : UInt8) (data : Bytes) :
    unescape (backslash :: c :: data) = (escape c data).1 :: unescape (escape c data).2 := by
  rw [← unescapeLoop_eq _ (Nat.le_succ_of_le (escape_rest c data))]
  rfl

theorem unescape_of_escape {rest : Bytes} (decoded : escape c data = (b, rest)) :
    unescape (backslash :: c :: data) = b :: unescape rest := by
  rw [unescape_escape, decoded]

/-- **Decoding never grows.** -/
theorem unescape_length (data : Bytes) : (unescape data).length ≤ data.length := by
  induction data using turns_induction with
  | empty => exact Nat.le_refl _
  | cut => exact Nat.zero_le _
  | escaped c data ih =>
    have left := escape_rest c data
    rw [unescape_escape, length_cons, length_cons, length_cons]
    omega
  | literal c data plain ih =>
    rw [unescape_literal plain]
    exact Nat.succ_le_succ ih

/-! ## What the pointers find -/

/-- Shifting a digit in is multiplying by the base and adding it. -/
theorem shift_digit {v : Nat} (small : v < Nat.pow 2 shift) (oval : Nat) :
    oval <<< shift ||| v = Nat.pow 2 shift * oval + v := by
  rw [← Nat.shiftLeft_add_eq_or_of_lt small, Nat.shiftLeft_eq, Nat.mul_comm]
  rfl

theorem hexDigit_shift (isDigit : isxdigit c = true) (oval : Nat) :
    oval <<< 4 ||| hexDigit c = 16 * oval + xdigitValue c := by
  have values : ∀ c, isxdigit c = true → hexDigit c = xdigitValue c ∧ xdigitValue c < 16 :=
    fun c => byte_cases (by decide +kernel) c
  rw [(values c isDigit).1]
  exact shift_digit (values c isDigit).2 oval

theorem octalDigit_shift (isDigit : isoctal c = true) (oval : Nat) :
    oval <<< 3 ||| octalDigit c = 8 * oval + xdigitValue c := by
  have values : ∀ c, isoctal c = true → octalDigit c = xdigitValue c ∧ xdigitValue c < 8 :=
    fun c => byte_cases (by decide +kernel) c
  rw [(values c isDigit).1]
  exact shift_digit (values c isDigit).2 oval

/-- The loop over the digits of an escape takes the leading digits of the string. -/
theorem digitLoop_eq {value : UInt8 → Nat} {base : Nat}
    (digits : ∀ c, isDigit c = true → ∀ oval, oval <<< shift ||| value c = base * oval + xdigitValue c) {turns : Nat} :
    ∀ {data oval : Nat} {text : Bytes}, CStr m data text →
      digitLoop m isDigit value shift turns data oval =
        (((text.takeWhile isDigit).take turns).foldl (fun oval c => base * oval + xdigitValue c) oval,
          data + ((text.takeWhile isDigit).take turns).length) := by
  induction turns with
  | zero =>
    intro data oval text _
    rfl
  | succ turns ih =>
    intro data oval text h
    cases text with
    | nil =>
      have stop : m data = 0 := h.nul
      rw [digitLoop, if_neg (fun both => both.1 stop)]
      rfl
    | cons c text =>
      have here : m data = c := h.bytes 0 (by simp)
      have nonzero : c ≠ 0 := h.clean c (by simp)
      rw [digitLoop, here]
      by_cases isOne : isDigit c = true
      · rw [if_pos ⟨nonzero, isOne⟩, ih h.tail, digits c isOne, takeWhile_cons_of_pos isOne, take_succ_cons,
          foldl_cons, length_cons, show ∀ n, data + 1 + n = data + (n + 1) by omega]
      · rw [if_neg (fun both => isOne both.2), takeWhile_cons_of_neg isOne]
        rfl

theorem leadingDigits_length (isDigit : UInt8 → Bool) (turns : Nat) (text : Bytes) :
    ((text.takeWhile isDigit).take turns).length ≤ text.length :=
  ((List.take_prefix _ _).trans (List.takeWhile_prefix _)).length_le

theorem isoctal_iff : isoctal c = true ↔ 48 ≤ c ∧ c ≤ 55 :=
  byte_cases (by decide +kernel) c

theorem escape_letter (letter : letterEscape c = some b) (data : Bytes) : escape c data = (b, data) := by
  unfold letterEscape at letter
  repeat' split at letter
  all_goals cases letter
  all_goals subst c; rfl

theorem letterEscape_none (other : letterEscape c = none) :
    c ≠ 97 ∧ c ≠ 98 ∧ c ≠ 102 ∧ c ≠ 110 ∧ c ≠ 114 ∧ c ≠ 116 ∧ c ≠ 118 := by
  revert other
  exact byte_cases (by decide +kernel) c

/-- Behind the letters the `switch` has the two kinds of numbers. -/
theorem escape_other (other : letterEscape c = none) (data : Bytes) :
    escape c data = if c = 120 then escapeDigits isxdigit 16 0 data
      else if isoctal c then escapeDigits isoctal 8 (xdigitValue c) data else (c, data) := by
  obtain ⟨a, b, f, n, r, t, v⟩ := letterEscape_none other
  rw [escape, if_neg a, if_neg b, if_neg f, if_neg n, if_neg r, if_neg t, if_neg v]

theorem octal_not_letter (octal : isoctal c = true) : letterEscape c = none ∧ c ≠ 120 := by
  revert octal
  exact byte_cases (by decide +kernel) c

/-- The `switch` stands where the escape ends. -/
theorem escapeAt_eq {data : Nat} (h : CStr m data text) (c : UInt8) :
    ∃ k, k ≤ text.length ∧ (escape c text).2 = text.drop k ∧ escapeAt m c data = ((escape c text).1, data + k) := by
  rcases letter : letterEscape c with _ | b
  · rw [escape_other letter, escapeAt, letter]
    by_cases hex : c = 120
    · rw [if_pos hex, if_pos hex, digitLoop_eq (fun _ => hexDigit_shift) h]
      exact ⟨_, leadingDigits_length isxdigit 2 text, rfl, rfl⟩
    rw [if_neg hex, if_neg hex]
    by_cases octal : isoctal c = true
    · have first : octalDigit c = xdigitValue c := by simpa using octalDigit_shift octal 0
      rw [if_pos octal, if_pos (isoctal_iff.1 octal), digitLoop_eq (fun _ => octalDigit_shift) h, first]
      exact ⟨_, leadingDigits_length isoctal 2 text, rfl, rfl⟩
    · rw [if_neg octal, if_neg (mt isoctal_iff.2 octal)]
      exact ⟨0, Nat.zero_le _, rfl, rfl⟩
  · rw [escape_letter letter, escapeAt, letter]
    exact ⟨0, Nat.zero_le _, rfl, rfl⟩

/-! ## The buffer -/

/-- The buffer after a call: the bytes behind the `len` that it held, a terminator, and nothing
stored behind that. -/
structure Decoded (result : Mem) (len : Nat) (bytes : Bytes) (result' : Mem) : Prop where
  held : bytesAt result' 0 (len + bytes.length) = bytesAt result 0 len ++ bytes
  nul : result' (len + bytes.length) = 0
  behind : ∀ a, len + bytes.length < a → result' a = result a

theorem Decoded.nil (result : Mem) (len : Nat) : Decoded result len [] (store result len 0) := by
  refine ⟨?_, store_same _ _ _, fun a behind => store_other (Nat.ne_of_gt behind)⟩
  rw [append_nil]
  exact bytesAt_store_behind (Nat.zero_add len).le 0

theorem Decoded.cons {result result' : Mem} {len : Nat}
    (rest : Decoded (store result len b) (len + 1) bytes result') : Decoded result len (b :: bytes) result' := by
  have place : len + (b :: bytes).length = len + 1 + bytes.length := by
    rw [length_cons]
    omega
  have ends := bytesAt_store_end result 0 len b
  rw [Nat.zero_add] at ends
  refine ⟨?_, place ▸ rest.nul, fun a behind => ?_⟩
  · rw [place, rest.held, ends, append_assoc]
    rfl
  · rw [place] at behind
    rw [rest.behind a behind]
    exact store_other (by omega)

/-- **The function of the source** decodes the string at its pointer into a buffer that has room for
the result and its terminator. -/
theorem unescapeInto_eq (size : Nat) :
    ∀ (turns : Nat) {data : Nat} (len : Nat) (result : Mem), CStr m data text → text.length < turns →
      len + (unescape text).length < size →
      ∃ result', unescapeInto size m turns data result len = some (result', len + (unescape text).length) ∧
        Decoded result len (unescape text) result' := by
  induction text using turns_induction with
  | empty =>
    rintro (_ | turns) data len result h more fits
    · cases more
    have stop : m data = 0 := h.nul
    refine ⟨store result len 0, ?_, Decoded.nil result len⟩
    rw [unescapeInto, if_pos stop, storeIn_inside (show len < size from fits)]
    rfl
  | cut =>
    rintro (_ | turns) data len result h more fits
    · cases more
    have here : m data = backslash := h.bytes 0 (by simp)
    have stop : m (data + 1) = 0 := h.nul
    refine ⟨store result len 0, ?_, Decoded.nil result len⟩
    rw [unescapeInto, if_neg (by rw [here]; decide), if_pos here, if_pos stop,
      storeIn_inside (show len < size from fits)]
    rfl
  | escaped c text ih =>
    rintro (_ | turns) data len result h more fits
    · cases more
    have here : m data = backslash := h.bytes 0 (by simp)
    have next : m (data + 1) = c := h.bytes 1 (by simp)
    have nonzero : c ≠ 0 := h.clean c (by simp)
    obtain ⟨k, inside, rest, found⟩ := escapeAt_eq h.tail.tail c
    rw [unescape_escape, length_cons] at fits
    have after := ih turns (len + 1) (store result len (escape c text).1) (rest ▸ h.tail.tail.drop inside)
      (by rw [rest, length_drop]; simp only [length_cons] at more; omega) (by omega)
    obtain ⟨result', run, decoded⟩ := after
    refine ⟨result', ?_, ?_⟩
    · rw [unescapeInto, if_neg (by rw [here]; decide), if_pos here, next, if_neg nonzero, found]
      dsimp only
      rw [storeIn_inside (by omega), Option.bind_some, run, unescape_escape, length_cons]
      congr 2
      omega
    · rw [unescape_escape]
      exact decoded.cons
  | literal c text plain ih =>
    rintro (_ | turns) data len result h more fits
    · cases more
    have here : m data = c := h.bytes 0 (by simp)
    have nonzero : c ≠ 0 := h.clean c (by simp)
    rw [unescape_literal plain, length_cons] at fits
    obtain ⟨result', run, decoded⟩ := ih turns (len + 1) (store result len c) h.tail
      (Nat.lt_of_succ_lt_succ more) (by omega)
    refine ⟨result', ?_, ?_⟩
    · rw [unescapeInto, here, if_neg nonzero, if_neg plain, storeIn_inside (by omega), Option.bind_some, run,
        unescape_literal plain, length_cons]
      congr 2
      omega
    · rw [unescape_literal plain]
      exact decoded.cons

/-! ## Renderings -/

/-- The ways to write a byte. -/
inductive Renders : UInt8 → Bytes → Prop where
  | literal {b : UInt8} : b ≠ 0 → b ≠ backslash → Renders b [b]
  | hex {b x y : UInt8} : isxdigit x = true → isxdigit y = true →
      b.toNat = 16 * xdigitValue x + xdigitValue y → Renders b [backslash, 120, x, y]
  | octal {b x y z : UInt8} : isoctal x = true → isoctal y = true → isoctal z = true →
      b.toNat = 64 * xdigitValue x + 8 * xdigitValue y + xdigitValue z → Renders b [backslash, x, y, z]
  | letter {b c : UInt8} : letterEscape c = some b → Renders b [backslash, c]

/-- A text with a way for each byte, chosen freely. -/
inductive Rendering : Bytes → Bytes → Prop where
  | nil : Rendering [] []
  | cons {b : UInt8} {bytes piece text : Bytes} : Renders b piece → Rendering bytes text →
      Rendering (b :: bytes) (piece ++ text)

/-- Two digits are the digits of an escape, whatever stands behind them. -/
theorem escapeDigits_two {x y : UInt8} (first : isDigit x = true) (second : isDigit y = true)
    (base oval : Nat) (rest : Bytes) :
    escapeDigits isDigit base oval (x :: y :: rest) =
      ((base * (base * oval + xdigitValue x) + xdigitValue y).toUInt8, rest) := by
  simp only [escapeDigits, takeWhile_cons_of_pos first, takeWhile_cons_of_pos second, take_succ_cons,
    take_zero]
  rfl

theorem Renders.unescape_eq {piece : Bytes} (way : Renders b piece) (rest : Bytes) :
    unescape (piece ++ rest) = b :: unescape rest := by
  cases way with
  | literal nonzero plain => exact unescape_literal plain rest
  | @hex x y first second value =>
    have byte : (16 * (16 * 0 + xdigitValue x) + xdigitValue y).toUInt8 = b := by
      rw [Nat.mul_zero, Nat.zero_add, ← value]
      exact UInt8.ofNat_toNat
    have decoded : escape 120 (x :: y :: rest) = (b, rest) :=
      (escapeDigits_two first second 16 0 rest).trans (byte ▸ rfl)
    exact unescape_of_escape decoded
  | @octal x y z one two three value =>
    obtain ⟨other, plain⟩ := octal_not_letter one
    have byte : (8 * (8 * xdigitValue x + xdigitValue y) + xdigitValue z).toUInt8 = b := by
      rw [show 8 * (8 * xdigitValue x + xdigitValue y) + xdigitValue z = b.toNat by omega]
      exact UInt8.ofNat_toNat
    have decoded : escape x (y :: z :: rest) = (b, rest) := by
      rw [escape_other other, if_neg plain, if_pos one, escapeDigits_two two three, byte]
    exact unescape_of_escape decoded
  | letter means => exact unescape_of_escape (escape_letter means rest)

theorem Rendering.unescape_eq (written : Rendering bytes text) : unescape text = bytes := by
  induction written with
  | nil => rfl
  | cons way _ ih => rw [way.unescape_eq, ih]

/-- **Serial data is decoded within its own length.** On every string the function ends with at most
as many turns as bytes and one for the terminator, stores nothing behind as many bytes, as the
caller allocates, and returns no more than them; and a string in which every byte is written in
one of the ways is decoded to those bytes and their number. -/
theorem unescape_decodes {m : Mem} {data : Nat} {text : Bytes} (h : CStr m data text) (turns : Nat)
    (enough : text.length < turns) (result : Mem) :
    (∃ result' len, unescapeInto (text.length + 1) m turns data result 0 = some (result', len) ∧
      len ≤ text.length ∧ ∀ a, text.length < a → result' a = result a) ∧
    ∀ bytes, Rendering bytes text →
      ∃ result', unescapeInto (text.length + 1) m turns data result 0 = some (result', bytes.length) ∧
        bytesAt result' 0 bytes.length = bytes := by
  have short := unescape_length text
  obtain ⟨result', run, decoded⟩ := unescapeInto_eq (text.length + 1) turns 0 result h enough (by omega)
  rw [Nat.zero_add] at run
  refine ⟨⟨result', _, run, short, fun a behind => decoded.behind a (by omega)⟩, fun bytes written => ?_⟩
  have held := decoded.held
  rw [Nat.zero_add] at held
  rw [written.unescape_eq] at run held
  exact ⟨result', run, held⟩

/-- A NUL, an `A` in octal with a digit behind it, and a new line. -/
theorem unescape_decodes_four :
    ∃ result', unescapeInto 12 (fun j => (ascii "\\x00\\1017\\n").getD j 0) 12 0 (fun _ => 0) 0 = some (result', 4) ∧
      bytesAt result' 0 4 = [0, 65, 55, 10] := by
  have clean : ∀ c ∈ ascii "\\x00\\1017\\n", c ≠ 0 := bytes_of_all (by decide)
  have length : (ascii "\\x00\\1017\\n").length = 11 := by decide
  have written : Rendering [0, 65, 55, 10] "\\x00\\1017\\n" :=
    .cons (.hex (x := 48) (y := 48) (by decide) (by decide) (by decide))
      (.cons (.octal (x := 49) (y := 48) (z := 49) (by decide) (by decide) (by decide) (by decide))
        (.cons (.literal (by decide) (by decide)) (.cons (.letter (c := 110) (by decide)) .nil)))
  have decoded := (unescape_decodes (cstr_getD clean) 12 (by decide) fun _ => 0).2 _ written
  rwa [length] at decoded

end Hah.XapSerial
