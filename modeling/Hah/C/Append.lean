import Hah.C.Strings

/-!
# Printing into a buffer piece by piece

The idiom `len += snprintf(&buff[len], size - len, ...)`. `snprintf` takes a `size_t` and
returns the length that the piece would have had, so `len` runs ahead of what is stored
when the buffer is full. While a piece starts at most at the end of the buffer, the buffer
holds the text so far as far as it fits (`Holds.append`). A piece that starts behind the end
is given a huge size, the negative difference as an unsigned number, and is stored there
(`Printing.append_behind`).
-/

namespace Hah.C
open List

/-- A buffer and the length of the text printed so far. -/
structure Printing where
  mem : Mem
  len : Nat

/-- `size - len` as a `size_t`. The difference is an `int`, which bounds how far it is below 0. -/
def spaceLeft (size len : Nat) : Nat :=
  if len ≤ size then size - len else 4294967296 - min (len - size) 2147483648

/-- `len += snprintf(&buff[len], size - len, ...)`. -/
def Printing.append (p : Printing) (size : Nat) (text : Bytes) : Printing :=
  { mem := snprintf p.mem p.len (spaceLeft size p.len) text, len := p.len + text.length }

/-- The next piece starts inside the buffer or at its end; otherwise nothing can be said. -/
def Printing.inside (p : Printing) (size : Nat) : Option Printing :=
  if p.len ≤ size then some p else none

variable {m before : Mem} {p : Printing} {size : Nat} {text : Bytes}

/-- Only what fits is looked at. -/
theorem snprintf_take (m : Mem) (p size : Nat) (text : Bytes) :
    snprintf m p size text = snprintf m p size (text.take (size - 1)) := by
  have cut : min (text.take (size - 1)).length (size - 1) = min text.length (size - 1) := by
    rw [length_take]
    omega
  funext j
  simp only [snprintf, cut]
  split
  · rfl
  · split
    next inside =>
      rw [getD_eq_getElem?_getD, getD_eq_getElem?_getD, getElem?_take_of_lt (by omega)]
    next => rfl

/-- Printing behind a string extends it by what fits. -/
theorem CStr.snprintf_cut {p : Nat} {s : Bytes} (h : CStr m p s) (clean : ∀ c ∈ text, c ≠ 0) (room : 1 ≤ size) :
    CStr (C.snprintf m (p + s.length) size text) p (s ++ text.take (size - 1)) := by
  rw [snprintf_take]
  apply h.snprintf
  · exact fun c hc => clean c (mem_of_mem_take hc)
  · rw [length_take]
    omega

/-- A print leaves everything behind its last byte. -/
theorem snprintf_outside {p : Nat} {j : Nat} (behind : p + size ≤ j) : snprintf m p size text j = m j := by
  unfold snprintf
  split
  · rfl
  · rw [if_neg (by omega), if_neg (by omega)]

/-- Bytes with a string right behind them. -/
theorem CStr.prepend {first second : Bytes} (bytes : ∀ j (hj : j < first.length), m j = first[j])
    (clean : ∀ c ∈ first, c ≠ 0) (h : CStr (fun j => m (first.length + j)) 0 second) : CStr m 0 (first ++ second) := by
  refine ⟨fun j hj => ?_, ?_, forall_mem_append.2 ⟨clean, h.clean⟩⟩
  · rw [Nat.zero_add, getElem_append]
    split
    next inside => exact bytes j inside
    next behind =>
      rw [length_append] at hj
      have byte := h.bytes (j - first.length) (by omega)
      rwa [Nat.zero_add, show first.length + (j - first.length) = j by omega] at byte
  · have nul := h.nul
    rw [Nat.zero_add] at nul ⊢
    rwa [length_append]

/-- `strlcat(m, src, size)` on the memory: without a terminator in the buffer nothing is stored. -/
def strlcatIn (size : Nat) (m : Mem) (src : Bytes) : Mem :=
  let n := (strAt m size 0).length
  if n = size then m else snprintf m n (size - n) src

/-- `strlcatIn` leaves `strlcat` of the strings. -/
theorem CStr.strlcatIn {s src : Bytes} (h : CStr m 0 s) (ends : s.length < size)
    (clean : ∀ c ∈ src, c ≠ 0) : CStr (C.strlcatIn size m src) 0 (strlcat s src size) := by
  have read := h.strAt_eq (Nat.le_of_lt ends)
  have printed := h.snprintf_cut clean (show 1 ≤ size - s.length by omega)
  rw [Nat.zero_add, Nat.sub_right_comm] at printed
  unfold C.strlcatIn
  rw [read]
  rwa [if_neg (Nat.ne_of_lt ends)]

theorem strlcatIn_outside {src : Bytes} {j : Nat} (behind : size ≤ j) : strlcatIn size m src j = m j := by
  have short := strAt_length_le m size 0
  unfold strlcatIn
  split
  · rfl
  · exact snprintf_outside (by omega)

/-- The buffer holds `text` as far as it fits, and nothing outside of it has changed. -/
structure Holds (before : Mem) (size : Nat) (p : Printing) (text : Bytes) : Prop where
  len : p.len = text.length
  str : CStr p.mem 0 (text.take (size - 1))
  outside : ∀ j, size ≤ j → p.mem j = before j

theorem Holds.inside (h : Holds before size p text) (ends : text.length ≤ size) : p.inside size = some p :=
  if_pos (Nat.le_trans (Nat.le_of_eq h.len) ends)

/-- A text that fits is read back whole. -/
theorem Holds.whole (h : Holds before size p text) (fits : text.length < size) : strAt p.mem size 0 = text := by
  have all : text.take (size - 1) = text := take_of_length_le (by omega)
  have str := h.str
  rw [all] at str
  exact str.strAt_eq (Nat.le_of_lt fits)

/-- The first piece. -/
theorem Holds.first (before : Mem) (clean : ∀ c ∈ text, c ≠ 0)
    (room : 1 ≤ size) : Holds before size (Printing.append ⟨before, 0⟩ size text) text := by
  have space : spaceLeft size 0 = size := rfl
  refine ⟨Nat.zero_add _, ?_, fun j behind => ?_⟩
  · -- an empty string stands at the start once its terminator is stored; the print covers it
    have start : CStr (store before 0 0) 0 [] := ⟨by simp, by simp, by simp⟩
    have printed := start.snprintf_cut clean room
    have same : snprintf (store before 0 0) 0 size text = snprintf before 0 size text := by
      funext j
      simp only [snprintf]
      split
      · omega
      · split
        · rfl
        · split
          · rfl
          · exact store_other (by omega)
    simp only [length_nil, Nat.add_zero, nil_append, same] at printed
    simpa only [Printing.append, space] using printed
  · simp only [Printing.append, space]
    exact snprintf_outside (by omega)

/-- **One piece more**, as long as it starts at most at the end of the buffer. -/
theorem Holds.append (h : Holds before size p text) {piece : Bytes} (clean : ∀ c ∈ piece, c ≠ 0)
    (starts : text.length ≤ size) : Holds before size (p.append size piece) (text ++ piece) := by
  have space : spaceLeft size text.length = size - text.length := if_pos starts
  refine ⟨by simp [Printing.append, h.len], ?_, fun j behind => ?_⟩
  · rcases Nat.lt_or_ge text.length size with below | full
    · have whole : text.take (size - 1) = text := take_of_length_le (by omega)
      have str := h.str
      rw [whole] at str
      have room : 1 ≤ size - text.length := by omega
      have printed := str.snprintf_cut clean room
      rw [Nat.zero_add] at printed
      have cut : (text ++ piece).take (size - 1) = text ++ piece.take (size - text.length - 1) := by
        rw [take_append, whole, Nat.sub_right_comm]
      simpa only [Printing.append, h.len, space, cut] using printed
    · -- the buffer is full: a print of size 0 stores nothing
      have none : size - text.length = 0 := by omega
      have same : (p.append size piece).mem = p.mem := by
        funext j
        simp only [Printing.append, h.len, space, none, snprintf, if_true]
      rw [same, take_append_of_le_length (by omega)]
      exact h.str
  · simp only [Printing.append, h.len, space]
    rw [snprintf_outside (by omega)]
    exact h.outside j behind

def Printing.appendAll (p : Printing) (size : Nat) (pieces : List Bytes) : Printing :=
  pieces.foldl (fun p piece => p.append size piece) p

theorem Printing.appendAll_cons (p : Printing) (size : Nat) (piece : Bytes) (pieces : List Bytes) :
    p.appendAll size (piece :: pieces) = (p.append size piece).appendAll size pieces := rfl

theorem Printing.appendAll_snoc (p : Printing) (size : Nat) (pieces : List Bytes) (piece : Bytes) :
    p.appendAll size (pieces ++ [piece]) = (p.appendAll size pieces).append size piece := by
  simp only [Printing.appendAll, foldl_append, foldl_cons, foldl_nil]

theorem Printing.appendAll_len (p : Printing) (size : Nat) (pieces : List Bytes) :
    (p.appendAll size pieces).len = p.len + pieces.flatten.length := by
  induction pieces generalizing p with
  | nil => rfl
  | cons piece pieces ih =>
    rw [Printing.appendAll_cons, ih (p.append size piece), flatten_cons, length_append, ← Nat.add_assoc]
    rfl

/-- Pieces that end at most at the end of the buffer also start there. -/
theorem Holds.appendAll {pieces : List Bytes} :
    ∀ {p : Printing} {text : Bytes}, Holds before size p text →
      (∀ piece ∈ pieces, ∀ c ∈ piece, c ≠ 0) → (text ++ pieces.flatten).length ≤ size →
      Holds before size (p.appendAll size pieces) (text ++ pieces.flatten) := by
  induction pieces with
  | nil =>
    intro p text h _ _
    simpa [Printing.appendAll] using h
  | cons piece pieces ih =>
    intro p text h clean ends
    rw [flatten_cons, ← append_assoc] at ends ⊢
    have starts : text.length ≤ size := by
      simp only [length_append] at ends
      omega
    have first := h.append (clean piece mem_cons_self) starts
    rw [Printing.appendAll_cons]
    exact ih first (fun q hq => clean q (mem_cons_of_mem piece hq)) ends

/-- A piece that starts behind the end is stored there. -/
theorem Printing.append_behind (behind : size < p.len)
    (short : text.length < 2147483648) : (p.append size text).mem (p.len + text.length) = 0 := by
  have huge : 2147483648 ≤ spaceLeft size p.len := by
    rw [spaceLeft, if_neg (by omega)]
    omega
  simp only [Printing.append, snprintf]
  rw [if_neg (by omega), if_neg (by omega), if_pos (by omega)]

end Hah.C
