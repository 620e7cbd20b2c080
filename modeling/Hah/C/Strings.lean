import Mathlib.Data.List.Basic

/-!
# C strings in byte memory

The part of the C library the daemons lean on, over a memory that gives every
offset a byte: storing a byte, reading the NUL-terminated string at a pointer
(`strAt`), `snprintf` at an offset of a buffer, and comparison without case in
the "C" locale. `CStr` says that a pointer holds a given string; a store or a
print that misses a string keeps it.
-/

namespace Hah

/-- A text, a packet or a stream of bytes. -/
abbrev Bytes := List UInt8

end Hah

namespace Hah.C
open List

/-- The bytes of an ASCII literal. -/
def ascii (s : String) : Bytes := s.toList.map fun c => c.toNat.toUInt8

/-- A literal stands for its bytes. -/
instance : Coe String Bytes := ⟨ascii⟩

variable {p size : Nat} {s : Bytes} {c : UInt8}

/-- What holds of every byte of a text, by a check of its bytes. -/
theorem bytes_of_all {p : UInt8 → Prop} [DecidablePred p]
    (checked : s.all (fun c => decide (p c)) = true) : ∀ c ∈ s, p c := by
  simpa using checked

/-- What holds of every byte, by a check of the 256 numbers. -/
@[elab_as_elim]
theorem byte_cases {P : UInt8 → Prop} (checked : ∀ n < 256, P n.toUInt8) (c : UInt8) : P c := by
  have small := checked c.toNat c.toNat_lt
  rwa [show c.toNat.toUInt8 = c from UInt8.ofNat_toNat] at small

/-- `tolower` in the "C" locale: only `A`..`Z` move. -/
def tolower (c : UInt8) : UInt8 := if 65 ≤ c ∧ c ≤ 90 then c + 32 else c

/-- `strcasecmp(a, b) == 0`, on the bytes before the terminators. -/
def strcasecmpEq (a b : Bytes) : Bool := a.map tolower == b.map tolower

theorem strcasecmpEq_iff {a b : Bytes} : strcasecmpEq a b = true ↔ a.map tolower = b.map tolower := by
  simp [strcasecmpEq]

/-- Only a letter can become another byte, and only a letter: below `A` nothing moves. -/
theorem tolower_eq_iff {d : UInt8} (plain : d < 65) : tolower c = d ↔ c = d := by
  unfold tolower
  split
  next upper =>
    have low := UInt8.le_iff_toNat_le.1 upper.1
    have high := UInt8.le_iff_toNat_le.1 upper.2
    have below := UInt8.lt_iff_toNat_lt.1 plain
    have moved : (c + 32).toNat = (c.toNat + 32) % 256 := UInt8.toNat_add c 32
    simp only [UInt8.reduceToNat] at low high below
    rw [← UInt8.toNat_inj, ← UInt8.toNat_inj, moved]
    omega
  next => rfl

theorem tolower_tolower (c : UInt8) : tolower (tolower c) = tolower c :=
  byte_cases (by decide +kernel) c

/-- `c == '\r' || c == '\n'`, where a line of serial input ends. -/
def crOrLf (c : UInt8) : Bool := c == 13 || c == 10

/-- `strlcat(dst, src, size)` on the strings before the terminators. -/
def strlcat (dst src : Bytes) (size : Nat) : Bytes := dst ++ src.take (size - 1 - dst.length)

/-- Byte memory by offset. -/
abbrev Mem := Nat → UInt8

/-- `m[p] = c`. -/
def store (m : Mem) (p : Nat) (c : UInt8) : Mem := fun j => if j = p then c else m j

@[simp] theorem store_same (m : Mem) (p : Nat) (c : UInt8) : store m p c p = c := by
  simp [store]

variable {m : Mem}

theorem store_other {j : Nat} (away : j ≠ p) : store m p c j = m j := by
  simp [store, away]

/-- `m[p] = c` in an array of `size` bytes; a store outside of it is `none`. -/
def storeIn (size : Nat) (m : Mem) (p : Nat) (c : UInt8) : Option Mem :=
  if p < size then some (store m p c) else none

theorem storeIn_inside (inside : p < size) (m : Mem) (c : UInt8) : storeIn size m p c = some (store m p c) :=
  if_pos inside

theorem storeIn_outside (outside : size ≤ p) (m : Mem) (c : UInt8) : storeIn size m p c = none :=
  if_neg (Nat.not_lt.2 outside)

/-- `memmove` in an array of `size` bytes: the ranges may overlap; one that leaves the array is `none`. -/
def memmoveIn (size : Nat) (m : Mem) (dst src n : Nat) : Option Mem :=
  if src + n ≤ size ∧ dst + n ≤ size then some fun j => if dst ≤ j ∧ j < dst + n then m (src + (j - dst)) else m j
  else none

/-- `memcpy` of bytes that lie elsewhere into an array of `size` bytes. -/
def memcpyIn (size : Nat) (m : Mem) (dst : Nat) (bytes : Bytes) : Option Mem :=
  if dst + bytes.length ≤ size then some fun j => if dst ≤ j ∧ j < dst + bytes.length then bytes.getD (j - dst) 0 else m j
  else none

/-- The `n` bytes from `p` on. -/
def bytesAt (m : Mem) (p n : Nat) : Bytes := (List.range n).map fun j => m (p + j)

/-- Bytes that a store misses. -/
theorem bytesAt_store_behind {n q : Nat} (behind : p + n ≤ q) (c : UInt8) :
    bytesAt (store m q c) p n = bytesAt m p n := by
  apply map_congr_left
  intro j mem
  have inside := mem_range.1 mem
  exact store_other (by omega)

/-- A store right behind some bytes adds one. -/
theorem bytesAt_store_end (m : Mem) (p n : Nat) (c : UInt8) :
    bytesAt (store m (p + n) c) p (n + 1) = bytesAt m p n ++ [c] := by
  rw [bytesAt, range_succ, map_append, map_singleton, store_same]
  exact congrArg (· ++ [c]) (bytesAt_store_behind (Nat.le_refl _) c)

@[simp] theorem bytesAt_length (m : Mem) (p n : Nat) : (bytesAt m p n).length = n := by
  simp [bytesAt]

theorem bytesAt_getElem (m : Mem) (p n : Nat) {j : Nat} (inside : j < (bytesAt m p n).length) :
    (bytesAt m p n)[j] = m (p + j) := by
  simp [bytesAt]

/-- The string at `p`: the bytes up to the first NUL, reading at most `n` bytes. -/
def strAt (m : Mem) : Nat → Nat → Bytes
  | 0, _ => []
  | n + 1, p => if m p = 0 then [] else m p :: strAt m n (p + 1)

theorem strAt_length_le (m : Mem) (n p : Nat) : (strAt m n p).length ≤ n := by
  induction n generalizing p with
  | zero => exact Nat.le_refl 0
  | succ n ih =>
    rw [strAt]
    split
    · exact Nat.zero_le _
    · exact Nat.succ_le_succ (ih (p + 1))

theorem strAt_clean (m : Mem) (n p : Nat) : ∀ c ∈ strAt m n p, c ≠ 0 := by
  induction n generalizing p with
  | zero => exact fun c mem => absurd mem not_mem_nil
  | succ n ih =>
    rw [strAt]
    split
    next => exact fun c mem => absurd mem not_mem_nil
    next byte => exact forall_mem_cons.2 ⟨byte, ih (p + 1)⟩

variable {m' : Mem}

/-- Strings of two memories that agree up to case agree up to case: the terminators are in
the same places. -/
theorem strAt_lower (same : ∀ j, tolower (m' j) = tolower (m j)) (n p : Nat) :
    (strAt m' n p).map tolower = (strAt m n p).map tolower := by
  induction n generalizing p with
  | zero => rfl
  | succ n ih =>
    have ends : m' p = 0 ↔ m p = 0 := by
      rw [← tolower_eq_iff (c := m' p) (by decide), same p, tolower_eq_iff (by decide)]
    by_cases nul : m p = 0
    · simp only [strAt, if_pos nul, if_pos (ends.2 nul)]
    · simp only [strAt, if_neg nul, if_neg (mt ends.1 nul), map_cons, same p, ih (p + 1)]

/-- `p` points at the string `s` and its terminator. -/
structure CStr (m : Mem) (p : Nat) (s : Bytes) : Prop where
  bytes : ∀ j (hj : j < s.length), m (p + j) = s[j]
  nul : m (p + s.length) = 0
  clean : ∀ c ∈ s, c ≠ 0

/-- A memory with the text at its start. -/
theorem cstr_getD (clean : ∀ c ∈ s, c ≠ 0) : CStr (fun j => s.getD j 0) 0 s :=
  ⟨fun j inside => by simp [inside], by simp, clean⟩

theorem CStr.tail (h : CStr m p (c :: s)) : CStr m (p + 1) s := by
  refine ⟨fun j hj => ?_, ?_, fun d hd => h.clean d (mem_cons_of_mem c hd)⟩
  · have := h.bytes (j + 1) (by simpa using hj)
    simpa [Nat.add_assoc, Nat.add_comm 1 j] using this
  · have := h.nul
    simpa [Nat.add_assoc, Nat.add_comm 1 s.length] using this

theorem CStr.drop (h : CStr m p s) {k : Nat} (inside : k ≤ s.length) : CStr m (p + k) (s.drop k) := by
  induction k generalizing p s with
  | zero => exact h
  | succ k ih =>
    match s, inside with
    | c :: s, inside =>
      have rest := ih h.tail (Nat.le_of_succ_le_succ inside)
      rwa [show p + 1 + k = p + (k + 1) by omega] at rest

/-- Reading a pointer that holds `s` gives `s`, whatever room is left after it. -/
theorem CStr.strAt_eq {n : Nat} (room : s.length ≤ n) : ∀ {p : Nat}, CStr m p s → strAt m n p = s := by
  induction s generalizing n with
  | nil =>
    intro p h
    cases n with
    | zero => rfl
    | succ n =>
      have nul : m p = 0 := by simpa using h.nul
      simp [strAt, nul]
  | cons c s ih =>
    intro p h
    obtain ⟨n, rfl⟩ : ∃ k, n = k + 1 := ⟨n - 1, by simp only [length_cons] at room; omega⟩
    have here : m p = c := h.bytes 0 (by simp)
    have nonzero := h.clean c (by simp)
    have rest := ih (by simpa using room) h.tail
    simp [strAt, here, nonzero, rest]

/-- A store of NUL into a string cuts it in two. -/
theorem CStr.cut {w rest : Bytes} (h : CStr m p (w ++ c :: rest)) :
    CStr (store m (p + w.length) 0) p w ∧ CStr (store m (p + w.length) 0) (p + w.length + 1) rest := by
  constructor
  · refine ⟨fun j hj => ?_, store_same _ _ _, fun d mem => h.clean d (mem_append_left _ mem)⟩
    rw [store_other (by omega), h.bytes j (by rw [length_append]; omega), getElem_append_left hj]
  · refine ⟨fun j hj => ?_, ?_, fun d mem => h.clean d (mem_append_right _ (mem_cons_of_mem _ mem))⟩
    · have at_j := h.bytes (w.length + 1 + j) (by simp only [length_append, length_cons]; omega)
      rw [store_other (by omega), show p + w.length + 1 + j = p + (w.length + 1 + j) by omega, at_j,
        getElem_append_right (by omega)]
      simp only [show w.length + 1 + j - w.length = j + 1 by omega, getElem_cons_succ]
    · have stop := h.nul
      simp only [length_append, length_cons] at stop
      rw [store_other (by omega), show p + w.length + 1 + rest.length = p + (w.length + (rest.length + 1)) by omega]
      exact stop

theorem CStr.head_ne (h : CStr m p s) (nonempty : s ≠ []) : m p ≠ 0 := by
  obtain ⟨c, s, rfl⟩ := exists_cons_of_ne_nil nonempty
  have here : m p = c := h.bytes 0 (by simp)
  rw [here]
  exact h.clean c (by simp)

/-- A string survives when its bytes are kept and its terminator stays NUL. -/
theorem CStr.keep (h : CStr m p s) (same : ∀ j, p ≤ j → j < p + s.length → m' j = m j) (nul : m' (p + s.length) = 0) :
    CStr m' p s := by
  refine ⟨fun j hj => ?_, nul, h.clean⟩
  rw [same (p + j) (by omega) (by omega)]
  exact h.bytes j hj

/-- Bytes put between two parts of a string, the second of which has moved behind them. -/
theorem CStr.insert {first second bytes : Bytes} (h : CStr m p (first ++ second))
    (clean : ∀ c ∈ bytes, c ≠ 0) (front : ∀ j < first.length, m' (p + j) = m (p + j))
    (between : ∀ j (hj : j < bytes.length), m' (p + first.length + j) = bytes[j])
    (back : ∀ j < second.length, m' (p + first.length + bytes.length + j) = m (p + first.length + j))
    (nul : m' (p + first.length + bytes.length + second.length) = 0) : CStr m' p (first ++ bytes ++ second) := by
  refine ⟨fun j hj => ?_, ?_, fun c mem => ?_⟩
  · by_cases inFirst : j < first.length
    · rw [front j inFirst, h.bytes j (by rw [length_append]; omega), getElem_append_left inFirst,
        getElem_append_left (by rw [length_append]; omega), getElem_append_left inFirst]
    by_cases inBytes : j - first.length < bytes.length
    · have at_j := between (j - first.length) inBytes
      rw [show p + first.length + (j - first.length) = p + j by omega] at at_j
      rw [at_j, getElem_append_left (by rw [length_append]; omega), getElem_append_right (by omega)]
    · rw [length_append, length_append] at hj
      have inSecond : j - (first.length + bytes.length) < second.length := by omega
      have at_j := back _ inSecond
      have old := h.bytes (first.length + (j - (first.length + bytes.length))) (by rw [length_append]; omega)
      rw [show p + first.length + bytes.length + (j - (first.length + bytes.length)) = p + j by omega,
        show p + first.length + (j - (first.length + bytes.length)) =
          p + (first.length + (j - (first.length + bytes.length))) by omega, old,
        getElem_append_right (Nat.le_add_right _ _)] at at_j
      rw [at_j, getElem_append_right (by rw [length_append]; omega)]
      simp only [Nat.add_sub_cancel_left, length_append]
  · rw [length_append, length_append, show p + (first.length + bytes.length + second.length) =
      p + first.length + bytes.length + second.length by omega]
    exact nul
  · rcases mem_append.1 mem with mem | mem
    · rcases mem_append.1 mem with mem | mem
      · exact h.clean c (mem_append_left _ mem)
      · exact clean c mem
    · exact h.clean c (mem_append_right _ mem)

/-- The string at a pointer is its bytes up to the first NUL among them. -/
theorem CStr.takeWhile {raw : Bytes} (bytes : ∀ j (hj : j < raw.length), m (p + j) = raw[j])
    (nul : m (p + raw.length) = 0) : CStr m p (raw.takeWhile (· ≠ 0)) := by
  induction raw generalizing p with
  | nil => exact ⟨by simp, by simpa using nul, by simp⟩
  | cons c raw ih =>
    have here := bytes 0 (by simp)
    by_cases zero : c = 0
    · subst zero
      exact ⟨by simp, by simpa using here, by simp⟩
    · have later : ∀ j (hj : j < raw.length), m (p + 1 + j) = raw[j] := fun j hj => by
        rw [Nat.add_assoc, Nat.add_comm 1 j]
        exact bytes (j + 1) (by simpa using hj)
      have shifted := ih later (by simpa [Nat.add_assoc, Nat.add_comm 1 raw.length] using nul)
      rw [takeWhile_cons_of_pos (by simpa using zero)]
      refine ⟨fun j hj => ?_, ?_, ?_⟩
      · cases j with
        | zero => simpa using here
        | succ j =>
          have := shifted.bytes j (by simpa using hj)
          simpa [Nat.add_assoc, Nat.add_comm 1 j] using this
      · have := shifted.nul
        simpa [Nat.add_assoc, Nat.add_comm 1] using this
      · intro d hd
        rcases mem_cons.1 hd with rfl | hd
        · exact zero
        · exact shifted.clean d hd

/-- The same for bytes read as a list. -/
theorem cstr_of_bytesAt {raw : Bytes} (bytes : bytesAt m p raw.length = raw)
    (nul : m (p + raw.length) = 0) : CStr m p (raw.takeWhile (· ≠ 0)) := by
  refine CStr.takeWhile (fun j hj => ?_) nul
  have at_j := bytesAt_getElem m p raw.length (j := j) (by simpa using hj)
  simp only [bytes] at at_j
  exact at_j.symm

/-- `snprintf(&m[p], size, ...)` of an already formatted text: at most `size - 1`
bytes and a terminator are stored. The call returns `text.length`. -/
def snprintf (m : Mem) (p size : Nat) (text : Bytes) : Mem := fun j =>
  if size = 0 then m j
  else if p ≤ j ∧ j < p + min text.length (size - 1) then text.getD (j - p) 0
  else if j = p + min text.length (size - 1) then 0
  else m j

/-- Printing behind a string extends it, when the text fits the given size. -/
theorem CStr.snprintf {text : Bytes} (h : CStr m p s) (clean : ∀ c ∈ text, c ≠ 0) (fits : text.length < size) :
    CStr (C.snprintf m (p + s.length) size text) p (s ++ text) := by
  have whole : min text.length (size - 1) = text.length := by omega
  have positive : size ≠ 0 := by omega
  refine ⟨fun j hj => ?_, ?_, fun c hc => ?_⟩
  · simp only [C.snprintf, positive, whole, if_false]
    by_cases old : j < s.length
    · rw [if_neg (by omega), if_neg (by omega), getElem_append_left old]
      exact h.bytes j old
    · have inside : j - s.length < text.length := by simp at hj; omega
      rw [if_pos (by omega), getElem_append_right (by omega),
        show p + j - (p + s.length) = j - s.length by omega]
      exact (getElem_eq_getD 0).symm
  · simp only [C.snprintf, positive, whole, if_false, length_append]
    rw [if_neg (by omega), if_pos (by omega)]
  · rcases mem_append.1 hc with hc | hc
    · exact h.clean c hc
    · exact clean c hc

/-- The bytes of a buffer that holds the string `s` are `s`. -/
theorem CStr.bytesAt_eq (h : CStr m p s) : bytesAt m p s.length = s := by
  apply ext_getElem
  · simp [bytesAt]
  · intro j hj hj'
    simpa [bytesAt] using h.bytes j hj'

end Hah.C
