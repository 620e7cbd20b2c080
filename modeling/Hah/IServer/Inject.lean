import Hah.IServer.Dispatch

/-!
# The frame number in a message: `injectFrameSequence` of `iServer/main.c`

With `-e` and `-f` the server writes `iseq=<frame>` before the first closing brace of a message, in
the buffer of the message. The tail is moved out of the way with `memmove`. Its length is written
`len-(buf-lParen)`, which is the length of the text *plus* the offset of the brace: the move takes the
tail and its terminator, and as many bytes again as the brace is away from the start. So a message
with a late brace is moved out of the buffer, and one that begins with the brace leaves its
terminator behind. `inject_iff` says when neither happens.
-/

namespace Hah.IServer
open C Xap List

/-- What `sprintf(seq, "iseq=%u\n", frame)` prints. -/
def sequenceText (frame : Nat) : Bytes := "iseq=" ++ decimal (frame % 4294967296) ++ "\n"

/-- `injectFrameSequence` on a buffer of `size` bytes; `none` for an access outside of it, or outside
of `seq`. -/
def injectFrameSequenceIn (size : Nat) (buf : Mem) (frame : Nat) : Option Mem :=
  let text := strAt buf size 0
  let len := text.length
  if len = size then none
  else if xapDataLen - 20 < len then some buf
  else if rbrace ∉ text then some buf
  else
    let lParen := (text.takeWhile (· ≠ rbrace)).length
    let seq := sequenceText frame
    let slen := seq.length
    if 20 ≤ slen then none
    -- `buf - lParen` is negative
    else (memmoveIn size buf (lParen + slen) lParen (len + lParen)).bind fun buf => memcpyIn size buf lParen seq

def bracePlace (text : Bytes) : Nat := (text.takeWhile (· ≠ rbrace)).length

/-- The call stays inside the buffer and leaves the text with the frame number in it. -/
def Injects (buf : Mem) (text : Bytes) (frame : Nat) : Prop :=
  ∃ buf', injectFrameSequenceIn xapDataLen buf frame = some buf' ∧ CStr buf' 0 (injectFrameSequence text frame)

/-- Nothing is inserted, or the bytes that are moved stay in the buffer and among them, or behind
them, is the terminator. -/
def MoveFits (buf : Mem) (text : Bytes) (frame : Nat) : Prop :=
  rbrace ∉ text ∨ xapDataLen - 20 < text.length ∨
    2 * bracePlace text + text.length + (sequenceText frame).length ≤ xapDataLen ∧
      (bracePlace text = 0 → buf (text.length + (sequenceText frame).length) = 0)

theorem sequenceText_clean (frame : Nat) : ∀ c ∈ sequenceText frame, c ≠ 0 := by
  have first : ∀ c ∈ ascii "iseq=", c ≠ 0 := bytes_of_all (by decide)
  have last : ∀ c ∈ ascii "\n", c ≠ 0 := bytes_of_all (by decide)
  intro c mem
  rcases mem_append.1 mem with mem | mem
  · rcases mem_append.1 mem with mem | mem
    · exact first c mem
    · rintro rfl
      exact absurd (isdigit_decimal 0 mem) (by decide)
  · exact last c mem

/-- The text fits into `seq`. -/
theorem sequenceText_length (frame : Nat) : (sequenceText frame).length < 20 := by
  have digits : (decimal (frame % 4294967296)).length ≤ 10 :=
    decimal_length (by decide) (Nat.lt_trans (Nat.mod_lt _ (by decide)) (by decide))
  have whole : (sequenceText frame).length = 5 + (decimal (frame % 4294967296)).length + 1 := by
    simp only [sequenceText, length_append]
    rfl
  omega

/-- A text that nothing is inserted into. -/
theorem inject_keeps {size : Nat} {buf : Mem} {text : Bytes} (h : CStr buf 0 text) (room : text.length < size)
    (frame : Nat) (kept : rbrace ∉ text ∨ xapDataLen - 20 < text.length) :
    injectFrameSequenceIn size buf frame = some buf ∧ injectFrameSequence text frame = text := by
  have read := h.strAt_eq (Nat.le_of_lt room)
  constructor
  · unfold injectFrameSequenceIn
    rw [read]
    rw [if_neg (Nat.ne_of_lt room)]
    by_cases long : xapDataLen - 20 < text.length
    · rw [if_pos long]
    · rw [if_neg long, if_pos (kept.resolve_right long)]
  · unfold injectFrameSequence
    by_cases long : xapDataLen - 20 < text.length
    · rw [if_pos long]
    · rw [if_neg long, if_pos (kept.resolve_right long)]

/-- The text that is wanted, in its parts. -/
theorem injectFrameSequence_parts {text : Bytes} (frame : Nat) (brace : rbrace ∈ text)
    (short : text.length ≤ xapDataLen - 20) :
    injectFrameSequence text frame =
      text.takeWhile (· ≠ rbrace) ++ sequenceText frame ++ text.dropWhile (· ≠ rbrace) := by
  rw [injectFrameSequence, if_neg (Nat.not_lt.2 short), if_neg (not_not_intro brace)]
  rfl

section Inserting

variable {size : Nat} {buf : Mem} {text : Bytes} (h : CStr buf 0 text) (room : text.length < size) (frame : Nat)
  (brace : rbrace ∈ text) (short : text.length ≤ xapDataLen - 20)

include h room brace short

/-- What is left of the call on a text that the number is inserted into. -/
theorem inject_moves :
    injectFrameSequenceIn size buf frame =
      (memmoveIn size buf (bracePlace text + (sequenceText frame).length) (bracePlace text)
        (text.length + bracePlace text)).bind fun buf => memcpyIn size buf (bracePlace text) (sequenceText frame) := by
  have read := h.strAt_eq (Nat.le_of_lt room)
  unfold injectFrameSequenceIn
  rw [read]
  rw [if_neg (Nat.ne_of_lt room), if_neg (Nat.not_lt.2 short), if_neg (not_not_intro brace),
    if_neg (Nat.not_le.2 (sequenceText_length frame))]
  rfl

/-- A move that leaves the buffer. -/
theorem inject_leaves (outside : size < 2 * bracePlace text + text.length + (sequenceText frame).length) :
    injectFrameSequenceIn size buf frame = none := by
  rw [inject_moves h room frame brace short, memmoveIn, if_neg (by omega)]
  rfl

section

variable (inside : 2 * bracePlace text + text.length + (sequenceText frame).length ≤ size)
include inside

/-- The bytes after a move that stays inside. -/
theorem inject_bytes :
    ∃ buf', injectFrameSequenceIn size buf frame = some buf' ∧
      (∀ j < bracePlace text, buf' j = buf j) ∧
      (∀ j (hj : j < (sequenceText frame).length), buf' (bracePlace text + j) = (sequenceText frame)[j]) ∧
      (∀ j < text.length + bracePlace text,
        buf' (bracePlace text + (sequenceText frame).length + j) = buf (bracePlace text + j)) ∧
      ∀ j, 2 * bracePlace text + text.length + (sequenceText frame).length ≤ j → buf' j = buf j := by
  rw [inject_moves h room frame brace short, memmoveIn, if_pos (by omega), Option.bind_some, memcpyIn, if_pos (by omega)]
  refine ⟨_, rfl, fun j before => ?_, fun j hj => ?_, fun j hj => ?_, fun j behind => ?_⟩
  · rw [if_neg (by omega), if_neg (by omega)]
  · rw [if_pos (by omega), Nat.add_sub_cancel_left]
    exact (getElem_eq_getD 0).symm
  · rw [if_neg (by omega), if_pos (by omega), Nat.add_sub_cancel_left]
  · rw [if_neg (by omega), if_neg (by omega)]

/-- A move that stays inside leaves the text that is wanted, if there is a terminator for it. -/
theorem inject_inside :
    ∃ buf', injectFrameSequenceIn size buf frame = some buf' ∧
      (CStr buf' 0 (injectFrameSequence text frame) ↔
        (bracePlace text = 0 → buf (text.length + (sequenceText frame).length) = 0)) := by
  obtain ⟨buf', run, front, between, back, behind⟩ := inject_bytes h room frame brace short inside
  have parts : text.takeWhile (· ≠ rbrace) ++ text.dropWhile (· ≠ rbrace) = text := takeWhile_append_dropWhile
  have lengths : bracePlace text + (text.dropWhile (· ≠ rbrace)).length = text.length := by
    rw [bracePlace, ← length_append, parts]
  have stop : buf text.length = 0 := by simpa using h.nul
  refine ⟨buf', run, ?_⟩
  constructor
  · intro held first
    -- nothing was moved to where the terminator has to be
    have nul := held.nul
    rw [injectFrameSequence_parts frame brace short, length_append, length_append, Nat.zero_add,
      show (text.takeWhile (· ≠ rbrace)).length = bracePlace text from rfl, first] at nul
    rw [← behind _ (by omega), ← nul]
    congr 1
    omega
  · intro ends
    rw [injectFrameSequence_parts frame brace short]
    apply CStr.insert (parts ▸ h) (sequenceText_clean frame)
    · intro j before
      rw [Nat.zero_add]
      exact front j before
    · intro j hj
      rw [Nat.zero_add]
      exact between j hj
    · intro j hj
      rw [Nat.zero_add]
      exact back j (by omega)
    · rw [Nat.zero_add]
      change buf' (bracePlace text + _ + _) = 0
      by_cases first : bracePlace text = 0
      · rw [behind _ (by omega), ← ends first]
        congr 1
        omega
      · rw [back _ (by omega), lengths]
        exact stop

end

end Inserting

theorem injects_inside {buf : Mem} {text : Bytes} (h : CStr buf 0 text) (room : text.length < xapDataLen)
    (frame : Nat) (brace : rbrace ∈ text) (short : text.length ≤ xapDataLen - 20)
    (inside : 2 * bracePlace text + text.length + (sequenceText frame).length ≤ xapDataLen) :
    Injects buf text frame ↔ (bracePlace text = 0 → buf (text.length + (sequenceText frame).length) = 0) := by
  obtain ⟨buf', run, held⟩ := inject_inside h room frame brace short inside
  rw [← held]
  constructor
  · rintro ⟨other, same, wanted⟩
    exact Option.some.inj (run.symm.trans same) ▸ wanted
  · exact fun wanted => ⟨buf', run, wanted⟩

/-- **The frame number is inserted exactly when the move fits.** For every text in a buffer of 1500
bytes and every number: the call accesses nothing outside the buffer and leaves the text with the
number before its first brace, or as it was, if and only if nothing is to be inserted, or twice the
offset of the brace and the lengths of the text and of the number fit into the buffer and, if the
text begins with the brace, a NUL happens to stand where the text will end. -/
theorem inject_iff {buf : Mem} {text : Bytes} (h : CStr buf 0 text) (room : text.length < xapDataLen)
    (frame : Nat) : Injects buf text frame ↔ MoveFits buf text frame := by
  by_cases kept : rbrace ∉ text ∨ xapDataLen - 20 < text.length
  · obtain ⟨run, same⟩ := inject_keeps h room frame kept
    refine iff_of_true ⟨buf, run, same.symm ▸ h⟩ ?_
    exact kept.elim .inl fun long => .inr (.inl long)
  obtain ⟨brace, short⟩ := not_or.1 kept
  have here := Classical.not_not.1 brace
  have le := Nat.not_lt.1 short
  unfold MoveFits
  rw [or_iff_right brace, or_iff_right short]
  by_cases inside : 2 * bracePlace text + text.length + (sequenceText frame).length ≤ xapDataLen
  · rw [injects_inside h room frame here le inside, and_iff_right inside]
  · refine iff_of_false ?_ fun fits => inside fits.1
    rintro ⟨buf', run, -⟩
    rw [inject_leaves h room frame here le (Nat.lt_of_not_le inside)] at run
    cases run

theorem inject_iff_short : Injects (fun j => (ascii "a\x7d").getD j 0) "a\x7d" 7 :=
  (inject_iff (cstr_getD (bytes_of_all (by decide))) (by decide) 7).2 (.inr (.inr (by decide)))

/-- A message of 701 bytes that ends with its brace: 1401 bytes are moved, up to 2108. -/
theorem inject_late_brace :
    ∃ buf text, CStr buf 0 text ∧ text.length = 701 ∧ injectFrameSequenceIn xapDataLen buf 1 = none ∧
      ¬ Injects buf text 1 := by
  have clean : ∀ c ∈ List.replicate 700 97 ++ [rbrace], c ≠ 0 := by
    intro c mem
    rcases mem_append.1 mem with mem | mem
    · rw [eq_of_mem_replicate mem]
      decide
    · rw [mem_singleton.1 mem]
      decide
  have length : (List.replicate 700 97 ++ [rbrace]).length = 701 := by
    rw [length_append, length_replicate, length_singleton]
  have place : bracePlace (List.replicate 700 97 ++ [rbrace]) = 700 := by
    rw [bracePlace, takeWhile_append_of_pos (fun c mem => by rw [eq_of_mem_replicate mem]; decide)]
    rw [takeWhile_cons_of_neg (by decide), append_nil, length_replicate]
  have room : (List.replicate 700 97 ++ [rbrace]).length < xapDataLen := by
    rw [length]
    decide
  have leaves := inject_leaves (cstr_getD clean) room 1 (mem_append_right _ (mem_singleton_self _))
    (by rw [length]; decide) (by rw [length, place]; decide)
  refine ⟨_, _, cstr_getD clean, length, leaves, ?_⟩
  rintro ⟨buf', run, -⟩
  rw [leaves] at run
  cases run

end Hah.IServer
