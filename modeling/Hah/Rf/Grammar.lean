import Hah.Rf.Hex

/-!
# The grammar of RF patterns: what `initURFContext` accepts

A `Pattern` has the fields of a sequence in the numbers that the format asks for: the table has an
entry for every value of a frame, the stream as many bytes as the frames need. Its text is the
hexadecimal spelling of its bytes.

`initURFContext` checks the bits per frame and the end of the string. A character that is no
hexadecimal digit is reported and read as `0xff`, so the digits are not checked: what is accepted
is a pattern spelled in any characters (`accepts_iff`), and only those spelled in digits throughout are
well formed (`accepts_only_hex_iff`).
-/

namespace Hah.Rf
open C List Option

/-- The fields of a sequence, in bytes. -/
structure Pattern where
  version : UInt8
  bitsPerFrame : UInt8
  table : Bytes
  burstsToSend : UInt8
  interburstRepeat : UInt8
  delayHigh : UInt8
  delayLow : UInt8
  frames : UInt8
  stream : Bytes
  bits_valid : bitsPerFrame = 1 ∨ bitsPerFrame = 2 ∨ bitsPerFrame = 4
  /-- 2^bits pairs of two words of two bytes -/
  table_length : table.length = Nat.pow 2 bitsPerFrame.toNat * 4
  stream_length : stream.length = (frames.toNat * bitsPerFrame.toNat + 7) / 8

def Pattern.bytes (p : Pattern) : Bytes :=
  p.version :: p.bitsPerFrame ::
    (p.table ++ p.burstsToSend :: p.interburstRepeat :: p.delayHigh :: p.delayLow :: p.frames :: p.stream)

/-- A string that begins with a pattern in hexadecimal digits. -/
def WellFormed (s : Bytes) : Prop := ∃ text, text <+: s ∧ ∃ p : Pattern, hexBytes text = some p.bytes

/-- `text` is the part of `s` that is read as a pattern, whatever its characters are. -/
def ReadAs (s text : Bytes) : Prop := text <+: s ∧ ∃ p : Pattern, pairBytes text = some p.bytes

/-! ## The numbers of the format -/

variable {p q : Nat} {bytes : Bytes}

theorem encodings_eq {bits : UInt8} (valid : bits = 1 ∨ bits = 2 ∨ bits = 4) :
    encodings bits = Nat.pow 2 bits.toNat := by
  rcases valid with rfl | rfl | rfl <;> rfl

theorem streamBytes_eq {bits : UInt8} (valid : bits = 1 ∨ bits = 2 ∨ bits = 4) (frames : Nat) :
    streamBytes (8 / bits.toNat) frames = (frames * bits.toNat + 7) / 8 := by
  rcases valid with rfl | rfl | rfl
  · change frames / 8 + (if 0 < frames % 8 then 1 else 0) = (frames * 1 + 7) / 8
    split <;> omega
  · change frames / 4 + (if 0 < frames % 4 then 1 else 0) = (frames * 2 + 7) / 8
    split <;> omega
  · change frames / 2 + (if 0 < frames % 2 then 1 else 0) = (frames * 4 + 7) / 8
    split <;> omega

/-! ## From a pattern to a sequence -/

def Pattern.header (p : Pattern) : Header :=
  ⟨p.bitsPerFrame, pulsesOf p.table, p.burstsToSend.toNat, p.interburstRepeat.toNat, wordOf p.delayHigh p.delayLow,
    p.frames.toNat⟩

theorem Pattern.sequence {m : Mem} {start : Nat} {p : Pattern} (spelled : Spelled m start p.bytes) :
    Sequence m start p.header p.stream := by
  obtain ⟨version, rest⟩ := spelled
  have entries : p.table.length = 4 * encodings p.bitsPerFrame := by
    rw [encodings_eq p.bits_valid, p.table_length, Nat.mul_comm]
  obtain ⟨q, header, stream⟩ := Spelled.header (validBits_iff.2 p.bits_valid) entries rest
  have length := p.stream_length.trans (streamBytes_eq p.bits_valid p.frames.toNat).symm
  exact ⟨p.version, start + 2, q, version, header, length ▸ stream.bytes⟩

theorem Pattern.bytes_length (p : Pattern) :
    p.bytes.length = 7 + Nat.pow 2 p.header.bitsPerFrame.toNat * 4 +
      (p.header.frames * p.header.bitsPerFrame.toNat + 7) / 8 := by
  have table := p.table_length
  have stream := p.stream_length
  simp only [Pattern.bytes, Pattern.header, length_cons, length_append]
  omega

/-! ## From a sequence to a pattern -/

theorem spelled_of_bytes {m : Mem} {n : Nat} (read : readBytes m n p = some bytes) : Spelled m p bytes := by
  induction n generalizing p bytes with
  | zero =>
    cases read
    trivial
  | succ n ih =>
    obtain ⟨⟨b, q⟩, first, rest⟩ := bind_eq_some_iff.1 read
    obtain ⟨more, readMore, result⟩ := bind_eq_some_iff.1 rest
    obtain ⟨here, rfl⟩ := spelled_of_byte first
    cases result
    exact here.append (ih readMore)

theorem Sequence.pattern {m : Mem} {start : Nat} {h : Header} (seq : Sequence m start h bytes) :
    ∃ p : Pattern, Spelled m start p.bytes := by
  obtain ⟨version, p, q, readV, readH, readB⟩ := seq.reads
  obtain ⟨first, rfl⟩ := spelled_of_byte readV
  obtain ⟨bits, bursts, gapRepeat, msb, lsb, frames, table, valid, entries, second, rfl, rfl⟩ :=
    spelled_of_header readH
  have third := spelled_of_bytes readB
  have bitsValid := validBits_iff.1 valid
  refine ⟨⟨version, bits, table, bursts, gapRepeat, msb, lsb, frames, bytes, bitsValid, ?_, ?_⟩, ?_⟩
  · rw [entries, encodings_eq bitsValid, Nat.mul_comm]
  · rw [readBytes_length readB, Header.framesPerByte, streamBytes_eq bitsValid]
  · have whole := first.append (second.append third)
    simpa only [Pattern.bytes, singleton_append, cons_append, append_assoc, nil_append] using whole

/-! ## The text of a pattern -/

/-- Bytes that are found in a string are those of its first characters. -/
theorem pairs_of_spelled {m : Mem} {s : Bytes} (h : CStr m p s) (spelled : Spelled m p bytes) :
    ∃ text, text <+: s ∧ pairBytes text = some bytes := by
  induction bytes generalizing p s with
  | nil => exact ⟨[], nil_prefix, rfl⟩
  | cons b bytes ih =>
    obtain ⟨here, rest⟩ := spelled
    have stop : ∀ {p s}, CStr m p s → m p ≠ 0 → ∃ c t, s = c :: t ∧ m p = c ∧ CStr m (p + 1) t := by
      intro p s h nonzero
      cases s with
      | nil => exact absurd h.nul nonzero
      | cons c t => exact ⟨c, t, rfl, h.bytes 0 (by simp), h.tail⟩
    unfold readByte at here
    split_ifs at here with zero zero'
    obtain ⟨c, t, rfl, at_c, h⟩ := stop h zero
    obtain ⟨d, t, rfl, at_d, h⟩ := stop h zero'
    obtain ⟨text, inside, pairs⟩ := ih h rest
    refine ⟨c :: d :: text, prefix_cons_inj c |>.2 (prefix_cons_inj d |>.2 inside), ?_⟩
    rw [pairBytes, pairs, ← at_c, ← at_d]
    exact congrArg (fun b => some (b :: bytes)) (Prod.mk.inj (some.inj here)).1

theorem pairBytes_length {text : Bytes} (pairs : pairBytes text = some bytes) :
    text.length = 2 * bytes.length := by
  induction text using pairBytes.induct generalizing bytes with
  | case1 =>
    cases pairs
    rfl
  | case2 c => cases pairs
  | case3 hi lo text ih =>
    obtain ⟨more, here, rfl⟩ := map_eq_some_iff.1 pairs
    have length := ih here
    simp only [length_cons]
    omega

section Accepted

variable {m : Mem} {pattern : Nat} {s : Bytes} (h : CStr m pattern s)

include h

theorem ReadAs.sequence {text : Bytes} (read : ReadAs s text) :
    ∃ p : Pattern, pairBytes text = some p.bytes ∧ Sequence m pattern p.header p.stream := by
  obtain ⟨⟨rest, rfl⟩, p, pairs⟩ := read
  exact ⟨p, pairs, Pattern.sequence (spelled_of_pairs pairs h)⟩

/-- A string is read in one way only: the header says where the pattern ends. -/
theorem ReadAs.unique {text text' : Bytes} (read : ReadAs s text) (read' : ReadAs s text') : text = text' := by
  obtain ⟨p, pairs, seq⟩ := read.sequence h
  obtain ⟨p', pairs', seq'⟩ := read'.sequence h
  have same := (seq.unique seq').1
  have length : text.length = text'.length := by
    rw [pairBytes_length pairs, pairBytes_length pairs', p.bytes_length, p'.bytes_length, same]
  exact (prefix_of_prefix_length_le read.1 read'.1 (Nat.le_of_eq length)).eq_of_length length

/-- **What is accepted**: a pattern, in whatever characters. -/
theorem accepts_iff {E : Type} (e : E) (state : Int) :
    (initURFContext m e pattern state).isSome = true ↔ ∃ text, ReadAs s text := by
  rw [isSome_iff_exists]
  constructor
  · rintro ⟨ctx, accepted⟩
    obtain ⟨header, bytes, seq, -⟩ := (initURFContext_iff ..).1 accepted
    obtain ⟨p, spelled⟩ := seq.pattern
    obtain ⟨text, inside, pairs⟩ := pairs_of_spelled h spelled
    exact ⟨text, inside, p, pairs⟩
  · rintro ⟨text, read⟩
    obtain ⟨p, -, seq⟩ := read.sequence h
    exact ⟨_, (initURFContext_iff ..).2 ⟨_, _, seq, rfl⟩⟩

end Accepted

theorem wellFormed_iff {s : Bytes} : WellFormed s ↔ ∃ text, ReadAs s text ∧ ∀ c ∈ text, isxdigit c = true := by
  constructor
  · rintro ⟨text, inside, p, hex⟩
    obtain ⟨pairs, digits⟩ := hexBytes_iff.1 hex
    exact ⟨text, ⟨inside, p, pairs⟩, digits⟩
  · rintro ⟨text, ⟨inside, p, pairs⟩, digits⟩
    exact ⟨text, inside, p, hexBytes_iff.2 ⟨pairs, digits⟩⟩

/-- **Only well-formed patterns are accepted, if what is read is hexadecimal.** For every string,
a context is returned exactly for the well-formed ones if and only if the characters that are read
as a pattern are all hexadecimal digits; nothing else can be amiss. -/
theorem accepts_only_hex_iff {E : Type} {m : Mem} {pattern : Nat} {s : Bytes} (h : CStr m pattern s) (e : E)
    (state : Int) :
    ((initURFContext m e pattern state).isSome = true ↔ WellFormed s) ↔
      ∀ text, ReadAs s text → ∀ c ∈ text, isxdigit c = true := by
  rw [accepts_iff h, wellFormed_iff]
  constructor
  · intro exact text read
    obtain ⟨text', read', digits⟩ := exact.1 ⟨text, read⟩
    exact read.unique h read' ▸ digits
  · intro digits
    constructor
    · rintro ⟨text, read⟩
      exact ⟨text, read, digits text read⟩
    · rintro ⟨text, read, -⟩
      exact ⟨text, read⟩

/-- A pattern without frames. -/
theorem accepts_only_hex_empty :
    (initURFContext (fun j => (ascii "010100010001000100010101000000").getD j 0) () 0 1).isSome = true ↔
      WellFormed "010100010001000100010101000000" := by
  refine (accepts_only_hex_iff (cstr_getD (bytes_of_all (by decide))) () 1).2 ?_
  rintro text ⟨inside, -⟩ c mem
  have digits : ∀ c ∈ ascii "010100010001000100010101000000", isxdigit c = true := bytes_of_all (by decide)
  exact digits c (inside.subset mem)

/-- The same with `zz` for its version. -/
theorem accepts_letters :
    (initURFContext (fun j => (ascii "zz0100010001000100010101000000").getD j 0) () 0 1).isSome = true ∧
      ¬ WellFormed "zz0100010001000100010101000000" := by
  refine ⟨by decide +kernel, ?_⟩
  rintro ⟨text, inside, p, hex⟩
  obtain ⟨-, digits⟩ := hexBytes_iff.1 hex
  match text, inside with
  | [], _ => cases hex
  | c :: text, inside =>
    obtain ⟨rest, same⟩ := inside
    have first := (List.cons.inj same).1
    exact absurd (digits c (by simp)) (by rw [first]; decide)

end Hah.Rf
