import Mathlib.Data.List.Induction
import Hah.C.Numbers
import Hah.Lib.Recogniser

/-!
# Messages in the stream of the meter: `serialInputHandler` of `currentcost.c`

The bytes of the meter that are not spaces are collected in a buffer. One matcher looks for `<msg>`
and begins the buffer anew with it, another one looks for `</msg>` and hands the buffer to `parseXml`.
Neither looks at a `<` that ends an attempt as the beginning of the next one, and a full buffer starts
again at its beginning wherever it is, in the middle of a tag too.

What the buffer holds is always the end of the stream, so that only its length matters, and that is
known modulo 4095 (`quiet`). `framing_iff` says which messages are handed on as they should be.
-/

namespace Hah.CurrentCost.Framing
open C Recogniser List

/-! ## The code -/

def openTag : Bytes := "<msg>"
def closeTag : Bytes := "</msg>"

/-- No symbol starts a new attempt. -/
def never (_ : UInt8) : Bool := false

def letter (tag : Bytes) (state : Nat) (ch : UInt8) : Bool := decide (tag[state]? = some ch)

/-- The chain of `else if` for a tag: the next state, and whether the tag is complete. -/
def follow (tag : Bytes) (state : Nat) (ch : UInt8) : Nat × Bool := step never (letter tag) tag.length state ch

/-- The static variables: `serial_xml` up to `serial_cursor`, the states of the matchers, and what
has been handed to `parseXml`. -/
structure Serial where
  xml : Bytes
  bstate : Nat
  estate : Nat
  parsed : List Bytes
  deriving DecidableEq, Repr

def Serial.start : Serial := ⟨[], 0, 0, []⟩

/-- The buffer with a byte more, from its beginning if it is full. -/
def Serial.grown (s : Serial) (ch : UInt8) : Bytes := (if s.xml.length = 4095 then [] else s.xml) ++ [ch]

/-- The buffer behind the first matcher. -/
def Serial.kept (s : Serial) (ch : UInt8) : Bytes :=
  if (follow openTag s.bstate ch).2 ∧ 5 < (s.grown ch).length then openTag else s.grown ch

/-- The loop body for a byte that is not a space. -/
def Serial.char (s : Serial) (ch : UInt8) : Serial :=
  let bstate := (follow openTag s.bstate ch).1
  let estate := (follow closeTag s.estate ch).1
  if (follow closeTag s.estate ch).2 then ⟨[], bstate, estate, s.parsed ++ [s.kept ch]⟩
  else ⟨s.kept ch, bstate, estate, s.parsed⟩

def Serial.byte (s : Serial) (ch : UInt8) : Serial := if isspace ch then s else s.char ch

/-- `serialInputHandler`, called for these reads. -/
def serialInputHandler (s : Serial) (reads : List Bytes) : Serial :=
  reads.foldl (fun s serialBuff => serialBuff.foldl Serial.byte s) s

/-! ## What is wanted -/

def stripped (stream : Bytes) : Bytes := stream.filter fun ch => !isspace ch

def received (u : Bytes) : Serial := u.foldl Serial.char .start

/-- A text ends in a closing tag, and `<msg>` and `mid` before it are the message that it closes: no
other tag of either kind stands there. -/
structure Closes (u pre mid : Bytes) : Prop where
  parts : u = pre ++ openTag ++ mid ++ closeTag
  last : ¬ openTag <:+: openTag.tail ++ mid ++ closeTag
  alone : ¬ closeTag <:+: (openTag ++ mid ++ closeTag).dropLast

/-- The message is handed to `parseXml` once, when its last byte is read. -/
def HandedOn (u mid : Bytes) : Prop :=
  (received u).parsed = (received u.dropLast).parsed ++ [openTag ++ mid ++ closeTag]

/-- No attempt at the tag is open at the end of the text. -/
def Idle (tag u : Bytes) : Prop := place never (letter tag) tag.length 0 u = 0

/-- The closing tag meets an idle matcher. So does the opening tag, which the buffer has room for, or
it is the first in the buffer. -/
def Seen (pre mid : Bytes) : Prop :=
  Idle closeTag (pre ++ openTag ++ mid) ∧
    ((received pre).xml.length = 0 ∨ (received pre).xml.length = 4095 ∨
      (received pre).xml.length ≤ 4090 ∧ Idle openTag pre)

/-! ## The matchers -/

section Matchers

variable {tag u : Bytes} {ch : UInt8}

theorem place_snoc (tag u : Bytes) (ch : UInt8) :
    place never (letter tag) tag.length 0 (u ++ [ch]) = (follow tag (place never (letter tag) tag.length 0 u) ch).1 := by
  simp [place, follow, foldl_append]

/-- A complete tag stands at the end of the text. -/
theorem suffix_of_follow (found : (follow tag (place never (letter tag) tag.length 0 u) ch).2 = true) :
    tag <:+ u ++ [ch] := by
  obtain ⟨before, w, parts, length, fit⟩ := tracks_of_match found
  have same : w = tag := by
    apply ext_getElem length
    intro k here there
    have letters := fit k here
    simpa [hit, never, letter, getElem?_eq_getElem there, eq_comm] using letters
  rw [parts, same]
  exact suffix_append _ _

/-- Behind a text, the last letter of the tag completes it exactly if no attempt was open. -/
theorem follow_tag (u : Bytes) {body : Bytes} {last : UInt8}
    (run : ∀ k < tag.length, (follow tag (place never (letter tag) tag.length k body) last).2 = decide (k = 0))
    (long : 1 < tag.length) :
    (follow tag (place never (letter tag) tag.length 0 (u ++ body)) last).2 = true ↔ Idle tag u := by
  have bound : place never (letter tag) tag.length 0 u < tag.length := place_lt long (Nat.zero_lt_of_lt long) u
  rw [place, foldl_append]
  exact (congrArg (· = true) (run _ bound)).to_iff.trans (by rw [decide_eq_true_eq, Idle])

theorem last_of_suffix (before : Bytes) {c : UInt8} (ends : before ++ [c] <:+ u ++ [ch]) : c = ch := by
  obtain ⟨front, parts⟩ := ends
  rw [← append_assoc] at parts
  exact singleton_inj.1 (append_inj_right' parts rfl)

end Matchers

/-! ## The buffer -/

theorem received_snoc (u : Bytes) (ch : UInt8) : received (u ++ [ch]) = (received u).char ch := by
  simp [received, foldl_append]

theorem char_states (s : Serial) (ch : UInt8) :
    (s.char ch).bstate = (follow openTag s.bstate ch).1 ∧ (s.char ch).estate = (follow closeTag s.estate ch).1 := by
  unfold Serial.char
  split <;> exact ⟨rfl, rfl⟩

theorem received_states (u : Bytes) :
    (received u).bstate = place never (letter openTag) openTag.length 0 u ∧
      (received u).estate = place never (letter closeTag) closeTag.length 0 u := by
  induction u using List.reverseRecOn with
  | nil => exact ⟨rfl, rfl⟩
  | append_singleton u ch ih =>
    obtain ⟨opens, closes⟩ := char_states (received u) ch
    rw [received_snoc, opens, closes, place_snoc, place_snoc, ih.1, ih.2]
    exact ⟨rfl, rfl⟩

theorem opening_found (u : Bytes) :
    (follow openTag (received (u ++ "<msg")).bstate 62).2 = true ↔ Idle openTag u := by
  rw [(received_states _).1]
  exact follow_tag u (by decide) (by decide)

theorem closing_found (u : Bytes) :
    (follow closeTag (received (u ++ "</msg")).estate 62).2 = true ↔ Idle closeTag u := by
  rw [(received_states _).2]
  exact follow_tag u (by decide) (by decide)

theorem opened_suffix {u : Bytes} {ch : UInt8} (found : (follow openTag (received u).bstate ch).2 = true) :
    openTag <:+ u ++ [ch] :=
  suffix_of_follow ((received_states u).1 ▸ found)

theorem grown_length {s : Serial} (bound : s.xml.length ≤ 4095) (ch : UInt8) :
    1 ≤ (s.grown ch).length ∧ (s.grown ch).length ≤ 4095 ∧
      (s.grown ch).length % 4095 = (s.xml.length + 1) % 4095 := by
  rw [Serial.grown, length_append, length_singleton]
  split
  · rename_i full
    rw [full, length_nil]
    decide
  · omega

theorem grown_suffix {s : Serial} {u : Bytes} (ends : s.xml <:+ u) (ch : UInt8) : s.grown ch <:+ u ++ [ch] := by
  rw [Serial.grown]
  split
  · exact suffix_append u [ch]
  · exact (suffix_append_inj_of_length_eq rfl).2 ⟨ends, rfl⟩

/-- The buffer holds the end of the stream, and does not overflow. -/
theorem received_xml (u : Bytes) : (received u).xml <:+ u ∧ (received u).xml.length ≤ 4095 := by
  induction u using List.reverseRecOn with
  | nil => exact ⟨suffix_refl _, Nat.zero_le _⟩
  | append_singleton u ch ih =>
    rw [received_snoc, Serial.char]
    split
    · exact ⟨nil_suffix, Nat.zero_le _⟩
    · change (received u).kept ch <:+ _ ∧ ((received u).kept ch).length ≤ _
      rw [Serial.kept]
      split
      · rename_i opens
        exact ⟨opened_suffix opens.1, by decide⟩
      · exact ⟨grown_suffix ih.1 ch, (grown_length ih.2 ch).2.1⟩

/-- A byte at which no tag ends only makes the buffer longer. -/
theorem received_grown {u : Bytes} {ch : UInt8} (quiet : ¬ openTag <:+ u ++ [ch]) :
    (received u).kept ch = (received u).grown ch :=
  if_neg fun opens => quiet (opened_suffix opens.1)

theorem received_open {u : Bytes} {ch : UInt8} (quiet : ¬ closeTag <:+ u ++ [ch]) :
    (received (u ++ [ch])).xml = (received u).kept ch := by
  rw [received_snoc, Serial.char, if_neg fun closes => quiet (suffix_of_follow ((received_states u).2 ▸ closes))]

theorem received_parsed (u : Bytes) (ch : UInt8) (text : Bytes) :
    (received (u ++ [ch])).parsed = (received u).parsed ++ [text] ↔
      (follow closeTag (received u).estate ch).2 = true ∧ (received u).kept ch = text := by
  rw [received_snoc, Serial.char]
  split
  · rename_i closes
    rw [append_cancel_left_eq, singleton_inj]
    exact (and_iff_right closes).symm
  · rename_i passed
    exact iff_of_false (by simp) fun closes => passed closes.1

/-- Between two tags the buffer grows, and starts again where it is full. -/
theorem quiet {w : Bytes} (v : Bytes)
    (silent : ∀ p, p ≠ [] → p <+: v → ¬ openTag <:+ w ++ p ∧ ¬ closeTag <:+ w ++ p) :
    (received (w ++ v)).xml.length % 4095 = ((received w).xml.length + v.length) % 4095 := by
  induction v using List.reverseRecOn with
  | nil => rw [append_nil, length_nil, Nat.add_zero]
  | append_singleton v ch ih =>
    obtain ⟨no_open, no_close⟩ := silent (v ++ [ch]) (append_ne_nil_of_right_ne_nil _ (cons_ne_nil _ _))
      (prefix_refl _)
    rw [← append_assoc] at no_open no_close ⊢
    have before := ih fun p some part => silent p some (part.trans (prefix_append v [ch]))
    have more := (grown_length (received_xml (w ++ v)).2 ch).2.2
    rw [received_open no_close, received_grown no_open, more, length_append, length_singleton]
    omega

/-! ## A message -/

theorem kept_length (u : Bytes) :
    ((received (u ++ "<msg")).kept 62).length = 5 ↔
      ((received (u ++ "<msg")).grown 62).length = 5 ∨
        5 < ((received (u ++ "<msg")).grown 62).length ∧ Idle openTag u := by
  have found := opening_found u
  rw [Serial.kept]
  split
  · rename_i opens
    exact iff_of_true rfl (.inr ⟨opens.2, found.1 opens.1⟩)
  · rename_i passed
    exact (or_iff_left fun opens => passed ⟨found.2 opens.2, opens.1⟩).symm

/-- Behind the opening tag the cursor stands at 5 if the tag was the first in the buffer, or was found
and did not run across its end. -/
theorem opening_length (pre : Bytes) :
    (received (pre ++ openTag)).xml.length = 5 ↔
      (received pre).xml.length = 0 ∨ (received pre).xml.length = 4095 ∨
        (received pre).xml.length ≤ 4090 ∧ Idle openTag pre := by
  have silent (p : Bytes) (some : p ≠ []) (part : p <+: "<msg") :
      ¬ openTag <:+ pre ++ p ∧ ¬ closeTag <:+ pre ++ p := by
    obtain ⟨q, c, rfl⟩ := (eq_nil_or_concat' p).resolve_left some
    have other : c ≠ 62 := by
      rintro rfl
      exact absurd (part.subset (mem_append_right q (mem_singleton_self 62))) (by decide)
    rw [← append_assoc]
    exact ⟨fun ends => other (last_of_suffix "<msg" ends).symm,
      fun ends => other (last_of_suffix "</msg" ends).symm⟩
  -- The two tags end differently.
  have not_closing : ¬ closeTag <:+ (pre ++ ascii "<msg") ++ [62] := by
    intro ends
    have tag : openTag <:+ (pre ++ ascii "<msg") ++ [62] := ⟨pre, by rw [append_assoc]; rfl⟩
    exact absurd (suffix_of_suffix_length_le tag ends (by decide)) (by decide)
  have before : _ = (_ + 4) % 4095 := quiet "<msg" silent
  have more := grown_length (received_xml (pre ++ "<msg")).2 62
  have bound := (received_xml pre).2
  have text : (received (pre ++ openTag)).xml = (received (pre ++ "<msg")).kept 62 := by
    rw [← received_open not_closing, append_assoc]
    rfl
  rw [text, kept_length]
  by_cases idle : Idle openTag pre
  all_goals
    simp only [idle, and_true, and_false, or_false]
    omega

variable {u pre mid : Bytes}

theorem Closes.no_open (closes : Closes u pre mid) {p : Bytes} (some : p ≠ []) (part : p <+: mid ++ closeTag) :
    ¬ openTag <:+ pre ++ openTag ++ p := by
  intro ends
  have long : openTag.length ≤ (openTag.tail ++ p).length := by
    have := length_pos_iff.2 some
    rw [length_append]
    change 5 ≤ 4 + _
    omega
  have inside := suffix_of_suffix_length_le ends ⟨pre ++ [60], by simp [openTag]; rfl⟩ long
  refine closes.last (inside.isInfix.trans ?_)
  rw [append_assoc]
  exact ((prefix_append_right_inj _).2 part).isInfix

theorem Closes.no_close (closes : Closes u pre mid) {p : Bytes} (some : p ≠ [])
    (part : p <+: mid ++ "</msg") : ¬ closeTag <:+ pre ++ openTag ++ p := by
  intro ends
  have long : closeTag.length ≤ (openTag ++ p).length := by
    have := length_pos_iff.2 some
    rw [length_append]
    change 6 ≤ 5 + _
    omega
  have inside := suffix_of_suffix_length_le ends ⟨pre, by rw [append_assoc]⟩ long
  refine closes.alone (inside.isInfix.trans ?_)
  rw [dropLast_append_of_ne_nil (by decide), append_assoc]
  exact ((prefix_append_right_inj _).2 part).isInfix

/-- **The message that a closing tag closes is handed on exactly if both tags are seen.** -/
theorem handed_on_iff (closes : Closes u pre mid) (short : (openTag ++ mid ++ closeTag).length < 4096) :
    HandedOn u mid ↔ Seen pre mid := by
  have whole : u = pre ++ openTag ++ (mid ++ ascii "</msg") ++ [62] := by
    rw [closes.parts]
    simp only [append_assoc]
    rfl
  have no_open : ¬ openTag <:+ pre ++ openTag ++ (mid ++ ascii "</msg") ++ [62] := by
    rw [← whole, closes.parts, append_assoc]
    exact closes.no_open (append_ne_nil_of_right_ne_nil _ (by decide)) (prefix_refl _)
  have before := quiet (w := pre ++ openTag) (mid ++ "</msg") fun p some part =>
    ⟨closes.no_open some (part.trans ⟨[62], by rw [append_assoc]; rfl⟩), closes.no_close some part⟩
  have found := closing_found (pre ++ openTag ++ mid)
  have buffer := received_xml (pre ++ openTag ++ (mid ++ "</msg"))
  have more := grown_length buffer.2 62
  have bound := (received_xml (pre ++ openTag)).2
  have shape : u.dropLast = pre ++ openTag ++ (mid ++ "</msg") := by rw [whole, dropLast_concat]
  have ends : openTag ++ mid ++ closeTag <:+ pre ++ openTag ++ (mid ++ ascii "</msg") ++ [62] :=
    ⟨pre, by rw [← whole, closes.parts]; simp only [append_assoc]⟩
  -- The buffer is the message if it is as long as the message.
  have same : (received (pre ++ openTag ++ (mid ++ "</msg"))).grown 62 = openTag ++ mid ++ closeTag ↔
      (received (pre ++ openTag)).xml.length = 5 := by
    have lengths : (openTag ++ mid ++ closeTag).length = mid.length + 11 := by
      simp only [length_append]
      change 5 + mid.length + 6 = _
      omega
    have body : (mid ++ "</msg").length = mid.length + 5 := length_append
    constructor
    · intro text
      rw [text] at more
      omega
    · intro five
      have equal : ((received (pre ++ openTag ++ (mid ++ "</msg"))).grown 62).length =
          (openTag ++ mid ++ closeTag).length := by omega
      exact (suffix_of_suffix_length_le (grown_suffix buffer.1 62) ends equal.le).eq_of_length equal
  rw [append_assoc (pre ++ openTag) mid] at found
  rw [HandedOn, shape, whole, received_parsed, received_grown no_open, same, found, opening_length, Seen]

/-! ## The stream -/

/-- How the stream is cut does not matter. -/
theorem serialInputHandler_eq (reads : List Bytes) :
    serialInputHandler .start reads = received (stripped reads.flatten) := by
  have spaces (s : Serial) (u : Bytes) : u.foldl Serial.byte s = (stripped u).foldl Serial.char s := by
    rw [stripped, foldl_filter]
    congr 1
    funext s ch
    cases space : isspace ch <;> simp [Serial.byte, space]
  rw [received, ← spaces, foldl_flatten]
  rfl

/-- **The messages of the meter.** However a stream is cut into reads, the cursor stays in the buffer.
Each message that the stream completes and that fits in the buffer is handed to `parseXml` once and
whole, exactly if the tags of each one are seen. -/
theorem framing_iff (stream : Bytes) :
    (∀ reads : List Bytes, reads.flatten = stream → (∀ serialBuff ∈ reads, serialBuff.length ≤ 255) →
      serialInputHandler .start reads = received (stripped stream) ∧
        (serialInputHandler .start reads).xml.length ≤ 4095) ∧
      ((∀ u pre mid, u <+: stripped stream → Closes u pre mid → (openTag ++ mid ++ closeTag).length < 4096 →
          HandedOn u mid) ↔
        ∀ u pre mid, u <+: stripped stream → Closes u pre mid → (openTag ++ mid ++ closeTag).length < 4096 →
          Seen pre mid) := by
  constructor
  · rintro reads rfl -
    rw [serialInputHandler_eq]
    exact ⟨rfl, (received_xml _).2⟩
  · exact forall_congr' fun u => forall_congr' fun pre => forall_congr' fun mid =>
      forall_congr' fun _ => forall_congr' fun closes => forall_congr' fun short => handed_on_iff closes short

/-- A `<` before the message spoils the matcher, and the noise is handed on with it. -/
theorem noise_handed_on :
    (¬ ∀ u pre mid, u <+: stripped "<<msg></msg>" → Closes u pre mid →
        (openTag ++ mid ++ closeTag).length < 4096 → HandedOn u mid) ∧
      (serialInputHandler .start [ascii "<<msg></msg>"]).parsed = [ascii "<<msg></msg>"] := by
  refine ⟨fun all => ?_, by decide⟩
  have handed := all "<<msg></msg>" "<" [] (by decide) ⟨by decide, by decide, by decide⟩ (by decide)
  unfold HandedOn at handed
  exact absurd handed (by decide)

end Hah.CurrentCost.Framing
