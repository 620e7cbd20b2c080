import Hah.Xap.Simulation

/-!
# What the serialiser prints

`parsedMsgToRawWithoutSectionF` walks the elements, leaves out those of the section to
skip and opens a section whenever the section pointer changes. On a frame that records
a list of elements it prints `rawText` of those it keeps (`raw_without_printed`); for the
elements of sections at distinct offsets that is their layout (`rawText_blocks`).
-/

namespace Hah.Xap
open C List Option

/-- The strings of a parsed element, as the frame shows them. -/
def elementStrings (t : Bytes × Option (Bytes × Bytes)) :
    Option Bytes × Option Bytes × Option Bytes :=
  (some t.1, t.2.map (·.1), t.2.map (·.2))

section Recorded

variable {m0 : Mem} {len pos mark : Nat} {es : List Element} {fr : XapFrame}

theorem Settled.str_eq {f : Field} (h : Settled fr.dataPacket mark f) (fits : mark ≤ xapDataLen) :
    fr.str f.start = f.text :=
  h.str.strAt_eq (by have := h.below; omega)

/-- The frame's strings are the scan's. -/
theorem Recorded.strings_eq (h : Recorded m0 len pos mark es fr) (fits : mark ≤ xapDataLen) (j : Nat)
    (hj : j < es.length) : fr.strings j = elementStrings (elementText es[j]) := by
  have at_j := h.strings es[j] (getElem_mem hj)
  simp only [XapFrame.strings, h.slots j hj, elementPtrs, elementStrings, elementText, map_some,
    at_j.name.str_eq fits, Option.map_map]
  cases pair : es[j].2 with
  | none => rfl
  | some p =>
    obtain ⟨key, value⟩ := at_j.pair p pair
    simp [key.str_eq fits, value.str_eq fits]

theorem Recorded.all_strings (h : Recorded m0 len pos mark es fr) (fits : mark ≤ xapDataLen) :
    (List.range fr.parsedMsgCount).map fr.strings = (es.map elementText).map elementStrings := by
  apply ext_getElem
  · simp [h.count]
  · intro j hj hj'
    simp only [getElem_map, getElem_range]
    exact h.strings_eq fits j (by simpa using hj')

end Recorded

/-- `}` and a line end, when a section is open. -/
def closeText (current : Option Nat) : Bytes := if current = none then [] else "\x7d\n"

def openText (current : Option Nat) (e : Element) : Bytes :=
  if current = some e.1.start then [] else closeText current ++ e.1.text ++ "\n\x7b\n"

def pairText (e : Element) : Bytes :=
  match e.2 with
  | none => []
  | some (key, value) => pairLayout (key.text, value.text)

/-- The text printed for `es` while the section at `current` is open. -/
def rawText (current : Option Nat) : List Element → Bytes
  | [] => closeText current
  | e :: es => openText current e ++ pairText e ++ rawText (some e.1.start) es

/-- A section name that `parsedMsgToRawWithoutSectionF` does not skip. -/
def keeps (skip : Option Bytes) (name : Bytes) : Bool := !skip.any (strcasecmpEq · name)

/-- The length so far is exact; the buffer holds the text when `total` bytes fit `size`. -/
structure Printed (size total : Nat) (s : RawState) (text : Bytes) : Prop where
  len : s.len = text.length
  str : total < size → CStr s.msg 0 text

variable {size total : Nat} {s : RawState} {text : Bytes}

theorem Printed.print {done : Bytes} (h : Printed size total s done) (clean : ∀ c ∈ text, c ≠ 0)
    (short : text.length ≤ total) : Printed size total (s.print size text) (done ++ text) := by
  refine ⟨by simp [RawState.print, h.len], fun fits => ?_⟩
  have extended : CStr (snprintf s.msg (0 + done.length) size text) 0 (done ++ text) :=
    (h.str fits).snprintf clean (by omega)
  simpa [RawState.print, h.len] using extended

theorem Printed.current (current : Option Nat)
    (h : Printed size total s text) : Printed size total { s with currentSection := current } text :=
  ⟨h.len, h.str⟩

theorem closeText_clean (current : Option Nat) : ∀ c ∈ closeText current, c ≠ 0 := by
  unfold closeText
  split_ifs
  · simp
  · exact bytes_of_all (by decide)

/-- The closing brace, when a section is open. -/
theorem Printed.close {done : Bytes} (h : Printed size total s done)
    (short : (closeText s.currentSection).length ≤ total) :
    Printed size total (if s.currentSection ≠ none then s.print size "\x7d\n" else s)
      (done ++ closeText s.currentSection) := by
  by_cases idle : s.currentSection = none
  · simpa [idle, closeText] using h
  · have closed : closeText s.currentSection = "\x7d\n" := by simp [closeText, idle]
    rw [if_pos idle, ← closed]
    exact h.print (closeText_clean _) short

theorem pairLayout_clean {k v : Bytes} (hk : ∀ c ∈ k, c ≠ 0) (hv : ∀ c ∈ v, c ≠ 0) :
    ∀ c ∈ pairLayout (k, v), c ≠ 0 := by
  have newline : ∀ c ∈ ascii "\n", c ≠ 0 := bytes_of_all (by decide)
  intro c hc
  simp only [pairLayout, mem_append, mem_singleton] at hc
  rcases hc with ((hc | rfl) | hc) | hc
  · exact hk c hc
  · decide
  · exact hv c hc
  · exact newline c hc

theorem printable_clean (printable : ∀ c ∈ text, 32 ≤ c) : ∀ c ∈ text, c ≠ 0 := by
  intro c hc zero
  exact absurd (zero ▸ printable c hc) (by decide)

/-- A layout holds no NUL. -/
theorem layout_clean {sections : List Section} (ok : ∀ s ∈ sections, s.Ok) : ∀ c ∈ layout sections, c ≠ 0 := by
  have opening : ∀ c ∈ ascii "\n\x7b\n", c ≠ 0 := bytes_of_all (by decide)
  have closing : ∀ c ∈ ascii "\x7d\n", c ≠ 0 := bytes_of_all (by decide)
  intro c hc
  obtain ⟨s, hs, hc⟩ := mem_flatMap.1 hc
  simp only [Section.layout, mem_append] at hc
  rcases hc with ((hc | hc) | hc) | hc
  · exact (ok s hs).name.clean c hc
  · exact opening c hc
  · obtain ⟨p, hp, hc⟩ := mem_flatMap.1 hc
    obtain ⟨key, value⟩ := (ok s hs).pairs p hp
    obtain ⟨d, rest, same, visible, -, -, others⟩ := key.first
    have printable : ∀ x ∈ p.1, 32 ≤ x := by
      rw [same]
      exact forall_mem_cons.2 ⟨UInt8.le_of_lt visible, fun x hx => (others x hx).1⟩
    exact pairLayout_clean (printable_clean printable) (printable_clean value) c hc
  · exact closing c hc

section Print

variable {m0 : Mem} {len pos mark : Nat} {es : List Element} {fr : XapFrame} {size : Nat}

/-- One element: what `rawElement` prints, from the open section `s.currentSection`. -/
theorem Printed.element {total : Nat} {s : RawState} {done : Bytes} {j : Nat} {e : Element}
    (h : Printed size total s done) (slot : fr.parsedMsg j = elementPtrs e) (strings : ElementAt fr.dataPacket mark e)
    (fits : mark ≤ xapDataLen) (short : (openText s.currentSection e ++ pairText e).length ≤ total) :
    Printed size total (rawElement fr size none s j) (done ++ (openText s.currentSection e ++ pairText e)) ∧
      (rawElement fr size none s j).currentSection = some e.1.start := by
  have name := strings.name.str_eq fits
  have brace : ∀ c ∈ ascii "\n\x7b\n", c ≠ 0 := bytes_of_all (by decide)
  rw [length_append] at short
  -- the section's opening, or nothing when it is open already
  obtain ⟨t, opening, printed, current⟩ : ∃ t : RawState,
      (if s.currentSection = none ∨ s.currentSection ≠ some e.1.start then
        { (if s.currentSection ≠ none then s.print size "\x7d\n" else s).print size
            (e.1.text ++ "\n\x7b\n") with currentSection := some e.1.start }
      else s) = t ∧ Printed size total t (done ++ openText s.currentSection e) ∧
        t.currentSection = some e.1.start := by
    refine ⟨_, rfl, ?_, ?_⟩
    · by_cases same : s.currentSection = some e.1.start
      · rw [if_neg (by simp [same]), openText, if_pos same, append_nil]
        exact h
      · have bound : (closeText s.currentSection).length + (e.1.text ++ "\n\x7b\n").length ≤ total := by
          simp only [openText, if_neg same, append_assoc, length_append] at short ⊢
          omega
        rw [if_pos (.inr same), openText, if_neg same, append_assoc, ← append_assoc]
        exact Printed.current _ ((h.close (by omega)).print
          (forall_mem_append.2 ⟨strings.name.str.clean, brace⟩) (by omega))
    · by_cases same : s.currentSection = some e.1.start
      · rw [if_neg (by simp [same]), same]
      · rw [if_pos (.inr same)]
  simp only [rawElement, any_none, Bool.false_eq_true, if_false, slot, elementPtrs, map_some,
    getD_some, name, opening]
  cases pair : e.2 with
  | none => exact ⟨by simpa [pairText, pair] using printed, by simpa using current⟩
  | some p =>
    obtain ⟨key, value⟩ := strings.pair p pair
    have text : pairText e = pairLayout (p.1.text, p.2.text) := by simp [pairText, pair]
    simp only [map_some, getD_some, key.str_eq fits, value.str_eq fits]
    rw [← append_assoc, text]
    refine ⟨printed.print (pairLayout_clean key.str.clean value.str.clean) ?_, current⟩
    rw [text] at short
    show (pairLayout (p.1.text, p.2.text)).length ≤ total
    omega

/-- An element of the section to skip prints nothing, any other what it prints without one. -/
theorem rawElement_skip {s : RawState} {j : Nat} {e : Element} (skip : Option Bytes)
    (slot : fr.parsedMsg j = elementPtrs e) (strings : ElementAt fr.dataPacket mark e) (fits : mark ≤ xapDataLen) :
    rawElement fr size skip s j = if keeps skip e.1.text then rawElement fr size none s j else s := by
  simp only [rawElement, any_none, Bool.false_eq_true, if_false, slot, elementPtrs, map_some,
    getD_some, strings.name.str_eq fits]
  cases skipped : skip.any (strcasecmpEq · e.1.text) <;> simp [keeps, skipped]

/-- The loop over the elements from `j` on, and the closing brace. -/
theorem Printed.elements {total : Nat} (fits : mark ≤ xapDataLen) (skip : Option Bytes) {rest : List Element} :
    ∀ {j : Nat} {s : RawState} {done : Bytes}, Printed size total s done →
      (∀ k (hk : k < rest.length), fr.parsedMsg (j + k) = elementPtrs rest[k]) →
      (∀ e ∈ rest, ElementAt fr.dataPacket mark e) →
      (rawText s.currentSection (rest.filter fun e => keeps skip e.1.text)).length ≤ total →
      let t := (List.range' j rest.length).foldl (rawElement fr size skip) s
      Printed size total (if t.currentSection ≠ none then t.print size "\x7d\n" else t)
        (done ++ rawText s.currentSection (rest.filter fun e => keeps skip e.1.text)) := by
  induction rest with
  | nil =>
    intro j s done h _ _ short
    simp only [length_nil, range'_zero, foldl_nil, filter_nil, rawText] at short ⊢
    exact h.close short
  | cons e rest ih =>
    intro j s done h slots strings short
    have first : rawElement fr size skip s j = if keeps skip e.1.text then rawElement fr size none s j else s :=
      rawElement_skip skip (slots 0 (by simp)) (strings e (by simp)) fits
    have laterSlots : ∀ k (hk : k < rest.length), fr.parsedMsg (j + 1 + k) = elementPtrs rest[k] := by
      intro k hk
      have := slots (k + 1) (by simpa using hk)
      rwa [Nat.add_assoc, Nat.add_comm 1 k]
    have laterStrings : ∀ e' ∈ rest, ElementAt fr.dataPacket mark e' :=
      fun e' he' => strings e' (mem_cons_of_mem e he')
    rw [length_cons, range'_succ, foldl_cons, first]
    by_cases kept : keeps skip e.1.text = true
    · rw [filter_cons_of_pos (p := fun e : Element => keeps skip e.1.text) kept] at short ⊢
      rw [rawText, length_append] at short
      obtain ⟨printed, current⟩ := h.element (e := e) (slots 0 (by simp)) (strings e (by simp)) fits (by omega)
      have later := ih (j := j + 1) printed laterSlots laterStrings (by rw [current]; omega)
      rw [current] at later
      simpa [kept, rawText, append_assoc] using later
    · rw [filter_cons_of_neg (p := fun e : Element => keeps skip e.1.text) kept] at short ⊢
      rw [if_neg kept]
      exact ih h laterSlots laterStrings short

/-- **What `parsedMsgToRawWithoutSectionF` prints**: its length whatever the buffer size, its
bytes when they fit. -/
theorem raw_without_printed (h : Recorded m0 len pos mark es fr) (fits : mark ≤ xapDataLen) (msg : Mem) (size : Nat)
    (skip : Option Bytes) : let text := rawText none (es.filter fun e => keeps skip e.1.text)
    (parsedMsgToRawWithoutSectionF fr msg size skip).2 = text.length ∧
      (text.length < size → CStr (parsedMsgToRawWithoutSectionF fr msg size skip).1 0 text) := by
  intro text
  have start : Printed size text.length ⟨store msg 0 0, 0, none⟩ [] :=
    ⟨rfl, fun _ => ⟨by simp, by simp, by simp⟩⟩
  have slots : ∀ k (hk : k < es.length), fr.parsedMsg (0 + k) = elementPtrs es[k] := fun k hk => by
    rw [Nat.zero_add]
    exact h.slots k hk
  have done := Printed.elements fits skip start slots h.strings (le_refl _)
  rw [← range_eq_range', ← h.count, nil_append] at done
  exact ⟨done.len, done.str⟩

end Print

/-- The pairs of an open section follow each other without a new header. -/
theorem rawText_pairs (name : Field) (pairs : List (Field × Field)) (rest : List Element) :
    rawText (some name.start) (pairs.map (fun p => (name, some p)) ++ rest) =
      (pairs.map fun p => (p.1.text, p.2.text)).flatMap pairLayout ++ rawText (some name.start) rest := by
  induction pairs with
  | nil => rfl
  | cons p pairs ih => simp [rawText, openText, pairText, ih]

theorem rawText_block (b : Block) {current : Option Nat} (other : current ≠ some b.name.start) (rest : List Element) :
    rawText current (b.elements ++ rest) =
      closeText current ++ (b.name.text ++ "\n\x7b\n" ++ b.text.pairs.flatMap pairLayout) ++
        rawText (some b.name.start) rest := by
  unfold Block.elements
  cases pairs : b.pairs with
  | nil => simp [rawText, openText, pairText, other, Block.text, pairs]
  | cons p ps =>
    have more := rawText_pairs b.name ps rest
    simp [rawText, openText, pairText, other, Block.text, pairs, more]

/-- **Sections at distinct offsets print as their layout.** -/
theorem rawText_blocks {blocks : List Block} (distinct : (blocks.map (·.name.start)).Pairwise (· < ·)) :
    ∀ {current : Option Nat}, (∀ b ∈ blocks, current ≠ some b.name.start) →
      rawText current (blocks.flatMap Block.elements) =
        closeText current ++ layout (blocks.map Block.text) := by
  induction blocks with
  | nil =>
    intro current _
    simp [rawText, layout]
  | cons b blocks ih =>
    intro current others
    rw [map_cons, pairwise_cons] at distinct
    have fresh : ∀ c ∈ blocks, some b.name.start ≠ some c.name.start := by
      intro c hc same
      have := distinct.1 c.name.start (mem_map_of_mem hc)
      rw [some.injEq] at same
      omega
    rw [flatMap_cons, rawText_block b (others b (by simp)), ih distinct.2 fresh]
    simp [layout, Section.layout, closeText, Block.text]

end Hah.Xap
