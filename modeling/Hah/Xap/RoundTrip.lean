import Hah.Xap.Raw

/-!
# Encoding and decoding

A frame filled by `parseMsgF` shows a list of sections (`Shows`): its strings are
theirs, in order, and two elements share their section pointer exactly when they
belong to one section. Both directions of the codec are stated with it. A laid out
message is shown again after parsing (`parse_layout`), and printing what was parsed
and parsing it again changes nothing (`parse_canonical`), whatever the packet held.
-/

namespace Hah.Xap
open C List

/-- The position of every element's section, counted from `k`. -/
def sectionTags : Nat → List Section → List Nat
  | _, [] => []
  | k, s :: rest => List.replicate s.elements.length k ++ sectionTags (k + 1) rest

/-- The frame's elements are those of `sections`, grouped as they are. -/
structure Shows (fr : XapFrame) (sections : List Section) : Prop where
  strings : (List.range fr.parsedMsgCount).map fr.strings =
    (sections.flatMap Section.elements).map elementStrings
  grouping : ∀ i j, i < fr.parsedMsgCount → j < fr.parsedMsgCount →
    ((fr.parsedMsg i).sectionPtr = (fr.parsedMsg j).sectionPtr ↔
      (sectionTags 0 sections)[i]? = (sectionTags 0 sections)[j]?)

variable {sections : List Section} {d : Bytes} {fr : XapFrame}

theorem sectionTags_ge {k : Nat} : ∀ t ∈ sectionTags k sections, k ≤ t := by
  induction sections generalizing k with
  | nil => simp [sectionTags]
  | cons s rest ih =>
    intro t ht
    rcases mem_append.1 ht with ht | ht
    · exact le_of_eq (eq_of_mem_replicate ht).symm
    · have := ih t ht
      omega

theorem Block.elements_name {b : Block} {e : Element} (h : e ∈ b.elements) : e.1 = b.name := by
  unfold Block.elements at h
  split_ifs at h
  · rw [mem_singleton] at h
    rw [h]
  · obtain ⟨p, -, rfl⟩ := mem_map.1 h
    rfl

/-- At distinct offsets, elements share their offset iff they share their section. -/
theorem starts_tags {blocks : List Block} (distinct : (blocks.map (·.name.start)).Pairwise (· < ·)) :
    ∀ {k i j : Nat} {e e' : Element}, (blocks.flatMap Block.elements)[i]? = some e →
      (blocks.flatMap Block.elements)[j]? = some e' →
      (e.1.start = e'.1.start ↔
        (sectionTags k (blocks.map Block.text))[i]? = (sectionTags k (blocks.map Block.text))[j]?) := by
  induction blocks with
  | nil => simp
  | cons b blocks ih =>
    intro k i j e e' hi hj
    rw [map_cons, pairwise_cons] at distinct
    rw [flatMap_cons] at hi hj
    rw [map_cons, sectionTags, ← b.elements_text, length_map]
    -- an element of this section against one of a later section, on both sides of the equivalence
    have later : ∀ {x : Nat} {f : Element}, b.elements.length ≤ x →
        (b.elements ++ blocks.flatMap Block.elements)[x]? = some f → b.name.start < f.1.start := by
      intro x f hx hf
      rw [getElem?_append_right hx] at hf
      obtain ⟨c, hc, hf'⟩ := mem_flatMap.1 (mem_of_getElem? hf)
      rw [Block.elements_name hf']
      exact distinct.1 _ (mem_map_of_mem hc)
    have early : ∀ {x : Nat} {f : Element}, x < b.elements.length →
        (b.elements ++ blocks.flatMap Block.elements)[x]? = some f → f.1.start = b.name.start := by
      intro x f hx hf
      rw [getElem?_append_left hx] at hf
      rw [Block.elements_name (mem_of_getElem? hf)]
    have tagEarly : ∀ {x : Nat}, x < b.elements.length →
        (List.replicate b.elements.length k ++ sectionTags (k + 1) (blocks.map Block.text))[x]? = some k := by
      intro x hx
      rw [getElem?_append_left (by simpa using hx), getElem?_replicate, if_pos hx]
    have tagLater : ∀ {x : Nat}, b.elements.length ≤ x →
        (List.replicate b.elements.length k ++ sectionTags (k + 1) (blocks.map Block.text))[x]? ≠ some k := by
      intro x hx same
      rw [getElem?_append_right (by simpa using hx)] at same
      have := sectionTags_ge k (mem_of_getElem? same)
      omega
    rcases Nat.lt_or_ge i b.elements.length with hi' | hi' <;>
      rcases Nat.lt_or_ge j b.elements.length with hj' | hj'
    · rw [early hi' hi, early hj' hj, tagEarly hi', tagEarly hj']
      simp
    · have := later hj' hj
      rw [early hi' hi, tagEarly hi']
      exact ⟨fun same => absurd same (by omega), fun same => absurd same.symm (tagLater hj')⟩
    · have := later hi' hi
      rw [early hj' hj, tagEarly hj']
      exact ⟨fun same => absurd same (by omega), fun same => absurd same (tagLater hi')⟩
    · rw [getElem?_append_right hi'] at hi
      rw [getElem?_append_right hj'] at hj
      rw [getElem?_append_right (by simpa using hi'), getElem?_append_right (by simpa using hj'),
        length_replicate]
      exact ih distinct.2 hi hj

/-- **`parseMsgF` shows the sections of its packet.** -/
theorem parse_shows (frame : XapFrame) (fits : d.length ≤ xapDataLen) :
    Shows (parseMsgF (frame.load d)) ((scan d).blocks.map Block.text) := by
  have recorded := parse_recorded frame fits
  have count : (parseMsgF (frame.load d)).parsedMsgCount = ((scan d).blocks.flatMap Block.elements).length :=
    recorded.count
  refine ⟨?_, fun i j hi hj => ?_⟩
  · rw [recorded.all_strings fits, ← elements_text]
    rfl
  · rw [count] at hi hj
    rw [recorded.slots i hi, recorded.slots j hj]
    simp only [elementPtrs, Option.some.injEq]
    exact starts_tags (scan_starts d) (getElem?_eq_getElem hi) (getElem?_eq_getElem hj)

theorem Shows.count (h : Shows fr sections) : fr.parsedMsgCount = (sections.flatMap Section.elements).length := by
  simpa using congrArg List.length h.strings

/-- The sections that are left when one name is skipped. -/
def keptSections (skip : Option Bytes) (sections : List Section) : List Section :=
  sections.filter fun s => keeps skip s.name

/-- The elements of the kept sections are the kept elements. -/
theorem kept_elements (skip : Option Bytes) (blocks : List Block) :
    (blocks.flatMap Block.elements).filter (fun e => keeps skip e.1.text) =
      (blocks.filter fun b => keeps skip b.name.text).flatMap Block.elements := by
  induction blocks with
  | nil => rfl
  | cons b blocks ih =>
    have same : ∀ e ∈ b.elements, keeps skip e.1.text = keeps skip b.name.text := fun e he => by
      rw [Block.elements_name he]
    rw [flatMap_cons, filter_append, ih, filter_congr same]
    by_cases kept : keeps skip b.name.text = true
    · rw [filter_cons_of_pos (p := fun b : Block => keeps skip b.name.text) kept, flatMap_cons]
      simp [kept]
    · rw [filter_cons_of_neg (p := fun b : Block => keeps skip b.name.text) kept]
      simp [kept]

/-- **What is printed for a parsed packet**: the layout of the sections that are not skipped. -/
theorem parse_raw_without (frame : XapFrame) (fits : d.length ≤ xapDataLen) (msg : Mem) (size : Nat)
    (skip : Option Bytes) : let text := layout (keptSections skip ((scan d).blocks.map Block.text))
    (parsedMsgToRawWithoutSectionF (parseMsgF (frame.load d)) msg size skip).2 = text.length ∧
      (text.length < size →
        CStr (parsedMsgToRawWithoutSectionF (parseMsgF (frame.load d)) msg size skip).1 0 text) := by
  intro text
  have printed := raw_without_printed (parse_recorded frame fits) fits msg size skip
  have starts : (((scan d).blocks.filter fun b => keeps skip b.name.text).map (·.name.start)).Pairwise (· < ·) :=
    List.Pairwise.sublist (List.Sublist.map _ filter_sublist) (scan_starts d)
  have raw : rawText none ((scan d).elements.filter fun e => keeps skip e.1.text) = text := by
    rw [Scan.elements, kept_elements, rawText_blocks starts fun b _ => (Option.some_ne_none b.name.start).symm]
    simp only [text, keptSections, filter_map, closeText, if_true, nil_append]
    rfl
  rw [raw] at printed
  exact printed

/-- What is printed for a parsed packet when no section is skipped. -/
theorem parse_raw (frame : XapFrame) (fits : d.length ≤ xapDataLen) (msg : Mem) (size : Nat) :
    (parsedMsgToRawF (parseMsgF (frame.load d)) msg size).2 = (layout ((scan d).blocks.map Block.text)).length ∧
      ((parsedMsgToRawF (parseMsgF (frame.load d)) msg size).2 < size →
        CStr (parsedMsgToRawF (parseMsgF (frame.load d)) msg size).1 0
          (layout ((scan d).blocks.map Block.text))) := by
  have all : keptSections none ((scan d).blocks.map Block.text) = (scan d).blocks.map Block.text :=
    filter_eq_self.2 fun _ _ => rfl
  obtain ⟨length, str⟩ := parse_raw_without frame fits msg size none
  rw [all] at length str
  exact ⟨length, fun room => str (length ▸ room)⟩

/-- Scanning the layout of sections that fit the table. -/
theorem scan_layout (ok : ∀ s ∈ sections, s.Ok) (room : (sections.flatMap Section.elements).length ≤ xapMsgElements) :
    (scan (layout sections)).blocks.map Block.text = sections := by
  obtain ⟨blocks, texts, read, -⟩ := run_layout ok (s := Scan.start) rfl
    (by simpa [Scan.closedCount, Scan.start] using room)
  rw [scan, read, ← texts]
  rfl

/-- The layout is read as well without its last line end. -/
theorem scan_layout_cut (ok : ∀ s ∈ sections, s.Ok)
    (room : (sections.flatMap Section.elements).length < xapMsgElements) {text : Bytes}
    (cut : text ++ "\n" = layout sections) : (scan text).blocks.map Block.text = sections := by
  have whole := scan_layout ok (le_of_lt room)
  have room' : Scan.start.closedCount + (sections.flatMap Section.elements).length < xapMsgElements := by
    simpa [Scan.closedCount, Scan.start] using room
  obtain ⟨-, -, -, outside⟩ := run_layout ok (s := Scan.start) rfl (le_of_lt room')
  have last : scan (layout sections) = (scan text).step 10 := by
    rw [← cut, scan, Scan.run_append]
    rfl
  have after : ((scan text).step 10).mode = .startSectionName := by
    rw [← last]
    exact outside room'
  rw [last, Scan.step_newline after] at whole
  exact whole

/-- Two frames hold the same message: the same elements, strings and grouping. -/
structure SameMessage (f g : XapFrame) : Prop where
  count : g.parsedMsgCount = f.parsedMsgCount
  strings : ∀ i, i < f.parsedMsgCount → g.strings i = f.strings i
  grouping : ∀ i j, i < f.parsedMsgCount → j < f.parsedMsgCount →
    ((g.parsedMsg i).sectionPtr = (g.parsedMsg j).sectionPtr ↔
      (f.parsedMsg i).sectionPtr = (f.parsedMsg j).sectionPtr)

theorem Shows.same {f g : XapFrame} (hf : Shows f sections) (hg : Shows g sections) : SameMessage f g := by
  have count := hg.count.trans hf.count.symm
  refine ⟨count, fun i hi => ?_, fun i j hi hj => ?_⟩
  · have equal := congrArg (·[i]?) (hg.strings.trans hf.strings.symm)
    simpa [hi, count] using equal
  · rw [hf.grouping i j hi hj, hg.grouping i j (count ▸ hi) (count ▸ hj)]

/-- **Canonicalisation**: parsing what was printed for a parsed packet gives the same message. -/
theorem parse_canonical (f0 g0 : XapFrame) (d : Bytes) (msg : Mem) (size : Nat)
    (clean : ∀ c ∈ d, c ≠ 0) (short : d.length ≤ 1499)
    (capacity : (parseMsgF (f0.load d)).parsedMsgCount ≤ xapMsgElements)
    (room : (parsedMsgToRawF (parseMsgF (f0.load d)) msg size).2 < size)
    (fits : (parsedMsgToRawF (parseMsgF (f0.load d)) msg size).2 ≤ xapDataLen) :
    SameMessage (parseMsgF (f0.load d)) (parseMsgF (g0.load
      (bytesAt (parsedMsgToRawF (parseMsgF (f0.load d)) msg size).1 0
        (parsedMsgToRawF (parseMsgF (f0.load d)) msg size).2))) := by
  have small : d.length ≤ xapDataLen := Nat.le_trans short (by decide)
  obtain ⟨length, str⟩ := parse_raw f0 small msg size
  have printed : bytesAt (parsedMsgToRawF (parseMsgF (f0.load d)) msg size).1 0
      (parsedMsgToRawF (parseMsgF (f0.load d)) msg size).2 = layout ((scan d).blocks.map Block.text) := by
    rw [length]
    exact (str room).bytesAt_eq
  have first := parse_shows f0 small
  have ok : ∀ s ∈ (scan d).blocks.map Block.text, s.Ok := by
    intro s hs
    obtain ⟨b, hb, rfl⟩ := mem_map.1 hs
    exact scan_ok clean b hb
  have second := parse_shows g0 (d := layout ((scan d).blocks.map Block.text)) (by rw [← length]; exact fits)
  rw [scan_layout ok (by rw [← first.count]; exact capacity)] at second
  rw [printed]
  exact first.same second

/-- A packet with leading noise, a key ended by a carriage return and an unfinished tail. -/
def noisyPacket : Bytes := "\tA\n\x7b\nk=v\nq\r\n\x7db\x7b\x7djunk"

theorem parse_canonical_noisy :
    (parseMsgF (XapFrame.blank.load noisyPacket)).parsedMsgCount = 3 ∧
      SameMessage (parseMsgF (XapFrame.blank.load noisyPacket)) (parseMsgF (XapFrame.blank.load
        (bytesAt (parsedMsgToRawF (parseMsgF (XapFrame.blank.load noisyPacket)) (fun _ => 0) 100).1 0
          (parsedMsgToRawF (parseMsgF (XapFrame.blank.load noisyPacket)) (fun _ => 0) 100).2))) :=
  ⟨by decide +kernel,
    parse_canonical XapFrame.blank XapFrame.blank noisyPacket (fun _ => 0) 100 (by decide +kernel)
      (by decide +kernel) (by decide +kernel) (by decide +kernel) (by decide +kernel)⟩

/-- The pairs of a message with the name of their section, in order. -/
def sectionPairs (sections : List Section) : List (Bytes × Bytes × Bytes) :=
  sections.flatMap fun s => s.pairs.map fun p => (s.name, p)

/-- The first pair that a section and a key select, without case. -/
def lookup (sections : List Section) (sectionName key : Bytes) : Option Bytes :=
  ((sectionPairs sections).find? fun p => strcasecmpEq sectionName p.1 && strcasecmpEq key p.2.1).map (·.2.2)

theorem find_element (sectionName key : Bytes) (s : Section) :
    (s.elements.map elementStrings).find? (elementMatches sectionName (some key)) =
      ((s.pairs.map fun p => (s.name, p)).find? fun p =>
        strcasecmpEq sectionName p.1 && strcasecmpEq key p.2.1).map fun p => elementStrings (p.1, some p.2) := by
  unfold Section.elements
  split_ifs with empty
  · simp [empty, elementMatches, elementStrings]
  · rw [find?_map, find?_map, find?_map]
    simp only [Option.map_map]
    rfl

/-- A lookup in a frame is the lookup in the message it shows. -/
theorem Shows.getValue (h : Shows fr sections) (sectionName key : Bytes) :
    xapGetValueF fr sectionName (some key) = lookup sections sectionName key := by
  have found : ((sections.flatMap Section.elements).map elementStrings).find?
        (elementMatches sectionName (some key)) =
      ((sectionPairs sections).find? fun p =>
        strcasecmpEq sectionName p.1 && strcasecmpEq key p.2.1).map fun p => elementStrings (p.1, some p.2) := by
    rw [map_flatMap]
    unfold sectionPairs
    rw [find?_flatMap, find?_flatMap, map_findSome?]
    exact congrFun (congrArg List.findSome? (funext fun s => find_element sectionName key s)) sections
  unfold xapGetValueF lookup
  rw [h.strings, found]
  cases (sectionPairs sections).find? fun p => strcasecmpEq sectionName p.1 && strcasecmpEq key p.2.1 with
  | none => rfl
  | some p => simp [elementStrings]

/-- The type of a frame is read off the first section it shows. -/
theorem Shows.hbeat_iff (h : Shows fr sections) :
    xapGetTypeF fr = .hbeat ↔ ∃ s ∈ sections.head?, strcasecmpEq s.name "xap-hbeat" = true := by
  cases sections with
  | nil =>
    have none : fr.parsedMsgCount = 0 := h.count
    simp [xapGetTypeF, none]
  | cons s rest =>
    obtain ⟨pair, more, elements⟩ : ∃ pair more, s.elements = (s.name, pair) :: more := by
      unfold Section.elements
      cases s.pairs with
      | nil => exact ⟨none, [], rfl⟩
      | cons p pairs => exact ⟨some p, pairs.map fun p => (s.name, some p), by simp⟩
    have counted := h.count
    rw [flatMap_cons, elements] at counted
    have first := congrArg (·[0]?) h.strings
    have some_element : fr.parsedMsgCount ≠ 0 := by simp at counted; omega
    have name : (fr.parsedMsg 0).sectionPtr.map fr.str = some s.name := by
      simpa [flatMap_cons, elements, Nat.pos_of_ne_zero some_element, XapFrame.strings, elementStrings]
        using congrArg (Option.map (·.1)) first
    simp only [xapGetTypeF, some_element, if_false, name, Option.getD_some, head?_cons, Option.mem_def,
      Option.some.injEq, exists_eq_left']
    split_ifs with isHbeat <;> simp [isHbeat]

/-- **Decode undoes encode**: a laid out message is shown after parsing, looked up by its
first matching pair, and printed again as it was. -/
theorem parse_layout (frame : XapFrame) (m : Message)
    (capacity : (m.sections.flatMap Section.elements).length ≤ xapMsgElements)
    (fits : (layout m.sections).length ≤ xapDataLen) :
    Shows (parseMsgF (frame.load (layout m.sections))) m.sections ∧
      (∀ sectionName key, xapGetValueF (parseMsgF (frame.load (layout m.sections))) sectionName (some key) =
        lookup m.sections sectionName key) ∧
      (∀ msg size, (layout m.sections).length < size →
        CStr (parsedMsgToRawF (parseMsgF (frame.load (layout m.sections))) msg size).1 0 (layout m.sections)) := by
  have shows := parse_shows frame fits
  have read := scan_layout m.ok capacity
  rw [read] at shows
  refine ⟨shows, fun sectionName key => shows.getValue sectionName key, fun msg size room => ?_⟩
  obtain ⟨length, str⟩ := parse_raw frame fits msg size
  rw [read] at length str
  exact str (length ▸ room)

/-- A section with a pair and an empty value, and an empty section. -/
def smallMessage : Message where
  sections := [⟨"A", [("k", "v"), ("q", [])]⟩, ⟨"b", []⟩]
  ok := by
    have name : ∀ c : UInt8, 32 < c → c < 128 → NameOk [c] := fun c low high =>
      ⟨⟨c, [], rfl, low, high, by simp⟩, by simp; rintro rfl; revert low; decide,
        fun _ => by simpa using UInt8.le_of_lt low⟩
    have key : ∀ c : UInt8, 32 < c → c < 128 → c ≠ rbrace → KeyOk [c] := fun c low high other =>
      ⟨⟨c, [], rfl, low, high, other, by simp⟩⟩
    intro s hs
    simp only [mem_cons, not_mem_nil, or_false] at hs
    rcases hs with rfl | rfl
    · refine ⟨name 65 (by decide) (by decide), fun p hp => ?_⟩
      simp only [mem_cons, not_mem_nil, or_false] at hp
      rcases hp with rfl | rfl
      · exact ⟨key 107 (by decide) (by decide) (by decide), bytes_of_all (by decide)⟩
      · exact ⟨key 113 (by decide) (by decide) (by decide), bytes_of_all (by decide)⟩
    · exact ⟨name 98 (by decide) (by decide), by simp⟩

theorem parse_layout_small :
    Shows (parseMsgF (XapFrame.blank.load (layout smallMessage.sections))) smallMessage.sections ∧
      xapGetValueF (parseMsgF (XapFrame.blank.load (layout smallMessage.sections))) "a"
        (some "Q") = some [] := by
  obtain ⟨shows, value, -⟩ := parse_layout XapFrame.blank smallMessage (by decide +kernel) (by decide +kernel)
  exact ⟨shows, (value "a" "Q").trans (by decide +kernel)⟩

end Hah.Xap
