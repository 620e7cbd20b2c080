import Hah.Xap.Capacity

/-!
# The buffer of the serialiser

Every `snprintf` of `parsedMsgToRawWithoutSectionF` is given the whole `size`, not what is
left of it. As long as the running length stays below `size` nothing outside the buffer is
touched (`Grows`); once it has passed `size`, the closing brace is written behind the
buffer. So the buffer is respected exactly when the text to print is shorter than it
(`raw_confined_iff`), and that text can be longer than the packet it came from.
-/

namespace Hah.Xap
open C

/-- The length grows, and while it is below `size` the memory behind the buffer stays. -/
structure Grows (size : Nat) (s t : RawState) : Prop where
  len : s.len ≤ t.len
  outside : t.len < size → ∀ j, size ≤ j → t.msg j = s.msg j

variable {size : Nat} {s t : RawState} {frame : XapFrame}

theorem Grows.refl (size : Nat) (s : RawState) : Grows size s s :=
  ⟨le_refl _, fun _ _ _ => rfl⟩

theorem Grows.trans {u : RawState} (first : Grows size s t) (second : Grows size t u) : Grows size s u := by
  refine ⟨first.len.trans second.len, fun below j behind => ?_⟩
  have middle := Nat.lt_of_le_of_lt second.len below
  rw [second.outside below j behind, first.outside middle j behind]

theorem grows_print (size : Nat) (s : RawState) (text : Bytes) : Grows size s (s.print size text) := by
  refine ⟨Nat.le_add_right _ _, fun below j behind => ?_⟩
  have ends : s.len + text.length < size := below
  simp only [RawState.print, snprintf]
  rw [if_neg (by omega), if_neg (by omega), if_neg (by omega)]

theorem grows_close (size : Nat) (s : RawState) :
    Grows size s (if s.currentSection ≠ none then s.print size "\x7d\n" else s) := by
  split_ifs
  · exact grows_print size s _
  · exact Grows.refl size s

/-- One element, whatever the frame holds for it. -/
theorem grows_element (frame : XapFrame) (size : Nat) (skip : Option Bytes) (s : RawState) (i : Nat) :
    Grows size s (rawElement frame size skip s i) := by
  -- a section change closes the open section and prints the new name
  have opening : ∀ (change : Prop) [Decidable change] (name : Bytes) (current : Option Nat),
      Grows size s (if change then
        { (if s.currentSection ≠ none then s.print size "\x7d\n" else s).print size name
          with currentSection := current } else s) := by
    intro change _ name current
    split
    · obtain ⟨len, outside⟩ := (grows_close size s).trans (grows_print size _ name)
      exact ⟨len, outside⟩
    · exact Grows.refl size s
  unfold rawElement
  dsimp only
  split
  · exact Grows.refl size s
  · cases (frame.parsedMsg i).keyPtr with
    | none => exact opening _ _ _
    | some k => exact (opening _ _ _).trans (grows_print size _ _)

theorem grows_elements (frame : XapFrame) (size : Nat) (skip : Option Bytes) (indices : List Nat)
    (s : RawState) : Grows size s (indices.foldl (rawElement frame size skip) s) := by
  induction indices generalizing s with
  | nil => exact Grows.refl size s
  | cons i indices ih => exact (grows_element frame size skip s i).trans (ih _)

/-- A text that ends below `size` leaves everything behind the buffer as it was. -/
theorem raw_outside (frame : XapFrame) (msg : Mem) (skip : Option Bytes)
    (short : (parsedMsgToRawWithoutSectionF frame msg size skip).2 < size) {j : Nat} (behind : size ≤ j) :
    (parsedMsgToRawWithoutSectionF frame msg size skip).1 j = msg j := by
  have run := (grows_elements frame size skip (List.range frame.parsedMsgCount)
    { msg := store msg 0 0, len := 0, currentSection := none }).trans (grows_close size _)
  have positive : j ≠ 0 := by omega
  exact (run.outside short j behind).trans (store_other positive)

/-- Two prints of the same text into different buffers. -/
structure Twin (size : Nat) (s t : RawState) : Prop where
  len : s.len = t.len
  current : s.currentSection = t.currentSection
  text : t.len < size → ∃ text, CStr s.msg 0 text ∧ CStr t.msg 0 text ∧ text.length = t.len

theorem Twin.print (h : Twin size s t) {text : Bytes} (clean : ∀ c ∈ text, c ≠ 0) :
    Twin size (s.print size text) (t.print size text) := by
  refine ⟨congrArg (· + text.length) h.len, h.current, fun short => ?_⟩
  have ends : t.len + text.length < size := short
  obtain ⟨done, left, right, length⟩ := h.text (by omega)
  have printedLeft := left.snprintf clean (show text.length < size by omega)
  have printedRight := right.snprintf clean (show text.length < size by omega)
  rw [Nat.zero_add, length] at printedLeft printedRight
  rw [← h.len] at printedLeft
  exact ⟨done ++ text, printedLeft, printedRight, by rw [List.length_append, length]; rfl⟩

theorem Twin.close (h : Twin size s t) :
    Twin size (if s.currentSection ≠ none then s.print size "\x7d\n" else s)
      (if t.currentSection ≠ none then t.print size "\x7d\n" else t) := by
  rw [h.current]
  split
  · exact h.print (bytes_of_all (by decide))
  · exact h

theorem Twin.element (h : Twin size s t) (frame : XapFrame) (skip : Option Bytes)
    (i : Nat) : Twin size (rawElement frame size skip s i) (rawElement frame size skip t i) := by
  have strings : ∀ p : Option Nat, ∀ c ∈ (p.map frame.str).getD [], c ≠ 0 := by
    intro p
    cases p with
    | none => exact fun c mem => absurd mem List.not_mem_nil
    | some p => exact strAt_clean _ _ _
  have brace : ∀ c ∈ ascii "\n\x7b\n", c ≠ 0 := bytes_of_all (by decide)
  -- a section change closes the open section and prints the new name
  have opening : ∀ change : Prop, ∀ [Decidable change],
      Twin size
        (if change then { (if s.currentSection ≠ none then s.print size "\x7d\n" else s).print size
          (((frame.parsedMsg i).sectionPtr.map frame.str).getD [] ++ "\n\x7b\n")
            with currentSection := (frame.parsedMsg i).sectionPtr } else s)
        (if change then { (if t.currentSection ≠ none then t.print size "\x7d\n" else t).print size
          (((frame.parsedMsg i).sectionPtr.map frame.str).getD [] ++ "\n\x7b\n")
            with currentSection := (frame.parsedMsg i).sectionPtr } else t) := by
    intro change _
    split
    · obtain ⟨len, -, text⟩ := h.close.print (List.forall_mem_append.2 ⟨strings (frame.parsedMsg i).sectionPtr, brace⟩)
      exact ⟨len, rfl, text⟩
    · exact h
  unfold rawElement
  dsimp only
  rw [← h.current]
  split
  · exact h
  · have opened := opening (s.currentSection = none ∨ s.currentSection ≠ (frame.parsedMsg i).sectionPtr)
    rw [← h.current] at opened
    cases (frame.parsedMsg i).keyPtr with
    | none => exact opened
    | some k => exact opened.print (pairLayout_clean (strAt_clean _ _ _) (strings (frame.parsedMsg i).valuePtr))

theorem Twin.elements (frame : XapFrame) (skip : Option Bytes) (indices : List Nat) :
    ∀ {s t : RawState}, Twin size s t →
      Twin size (indices.foldl (rawElement frame size skip) s) (indices.foldl (rawElement frame size skip) t) := by
  induction indices with
  | nil => exact fun h => h
  | cons i indices ih => exact fun h => ih (h.element frame skip i)

/-- **What is printed does not depend on the buffer**: the same length, and the same text where it
fits. -/
theorem raw_twin (frame : XapFrame) (msg msg' : Mem) (size : Nat) (skip : Option Bytes) :
    (parsedMsgToRawWithoutSectionF frame msg size skip).2 = (parsedMsgToRawWithoutSectionF frame msg' size skip).2 ∧
      ((parsedMsgToRawWithoutSectionF frame msg' size skip).2 < size → ∃ text,
        CStr (parsedMsgToRawWithoutSectionF frame msg size skip).1 0 text ∧
          CStr (parsedMsgToRawWithoutSectionF frame msg' size skip).1 0 text ∧
          text.length = (parsedMsgToRawWithoutSectionF frame msg' size skip).2) := by
  have empty : ∀ m : Mem, CStr (store m 0 0) 0 [] := fun m => ⟨by simp, by simp, by simp⟩
  have start : Twin size ⟨store msg 0 0, 0, none⟩ ⟨store msg' 0 0, 0, none⟩ :=
    ⟨rfl, rfl, fun _ => ⟨[], empty msg, empty msg', rfl⟩⟩
  have done := (start.elements frame skip (List.range frame.parsedMsgCount)).close
  exact ⟨done.len, done.text⟩

/-- An element is skipped, or leaves its section open. -/
theorem rawElement_opens (size : Nat) (skip : Option Bytes) (s : RawState) {i : Nat}
    (named : (frame.parsedMsg i).sectionPtr ≠ none) :
    rawElement frame size skip s i = s ∨ (rawElement frame size skip s i).currentSection ≠ none := by
  have opened : ∀ t : RawState, t.currentSection = (frame.parsedMsg i).sectionPtr →
      (if s.currentSection = none ∨ s.currentSection ≠ (frame.parsedMsg i).sectionPtr then t else s).currentSection ≠
        none := by
    intro t new
    split
    next => rwa [new]
    next same =>
      intro none
      exact same (.inl none)
  unfold rawElement
  dsimp only
  split
  · exact .inl rfl
  · right
    cases (frame.parsedMsg i).keyPtr with
    | none => exact opened _ rfl
    | some k => exact opened _ rfl

/-- Nothing is printed before a section is open. -/
theorem idle_elements (size : Nat) (skip : Option Bytes) {indices : List Nat}
    (named : ∀ i ∈ indices, (frame.parsedMsg i).sectionPtr ≠ none) :
    ∀ {s : RawState}, (s.currentSection = none → s.len = 0) →
      (indices.foldl (rawElement frame size skip) s).currentSection = none →
      (indices.foldl (rawElement frame size skip) s).len = 0 := by
  induction indices with
  | nil => exact fun idle => idle
  | cons i indices ih =>
    intro s idle
    apply ih (fun k hk => named k (List.mem_cons_of_mem i hk))
    rcases rawElement_opens size skip s (named i List.mem_cons_self) with same | opened
    · rwa [same]
    · exact fun none => absurd none opened

/-- The closing brace is printed last, two bytes before the end of the text: its terminator is
the byte behind the text, or the last one of `size`. -/
theorem raw_terminator (msg : Mem) (skip : Option Bytes)
    (named : ∀ i, i < frame.parsedMsgCount → (frame.parsedMsg i).sectionPtr ≠ none) (room : 1 ≤ size)
    (printed : (parsedMsgToRawWithoutSectionF frame msg size skip).2 ≠ 0) :
    2 ≤ (parsedMsgToRawWithoutSectionF frame msg size skip).2 ∧
      (parsedMsgToRawWithoutSectionF frame msg size skip).1
        ((parsedMsgToRawWithoutSectionF frame msg size skip).2 - 2 + min 2 (size - 1)) = 0 := by
  have all : ∀ i ∈ List.range frame.parsedMsgCount, (frame.parsedMsg i).sectionPtr ≠ none :=
    fun i hi => named i (List.mem_range.1 hi)
  have idle := idle_elements size skip all (s := { msg := store msg 0 0, len := 0, currentSection := none })
    (fun _ => rfl)
  unfold parsedMsgToRawWithoutSectionF at printed ⊢
  dsimp only at printed ⊢
  revert idle printed
  generalize (List.range frame.parsedMsgCount).foldl (rawElement frame size skip)
    { msg := store msg 0 0, len := 0, currentSection := none } = t
  intro printed idle
  by_cases closed : t.currentSection = none
  · rw [if_neg (by simpa using closed)] at printed
    exact absurd (idle closed) printed
  · rw [if_pos closed]
    have brace : (ascii "\x7d\n").length = 2 := rfl
    simp only [RawState.print, snprintf, brace, Nat.add_sub_cancel]
    rw [if_neg (by omega), if_neg (by omega), if_pos trivial]
    exact ⟨by omega, rfl⟩

/-- The buffer is respected, whatever it held: nothing is written outside of its `size` bytes,
and a terminator lies among them. -/
structure Confined (frame : XapFrame) (size : Nat) (skip : Option Bytes) : Prop where
  outside : ∀ (msg : Mem) (j : Nat), size ≤ j →
    (parsedMsgToRawWithoutSectionF frame msg size skip).1 j = msg j
  ended : ∀ msg : Mem, ∃ n, n < size ∧ (parsedMsgToRawWithoutSectionF frame msg size skip).1 n = 0

theorem parse_named (frame : XapFrame) {d : Bytes} (fits : d.length ≤ xapDataLen) (i : Nat)
    (hi : i < (parseMsgF (frame.load d)).parsedMsgCount) :
    ((parseMsgF (frame.load d)).parsedMsg i).sectionPtr ≠ none := by
  have recorded := parse_recorded frame fits
  rw [recorded.count] at hi
  rw [recorded.slots i hi]
  exact Option.some_ne_none _

/-- A text of at least `size` bytes is terminated behind the buffer. -/
theorem not_confined {skip : Option Bytes}
    (named : ∀ i, i < frame.parsedMsgCount → (frame.parsedMsg i).sectionPtr ≠ none) (room : 1 ≤ size)
    (long : size + 2 ≤ (parsedMsgToRawWithoutSectionF frame (fun _ => 1) size skip).2 ∨
      (size ≤ (parsedMsgToRawWithoutSectionF frame (fun _ => 1) size skip).2 ∧ 3 ≤ size)) :
    ¬ Confined frame size skip := by
  intro confined
  obtain ⟨two, nul⟩ := raw_terminator (fun _ => 1) skip named room (by omega)
  rw [confined.outside (fun _ => 1) _ (by omega)] at nul
  exact absurd nul (by decide)

/-- A section takes at least the five bytes around its name and pairs. -/
theorem layout_long {sections : List Section} (printed : sections ≠ []) : 5 ≤ (layout sections).length := by
  obtain ⟨s, rest, rfl⟩ := List.exists_cons_of_ne_nil printed
  have opening : (ascii "\n\x7b\n").length = 3 := rfl
  have closing : (ascii "\x7d\n").length = 2 := rfl
  simp only [layout, List.flatMap_cons, Section.layout, List.length_append, opening, closing]
  omega

/-- **The serialiser's buffer**: for a parsed packet it is respected iff the text to print, the
layout of the sections that are not skipped, is shorter than the buffer. -/
theorem raw_confined_iff (frame : XapFrame) (d : Bytes) (fits : d.length ≤ xapDataLen)
    (skip : Option Bytes) (size : Nat) (room : 1 ≤ size) :
    Confined (parseMsgF (frame.load d)) size skip ↔
      (layout (keptSections skip ((scan d).blocks.map Block.text))).length < size := by
  have printed := fun msg => parse_raw_without frame fits msg size skip
  constructor
  · intro confined
    by_contra long
    have some : keptSections skip ((scan d).blocks.map Block.text) ≠ [] := by
      intro none
      rw [none] at long
      exact long room
    have five := layout_long some
    refine not_confined (fun i => parse_named frame fits i) room ?_ confined
    rw [(printed _).1]
    omega
  · intro short
    refine ⟨fun msg j behind => ?_, fun msg => ⟨_, short, ?_⟩⟩
    · exact raw_outside _ msg skip (by rw [(printed msg).1]; exact short) behind
    · have nul := ((printed msg).2 short).nul
      rwa [Nat.zero_add] at nul

theorem raw_confined_noisy :
    Confined (parseMsgF (XapFrame.blank.load noisyPacket)) 100 none :=
  (raw_confined_iff XapFrame.blank noisyPacket (by decide) none 100 (by decide)).2 (by decide +kernel)

/-- A header and 130 empty sections, each on fewer bytes than it is printed with. -/
def terseSections : Bytes :=
  ascii "xap-header\x7bclass=a\n\x7d" ++ (List.replicate 130 (ascii "state.01\x7b\x7d")).flatten

/-- A packet of 1320 bytes that fits the element table overruns the buffers of `fillShortXap`,
of `packetDump` and of `xAPtoClient`. -/
theorem terseSections_overrun :
    terseSections.length = 1320 ∧ FitsTable terseSections ∧
      ¬ Confined (parseMsgF (XapFrame.blank.load terseSections)) 1500 (some (ascii "xap-header")) ∧
      ¬ Confined (parseMsgF (XapFrame.blank.load terseSections)) 1500 none ∧
      ¬ Confined (parseMsgF (XapFrame.blank.load terseSections)) 1507 none := by
  have fits : terseSections.length ≤ xapDataLen := by decide +kernel
  have long : ∀ size skip, size ≤ (layout (keptSections skip ((scan terseSections).blocks.map Block.text))).length →
      3 ≤ size → ¬ Confined (parseMsgF (XapFrame.blank.load terseSections)) size skip := by
    intro size skip long three
    refine not_confined (fun i => parse_named XapFrame.blank fits i) (by omega) (.inr ⟨?_, three⟩)
    rw [(parse_raw_without XapFrame.blank fits _ size skip).1]
    exact long
  have whole : 1507 ≤ (layout (keptSections none ((scan terseSections).blocks.map Block.text))).length := by
    decide +kernel
  exact ⟨by decide +kernel, by decide +kernel, long 1500 _ (by decide +kernel) (by decide),
    long 1500 _ (by omega) (by decide), long 1507 _ whole (by decide)⟩

end Hah.Xap
