import Mathlib.Data.List.DropRight
import Hah.Xap.Parse

/-!
# xAP messages and their scan

What `parseMsgF` is for: a packet is a sequence of sections, each a name and a list
of key/value pairs. `layout` is the text of a message as `parsedMsgToRawF` prints it.

`Scan` reads a text without touching it and yields the sections with the offsets
their strings start at. It is the specification the in-place scanner is compared
with in `Hah.Xap.Simulation`; everything here is about texts alone.
-/

namespace Hah.Xap
open C List Bool

/-- A section name the serialiser can print and the scanner reads back. -/
structure NameOk (name : Bytes) : Prop where
  first : ∃ c rest, name = c :: rest ∧ 32 < c ∧ c < 128 ∧ ∀ x ∈ rest, x ≠ lbrace
  clean : ∀ x ∈ name, x ≠ 0
  last : ∀ h : name ≠ [], 32 ≤ name.getLast h

/-- A key that starts a pair and is not ended before its `=`. -/
structure KeyOk (key : Bytes) : Prop where
  first : ∃ c rest, key = c :: rest ∧ 32 < c ∧ c < 128 ∧ c ≠ rbrace ∧ ∀ x ∈ rest, 32 ≤ x ∧ x ≠ equals

def ValueOk (value : Bytes) : Prop := ∀ x ∈ value, 32 ≤ x

/-- A printable byte that may stand first. -/
def leads (c : UInt8) : Bool := 32 < c && c < 128

/-- The check of a name made of visible bytes. -/
def plainName (name : Bytes) : Bool := name.head?.any leads && name.all fun c => 32 ≤ c && c != lbrace

/-- The check of a key made of visible bytes. -/
def plainKey (key : Bytes) : Bool :=
  key.head?.any (fun c => leads c && c != rbrace) && key.all fun c => 32 ≤ c && c != equals

/-- The check of a name is sound. -/
theorem NameOk.of_plain {name : Bytes} (plain : plainName name = true) : NameOk name := by
  simp only [plainName, and_eq_true, all_eq_true, decide_eq_true_eq, bne_iff_ne] at plain
  obtain ⟨first, visible⟩ := plain
  cases name with
  | nil => simp at first
  | cons c rest =>
    simp only [head?_cons, Option.any_some, leads, and_eq_true, decide_eq_true_eq] at first
    refine ⟨⟨c, rest, rfl, first.1, first.2, fun x mem => ?_⟩, fun x mem zero => ?_, fun filled => ?_⟩
    · exact (visible x (mem_cons_of_mem c mem)).2
    · exact absurd (zero ▸ (visible x mem).1) (by decide)
    · exact (visible _ (getLast_mem filled)).1

/-- The check of a key is sound. -/
theorem KeyOk.of_plain {key : Bytes} (plain : plainKey key = true) : KeyOk key := by
  simp only [plainKey, leads, and_eq_true, all_eq_true, decide_eq_true_eq, bne_iff_ne] at plain
  obtain ⟨first, visible⟩ := plain
  cases key with
  | nil => simp at first
  | cons c rest =>
    simp only [head?_cons, Option.any_some, and_eq_true, decide_eq_true_eq, bne_iff_ne] at first
    exact ⟨c, rest, rfl, first.1.1, first.1.2, first.2, fun x mem => visible x (mem_cons_of_mem c mem)⟩

/-- A name and its key/value pairs. -/
structure Section where
  name : Bytes
  pairs : List (Bytes × Bytes)
  deriving DecidableEq, Repr

structure Section.Ok (s : Section) : Prop where
  name : NameOk s.name
  pairs : ∀ p ∈ s.pairs, KeyOk p.1 ∧ ValueOk p.2

/-- A structured message: sections that can be laid out. -/
structure Message where
  sections : List Section
  ok : ∀ s ∈ sections, s.Ok

def pairLayout (p : Bytes × Bytes) : Bytes := p.1 ++ [equals] ++ p.2 ++ "\n"

def Section.layout (s : Section) : Bytes :=
  s.name ++ "\n\x7b\n" ++ s.pairs.flatMap pairLayout ++ "\x7d\n"

def layout (sections : List Section) : Bytes := sections.flatMap Section.layout

/-- One element per pair, one without a key for an empty section. -/
def Section.elements (s : Section) : List (Bytes × Option (Bytes × Bytes)) :=
  if s.pairs = [] then [(s.name, none)] else s.pairs.map fun p => (s.name, some p)

/-- A string of the packet and the offset of its first byte. -/
structure Field where
  start : Nat
  text : Bytes
  deriving DecidableEq, Repr

def Field.push (f : Field) (c : UInt8) : Field := { f with text := f.text ++ [c] }

/-- A section as it lies in the packet. -/
structure Block where
  name : Field
  pairs : List (Field × Field)
  deriving DecidableEq, Repr

def Block.text (b : Block) : Section :=
  { name := b.name.text, pairs := b.pairs.map fun p => (p.1.text, p.2.text) }

/-- An element of the frame with the places of its strings. -/
abbrev Element := Field × Option (Field × Field)

def Block.elements (b : Block) : List Element :=
  if b.pairs = [] then [(b.name, none)] else b.pairs.map fun p => (b.name, some p)

/-- The strings of an element without their places. -/
def elementText (e : Element) : Bytes × Option (Bytes × Bytes) :=
  (e.1.text, e.2.map fun p => (p.1.text, p.2.text))

/-- The name between the first byte of a section and its brace: trailing control
bytes go, and a NUL ends the string early. -/
def nameText (raw : Bytes) : Bytes :=
  (raw.rdropWhile fun c => c < 32).takeWhile (· ≠ 0)

/-- What is read of the current section. -/
inductive Mode where
  | startSectionName
  | inSectionName (raw : Field)
  | startKeyname (cur : Block)
  | inKeyname (cur : Block) (key : Field)
  | inKeyvalue (cur : Block) (key value : Field)
  | full (cur : Block)
  deriving DecidableEq, Repr

def Mode.current : Mode → Option Block
  | .startSectionName | .inSectionName _ => none
  | .startKeyname cur | .inKeyname cur _ | .inKeyvalue cur _ _ | .full cur => some cur

/-- A scan of a text up to offset `pos`. -/
structure Scan where
  pos : Nat
  closed : List Block
  mode : Mode
  deriving DecidableEq, Repr

def Scan.start : Scan := { pos := 0, closed := [], mode := .startSectionName }

/-- The open section counts once it has a pair. -/
def Mode.pending (m : Mode) : List Block :=
  match m.current with
  | none => []
  | some cur => if cur.pairs = [] then [] else [cur]

def Scan.blocks (s : Scan) : List Block := s.closed ++ s.mode.pending

def Scan.elements (s : Scan) : List Element := s.blocks.flatMap Block.elements

def Block.addPair (b : Block) (key value : Field) : Block := { b with pairs := b.pairs ++ [(key, value)] }

/-- The mode after a pair: the scan ends when the table is full. -/
def Scan.afterPair (s : Scan) (cur : Block) : Mode :=
  if xapMsgElements ≤ (s.closed.flatMap Block.elements).length + cur.pairs.length then .full cur
  else .startKeyname cur

def Scan.step (s : Scan) (c : UInt8) : Scan :=
  match s.mode with
  | .startSectionName =>
    if 32 < c ∧ c < 128 then { s with pos := s.pos + 1, mode := .inSectionName ⟨s.pos, [c]⟩ }
    else { s with pos := s.pos + 1 }
  | .inSectionName raw =>
    if c = lbrace then
      { s with pos := s.pos + 1, mode := .startKeyname ⟨⟨raw.start, nameText raw.text⟩, []⟩ }
    else { s with pos := s.pos + 1, mode := .inSectionName (raw.push c) }
  | .startKeyname cur =>
    if c = rbrace then { pos := s.pos + 1, closed := s.closed ++ [cur], mode := .startSectionName }
    else if 32 < c ∧ c < 128 then { s with pos := s.pos + 1, mode := .inKeyname cur ⟨s.pos, [c]⟩ }
    else { s with pos := s.pos + 1 }
  | .inKeyname cur key =>
    if c < 32 ∨ c = equals then
      { s with pos := s.pos + 1, mode := .inKeyvalue cur key ⟨s.pos + 1, []⟩ }
    else { s with pos := s.pos + 1, mode := .inKeyname cur (key.push c) }
  | .inKeyvalue cur key value =>
    if c < 32 then { s with pos := s.pos + 1, mode := s.afterPair (cur.addPair key value) }
    else { s with pos := s.pos + 1, mode := .inKeyvalue cur key (value.push c) }
  | .full _ => { s with pos := s.pos + 1 }

def Scan.run (s : Scan) (text : Bytes) : Scan := text.foldl Scan.step s

def scan (text : Bytes) : Scan := Scan.start.run text

variable (s : Scan)

@[simp] theorem Scan.run_nil : s.run [] = s := rfl

@[simp] theorem Scan.run_cons (c : UInt8) (text : Bytes) :
    s.run (c :: text) = (s.step c).run text := rfl

/-- A text is scanned piece by piece. -/
theorem Scan.run_append (a b : Bytes) : s.run (a ++ b) = (s.run a).run b :=
  foldl_append

/-- Every byte moves the offset by one. -/
@[simp] theorem Scan.step_pos (c : UInt8) : (s.step c).pos = s.pos + 1 := by
  unfold Scan.step
  cases s.mode <;> simp only <;> split_ifs <;> rfl

/-- The offset behind a text. -/
theorem Scan.run_pos (text : Bytes) : (s.run text).pos = s.pos + text.length := by
  induction text generalizing s with
  | nil => rfl
  | cons c text ih =>
    rw [Scan.run_cons, ih, Scan.step_pos, length_cons]
    omega

/-- The elements of a section, with and without their places. -/
theorem Block.elements_text (b : Block) : b.elements.map elementText = b.text.elements := by
  unfold Block.elements Section.elements Block.text
  by_cases empty : b.pairs = [] <;> simp [empty, elementText]

/-- The same for several sections. -/
theorem elements_text (blocks : List Block) :
    (blocks.flatMap Block.elements).map elementText = (blocks.map Block.text).flatMap Section.elements := by
  rw [map_flatMap, flatMap_map]
  exact flatMap_congr fun b _ => b.elements_text

end Hah.Xap
