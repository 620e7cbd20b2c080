import Hah.Xap.RoundTrip

/-!
# `XapClass` of the Arduino library

`parseMsg` is the scanner of the Linux library with one state more: behind the end of a key
it waits for a printable byte before the value begins. So a value is never empty
(`getValue_nonempty`), and the line behind `key=` is taken for its value. The table has 20
slots, and a message that fills it is thrown away.
-/

namespace Hah.Arduino
open C Xap

def maxXapPairs : Nat := 20

/-- `struct xapmsg_buffer`: pointers into the message. -/
structure XapmsgBuffer where
  sectionPtr : Option Nat
  keyPtr : Option Nat
  valuePtr : Option Nat
  deriving DecidableEq, Repr

/-- The parsed message of `XapClass`, and the memory and size it was parsed with. -/
structure XapClass where
  msg : Mem
  size : Nat
  xapMsg : Nat → XapmsgBuffer
  xapMsgPairs : Nat

def XapClass.blank : XapClass :=
  { msg := fun _ => 0, size := 0, xapMsg := fun _ => ⟨none, none, none⟩, xapMsgPairs := 0 }

inductive ArduinoState where
  | startSectionName
  | inSectionName
  | startKeyname
  | inKeyname
  | startKeyvalue
  | inKeyvalue
  deriving DecidableEq, Repr

/-- The locals of `parseMsg`. -/
structure Parser where
  state : ArduinoState
  currentSection : Option Nat
  x : XapClass

def XapClass.slot (x : XapClass) : XapmsgBuffer := x.xapMsg x.xapMsgPairs

def XapClass.setSlot (x : XapClass) (e : XapmsgBuffer) : XapClass :=
  { x with xapMsg := fun j => if j = x.xapMsgPairs then e else x.xapMsg j }

variable {m : Mem} {p : Parser} {buf : Nat} {ptr : Option Nat} (x : XapClass)

theorem XapClass.setSlot_slot (e : XapmsgBuffer) : (x.setSlot e).slot = e := if_pos rfl

/-- `*buf = '\0'; rtrim(msg, buf)`. -/
def XapClass.terminate (x : XapClass) (buf : Nat) : XapClass :=
  { x with msg := rtrim (store x.msg buf 0) buf }

/-- The count behind one more pair: a full table is emptied. -/
def XapClass.countPair (x : XapClass) : XapClass :=
  { x with xapMsgPairs := if maxXapPairs ≤ x.xapMsgPairs + 1 then 0 else x.xapMsgPairs + 1 }

theorem XapClass.countPair_le : x.countPair.xapMsgPairs ≤ x.xapMsgPairs + 1 := by
  unfold XapClass.countPair
  split
  · exact Nat.zero_le _
  · exact Nat.le_refl _

/-- The `switch` of `parseMsg` at the byte `buf`. -/
def Parser.char (p : Parser) (buf : Nat) : Parser :=
  let c := p.x.msg buf
  match p.state with
  | .startSectionName =>
    if 32 < c ∧ c < 128 then { p with state := .inSectionName, currentSection := some buf } else p
  | .inSectionName => if c = lbrace then { p with x := p.x.terminate buf, state := .startKeyname } else p
  | .startKeyname =>
    if c = rbrace then { p with state := .startSectionName }
    else if 32 < c ∧ c < 128 then
      { p with
        x := p.x.setSlot { p.x.slot with sectionPtr := p.currentSection, keyPtr := some buf }
        state := .inKeyname }
    else p
  | .inKeyname =>
    if c < 32 ∨ c = equals then { p with x := p.x.terminate buf, state := .startKeyvalue } else p
  | .startKeyvalue =>
    if 32 < c ∧ c < 128 then
      { p with x := p.x.setSlot { p.x.slot with valuePtr := some buf }, state := .inKeyvalue }
    else p
  | .inKeyvalue =>
    if c < 32 then { p with x := (p.x.terminate buf).countPair, state := .startKeyname } else p

/-- The `for` loop, with `left` bytes to go. -/
def parseBytes : Nat → Nat → Parser → Parser
  | 0, _, p => p
  | left + 1, buf, p => parseBytes left (buf + 1) (p.char buf)

def Parser.start (x : XapClass) : Parser :=
  { state := .startSectionName, currentSection := none, x := { x with xapMsgPairs := 0 } }

/-- `parseMsg(msg, size)`, on the memory and size in `x`. -/
def XapClass.parseMsg (x : XapClass) : XapClass := (parseBytes x.size 0 (Parser.start x)).x

/-- The message in the buffer; what lies behind it is left over. -/
def XapClass.load (x : XapClass) (d : Bytes) : XapClass :=
  { x with msg := fun j => if j < d.length then d.getD j 0 else x.msg j, size := d.length }

def XapClass.str (x : XapClass) (p : Nat) : Bytes := strAt x.msg (x.size - p) p

def XapClass.strings (x : XapClass) (i : Nat) :
    Option Bytes × Option Bytes × Option Bytes :=
  ((x.xapMsg i).sectionPtr.map x.str, (x.xapMsg i).keyPtr.map x.str, (x.xapMsg i).valuePtr.map x.str)

/-- `getValue`: the text of the value, `none` for `NULL`. -/
def XapClass.getValue (x : XapClass) (sectionName key : Bytes) : Option Bytes :=
  (((List.range x.xapMsgPairs).map x.strings).find? fun e =>
    strcasecmpEq sectionName (e.1.getD []) && strcasecmpEq key (e.2.1.getD [])).bind (·.2.2)

/-! ## Values are never empty -/

/-- Trimming leaves the printable bytes. -/
theorem rtrim_printable {p j : Nat} (printable : ¬ m j < 32) : rtrim m p j = m j := by
  induction p generalizing m with
  | zero => rfl
  | succ p ih =>
    rw [rtrim]
    split_ifs with control
    · have other : j ≠ p + 1 := by
        rintro rfl
        exact printable control
      rw [ih (by rwa [store_other other]), store_other other]
    · rfl

/-- A pointer to a printable byte before `buf`. -/
def Points (m : Mem) (buf : Nat) (ptr : Option Nat) : Prop := ∃ v, ptr = some v ∧ v < buf ∧ 32 < m v

theorem Points.advance (h : Points m buf ptr) : Points m (buf + 1) ptr := by
  obtain ⟨v, rfl, below, printable⟩ := h
  exact ⟨v, rfl, by omega, printable⟩

theorem Points.terminate {x : XapClass} (h : Points x.msg buf ptr) : Points (x.terminate buf).msg buf ptr := by
  obtain ⟨v, rfl, below, printable⟩ := h
  have kept : store x.msg buf 0 v = x.msg v := store_other (by omega)
  have same : (x.terminate buf).msg v = x.msg v := by
    show rtrim (store x.msg buf 0) buf v = x.msg v
    rw [rtrim_printable (by rw [kept]; exact UInt8.not_lt.2 (UInt8.le_of_lt printable)), kept]
  exact ⟨v, rfl, below, by rwa [same]⟩

/-- The values of the pairs counted so far, and of the one being read, begin with a printable byte. -/
structure Begun (buf : Nat) (p : Parser) : Prop where
  counted : ∀ i, i < p.x.xapMsgPairs → Points p.x.msg buf (p.x.xapMsg i).valuePtr
  reading : p.state = .inKeyvalue → Points p.x.msg buf p.x.slot.valuePtr

/-- What is counted survives a store behind it and a new slot. -/
theorem Begun.slots (h : Begun buf p) (e : XapmsgBuffer) (i : Nat)
    (counted : i < p.x.xapMsgPairs) : Points p.x.msg buf ((p.x.setSlot e).xapMsg i).valuePtr := by
  have other : ¬ i = p.x.xapMsgPairs := by omega
  simp only [XapClass.setSlot, if_neg other]
  exact h.counted i counted

theorem Begun.char (h : Begun buf p) : Begun (buf + 1) (p.char buf) := by
  have old : ∀ i, i < p.x.xapMsgPairs → Points p.x.msg (buf + 1) (p.x.xapMsg i).valuePtr :=
    fun i counted => (h.counted i counted).advance
  have ended : ∀ i, i < p.x.xapMsgPairs → Points (p.x.terminate buf).msg (buf + 1) (p.x.xapMsg i).valuePtr :=
    fun i counted => (h.counted i counted).terminate.advance
  unfold Parser.char
  cases state : p.state with
  | startSectionName =>
    dsimp only
    split_ifs
    · exact ⟨old, by simp⟩
    · exact ⟨old, by simp [state]⟩
  | inSectionName =>
    dsimp only
    split_ifs
    · exact ⟨ended, by simp⟩
    · exact ⟨old, by simp [state]⟩
  | startKeyname =>
    dsimp only
    split_ifs
    · exact ⟨old, by simp⟩
    · exact ⟨fun i counted => (h.slots _ i counted).advance, by simp⟩
    · exact ⟨old, by simp [state]⟩
  | inKeyname =>
    dsimp only
    split_ifs
    · exact ⟨ended, by simp⟩
    · exact ⟨old, by simp [state]⟩
  | startKeyvalue =>
    dsimp only
    split_ifs with printable
    · refine ⟨fun i counted => (h.slots _ i counted).advance, fun _ => ?_⟩
      exact ⟨buf, by simp [XapClass.setSlot_slot], Nat.lt_succ_self buf, printable.1⟩
    · exact ⟨old, by simp [state]⟩
  | inKeyvalue =>
    dsimp only
    split_ifs with control
    · refine ⟨fun i counted => ?_, by simp⟩
      have small := Nat.le_of_lt_succ (Nat.lt_of_lt_of_le counted (p.x.terminate buf).countPair_le)
      rcases Nat.lt_or_eq_of_le small with before | last
      · exact ended i before
      · rw [last]
        exact (h.reading state).terminate.advance
    · exact ⟨old, fun _ => (h.reading state).advance⟩

theorem Begun.bytes (left : Nat) : ∀ {buf : Nat} {p : Parser}, Begun buf p →
    Begun (buf + left) (parseBytes left buf p) := by
  induction left with
  | zero => exact fun h => h
  | succ left ih =>
    intro buf p h
    have rest := ih h.char
    rwa [Nat.add_assoc, Nat.add_comm 1 left] at rest

theorem parseBytes_size {left : Nat} : ∀ (buf : Nat) (p : Parser), (parseBytes left buf p).x.size = p.x.size := by
  induction left with
  | zero => exact fun _ _ => rfl
  | succ left ih =>
    intro buf p
    have step : (p.char buf).x.size = p.x.size := by
      unfold Parser.char
      cases p.state <;> dsimp only <;> split_ifs <;> rfl
    rw [parseBytes, ih, step]

/-- **No value is empty**, whatever the message. -/
theorem getValue_nonempty (sectionName key : Bytes) :
    x.parseMsg.getValue sectionName key ≠ some [] := by
  have start : Begun 0 (Parser.start x) := ⟨fun i counted => absurd counted (Nat.not_lt_zero i), by simp [Parser.start]⟩
  have begun := start.bytes x.size
  have size : x.parseMsg.size = x.size := parseBytes_size 0 (Parser.start x)
  intro empty
  obtain ⟨e, found, value⟩ := Option.bind_eq_some_iff.1 empty
  obtain ⟨i, inside, rfl⟩ := List.mem_map.1 (List.mem_of_find?_eq_some found)
  obtain ⟨v, ptr, below, printable⟩ := begun.counted i (List.mem_range.1 inside)
  have text : x.parseMsg.str v = [] := by
    have same : (x.parseMsg.xapMsg i).valuePtr = some v := ptr
    simpa [XapClass.strings, same] using value
  have nonzero : x.parseMsg.msg v ≠ 0 := by
    intro zero
    have high : (32 : UInt8) < x.parseMsg.msg v := printable
    rw [zero] at high
    exact absurd high (by decide)
  obtain ⟨n, room⟩ : ∃ n, x.parseMsg.size - v = n + 1 := ⟨x.size - v - 1, by rw [size]; omega⟩
  rw [XapClass.str, room, strAt, if_neg nonzero] at text
  exact absurd text (by simp)

end Hah.Arduino
