import Mathlib.Data.List.Nodup
import Hah.Xap.Capacity
import Hah.Arduino.Parse

/-!
# The two scanners on one message

`parseMsgF` of the Linux library and `parseMsg` of the Arduino library, byte by byte on the
same packet. They write the same bytes and set the same pointers as long as every value
begins with a printable byte right behind its `=` (`Twin`); the Arduino scanner is then in
its extra state exactly before that byte. So on a well formed packet the two read the same
message when no value is empty, and when they do, no value that can be looked up is empty
(`same_message`).
-/

namespace Hah.Arduino
open C Xap Bool
open List hiding lookup

/-! ## Well formed packets -/

/-- Printable, and none of space, braces and `=`. -/
def word (c : UInt8) : Bool := 32 < c && c < 127 && c != lbrace && c != rbrace && c != equals

/-- A name or a key. -/
def isWord (text : Bytes) : Bool := text != [] && text.all word

/-- A value: printable, without a leading space. -/
def isValueText (text : Bytes) : Bool := text.all (fun c => 32 ≤ c && c < 127) && text.head? != some 32

structure WellFormed (sections : List Section) : Prop where
  names : ∀ s ∈ sections, isWord s.name = true
  pairs : ∀ s ∈ sections, ∀ p ∈ s.pairs, isWord p.1 = true ∧ isValueText p.2 = true
  filled : ∀ s ∈ sections, s.pairs ≠ []
  few : (sections.flatMap Section.pairs).length ≤ 19

variable {c : UInt8} {text rest : Bytes}

/-- The bytes of a word. -/
theorem word_bytes (h : word c = true) : 32 < c ∧ c < 128 ∧ c ≠ lbrace ∧ c ≠ rbrace ∧ c ≠ equals := by
  simp only [word, and_eq_true, decide_eq_true_eq, bne_iff_ne] at h
  obtain ⟨⟨⟨⟨low, high⟩, open_⟩, close⟩, sep⟩ := h
  exact ⟨low, UInt8.lt_trans high (by decide), open_, close, sep⟩

theorem isWord_cons (h : isWord text = true) : ∃ c rest, text = c :: rest ∧ ∀ x ∈ c :: rest, word x = true := by
  simp only [isWord, and_eq_true, bne_iff_ne, all_eq_true] at h
  obtain ⟨c, rest, rfl⟩ := exists_cons_of_ne_nil h.1
  exact ⟨c, rest, rfl, h.2⟩

theorem isWord_name (h : isWord text = true) : NameOk text := by
  obtain ⟨c, rest, rfl, all⟩ := isWord_cons h
  have first := word_bytes (all c mem_cons_self)
  refine ⟨⟨c, rest, rfl, first.1, first.2.1, fun x hx => ?_⟩, fun x hx zero => ?_, fun some => ?_⟩
  · exact (word_bytes (all x (mem_cons_of_mem c hx))).2.2.1
  · exact absurd (zero ▸ (word_bytes (all x hx)).1) (by decide)
  · exact UInt8.le_of_lt (word_bytes (all _ (getLast_mem some))).1

theorem isWord_key (h : isWord text = true) : KeyOk text := by
  obtain ⟨c, rest, rfl, all⟩ := isWord_cons h
  have first := word_bytes (all c mem_cons_self)
  refine ⟨⟨c, rest, rfl, first.1, first.2.1, first.2.2.2.1, fun x hx => ?_⟩⟩
  have byte := word_bytes (all x (mem_cons_of_mem c hx))
  exact ⟨UInt8.le_of_lt byte.1, byte.2.2.2.2⟩

theorem isValueText_ok (h : isValueText text = true) : ValueOk text := by
  simp only [isValueText, and_eq_true, all_eq_true, decide_eq_true_eq] at h
  exact fun x hx => (h.1 x hx).1

/-- A value that is not empty begins with a visible byte. -/
theorem isValueText_first (h : isValueText (c :: text) = true) : 32 < c ∧ c < 128 := by
  simp only [isValueText, and_eq_true, all_eq_true, decide_eq_true_eq, bne_iff_ne, head?_cons, ne_eq,
    Option.some.injEq] at h
  obtain ⟨all, other⟩ := h
  obtain ⟨low, high⟩ := all c mem_cons_self
  exact ⟨UInt8.lt_of_le_of_ne low (Ne.symm other), UInt8.lt_trans high (by decide)⟩

theorem WellFormed.ok {sections : List Section} (h : WellFormed sections) : ∀ s ∈ sections, s.Ok :=
  fun s hs => ⟨isWord_name (h.names s hs),
    fun p hp => ⟨isWord_key (h.pairs s hs p hp).1, isValueText_ok (h.pairs s hs p hp).2⟩⟩

/-! ## One byte -/

inductive Spot where
  | outside
  | name
  | body (fresh : Bool)
  | key
  | gap
  | value
  deriving DecidableEq, Repr

/-- The text goes on in a way that both scanners read alike, with at most `room` pairs: a section
has a pair, and a value begins right behind its `=`. -/
def Alike : Nat → Spot → Bytes → Prop
  | _, _, [] => True
  | room, .outside, c :: text => Alike room (if 32 < c ∧ c < 128 then .name else .outside) text
  | room, .name, c :: text => Alike room (if c = lbrace then .body true else .name) text
  | room, .body fresh, c :: text =>
    (fresh = true → c ≠ rbrace) ∧
      Alike room (if c = rbrace then .outside else if 32 < c ∧ c < 128 then .key else .body fresh) text
  | room, .key, c :: text => Alike room (if c < 32 ∨ c = equals then .gap else .key) text
  | room, .gap, c :: text => (32 < c ∧ c < 128) ∧ Alike room .value text
  | room, .value, c :: text =>
    if c < 32 then 0 < room ∧ Alike (room - 1) (.body false) text else Alike room .value text

def pointers (e : ParsedMsgElement) : XapmsgBuffer := ⟨e.sectionPtr, e.keyPtr, e.valuePtr⟩

/-- The states of the two scanners, and what they have of the pair being read. -/
def Spot.At (buf : Nat) (s : Scanner) (p : Parser) : Spot → Prop
  | .outside => s.state = .startSectionName ∧ p.state = .startSectionName
  | .name => s.state = .inSectionName ∧ p.state = .inSectionName
  | .body fresh => s.state = .startKeyname ∧ p.state = .startKeyname ∧ (fresh = false → s.keycount ≠ 0)
  | .key => s.state = .inKeyname ∧ p.state = .inKeyname ∧
      p.x.slot.sectionPtr = (s.frame.parsedMsg s.frame.parsedMsgCount).sectionPtr ∧
      p.x.slot.keyPtr = (s.frame.parsedMsg s.frame.parsedMsgCount).keyPtr
  | .gap => s.state = .inKeyvalue ∧ p.state = .startKeyvalue ∧
      p.x.slot.sectionPtr = (s.frame.parsedMsg s.frame.parsedMsgCount).sectionPtr ∧
      p.x.slot.keyPtr = (s.frame.parsedMsg s.frame.parsedMsgCount).keyPtr ∧
      (s.frame.parsedMsg s.frame.parsedMsgCount).valuePtr = some buf
  | .value => s.state = .inKeyvalue ∧ p.state = .inKeyvalue ∧
      p.x.slot = pointers (s.frame.parsedMsg s.frame.parsedMsgCount)

/-- The two libraries hold the same message so far, with room for as many pairs. -/
structure SameMemory (len room : Nat) (fr : XapFrame) (x : XapClass) : Prop where
  mem : ∀ j, j < len → x.msg j = fr.dataPacket j
  len : fr.len = len
  count : x.xapMsgPairs = fr.parsedMsgCount
  slots : ∀ j, j < fr.parsedMsgCount → x.xapMsg j = pointers (fr.parsedMsg j)
  room : fr.parsedMsgCount + room ≤ 19

/-- The scanners before the byte `buf`. -/
structure Twin (len buf room : Nat) (spot : Spot) (s : Scanner) (p : Parser) : Prop where
  memory : SameMemory len room s.frame p.x
  index : s.i = buf
  current : p.currentSection = s.currentSection
  spot : spot.At buf s p

/-- Trimming depends on the bytes below only. -/
theorem rtrim_same {p len : Nat} : ∀ {m m' : Mem}, p < len → (∀ j, j < len → m j = m' j) →
    ∀ j, j < len → rtrim m p j = rtrim m' p j := by
  induction p with
  | zero => exact fun _ same => same
  | succ p ih =>
    intro m m' below same j inside
    rw [rtrim, rtrim, same (p + 1) below]
    split_ifs
    · refine ih (by omega) (fun k hk => ?_) j inside
      simp only [store]
      split
      · rfl
      · exact same k hk
    · exact same j inside

section Memory

variable {len room : Nat} {fr : XapFrame} {x : XapClass}

section

variable (h : SameMemory len room fr x)
include h

theorem SameMemory.terminate {buf : Nat} (inside : buf < len) :
    SameMemory len room { fr with dataPacket := rtrim (store fr.dataPacket buf 0) buf } (x.terminate buf) := by
  refine ⟨fun j below => ?_, h.len, h.count, h.slots, h.room⟩
  refine rtrim_same inside (fun k hk => ?_) j below
  simp only [store]
  split
  · rfl
  · exact h.mem k hk

/-- The slots behind the counted ones do not matter. -/
theorem SameMemory.setSlot (e : ParsedMsgElement) (e' : XapmsgBuffer) :
    SameMemory len room { fr with parsedMsg := fun j => if j = fr.parsedMsgCount then e else fr.parsedMsg j }
      (x.setSlot e') := by
  refine ⟨h.mem, h.len, h.count, fun j counted => ?_, h.room⟩
  have other := Nat.ne_of_lt counted
  have other' : ¬ j = x.xapMsgPairs := by rwa [h.count]
  simp only [XapClass.setSlot, if_neg other, if_neg other']
  exact h.slots j counted

/-- The Linux scanner sets the value's pointer already at the end of the key. -/
theorem SameMemory.setLinux (e : ParsedMsgElement) :
    SameMemory len room { fr with parsedMsg := fun j => if j = fr.parsedMsgCount then e else fr.parsedMsg j } x := by
  refine ⟨h.mem, h.len, h.count, fun j counted => ?_, h.room⟩
  dsimp only
  rw [if_neg (Nat.ne_of_lt counted)]
  exact h.slots j counted

theorem SameMemory.setArduino (e : XapmsgBuffer) :
    SameMemory len room fr (x.setSlot e) := by
  refine ⟨h.mem, h.len, h.count, fun j counted => ?_, h.room⟩
  have other : ¬ j = x.xapMsgPairs := by
    rw [h.count]
    omega
  simp only [XapClass.setSlot, if_neg other]
  exact h.slots j counted

/-- One more pair in both. -/
theorem SameMemory.countPair (more : 0 < room)
    (slot : x.slot = pointers (fr.parsedMsg fr.parsedMsgCount)) :
    SameMemory len (room - 1) { fr with parsedMsgCount := fr.parsedMsgCount + 1 } x.countPair := by
  have bound := h.room
  have counted : x.countPair.xapMsgPairs = fr.parsedMsgCount + 1 := by
    have small : ¬ maxXapPairs ≤ x.xapMsgPairs + 1 := by
      rw [h.count, maxXapPairs]
      omega
    simp only [XapClass.countPair]
    rw [if_neg small, h.count]
  refine ⟨h.mem, h.len, counted, fun j below => ?_, by dsimp only; omega⟩
  rcases Nat.lt_or_eq_of_le (Nat.le_of_lt_succ below) with old | rfl
  · exact h.slots j old
  · rw [← slot, XapClass.slot, h.count]
    rfl

end

end Memory

/-- **One byte** leaves the two scanners alike. -/
theorem Twin.step {len buf room : Nat} {spot : Spot} {s : Scanner} {p : Parser} (h : Twin len buf room spot s p)
    (inside : buf < len) (byte : s.frame.dataPacket buf = c) (alike : Alike room spot (c :: text)) :
    ∃ room' spot', Twin len (buf + 1) room' spot' (parseNext s buf) (p.char buf) ∧ Alike room' spot' text := by
  obtain ⟨memory, index, current, at_⟩ := h
  have byte' := (memory.mem buf inside).trans byte
  have next : s.i + 1 = buf + 1 := by rw [index]
  unfold parseNext parseChar Parser.char
  rw [byte, byte']
  cases spot with
  | outside =>
    obtain ⟨state, state'⟩ := at_
    simp only [Alike] at alike
    simp only [state, state']
    split_ifs at alike ⊢
    · exact ⟨room, .name, ⟨memory, next, rfl, rfl, rfl⟩, alike⟩
    · exact ⟨room, .outside, ⟨memory, next, current, state, state'⟩, alike⟩
  | name =>
    obtain ⟨state, state'⟩ := at_
    simp only [Alike] at alike
    simp only [state, state']
    split_ifs at alike ⊢
    · exact ⟨room, .body true, ⟨memory.terminate inside, next, current, rfl, rfl, by simp⟩, alike⟩
    · exact ⟨room, .name, ⟨memory, next, current, state, state'⟩, alike⟩
  | body fresh =>
    obtain ⟨state, state', used⟩ := at_
    obtain ⟨filled, alike⟩ := alike
    simp only [state, state']
    by_cases brace : c = rbrace
    · have notFresh : fresh = false := by simpa using mt filled (not_not.2 brace)
      simp only [if_pos brace, if_neg (used notFresh)] at alike ⊢
      exact ⟨room, .outside, ⟨memory, next, current, rfl, rfl⟩, alike⟩
    · simp only [if_neg brace] at alike ⊢
      split_ifs at alike ⊢
      · refine ⟨room, .key, ⟨memory.setSlot _ _, next, current, rfl, rfl, ?_, ?_⟩, alike⟩
        · simp [XapClass.setSlot_slot, Scanner.storeElement, current]
        · simp [XapClass.setSlot_slot, Scanner.storeElement]
      · exact ⟨room, .body fresh, ⟨memory, next, current, state, state', used⟩, alike⟩
  | key =>
    obtain ⟨state, state', sectionPtr, keyPtr⟩ := at_
    simp only [Alike] at alike
    simp only [state, state']
    split_ifs at alike ⊢
    · have slot : (p.x.terminate buf).slot = p.x.slot := rfl
      refine ⟨room, .gap, ⟨(memory.terminate inside).setLinux _, next, current, rfl, rfl, ?_, ?_, ?_⟩, alike⟩
      · simpa [Scanner.storeElement, Scanner.terminate, slot] using sectionPtr
      · simpa [Scanner.storeElement, Scanner.terminate, slot] using keyPtr
      · simp [Scanner.storeElement, Scanner.terminate]
    · exact ⟨room, .key, ⟨memory, next, current, state, state', sectionPtr, keyPtr⟩, alike⟩
  | gap =>
    obtain ⟨state, state', sectionPtr, keyPtr, valuePtr⟩ := at_
    obtain ⟨printable, alike⟩ := alike
    have plain := UInt8.not_lt.2 (UInt8.le_of_lt printable.1)
    simp only [state, state', if_pos printable, if_neg plain]
    refine ⟨room, .value, ⟨memory.setArduino _, next, current, rfl, rfl, ?_⟩, alike⟩
    simp only [XapClass.setSlot_slot, pointers, sectionPtr, keyPtr, valuePtr]
  | value =>
    obtain ⟨state, state', slot⟩ := at_
    simp only [Alike] at alike
    simp only [state, state']
    by_cases control : c < 32
    · simp only [if_pos control] at alike ⊢
      obtain ⟨more, alike⟩ := alike
      have bound := memory.room
      have small : ¬ xapMsgElements ≤ ((s.terminate buf).countElement).frame.parsedMsgCount := by
        show ¬ 150 ≤ s.frame.parsedMsgCount + 1
        omega
      simp only [if_neg small]
      have counted := (memory.terminate inside).countPair more slot
      exact ⟨room - 1, .body false, ⟨counted, next, current, rfl, rfl, by simp⟩, alike⟩
    · simp only [if_neg control] at alike ⊢
      exact ⟨room, .value, ⟨memory, next, current, state, state', slot⟩, alike⟩

/-- The two loops, to the end of the packet. -/
theorem Twin.loop {len : Nat} : ∀ {buf room fuel : Nat} {spot : Spot} {s : Scanner} {p : Parser},
    Twin len buf room spot s p → (∀ j (hj : j < text.length), s.frame.dataPacket (buf + j) = text[j]) →
    buf + text.length = len → text.length ≤ fuel → Alike room spot text →
    ∃ left, SameMemory len left (parseLoop fuel buf s).frame (parseBytes text.length buf p).x := by
  induction text with
  | nil =>
    intro buf room fuel spot s p h _ ends _ _
    have stop : s.frame.len ≤ s.i := by
      rw [h.memory.len, h.index, ← ends]
      exact Nat.le_refl _
    rw [parseLoop_ended stop]
    exact ⟨room, h.memory⟩
  | cons c text ih =>
    intro buf room fuel spot s p h bytes ends fits alike
    rw [length_cons] at ends fits
    obtain ⟨fuel, rfl⟩ : ∃ n, fuel = n + 1 := ⟨fuel - 1, by omega⟩
    have more : s.i < s.frame.len := by
      rw [h.memory.len, h.index]
      omega
    have first := bytes 0 (by simp)
    obtain ⟨room', spot', next, rest⟩ := h.step (by omega) first alike
    have later : ∀ j (hj : j < text.length), (parseNext s buf).frame.dataPacket (buf + 1 + j) = text[j] := by
      intro j hj
      show (parseChar s buf).frame.dataPacket (buf + 1 + j) = text[j]
      rw [parseChar_ahead s (by omega), Nat.add_assoc, Nat.add_comm 1 j]
      exact bytes (j + 1) (by simpa using hj)
    have done := ih next later (by omega) (Nat.le_of_succ_le_succ fits) rest
    simpa [parseLoop, more, parseNext, parseBytes] using done

/-! ## Well formed packets without empty values -/

theorem Alike.name {room : Nat} {name : Bytes} (ok : NameOk name) (after : Alike room (.body true) rest) :
    Alike room .outside (name ++ ("\n\x7b\n" ++ rest)) := by
  obtain ⟨c, tail, rfl, low, high, plain⟩ := ok.first
  have inside : ∀ text : Bytes, (∀ x ∈ text, x ≠ lbrace) →
      Alike room .name (text ++ ("\n\x7b\n" ++ rest)) := by
    intro text
    induction text with
    | nil => exact fun _ => ⟨by decide, after⟩
    | cons x text ih =>
      intro other
      rw [cons_append, Alike, if_neg (other x mem_cons_self)]
      exact ih fun y hy => other y (mem_cons_of_mem x hy)
  rw [cons_append, Alike, if_pos ⟨low, high⟩]
  exact inside tail plain

theorem Alike.value {room : Nat} (after : Alike room (.body false) rest) {value : Bytes}
    (ok : ValueOk value) : Alike (room + 1) .value (value ++ ("\n" ++ rest)) := by
  induction value with
  | nil => exact ⟨Nat.succ_pos room, after⟩
  | cons c value ih =>
    have plain := UInt8.not_lt.2 (ok c mem_cons_self)
    rw [cons_append, Alike, if_neg plain]
    exact ih fun x hx => ok x (mem_cons_of_mem c hx)

theorem Alike.pair {room : Nat} {key value : Bytes} (after : Alike room (.body false) rest)
    (keyOk : KeyOk key) (valueOk : isValueText value = true) (nonempty : value ≠ []) (fresh : Bool) :
    Alike (room + 1) (.body fresh) (pairLayout (key, value) ++ rest) := by
  obtain ⟨c, tail, rfl, low, high, open_, plain⟩ := keyOk.first
  obtain ⟨v, value, rfl⟩ := exists_cons_of_ne_nil nonempty
  have printable := isValueText_first valueOk
  have ok := isValueText_ok valueOk
  have behind : Alike (room + 1) .gap (v :: (value ++ ("\n" ++ rest))) :=
    ⟨printable, after.value fun x hx => ok x (mem_cons_of_mem v hx)⟩
  have inside : ∀ text : Bytes, (∀ x ∈ text, 32 ≤ x ∧ x ≠ equals) →
      Alike (room + 1) .key (text ++ (equals :: v :: (value ++ ("\n" ++ rest)))) := by
    intro text
    induction text with
    | nil =>
      intro _
      rw [nil_append, Alike, if_pos (.inr rfl)]
      exact behind
    | cons x text ih =>
      intro all
      obtain ⟨visible, other⟩ := all x mem_cons_self
      have stays : ¬ (x < 32 ∨ x = equals) := by
        rintro (control | same)
        · exact UInt8.not_lt.2 visible control
        · exact other same
      rw [cons_append, Alike, if_neg stays]
      exact ih fun y hy => all y (mem_cons_of_mem x hy)
  simp only [pairLayout, append_assoc, cons_append, nil_append, Alike, if_neg open_,
    if_pos (And.intro low high)]
  exact ⟨fun _ => open_, inside tail plain⟩

theorem Alike.pairs {room : Nat} (after : Alike room .outside rest) {pairs : List (Bytes × Bytes)}
    (ok : ∀ p ∈ pairs, KeyOk p.1 ∧ isValueText p.2 = true ∧ p.2 ≠ []) :
    ∀ fresh : Bool, (fresh = true → pairs ≠ []) →
      Alike (room + pairs.length) (.body fresh) (pairs.flatMap pairLayout ++ ("\x7d\n" ++ rest)) := by
  induction pairs with
  | nil =>
    intro fresh some
    cases fresh with
    | true => exact absurd rfl (some rfl)
    | false => exact ⟨by simp, after⟩
  | cons p pairs ih =>
    intro fresh _
    obtain ⟨key, value, nonempty⟩ := ok p mem_cons_self
    have later := ih (fun q hq => ok q (mem_cons_of_mem p hq)) false (by simp)
    rw [flatMap_cons, append_assoc, length_cons, ← Nat.add_assoc]
    exact later.pair key value nonempty fresh

/-- Both read a packet without empty values alike. -/
theorem Alike.layout {sections : List Section} (formed : WellFormed sections)
    (values : ∀ s ∈ sections, ∀ p ∈ s.pairs, p.2 ≠ []) :
    Alike (sections.flatMap Section.pairs).length .outside (layout sections) := by
  obtain ⟨names, pairs, filled, -⟩ := formed
  induction sections with
  | nil => trivial
  | cons s sections ih =>
    have rest := ih (fun t ht => values t (mem_cons_of_mem s ht)) (fun t ht => names t (mem_cons_of_mem s ht))
      (fun t ht => pairs t (mem_cons_of_mem s ht)) fun t ht => filled t (mem_cons_of_mem s ht)
    have ok : ∀ p ∈ s.pairs, KeyOk p.1 ∧ isValueText p.2 = true ∧ p.2 ≠ [] := by
      intro p hp
      obtain ⟨key, value⟩ := pairs s mem_cons_self p hp
      exact ⟨isWord_key key, value, values s mem_cons_self p hp⟩
    have body := rest.pairs ok true fun _ => filled s mem_cons_self
    have whole := body.name (isWord_name (names s mem_cons_self))
    rw [flatMap_cons, length_append, Nat.add_comm]
    simpa [Xap.layout, Section.layout, append_assoc] using whole

/-! ## The message both read -/

/-- The strings of the Arduino's pairs are those of the frame. -/
theorem SameMemory.strings {len room : Nat} {fr : XapFrame} {x : XapClass} (h : SameMemory len room fr x)
    (size : x.size = len) (fits : len ≤ xapDataLen) {m0 : Mem} {es : List Element}
    (recorded : Recorded m0 len len len es fr) :
    (List.range x.xapMsgPairs).map x.strings = (List.range fr.parsedMsgCount).map fr.strings := by
  rw [h.count]
  refine map_congr_left fun i hi => ?_
  have inside := mem_range.1 hi
  have text : ∀ f : Field, Settled fr.dataPacket len f → x.str f.start = fr.str f.start := by
    intro f settled
    obtain ⟨str, below⟩ := settled
    have str' : CStr x.msg f.start f.text :=
      ⟨fun j hj => (h.mem _ (by omega)).trans (str.bytes j hj), (h.mem _ below).trans str.nul, str.clean⟩
    have here : x.str f.start = f.text := str'.strAt_eq (by rw [size]; omega)
    have there : fr.str f.start = f.text := str.strAt_eq (by omega)
    rw [here, there]
  have counted := inside
  rw [recorded.count] at counted
  obtain ⟨name, pair⟩ := recorded.strings _ (getElem_mem counted)
  simp only [XapClass.strings, XapFrame.strings, h.slots i inside, recorded.slots i counted, pointers, elementPtrs,
    Option.map_some, text _ name]
  cases found : es[i].2 with
  | none => rfl
  | some p =>
    obtain ⟨key, value⟩ := pair p found
    simp only [Option.map_some, text _ key, text _ value]

theorem elements_pairs {sections : List Section} (filled : ∀ s ∈ sections, s.pairs ≠ []) :
    (sections.flatMap Section.elements).map elementStrings =
      (sectionPairs sections).map fun p => (some p.1, some p.2.1, some p.2.2) := by
  unfold sectionPairs
  rw [map_flatMap, map_flatMap]
  refine flatMap_congr fun s hs => ?_
  rw [Section.elements, if_neg (filled s hs), map_map, map_map]
  rfl

/-- The two libraries look up the same values in a packet. -/
def Agree (frame : XapFrame) (x : XapClass) (packet : Bytes) : Prop :=
  ∀ sectionName key : Bytes, (x.load packet).parseMsg.getValue sectionName key =
    xapGetValueF (parseMsgF (frame.load packet)) sectionName (some key)

def NoneEmpty (sections : List Section) : Prop := ∀ s ∈ sections, ∀ p ∈ s.pairs, p.2 ≠ []

instance (sections : List Section) : Decidable (NoneEmpty sections) :=
  inferInstanceAs (Decidable (∀ s ∈ sections, ∀ p ∈ s.pairs, p.2 ≠ []))

/-- No pair has the section and the key of another one, without case. -/
def Distinct (sections : List Section) : Prop :=
  ((sectionPairs sections).map fun p => (p.1.map tolower, p.2.1.map tolower)).Nodup

section Packet

variable {sections : List Section} (frame : XapFrame) (x : XapClass)

section

variable (formed : WellFormed sections)
include formed

section

variable (fits : (layout sections).length ≤ xapDataLen)
include fits

/-- The frame of the Linux library shows the sections of a packet. -/
theorem linux_shows :
    Shows (parseMsgF (frame.load (layout sections))) sections := by
  have few : (sections.flatMap Section.elements).length ≤ xapMsgElements := by
    have same := congrArg List.length (elements_pairs formed.filled)
    have count : (sectionPairs sections).length = (sections.flatMap Section.pairs).length := by
      simp [sectionPairs, length_flatMap]
    rw [length_map, length_map, count] at same
    have bound := formed.few
    have size : xapMsgElements = 150 := rfl
    omega
  have shows := parse_shows frame fits
  rwa [scan_layout formed.ok few] at shows

/-- When no value is empty, the Arduino library has the strings of the Linux library. -/
theorem same_strings
    (values : NoneEmpty sections) : let parsed := (x.load (layout sections)).parseMsg
    let fr := parseMsgF (frame.load (layout sections))
    (List.range parsed.xapMsgPairs).map parsed.strings = (List.range fr.parsedMsgCount).map fr.strings := by
  have start : Twin (layout sections).length 0 (sections.flatMap Section.pairs).length .outside
      (parseStart (frame.load (layout sections))) (Parser.start (x.load (layout sections))) := by
    refine ⟨⟨fun j inside => ?_, rfl, rfl, fun j counted => absurd counted (Nat.not_lt_zero j), ?_⟩, rfl, rfl, rfl, rfl⟩
    · show (if j < (layout sections).length then _ else _) = if j < (layout sections).length then _ else _
      rw [if_pos inside, if_pos inside]
    · show 0 + (sections.flatMap Section.pairs).length ≤ 19
      rw [Nat.zero_add]
      exact formed.few
  have bytes : ∀ j (hj : j < (layout sections).length),
      (parseStart (frame.load (layout sections))).frame.dataPacket (0 + j) = (layout sections)[j] := by
    intro j hj
    rw [Nat.zero_add]
    exact load_bytes frame (layout sections) j hj
  obtain ⟨left, same⟩ := start.loop bytes (Nat.zero_add _) fits (Alike.layout formed values)
  exact same.strings (parseBytes_size 0 _) fits (parse_recorded frame fits)

/-- So does the Arduino library when no value is empty. -/
theorem arduino_lookup
    (values : NoneEmpty sections) : Agree frame x (layout sections) := by
  intro sectionName key
  have shows := linux_shows frame formed fits
  rw [shows.getValue]
  unfold XapClass.getValue lookup
  rw [same_strings frame x formed fits values, shows.strings, elements_pairs formed.filled, find?_map]
  show (((sectionPairs sections).find? fun p => strcasecmpEq sectionName p.1 && strcasecmpEq key p.2.1).map _).bind _ = _
  cases (sectionPairs sections).find? fun p => strcasecmpEq sectionName p.1 && strcasecmpEq key p.2.1 with
  | none => rfl
  | some p => rfl

/-- When they agree, no value that is looked up is empty. -/
theorem agree_nonempty
    (agree : Agree frame x (layout sections)) (sectionName key : Bytes) :
    lookup sections sectionName key ≠ some [] := by
  rw [← (linux_shows frame formed fits).getValue, ← agree]
  exact getValue_nonempty _ sectionName key

end

end

end Packet

/-- Without repetitions every value is looked up. -/
theorem Distinct.noneEmpty {sections : List Section} (distinct : Distinct sections)
    (found : ∀ sectionName key, lookup sections sectionName key ≠ some []) : NoneEmpty sections := by
  intro s hs p hp empty
  have mem : (s.name, p) ∈ sectionPairs sections :=
    mem_flatMap.2 ⟨s, hs, mem_map.2 ⟨p, hp, rfl⟩⟩
  have looked := found s.name p.1
  unfold lookup at looked
  cases first : (sectionPairs sections).find? fun q => strcasecmpEq s.name q.1 && strcasecmpEq p.1 q.2.1 with
  | none =>
    have other := find?_eq_none.1 first _ mem
    simp [strcasecmpEq] at other
  | some q =>
    have matching := find?_some first
    simp only [and_eq_true, strcasecmpEq_iff] at matching
    rw [first] at looked
    have same :=
      inj_on_of_nodup_map distinct mem (mem_of_find?_eq_some first) (Prod.ext matching.1 matching.2)
    rw [← same] at looked
    exact looked (congrArg some empty)

/-- **One message, two readers**: on a well formed packet the libraries agree when no value is
empty, and only if no value that can be looked up is empty. When no pair repeats another one
the two conditions are the same. -/
theorem same_message (frame : XapFrame) (x : XapClass) (sections : List Section) (formed : WellFormed sections)
    (fits : (layout sections).length ≤ xapDataLen) :
    (NoneEmpty sections → Agree frame x (layout sections)) ∧
      (Agree frame x (layout sections) → ∀ sectionName key, lookup sections sectionName key ≠ some []) ∧
      (Distinct sections → (Agree frame x (layout sections) ↔ NoneEmpty sections)) := by
  refine ⟨arduino_lookup frame x formed fits, agree_nonempty frame x formed fits, fun distinct => ⟨fun agree => ?_, ?_⟩⟩
  · exact distinct.noneEmpty (agree_nonempty frame x formed fits agree)
  · exact arduino_lookup frame x formed fits

def outputCommand : List Section :=
  [⟨"xap-header", [("v", "12"), ("hop", "1"), ("uid", "FF00DE00"),
      ("class", "xAPBSC.cmd"), ("source", "dbzoo.livebox.demo"),
      ("target", "dbzoo.nanode.demo:relay.1")]⟩,
    ⟨"output.state.1", [("id", "1"), ("state", "on")]⟩]

/-- The same with an empty text before the state. -/
def emptyTextCommand : List Section :=
  outputCommand.dropLast ++
    [⟨"output.state.1", [("id", "1"), ("text", []), ("state", "on")]⟩]

def checkFormed (sections : List Section) : Bool :=
  sections.all (fun s => isWord s.name && s.pairs.all (fun p => isWord p.1 && isValueText p.2) && s.pairs != []) &&
    (sections.flatMap Section.pairs).length ≤ 19

theorem WellFormed.of_check {sections : List Section} (h : checkFormed sections = true) : WellFormed sections := by
  simp only [checkFormed, and_eq_true, all_eq_true, bne_iff_ne, decide_eq_true_eq] at h
  obtain ⟨all, few⟩ := h
  exact ⟨fun s hs => (all s hs).1.1, fun s hs => (all s hs).1.2, fun s hs => (all s hs).2, few⟩

theorem same_message_output : Agree XapFrame.blank XapClass.blank (layout outputCommand) := by
  have formed : WellFormed outputCommand := .of_check (by decide +kernel)
  have values : NoneEmpty outputCommand := by decide +kernel
  exact (same_message XapFrame.blank XapClass.blank outputCommand formed (by decide +kernel)).1 values

/-- The line of the state is the text on the Arduino, and the state is missing. -/
theorem emptyTextCommand_differs :
    WellFormed emptyTextCommand ∧ (layout emptyTextCommand).length ≤ xapDataLen ∧
      xapGetValueF (parseMsgF (XapFrame.blank.load (layout emptyTextCommand))) (ascii "output.state.1")
        (some (ascii "state")) = some (ascii "on") ∧
      (XapClass.blank.load (layout emptyTextCommand)).parseMsg.getValue (ascii "output.state.1") (ascii "state") = none ∧
      (XapClass.blank.load (layout emptyTextCommand)).parseMsg.getValue (ascii "output.state.1") (ascii "text") =
        some (ascii "state=on") := by
  have formed : WellFormed emptyTextCommand := .of_check (by decide +kernel)
  have fits : (layout emptyTextCommand).length ≤ xapDataLen := by decide +kernel
  refine ⟨formed, fits, ?_, by decide +kernel, by decide +kernel⟩
  rw [(linux_shows XapFrame.blank formed fits).getValue]
  decide +kernel

end Hah.Arduino
