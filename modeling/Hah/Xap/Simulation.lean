import Hah.Xap.Scan

/-!
# `parseMsgF` simulates the scan

The in-place scanner against `Scan`, which reads the same text without writing. At
every loop head the frame holds the elements of the scan (`Recorded`): each slot
points at the places the scan names, and there the edited packet still spells the
scan's strings. What makes the edits harmless is that a terminated field is only
trimmed down to its own last printable byte, and all strings recorded before end
below the field being read (`Mode.mark`).
-/

namespace Hah.Xap
open C List

/-! ## Trimming -/

/-- `m` with the bytes behind `q` up to `p` cleared. -/
def zeroed (m : Mem) (q p : Nat) : Mem := fun j => if q < j ∧ j ≤ p then 0 else m j

variable {m : Mem} {q p j : Nat} {f : Field} {c : UInt8} {a : Scan} {e mark' : Nat} {text : Bytes}

theorem zeroed_below (h : j ≤ q) : zeroed m q p j = m j := by
  simp only [zeroed]
  rw [if_neg (by omega)]

theorem zeroed_above (h : p < j) : zeroed m q p j = m j := by
  simp only [zeroed]
  rw [if_neg (by omega)]

theorem zeroed_inside (h : q < j) (h' : j ≤ p) : zeroed m q p j = 0 := by
  simp only [zeroed]
  rw [if_pos ⟨h, h'⟩]

/-- `rtrim` clears exactly the control bytes behind the last printable one. -/
theorem rtrim_eq (le : q ≤ p) (printable : ¬ m q < 32)
    (control : ∀ j, q < j → j ≤ p → m j < 32) : rtrim m p = zeroed m q p := by
  induction p generalizing m with
  | zero =>
    funext j
    simp only [rtrim, zeroed]
    rw [if_neg (by omega)]
  | succ p ih =>
    by_cases top : q = p + 1
    · subst top
      funext j
      simp only [rtrim, printable, if_false, zeroed]
      rw [if_neg (by omega)]
    · rw [rtrim, if_pos (control (p + 1) (by omega) (by omega)), ih (by omega)
        (by rw [store_other top]; exact printable)
        (fun j lo hi => by rw [store_other (by omega)]; exact control j lo (by omega))]
      funext j
      simp only [zeroed, store]
      split_ifs <;> first | rfl | omega

theorem CStr.zeroed {s : Bytes} (h : CStr m p s) (low : p + s.length ≤ q + 1) : CStr (Xap.zeroed m q e) p s := by
  refine h.keep (fun j _ hj => zeroed_below (by omega)) ?_
  simp only [Xap.zeroed]
  split_ifs
  · rfl
  · exact h.nul

/-! ## Frames that hold a list of elements -/

/-- A string of the packet that ends below `mark`. -/
structure Settled (m : Mem) (mark : Nat) (f : Field) : Prop where
  str : CStr m f.start f.text
  below : f.start + f.text.length < mark

def elementPtrs (e : Element) : ParsedMsgElement :=
  { sectionPtr := some e.1.start, keyPtr := e.2.map (·.1.start), valuePtr := e.2.map (·.2.start) }

structure ElementAt (m : Mem) (mark : Nat) (e : Element) : Prop where
  name : Settled m mark e.1
  pair : ∀ p, e.2 = some p → Settled m mark p.1 ∧ Settled m mark p.2

/-- The frame holds the elements `es`, and its packet is unread from `pos` on. -/
structure Recorded (m0 : Mem) (len pos mark : Nat) (es : List Element) (fr : XapFrame) : Prop where
  len : fr.len = len
  unread : ∀ j, pos ≤ j → fr.dataPacket j = m0 j
  count : fr.parsedMsgCount = es.length
  slots : ∀ j (hj : j < es.length), fr.parsedMsg j = elementPtrs es[j]
  strings : ∀ e ∈ es, ElementAt fr.dataPacket mark e

theorem Settled.mono {mark : Nat} (h : Settled m mark f) (le : mark ≤ mark') : Settled m mark' f :=
  ⟨h.str, by have := h.below; omega⟩

theorem ElementAt.mono {mark : Nat} {e : Element} (h : ElementAt m mark e) (le : mark ≤ mark') : ElementAt m mark' e :=
  ⟨h.name.mono le, fun p hp => ⟨(h.pair p hp).1.mono le, (h.pair p hp).2.mono le⟩⟩

/-- Clearing above a printable byte at or above `mark` keeps what is settled. -/
theorem Settled.zeroed {mark : Nat} (h : Settled m mark f) (le : mark ≤ q + 1) : Settled (Xap.zeroed m q e) mark f :=
  ⟨CStr.zeroed h.str (by have := h.below; omega), h.below⟩

theorem ElementAt.zeroed {mark : Nat} {e : Element} (h : ElementAt m mark e)
    (le : mark ≤ q + 1) : ElementAt (Xap.zeroed m q p) mark e :=
  ⟨h.name.zeroed le, fun r hr => ⟨(h.pair r hr).1.zeroed le, (h.pair r hr).2.zeroed le⟩⟩

section Recorded

variable {m0 : Mem} {len pos mark : Nat} {es : List Element} {fr : XapFrame}

section

variable (h : Recorded m0 len pos mark es fr)
include h

theorem Recorded.advance {pos' mark' : Nat} (hp : pos ≤ pos')
    (hm : mark ≤ mark') : Recorded m0 len pos' mark' es fr :=
  ⟨h.len, fun j hj => h.unread j (by omega), h.count, h.slots, fun e he => (h.strings e he).mono hm⟩

theorem Recorded.zeroed {q : Nat} (le : mark ≤ q + 1) :
    Recorded m0 len (pos + 1) mark es { fr with dataPacket := Xap.zeroed fr.dataPacket q pos } :=
  ⟨h.len, fun j hj => by
      show Xap.zeroed fr.dataPacket q pos j = m0 j
      rw [zeroed_above (by omega)]
      exact h.unread j (by omega),
    h.count, h.slots, fun e he => (h.strings e he).zeroed le⟩

/-- Filling the slot behind the recorded elements. -/
theorem Recorded.fill (slot : ParsedMsgElement) :
    Recorded m0 len pos mark es
      { fr with parsedMsg := fun j => if j = fr.parsedMsgCount then slot else fr.parsedMsg j } :=
  ⟨h.len, h.unread, h.count, fun j hj => by
      show (if j = fr.parsedMsgCount then slot else fr.parsedMsg j) = _
      rw [if_neg (by rw [h.count]; omega)]
      exact h.slots j hj,
    h.strings⟩

/-- Counting the slot behind the recorded elements as one more element. -/
theorem Recorded.count_element {e : Element}
    (slot : fr.parsedMsg fr.parsedMsgCount = elementPtrs e) (strings : ElementAt fr.dataPacket mark e) :
    Recorded m0 len pos mark (es ++ [e]) { fr with parsedMsgCount := fr.parsedMsgCount + 1 } := by
  refine ⟨h.len, h.unread, by simp [h.count], fun j hj => ?_,
    forall_mem_append.2 ⟨h.strings, forall_mem_singleton.2 strings⟩⟩
  by_cases old : j < es.length
  · rw [getElem_append_left old]
    exact h.slots j old
  · have last : j = es.length := by simp at hj; omega
    subst last
    rw [getElem_append_right (le_refl _)]
    simpa [h.count] using slot

end

end Recorded

/-! ## The relation at the loop head -/

/-- The bytes of `f` are the last ones read. -/
structure Reading (m : Mem) (pos : Nat) (f : Field) : Prop where
  reach : f.start + f.text.length = pos
  bytes : ∀ j (hj : j < f.text.length), m (f.start + j) = f.text[j]

theorem Reading.push {pos : Nat} (h : Reading m pos f) (hc : m pos = c) : Reading m (pos + 1) (f.push c) := by
  refine ⟨by simp [Field.push, ← h.reach, Nat.add_assoc], fun j hj => ?_⟩
  simp only [Field.push, length_append, length_singleton] at hj ⊢
  by_cases old : j < f.text.length
  · rw [getElem_append_left old]
    exact h.bytes j old
  · obtain rfl : j = f.text.length := by omega
    rw [getElem_append_right (le_refl _), h.reach]
    simpa using hc

theorem Reading.single {pos : Nat} (hc : m pos = c) : Reading m (pos + 1) ⟨pos, [c]⟩ :=
  ⟨rfl, fun j hj => by
    obtain rfl : j = 0 := by simpa using hj
    exact hc⟩

/-- Everything settled ends below this offset. -/
def Mode.mark (pos : Nat) : Mode → Nat
  | .startSectionName | .startKeyname _ | .full _ => pos
  | .inSectionName raw => raw.start
  | .inKeyname _ key | .inKeyvalue _ key _ => key.start

def Mode.isFull : Mode → Bool
  | .full _ => true
  | _ => false

/-- The scanner's locals while the body of `cur` is open. -/
structure Opened (s : Scanner) (mark : Nat) (cur : Block) : Prop where
  current : s.currentSection = some cur.name.start
  keycount : s.keycount = cur.pairs.length
  name : Settled s.frame.dataPacket mark cur.name

def Printable (text : Bytes) : Prop := ∀ x ∈ text, ¬ x < 32

theorem Printable.push (h : Printable text) (printable : ¬ c < 32) : Printable (text ++ [c]) :=
  forall_mem_append.2 ⟨h, forall_mem_singleton.2 printable⟩

/-- The scanner's state and the slot it fills, for each mode of the scan. -/
inductive ModeAt (pos : Nat) (s : Scanner) : Mode → Prop where
  | startSectionName (state : s.state = .startSectionName) : ModeAt pos s .startSectionName
  | inSectionName {raw : Field} (state : s.state = .inSectionName)
      (current : s.currentSection = some raw.start) (reading : Reading s.frame.dataPacket pos raw)
      (first : ∃ c rest, raw.text = c :: rest ∧ ¬ c < 32) : ModeAt pos s (.inSectionName raw)
  | startKeyname {cur : Block} (state : s.state = .startKeyname) (opened : Opened s pos cur) :
      ModeAt pos s (.startKeyname cur)
  | inKeyname {cur : Block} {key : Field} (state : s.state = .inKeyname) (opened : Opened s key.start cur)
      (reading : Reading s.frame.dataPacket pos key) (nonempty : key.text ≠ []) (printable : Printable key.text)
      (sectionPtr : (s.frame.parsedMsg s.frame.parsedMsgCount).sectionPtr = some cur.name.start)
      (keyPtr : (s.frame.parsedMsg s.frame.parsedMsgCount).keyPtr = some key.start) :
      ModeAt pos s (.inKeyname cur key)
  | inKeyvalue {cur : Block} {key value : Field} (state : s.state = .inKeyvalue)
      (opened : Opened s key.start cur) (str : CStr s.frame.dataPacket key.start key.text)
      (nonempty : key.text ≠ []) (printable : Printable key.text)
      (behind : value.start = key.start + key.text.length + 1)
      (reading : Reading s.frame.dataPacket pos value) (printableValue : Printable value.text)
      (slot : s.frame.parsedMsg s.frame.parsedMsgCount = elementPtrs (cur.name, some (key, value))) :
      ModeAt pos s (.inKeyvalue cur key value)
  | full {cur : Block} : ModeAt pos s (.full cur)

/-- The scanner `s` has come as far in the packet as the scan `a`. -/
structure Sim (m0 : Mem) (len : Nat) (a : Scan) (s : Scanner) : Prop where
  recorded : Recorded m0 len a.pos (a.mode.mark a.pos) a.elements s.frame
  mode : ModeAt a.pos s a.mode
  running : a.mode.isFull = false → s.i = a.pos
  ended : a.mode.isFull = true → len < s.i

def parseNext (s : Scanner) (buf : Nat) : Scanner := { parseChar s buf with i := (parseChar s buf).i + 1 }

theorem Scan.elements_idle (h : a.mode.current = none) : a.elements = a.closed.flatMap Block.elements := by
  simp [Scan.elements, Scan.blocks, Mode.pending, h]

theorem Scan.elements_open {cur : Block} (h : a.mode.current = some cur) :
    a.elements = a.closed.flatMap Block.elements ++ cur.pairs.map fun p => (cur.name, some p) := by
  simp only [Scan.elements, Scan.blocks, Mode.pending, h, flatMap_append]
  by_cases empty : cur.pairs = []
  · simp [empty]
  · simp [empty, Block.elements]

/-- Terminating a field at `pos` clears what follows its last printable byte. -/
theorem terminate_packet {s : Scanner} {pos : Nat} (below : q < pos) (printable : ¬ s.frame.dataPacket q < 32)
    (control : ∀ j, q < j → j < pos → s.frame.dataPacket j < 32) :
    (s.terminate pos).frame.dataPacket = zeroed s.frame.dataPacket q pos := by
  show rtrim (store s.frame.dataPacket pos 0) pos = _
  rw [rtrim_eq (q := q) (by omega) (by rw [store_other (by omega)]; exact printable)]
  · funext j
    simp only [zeroed, store]
    split_ifs <;> first | rfl | omega
  · intro j lo hi
    by_cases top : j = pos
    · subst top
      rw [store_same]
      decide
    · rw [store_other top]
      exact control j lo (by omega)

/-! ## One byte -/

section Step

variable {m0 : Mem} {len pos : Nat} {closed : List Block} {s : Scanner} {m : Mem} {cur : Block} {key : Field}
  {raw value : Field}

theorem step_startSectionName (h : Sim m0 len ⟨pos, closed, .startSectionName⟩ s) :
    Sim m0 len (Scan.step ⟨pos, closed, .startSectionName⟩ (m0 pos)) (parseNext s pos) := by
  obtain ⟨recorded, mode, running, -⟩ := h
  cases mode with
  | startSectionName state =>
  have here := recorded.unread pos (le_refl _)
  have index := running rfl
  simp only [parseNext, parseChar, state, here, Scan.step]
  split_ifs with starts
  · refine ⟨recorded.advance (Nat.le_succ pos) (le_refl _), ?_, fun _ => by simpa using index,
      by simp [Mode.isFull]⟩
    exact .inSectionName rfl rfl (.single here) ⟨m0 pos, [], rfl, UInt8.not_lt.2 (UInt8.le_of_lt starts.1)⟩
  · exact ⟨recorded.advance (Nat.le_succ pos) (Nat.le_succ pos), .startSectionName state,
      fun _ => by simpa using index, by simp [Mode.isFull]⟩

/-- The trimmed name: where its last printable byte is, and what follows. -/
theorem Reading.trimmed (h : Reading m pos raw) (first : ∃ c rest, raw.text = c :: rest ∧ ¬ c < 32) :
    ∃ q, raw.start ≤ q ∧ q < pos ∧ ¬ m q < 32 ∧ (∀ j, q < j → j < pos → m j < 32) ∧
      q + 1 = raw.start + (raw.text.rdropWhile fun c => c < 32).length := by
  obtain ⟨c, rest, text, printable⟩ := first
  have split : raw.text.rdropWhile (fun c => c < 32) ++ raw.text.rtakeWhile (fun c => c < 32) = raw.text :=
    rdropWhile_append_rtakeWhile
  have nonempty : raw.text.rdropWhile (fun c => c < 32) ≠ [] := by
    intro none
    have := (rdropWhile_eq_nil_iff.1 none) c (by simp [text])
    exact printable (by simpa using this)
  have last := rdropWhile_last_not (fun c : UInt8 => decide (c < 32)) raw.text nonempty
  have tail : ∀ x ∈ raw.text.rtakeWhile (fun c => c < 32), x < 32 := fun x hx => by
    simpa using mem_rtakeWhile_imp hx
  generalize raw.text.rdropWhile (fun c => c < 32) = kept at split nonempty last ⊢
  generalize raw.text.rtakeWhile (fun c => c < 32) = dropped at split tail
  have positive := length_pos_iff.2 nonempty
  have size : kept.length + dropped.length = raw.text.length := by rw [← split, length_append]
  have reach := h.reach
  have byte : ∀ j, j < raw.text.length → (kept ++ dropped)[j]? = some (m (raw.start + j)) := fun j hj => by
    rw [split, getElem?_eq_getElem hj, h.bytes j hj]
  refine ⟨raw.start + (kept.length - 1), by omega, by omega, ?_, fun j lo hi => ?_, by omega⟩
  · have final := byte (kept.length - 1) (by omega)
    rw [getElem?_append_left (by omega), ← getLast?_eq_getElem?,
      getLast?_eq_some_getLast nonempty, Option.some.injEq] at final
    rw [← final]
    simpa using last
  · have inside := byte (j - raw.start) (by omega)
    rw [getElem?_append_right (by omega), show raw.start + (j - raw.start) = j by omega] at inside
    exact tail _ (mem_of_getElem? inside)

theorem step_inSectionName (h : Sim m0 len ⟨pos, closed, .inSectionName raw⟩ s) :
    Sim m0 len (Scan.step ⟨pos, closed, .inSectionName raw⟩ (m0 pos)) (parseNext s pos) := by
  obtain ⟨recorded, mode, running, -⟩ := h
  cases mode with
  | inSectionName state current reading first =>
  dsimp only [Mode.mark] at recorded reading
  have here := recorded.unread pos (le_refl _)
  have index := running rfl
  simp only [parseNext, parseChar, state, here, Scan.step]
  split_ifs with brace
  · obtain ⟨q, low, below, printable, control, size⟩ := reading.trimmed first
    have packet := terminate_packet below printable control
    have settled : Settled (zeroed s.frame.dataPacket q pos) (pos + 1) ⟨raw.start, nameText raw.text⟩ := by
      have prefixed := List.rdropWhile_prefix (fun c : UInt8 => decide (c < 32)) raw.text
      have bytes : ∀ j (hj : j < (raw.text.rdropWhile fun c => c < 32).length),
          zeroed s.frame.dataPacket q pos (raw.start + j) = (raw.text.rdropWhile fun c => c < 32)[j] := by
        intro j hj
        have hj' := Nat.lt_of_lt_of_le hj prefixed.length_le
        rw [zeroed_below (by omega), reading.bytes j hj']
        exact (prefixed.getElem hj).symm
      refine ⟨CStr.takeWhile bytes (zeroed_inside (by dsimp only; omega) (by dsimp only; omega)), ?_⟩
      have shorter : (nameText raw.text).length ≤ (raw.text.rdropWhile fun c => c < 32).length :=
        (List.takeWhile_prefix _).length_le
      dsimp only
      omega
    refine ⟨?_, .startKeyname rfl ⟨current, rfl, ?_⟩, fun _ => by simpa [Scanner.terminate] using index,
      by simp [Mode.isFull]⟩
    · have kept := (recorded.zeroed (q := q) (by omega)).advance (le_refl (pos + 1))
        (show raw.start ≤ pos + 1 by omega)
      rw [← packet] at kept
      exact kept
    · rw [← packet] at settled
      exact settled
  · exact ⟨recorded.advance (Nat.le_succ pos) (le_refl _),
      .inSectionName state current (reading.push here) (by
        obtain ⟨c, rest, text, printable⟩ := first
        exact ⟨c, rest ++ [m0 pos], by simp [Field.push, text], printable⟩),
      fun _ => by simpa using index, by simp [Mode.isFull]⟩

theorem step_startKeyname (h : Sim m0 len ⟨pos, closed, .startKeyname cur⟩ s) :
    Sim m0 len (Scan.step ⟨pos, closed, .startKeyname cur⟩ (m0 pos)) (parseNext s pos) := by
  obtain ⟨recorded, mode, running, -⟩ := h
  cases mode with
  | startKeyname state opened =>
  have here := recorded.unread pos (le_refl _)
  have index := running rfl
  have before := Scan.elements_open (a := ⟨pos, closed, .startKeyname cur⟩) rfl
  simp only [parseNext, parseChar, state, here, Scan.step]
  split_ifs with brace empty starts
  · -- an empty section: the slot is filled and counted at once
    have bare := length_eq_zero_iff.1 (by rw [← opened.keycount, empty])
    have after : (⟨pos + 1, closed ++ [cur], .startSectionName⟩ : Scan).elements =
        (⟨pos, closed, .startKeyname cur⟩ : Scan).elements ++ [(cur.name, none)] := by
      rw [before, Scan.elements_idle rfl]
      simp [bare, Block.elements]
    refine ⟨?_, .startSectionName rfl, fun _ => by simpa [Scanner.storeElement, Scanner.countElement] using index,
      by simp [Mode.isFull]⟩
    rw [after]
    refine ((recorded.fill _).count_element ?_ ?_).advance (Nat.le_succ pos) (Nat.le_succ pos)
    · simp [elementPtrs, opened.current]
    · exact ⟨opened.name, by simp⟩
  · have filled : cur.pairs ≠ [] := fun bare => empty (by rw [opened.keycount, bare, length_nil])
    have after : (⟨pos + 1, closed ++ [cur], .startSectionName⟩ : Scan).elements =
        (⟨pos, closed, .startKeyname cur⟩ : Scan).elements := by
      rw [before, Scan.elements_idle rfl]
      simp [filled, Block.elements]
    refine ⟨?_, .startSectionName rfl, fun _ => by simpa using index, by simp [Mode.isFull]⟩
    rw [after]
    exact recorded.advance (Nat.le_succ pos) (Nat.le_succ pos)
  · refine ⟨?_, ?_, fun _ => by simpa [Scanner.storeElement] using index, by simp [Mode.isFull]⟩
    · exact (recorded.fill _).advance (Nat.le_succ pos) (le_refl _)
    · refine .inKeyname rfl ⟨opened.current, opened.keycount, opened.name⟩ (.single here) (by simp) ?_ ?_ ?_
      · exact forall_mem_singleton.2 (UInt8.not_lt.2 (UInt8.le_of_lt starts.1))
      · simp [Scanner.storeElement, opened.current]
      · simp [Scanner.storeElement]
  · exact ⟨recorded.advance (Nat.le_succ pos) (Nat.le_succ pos),
      .startKeyname state ⟨opened.current, opened.keycount, opened.name.mono (Nat.le_succ pos)⟩,
      fun _ => by simpa using index, by simp [Mode.isFull]⟩

/-- The last byte of a non-empty printable field. -/
theorem Reading.last {f : Field} (h : Reading m pos f) (nonempty : f.text ≠ [])
    (printable : Printable f.text) : f.start < pos ∧ ¬ m (pos - 1) < 32 := by
  have positive := length_pos_iff.2 nonempty
  have reach := h.reach
  refine ⟨by omega, ?_⟩
  rw [show pos - 1 = f.start + (f.text.length - 1) by omega, h.bytes _ (by omega)]
  exact printable _ (getElem_mem _)

/-- A field whose end has been cleared. -/
theorem Reading.str {f : Field} {q : Nat} (h : Reading m pos f) (printable : Printable f.text)
    (below : q < pos) (covers : pos ≤ q + 1 ∨ f.text = []) : CStr (zeroed m q pos) f.start f.text := by
  have reach := h.reach
  refine ⟨fun j hj => ?_, ?_, fun c hc zero => ?_⟩
  · have high := covers.resolve_right fun none => by simp [none] at hj
    rw [zeroed_below (by omega)]
    exact h.bytes j hj
  · rw [reach]
    exact zeroed_inside below (le_refl pos)
  · subst zero
    exact printable 0 hc (by decide)

theorem step_inKeyname (h : Sim m0 len ⟨pos, closed, .inKeyname cur key⟩ s) :
    Sim m0 len (Scan.step ⟨pos, closed, .inKeyname cur key⟩ (m0 pos)) (parseNext s pos) := by
  obtain ⟨recorded, mode, running, -⟩ := h
  cases mode with
  | inKeyname state opened reading nonempty printable sectionPtr keyPtr =>
  dsimp only [Mode.mark] at recorded reading
  have here := recorded.unread pos (le_refl _)
  have index := running rfl
  simp only [parseNext, parseChar, state, here, Scan.step]
  split_ifs with ends
  · obtain ⟨low, last⟩ := reading.last nonempty printable
    have packet : (s.terminate pos).frame.dataPacket = zeroed s.frame.dataPacket (pos - 1) pos :=
      terminate_packet (by omega) last fun j lo hi => by omega
    refine ⟨?_, ?_, fun _ => by simpa [Scanner.storeElement, Scanner.terminate] using index,
      by simp [Mode.isFull]⟩
    · have kept := (recorded.zeroed (q := pos - 1) (by omega)).fill
        { s.frame.parsedMsg s.frame.parsedMsgCount with valuePtr := some (pos + 1) }
      rw [← packet] at kept
      exact kept
    · have name := opened.name.zeroed (q := pos - 1) (e := pos) (by omega)
      have str := reading.str printable (q := pos - 1) (by omega) (.inl (by omega))
      rw [← packet] at name str
      refine .inKeyvalue rfl ⟨opened.current, opened.keycount, name⟩ str nonempty printable
        (by rw [reading.reach]) ⟨rfl, by simp⟩ (by simp [Printable]) ?_
      simp [Scanner.storeElement, Scanner.terminate, elementPtrs, sectionPtr, keyPtr]
  · rw [not_or] at ends
    refine ⟨recorded.advance (Nat.le_succ pos) (le_refl _), ?_, fun _ => by simpa using index,
      by simp [Mode.isFull]⟩
    exact .inKeyname state ⟨opened.current, opened.keycount, opened.name⟩ (reading.push here)
      (by simp [Field.push]) (printable.push ends.1) sectionPtr keyPtr

/-- Where `rtrim` stops behind a value: at the value's last byte, or at the key's when the value is empty. -/
theorem Reading.rtrim_stop (str : CStr m key.start key.text) (nonempty : key.text ≠ [])
    (printable : Printable key.text) (behind : value.start = key.start + key.text.length + 1)
    (reading : Reading m pos value) (printableValue : Printable value.text) :
    ∃ q, key.start + key.text.length ≤ q + 1 ∧ q < pos ∧ ¬ m q < 32 ∧ (∀ j, q < j → j < pos → m j < 32) ∧
      (pos ≤ q + 1 ∨ value.text = []) := by
  have reach := reading.reach
  by_cases empty : value.text = []
  · have positive := length_pos_iff.2 nonempty
    rw [empty, length_nil] at reach
    refine ⟨key.start + key.text.length - 1, by omega, by omega, ?_, fun j lo hi => ?_, .inr empty⟩
    · rw [show key.start + key.text.length - 1 = key.start + (key.text.length - 1) by omega,
        str.bytes _ (by omega)]
      exact printable _ (getElem_mem _)
    · obtain rfl : j = key.start + key.text.length := by omega
      rw [str.nul]
      decide
  · obtain ⟨low, last⟩ := reading.last empty printableValue
    exact ⟨pos - 1, by omega, by omega, last, fun j lo hi => by omega, .inl (by omega)⟩

theorem step_inKeyvalue (h : Sim m0 len ⟨pos, closed, .inKeyvalue cur key value⟩ s) :
    Sim m0 len (Scan.step ⟨pos, closed, .inKeyvalue cur key value⟩ (m0 pos)) (parseNext s pos) := by
  obtain ⟨recorded, mode, running, -⟩ := h
  cases mode with
  | inKeyvalue state opened str nonempty printable behind reading printableValue slot =>
  dsimp only [Mode.mark] at recorded reading
  have here := recorded.unread pos (le_refl _)
  have index := running rfl
  have reach := reading.reach
  have before := Scan.elements_open (a := ⟨pos, closed, .inKeyvalue cur key value⟩) rfl
  simp only [parseNext, parseChar, state, here, Scan.step]
  by_cases ends : m0 pos < 32
  · rw [if_pos ends, if_pos ends]
    obtain ⟨q, lowq, below, printableq, control, covers⟩ :=
      Reading.rtrim_stop str nonempty printable behind reading printableValue
    have packet := terminate_packet below printableq control
    have element : ElementAt (zeroed s.frame.dataPacket q pos) (pos + 1) (cur.name, some (key, value)) := by
      refine ⟨(opened.name.zeroed (by omega)).mono (by omega), ?_⟩
      rintro p hp
      cases hp
      exact ⟨⟨CStr.zeroed str lowq, by dsimp only; omega⟩,
        ⟨reading.str printableValue below covers, by dsimp only; omega⟩⟩
    have kept := (recorded.zeroed (q := q) (by omega)).advance (le_refl (pos + 1))
      (show key.start ≤ pos + 1 by omega)
    rw [← packet] at element kept
    have counted := kept.count_element (e := (cur.name, some (key, value))) slot element
    have after : ∀ mode : Mode, mode.current = some (cur.addPair key value) →
        (⟨pos + 1, closed, mode⟩ : Scan).elements =
          (⟨pos, closed, .inKeyvalue cur key value⟩ : Scan).elements ++ [(cur.name, some (key, value))] := by
      intro mode current
      rw [before, Scan.elements_open current]
      simp [Block.addPair]
    have size : s.frame.parsedMsgCount + 1 =
        (closed.flatMap Block.elements).length + (cur.addPair key value).pairs.length := by
      rw [recorded.count, before]
      simp [Block.addPair, Nat.add_assoc]
    have limit : xapMsgElements ≤ (s.terminate pos).countElement.frame.parsedMsgCount ↔
        xapMsgElements ≤ (closed.flatMap Block.elements).length + (cur.addPair key value).pairs.length := by
      rw [← size]
      rfl
    simp only [Scan.afterPair]
    by_cases fullTable :
        xapMsgElements ≤ (closed.flatMap Block.elements).length + (cur.addPair key value).pairs.length
    · rw [if_pos fullTable, if_pos (limit.2 fullTable)]
      refine ⟨?_, .full, by simp [Mode.isFull], fun _ => ?_⟩
      · rw [after _ rfl]
        exact counted
      · have lenEq : s.frame.len = len := recorded.len
        simp [Scanner.countElement, Scanner.terminate, lenEq]
    · rw [if_neg fullTable, if_neg fun h => fullTable (limit.1 h)]
      refine ⟨?_, .startKeyname rfl ⟨opened.current, ?_, ?_⟩,
        fun _ => by simpa [Scanner.countElement, Scanner.terminate] using index, by simp [Mode.isFull]⟩
      · rw [after _ rfl]
        exact counted
      · simp [Block.addPair, opened.keycount]
      · exact element.name
  · rw [if_neg ends, if_neg ends]
    refine ⟨recorded.advance (Nat.le_succ pos) (le_refl _), ?_, fun _ => by simpa using index,
      by simp [Mode.isFull]⟩
    exact .inKeyvalue state ⟨opened.current, opened.keycount, opened.name⟩ str nonempty printable behind
      (reading.push here) (printableValue.push ends) slot

end Step

/-- **One byte of the packet** is one step of the scan. -/
theorem Sim.step {m0 : Mem} {len : Nat} {s : Scanner} (h : Sim m0 len a s)
    (running : a.mode.isFull = false) : Sim m0 len (a.step (m0 a.pos)) (parseNext s a.pos) := by
  obtain ⟨pos, closed, mode⟩ := a
  cases mode with
  | startSectionName => exact step_startSectionName h
  | inSectionName raw => exact step_inSectionName h
  | startKeyname cur => exact step_startKeyname h
  | inKeyname cur key => exact step_inKeyname h
  | inKeyvalue cur key value => exact step_inKeyvalue h
  | full cur => simp [Mode.isFull] at running

/-- A full table is left alone by the rest of the text. -/
theorem Sim.skip {m0 : Mem} {len : Nat} {s : Scanner} (h : Sim m0 len a s)
    (full : a.mode.isFull = true) (text : Bytes) : Sim m0 len (a.run text) s := by
  obtain ⟨pos, closed, mode⟩ := a
  cases mode with
  | full cur =>
    rw [run_full rfl]
    exact ⟨h.recorded.advance (Nat.le_add_right _ _) (Nat.le_add_right _ _), .full, by simp [Mode.isFull], h.ended⟩
  | _ => simp [Mode.isFull] at full

/-- **The loop**, from any byte of the packet to its end. -/
theorem Sim.loop {m0 : Mem} {len : Nat} {room : Nat} {s : Scanner} (h : Sim m0 len a s)
    (bytes : ∀ j (hj : j < text.length), m0 (a.pos + j) = text[j]) (rest : a.pos + text.length = len)
    (fits : text.length ≤ room) : Sim m0 len (a.run text) (parseLoop room a.pos s) := by
  induction text generalizing a s room with
  | nil =>
    have stop : ¬ s.i < s.frame.len := by
      rw [h.recorded.len]
      cases full : a.mode.isFull with
      | true => have := h.ended full; omega
      | false => rw [h.running full, ← rest]; simp
    cases room with
    | zero => exact h
    | succ room => simpa [parseLoop, stop] using h
  | cons c text ih =>
    simp only [length_cons] at rest fits
    obtain ⟨room, rfl⟩ : ∃ r, room = r + 1 := ⟨room - 1, by omega⟩
    cases full : a.mode.isFull with
    | true =>
      have stop : ¬ s.i < s.frame.len := by
        have := h.ended full
        rw [h.recorded.len]
        omega
      simpa [parseLoop, stop] using h.skip full (c :: text)
    | false =>
      have more : s.i < s.frame.len := by
        rw [h.recorded.len, h.running full]
        omega
      have first : m0 a.pos = c := bytes 0 (by simp)
      have next := h.step full
      rw [first] at next
      have later : ∀ j (hj : j < text.length), m0 ((a.step c).pos + j) = text[j] := fun j hj => by
        rw [Scan.step_pos, Nat.add_assoc, Nat.add_comm 1 j]
        exact bytes (j + 1) (by simpa using hj)
      have done := ih next later (by rw [Scan.step_pos]; omega) (Nat.le_of_succ_le_succ fits)
      rw [Scan.step_pos] at done
      simpa [parseLoop, more, parseNext] using done

theorem ModeAt.mark_le {pos : Nat} {s : Scanner} {mode : Mode} (h : ModeAt pos s mode) : mode.mark pos ≤ pos := by
  cases h with
  | startSectionName | startKeyname | full => exact le_refl pos
  | inSectionName _ _ reading _ => exact Nat.le.intro reading.reach
  | inKeyname _ _ reading _ _ _ _ => exact Nat.le.intro reading.reach
  | @inKeyvalue cur key value _ _ _ _ _ behind reading _ _ =>
    have := reading.reach
    show key.start ≤ pos
    omega

/-- The bytes a loaded frame shows. -/
theorem load_bytes (frame : XapFrame) (d : Bytes) (j : Nat) (hj : j < d.length) :
    (frame.load d).dataPacket j = d[j] := by
  simp [XapFrame.load, hj]

/-- **`parseMsgF` records the scan of its packet.** -/
theorem parse_recorded (frame : XapFrame) {d : Bytes} (fits : d.length ≤ xapDataLen) :
    Recorded (frame.load d).dataPacket d.length d.length d.length (scan d).elements
      (parseMsgF (frame.load d)) := by
  have start : Sim (frame.load d).dataPacket d.length Scan.start (parseStart (frame.load d)) :=
    ⟨⟨rfl, fun _ _ => rfl, rfl, by simp [Scan.elements, Scan.blocks, Scan.start, Mode.pending, Mode.current],
      by simp [Scan.elements, Scan.blocks, Scan.start, Mode.pending, Mode.current]⟩,
      .startSectionName rfl, fun _ => rfl, by simp [Scan.start, Mode.isFull]⟩
  have bytes : ∀ j (hj : j < d.length), (frame.load d).dataPacket (Scan.start.pos + j) = d[j] := fun j hj => by
    simpa [Scan.start] using load_bytes frame d j hj
  have done := start.loop bytes (by simp [Scan.start]) fits
  have reach : (Scan.start.run d).pos = d.length := by simp [Scan.run_pos, Scan.start]
  exact done.recorded.advance (le_of_eq reach) (reach ▸ done.mode.mark_le)

end Hah.Xap
