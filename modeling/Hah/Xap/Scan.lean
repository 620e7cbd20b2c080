import Hah.Xap.Message

/-!
# Scanning a laid out message, and what any scan yields

Two facts about texts. Scanning the layout of sections that are `Ok` yields those
sections (`run_layout`): one lemma for a name, one for a pair, then inductions over
the pairs of a section and over the sections. And whatever a NUL-free text holds,
the sections a scan yields are `Ok` (`scan_ok`), each at an offset of its own
(`scan_starts`).
-/

namespace Hah.Xap
open C List

/-- Elements of the closed sections. -/
def Scan.closedCount (s : Scan) : Nat := (s.closed.flatMap Block.elements).length

/-! ## Reading a layout back -/

variable {s : Scan} {cur : Block} {text : Bytes} {key : Field} {c : UInt8}
  {f value : Field} {raw name : Bytes} {sections : List Section} {m : Mode}

theorem run_full (full : s.mode = .full cur) (text : Bytes) :
    s.run text = { s with pos := s.pos + text.length } := by
  induction text generalizing s with
  | nil => rfl
  | cons c text ih =>
    have stay : s.step c = { s with pos := s.pos + 1 } := by simp [Scan.step, full]
    rw [Scan.run_cons, stay, ih (by simpa using full), length_cons]
    simp only [Nat.add_assoc, Nat.add_comm 1]

/-- Text that a step only appends to the field being read; `mode` is what stands around it. -/
theorem run_field {mode : Field → Mode} {plain : UInt8 → Prop}
    (push : ∀ (s : Scan) (f : Field) (c : UInt8), s.mode = mode f → plain c →
      s.step c = { s with pos := s.pos + 1, mode := mode (f.push c) }) (reading : s.mode = mode f) (all : ∀ c ∈ text, plain c) :
    s.run text = { s with pos := s.pos + text.length, mode := mode ⟨f.start, f.text ++ text⟩ } := by
  induction text generalizing s f with
  | nil => simp [← reading]
  | cons c text ih =>
    obtain ⟨here, later⟩ := forall_mem_cons.1 all
    rw [Scan.run_cons, push s f c reading here, ih rfl later]
    simp [Field.push, Nat.add_assoc, Nat.add_comm 1]

theorem run_raw {raw : Field} (mode : s.mode = .inSectionName raw) (plain : ∀ c ∈ text, c ≠ lbrace) :
    s.run text =
      { s with pos := s.pos + text.length, mode := .inSectionName ⟨raw.start, raw.text ++ text⟩ } := by
  apply run_field _ mode plain
  intro s raw c mode other
  simp [Scan.step, mode, other]

theorem run_key (mode : s.mode = .inKeyname cur key) (plain : ∀ c ∈ text, 32 ≤ c ∧ c ≠ equals) :
    s.run text =
      { s with pos := s.pos + text.length, mode := .inKeyname cur ⟨key.start, key.text ++ text⟩ } := by
  apply run_field _ mode plain
  intro s key c mode inside
  simp [Scan.step, mode, inside.2, UInt8.not_lt.2 inside.1]

theorem run_value (mode : s.mode = .inKeyvalue cur key value) (plain : ValueOk text) :
    s.run text =
      { s with
        pos := s.pos + text.length
        mode := .inKeyvalue cur key ⟨value.start, value.text ++ text⟩ } := by
  apply run_field _ mode plain
  intro s value c mode inside
  simp [Scan.step, mode, UInt8.not_lt.2 inside]

/-- The line end the serialiser puts after a name is trimmed again. -/
theorem nameText_layout (ok : NameOk name) : nameText (name ++ "\n") = name := by
  have trimmed : (name ++ "\n").rdropWhile (fun c => c < 32) = name := by
    rw [show ascii "\n" = [10] from rfl, rdropWhile_concat_pos _ _ _ (by decide),
      rdropWhile_eq_self_iff]
    intro h
    simpa using ok.last h
  rw [nameText, trimmed, takeWhile_eq_self_iff]
  intro c hc
  simpa using ok.clean c hc

theorem run_name (mode : s.mode = .startSectionName) (ok : NameOk name) :
    s.run (name ++ "\n\x7b\n") =
      { s with pos := s.pos + name.length + 3, mode := .startKeyname ⟨⟨s.pos, name⟩, []⟩ } := by
  obtain ⟨c, rest, rfl, low, high, plain⟩ := ok.first
  have first : s.step c = { s with pos := s.pos + 1, mode := .inSectionName ⟨s.pos, [c]⟩ } := by
    simp [Scan.step, mode, low, high]
  have plain' : ∀ x ∈ rest ++ "\n", x ≠ lbrace := by
    intro x hx
    rcases mem_append.1 hx with hx | hx
    · exact plain x hx
    · rw [show ascii "\n" = [10] from rfl, mem_singleton] at hx
      subst hx
      decide
  rw [show c :: rest ++ "\n\x7b\n" = c :: (rest ++ "\n") ++ [lbrace, 10] by simp [ascii, lbrace],
    Scan.run_append, Scan.run_cons s c, first, run_raw rfl plain']
  have trimmed : nameText (c :: (rest ++ "\n")) = c :: rest := nameText_layout ok
  simp [Scan.step, trimmed, show (10 : UInt8) ≠ rbrace from by decide,
    show ¬ ((32 : UInt8) < 10) from by decide, show (ascii "\n").length = 1 from rfl]
  omega

theorem run_pair (mode : s.mode = .startKeyname cur) {k v : Bytes} (key : KeyOk k) (value : ValueOk v) :
    s.run (pairLayout (k, v)) =
      { s with
        pos := s.pos + (pairLayout (k, v)).length
        mode := s.afterPair (cur.addPair ⟨s.pos, k⟩ ⟨s.pos + k.length + 1, v⟩) } := by
  obtain ⟨c, rest, rfl, low, high, other, plain⟩ := key.first
  have first : s.step c = { s with pos := s.pos + 1, mode := .inKeyname cur ⟨s.pos, [c]⟩ } := by
    simp [Scan.step, mode, other, low, high]
  rw [show pairLayout (c :: rest, v) = (c :: rest) ++ (equals :: (v ++ [10])) by
      simp [pairLayout, show ascii "\n" = [10] from rfl],
    Scan.run_append, Scan.run_cons s c, first, run_key rfl plain, Scan.run_cons]
  have sep : ∀ t : Scan, ∀ key, t.mode = .inKeyname cur key →
      t.step equals = { t with pos := t.pos + 1, mode := .inKeyvalue cur key ⟨t.pos + 1, []⟩ } := by
    intro t key ht
    simp [Scan.step, ht]
  rw [sep _ _ rfl, Scan.run_append, run_value rfl value]
  simp [Scan.step, Scan.afterPair, show ((10 : UInt8) < 32) from by decide]
  constructor
  · omega
  · simp [Nat.add_assoc, Nat.add_comm 1]

/-- The pairs of a section: the scan keeps reading keys, or the last pair filled the table. -/
theorem run_pairs {pairs : List (Bytes × Bytes)} (ok : ∀ p ∈ pairs, KeyOk p.1 ∧ ValueOk p.2)
    (mode : s.mode = .startKeyname cur) (room : s.closedCount + cur.pairs.length + pairs.length ≤ xapMsgElements) :
    ∃ located : List (Field × Field), located.map (fun p => (p.1.text, p.2.text)) = pairs ∧
      (s.run (pairs.flatMap pairLayout)).closed = s.closed ∧
      ((s.run (pairs.flatMap pairLayout)).mode = .startKeyname { cur with pairs := cur.pairs ++ located } ∨
        (s.run (pairs.flatMap pairLayout)).mode = .full { cur with pairs := cur.pairs ++ located } ∧
          s.closedCount + cur.pairs.length + pairs.length = xapMsgElements ∧ pairs ≠ []) := by
  induction pairs generalizing s cur with
  | nil => exact ⟨[], rfl, rfl, .inl (by simpa using mode)⟩
  | cons p pairs ih =>
    obtain ⟨k, v⟩ := p
    obtain ⟨key, value⟩ := ok (k, v) (by simp)
    have read := run_pair mode key value
    simp only [length_cons] at room ⊢
    rw [flatMap_cons, Scan.run_append, read]
    by_cases last : xapMsgElements ≤ s.closedCount + (cur.pairs.length + 1)
    · -- the table is full, so no further pair fits the bound
      obtain rfl : pairs = [] := length_eq_zero_iff.1 (by omega)
      refine ⟨[(⟨s.pos, k⟩, ⟨s.pos + k.length + 1, v⟩)], rfl, rfl, .inr ⟨?_, ?_, by simp⟩⟩
      · simp only [flatMap_nil, Scan.run_nil, Scan.afterPair, Block.addPair, length_append,
          length_singleton]
        exact if_pos last
      · simp only [length_nil]
        omega
    · have next : s.afterPair (cur.addPair ⟨s.pos, k⟩ ⟨s.pos + k.length + 1, v⟩) =
          .startKeyname (cur.addPair ⟨s.pos, k⟩ ⟨s.pos + k.length + 1, v⟩) := by
        simp only [Scan.afterPair, Block.addPair, length_append, length_singleton]
        exact if_neg last
      rw [next]
      obtain ⟨located, texts, closed, result⟩ := ih (fun q hq => ok q (mem_cons_of_mem _ hq))
        (s := { s with
          pos := s.pos + (pairLayout (k, v)).length
          mode := .startKeyname (cur.addPair ⟨s.pos, k⟩ ⟨s.pos + k.length + 1, v⟩) }) rfl (by
          simp only [Scan.closedCount, Block.addPair, length_append, length_singleton] at room ⊢
          omega)
      refine ⟨(⟨s.pos, k⟩, ⟨s.pos + k.length + 1, v⟩) :: located, by simp [texts], closed, ?_⟩
      simp only [Scan.closedCount, Block.addPair, length_append, length_singleton,
        append_assoc, singleton_append] at result ⊢
      rcases result with result | ⟨result, filled, _⟩
      · exact .inl result
      · exact .inr ⟨result, by omega, by simp⟩

/-- One section: it is closed, or its last pair filled the table and it stays open. -/
theorem run_section {sec : Section} (ok : sec.Ok) (mode : s.mode = .startSectionName)
    (room : s.closedCount + sec.elements.length ≤ xapMsgElements) :
    ∃ b : Block, b.text = sec ∧
      ((s.run sec.layout).mode = .startSectionName ∧ (s.run sec.layout).closed = s.closed ++ [b] ∨
        (s.run sec.layout).mode = .full b ∧ (s.run sec.layout).closed = s.closed ∧ b.pairs ≠ [] ∧
          s.closedCount + sec.elements.length = xapMsgElements) := by
  have pairsFit : sec.pairs.length ≤ sec.elements.length := by
    unfold Section.elements
    split_ifs with empty <;> simp [empty]
  obtain ⟨located, texts, closed, result⟩ := run_pairs ok.pairs
    (s := { s with pos := s.pos + sec.name.length + 3, mode := .startKeyname ⟨⟨s.pos, sec.name⟩, []⟩ }) rfl
    (by simp only [Scan.closedCount, length_nil] at room ⊢; omega)
  have split : s.run sec.layout =
      (({ s with pos := s.pos + sec.name.length + 3, mode := .startKeyname ⟨⟨s.pos, sec.name⟩, []⟩ } :
        Scan).run (sec.pairs.flatMap pairLayout)).run [rbrace, 10] := by
    rw [← run_name mode ok.name, ← Scan.run_append, ← Scan.run_append, ← append_assoc]
    rfl
  have text : Block.text ⟨⟨s.pos, sec.name⟩, located⟩ = sec := by simp [Block.text, texts]
  refine ⟨⟨⟨s.pos, sec.name⟩, located⟩, text, ?_⟩
  rw [split]
  generalize ({ s with pos := s.pos + sec.name.length + 3, mode := .startKeyname ⟨⟨s.pos, sec.name⟩, []⟩ } :
    Scan).run (sec.pairs.flatMap pairLayout) = t at result closed ⊢
  rcases result with result | ⟨result, filled, nonempty⟩
  · left
    simp [Scan.step, result, closed, show ¬ ((32 : UInt8) < 10) from by decide]
  · right
    have some : located ≠ [] := by
      rintro rfl
      exact nonempty texts.symm
    have size : sec.elements.length = sec.pairs.length := by
      unfold Section.elements
      rw [if_neg nonempty, length_map]
    rw [run_full result]
    refine ⟨result, closed, some, ?_⟩
    simp only [Scan.closedCount, length_nil] at filled ⊢
    omega

theorem Section.elements_pos (s : Section) : 0 < s.elements.length := by
  unfold Section.elements
  split_ifs with empty
  · simp
  · simpa using length_pos_iff.2 empty

/-- **A laid out message is read back**: scanning the layout of sections that are `Ok`
and fit the table yields those sections, and if there is room for more no section is left open. -/
theorem run_layout (ok : ∀ s ∈ sections, s.Ok) (mode : s.mode = .startSectionName)
    (room : s.closedCount + (sections.flatMap Section.elements).length ≤ xapMsgElements) :
    ∃ blocks : List Block, blocks.map Block.text = sections ∧
      (s.run (layout sections)).blocks = s.closed ++ blocks ∧
      (s.closedCount + (sections.flatMap Section.elements).length < xapMsgElements →
        (s.run (layout sections)).mode = .startSectionName) := by
  induction sections generalizing s with
  | nil => exact ⟨[], rfl, by simp [layout, Scan.blocks, Mode.pending, Mode.current, mode], fun _ => mode⟩
  | cons sec sections ih =>
    rw [flatMap_cons, length_append] at room ⊢
    obtain ⟨b, text, result⟩ := run_section (ok sec (by simp)) mode (by omega)
    rw [show layout (sec :: sections) = sec.layout ++ layout sections from rfl, Scan.run_append]
    rcases result with ⟨mode', closed⟩ | ⟨full, closed, nonempty, filled⟩
    · have count : (s.run sec.layout).closedCount = s.closedCount + sec.elements.length := by
        rw [Scan.closedCount, closed, flatMap_append, length_append, ← text, ← b.elements_text]
        simp [Scan.closedCount]
      rw [← Nat.add_assoc, ← count] at room ⊢
      obtain ⟨blocks, texts, read, outside⟩ := ih (fun t ht => ok t (mem_cons_of_mem sec ht)) mode' room
      exact ⟨b :: blocks, by simp [text, texts], by rw [read, closed, append_assoc, singleton_append], outside⟩
    · -- a full table leaves no element for another section
      obtain rfl : sections = [] := by
        cases sections with
        | nil => rfl
        | cons t ts =>
          have := t.elements_pos
          rw [flatMap_cons, length_append] at room
          omega
      refine ⟨[b], by simp [text], ?_, fun less => by omega⟩
      rw [show layout [] = [] from rfl, Scan.run_nil]
      simp [Scan.blocks, Mode.pending, Mode.current, full, closed, nonempty]

/-- A line end between sections is reached between sections only, and changes nothing. -/
theorem Scan.step_newline (after : (s.step 10).mode = .startSectionName) : (s.step 10).blocks = s.blocks := by
  have low : ¬ ((32 : UInt8) < 10) := by decide
  have control : (10 : UInt8) < 32 := by decide
  cases mode : s.mode with
  | startSectionName => simp [Scan.step, mode, low, Scan.blocks]
  | inSectionName raw => simp [Scan.step, mode, show (10 : UInt8) ≠ lbrace by decide] at after
  | startKeyname cur => simp [Scan.step, mode, low, show (10 : UInt8) ≠ rbrace by decide] at after
  | inKeyname cur key => simp [Scan.step, mode, control] at after
  | inKeyvalue cur key value =>
    simp only [Scan.step, mode, control, if_true, Scan.afterPair] at after
    split at after <;> cases after
  | full cur => simp [Scan.step, mode] at after

/-! ## The sections of an arbitrary text -/

/-- What may stand before the brace of a section in a NUL-free text. -/
structure RawOk (raw : Bytes) : Prop where
  first : ∃ c rest, raw = c :: rest ∧ 32 < c ∧ c < 128 ∧ ∀ x ∈ rest, x ≠ lbrace
  clean : ∀ x ∈ raw, x ≠ 0

theorem nameText_ok (ok : RawOk raw) : NameOk (nameText raw) := by
  obtain ⟨c, rest, rfl, low, high, plain⟩ := ok.first
  have keeps := UInt8.not_lt.2 (UInt8.le_of_lt low)
  have initial : (c :: rest).rdropWhile (fun x => x < 32) <+: c :: rest := List.rdropWhile_prefix _ _
  have nonempty : (c :: rest).rdropWhile (fun x => x < 32) ≠ [] := by
    intro none
    have := (rdropWhile_eq_nil_iff.1 none) c (by simp)
    exact keeps (by simpa using this)
  have last := rdropWhile_last_not (fun x : UInt8 => decide (x < 32)) (c :: rest) nonempty
  have whole : nameText (c :: rest) = (c :: rest).rdropWhile (fun x => x < 32) := by
    rw [nameText, takeWhile_eq_self_iff]
    intro x hx
    simpa using ok.clean x (initial.subset hx)
  rw [whole]
  generalize (c :: rest).rdropWhile (fun x => x < 32) = name at initial nonempty last
  obtain ⟨d, rest', rfl⟩ := exists_cons_of_ne_nil nonempty
  obtain ⟨rfl, initial'⟩ := cons_prefix_cons.1 initial
  exact ⟨⟨d, rest', rfl, low, high, fun x hx => plain x (initial'.subset hx)⟩,
    fun x hx => ok.clean x (initial.subset hx), fun _ => by simpa using last⟩

def Mode.Ok : Mode → Prop
  | .startSectionName => True
  | .inSectionName raw => RawOk raw.text
  | .startKeyname cur | .full cur => cur.text.Ok
  | .inKeyname cur key => cur.text.Ok ∧ KeyOk key.text
  | .inKeyvalue cur key value => cur.text.Ok ∧ KeyOk key.text ∧ ValueOk value.text

theorem Mode.Ok.current (ok : m.Ok) (h : m.current = some cur) : cur.text.Ok := by
  cases m <;> simp only [Mode.current, reduceCtorEq, Option.some.injEq] at h <;> subst h
  · exact ok
  · exact ok.1
  · exact ok.1
  · exact ok

theorem Mode.mem_pending {b : Block} (h : b ∈ m.pending) : m.current = some b := by
  unfold Mode.pending at h
  cases cur : m.current with
  | none => simp [cur] at h
  | some c =>
    simp only [cur] at h
    split_ifs at h with empty
    · simp at h
    · rw [mem_singleton] at h
      rw [h]

/-- Everything a scan has read so far can be laid out. -/
structure Scan.Ok (s : Scan) : Prop where
  closed : ∀ b ∈ s.closed, b.text.Ok
  mode : s.mode.Ok

theorem RawOk.push (ok : RawOk raw) (nonzero : c ≠ 0) (other : c ≠ lbrace) : RawOk (raw ++ [c]) := by
  obtain ⟨d, rest, rfl, low, high, plain⟩ := ok.first
  refine ⟨⟨d, rest ++ [c], rfl, low, high, ?_⟩, ?_⟩
  · simpa [or_imp, forall_and, other] using plain
  · simpa [or_imp, forall_and, nonzero] using ok.clean

theorem KeyOk.push {key : Bytes} (ok : KeyOk key) (low : 32 ≤ c) (other : c ≠ equals) : KeyOk (key ++ [c]) := by
  obtain ⟨d, rest, rfl, dlow, dhigh, dother, plain⟩ := ok.first
  refine ⟨⟨d, rest ++ [c], rfl, dlow, dhigh, dother, ?_⟩⟩
  exact forall_mem_append.2 ⟨plain, forall_mem_singleton.2 ⟨low, other⟩⟩

theorem Section.Ok.addPair (ok : cur.text.Ok) (hk : KeyOk key.text)
    (hv : ValueOk value.text) : (cur.addPair key value).text.Ok := by
  refine ⟨ok.name, fun p hp => ?_⟩
  simp only [Block.text, Block.addPair, map_append, map_cons, map_nil, mem_append,
    mem_singleton] at hp
  rcases hp with hp | rfl
  · exact ok.pairs p hp
  · exact ⟨hk, hv⟩

theorem Scan.Ok.step (ok : s.Ok) (nonzero : c ≠ 0) : (s.step c).Ok := by
  have modeOk := ok.mode
  unfold Scan.step
  cases mode : s.mode with
  | startSectionName =>
    simp only
    split_ifs with starts
    · exact ⟨ok.closed, ⟨⟨c, [], rfl, starts.1, starts.2, by simp⟩, by simpa using nonzero⟩⟩
    · exact ⟨ok.closed, trivial⟩
  | inSectionName raw =>
    rw [mode] at modeOk
    simp only
    split_ifs with brace
    · exact ⟨ok.closed, ⟨nameText_ok modeOk, by simp [Block.text]⟩⟩
    · exact ⟨ok.closed, RawOk.push modeOk nonzero brace⟩
  | startKeyname cur =>
    rw [mode] at modeOk
    simp only
    split_ifs with brace starts
    · exact ⟨forall_mem_append.2 ⟨ok.closed, forall_mem_singleton.2 modeOk⟩, trivial⟩
    · exact ⟨ok.closed, modeOk, ⟨⟨c, [], rfl, starts.1, starts.2, brace, by simp⟩⟩⟩
    · exact ⟨ok.closed, modeOk⟩
  | inKeyname cur key =>
    rw [mode] at modeOk
    simp only
    split_ifs with ends
    · exact ⟨ok.closed, modeOk.1, modeOk.2, by simp [ValueOk]⟩
    · rw [not_or, UInt8.not_lt] at ends
      exact ⟨ok.closed, modeOk.1, modeOk.2.push ends.1 ends.2⟩
  | inKeyvalue cur key value =>
    rw [mode] at modeOk
    obtain ⟨curOk, keyOk, valueOk⟩ := modeOk
    simp only
    split_ifs with ends
    · have added := curOk.addPair keyOk valueOk
      refine ⟨ok.closed, ?_⟩
      simp only [Scan.afterPair]
      split_ifs <;> exact added
    · refine ⟨ok.closed, curOk, keyOk, ?_⟩
      exact forall_mem_append.2 ⟨valueOk, forall_mem_singleton.2 (UInt8.not_lt.1 ends)⟩
  | full cur =>
    rw [mode] at modeOk
    exact ⟨ok.closed, modeOk⟩

theorem Scan.Ok.run (ok : s.Ok) (clean : ∀ c ∈ text, c ≠ 0) : (s.run text).Ok := by
  induction text generalizing s with
  | nil => exact ok
  | cons c text ih => exact ih (ok.step (clean c (by simp))) fun d hd => clean d (mem_cons_of_mem c hd)

/-- **Whatever a NUL-free text holds**, the sections read from it can be laid out. -/
theorem scan_ok (clean : ∀ c ∈ text, c ≠ 0) : ∀ b ∈ (scan text).blocks, b.text.Ok := by
  have start : Scan.start.Ok := ⟨by simp [Scan.start], trivial⟩
  have ok := start.run clean
  intro b hb
  rcases mem_append.1 hb with hb | hb
  · exact ok.closed b hb
  · exact ok.mode.current (Mode.mem_pending hb)

/-- The offset the current section started at. -/
def Mode.opened : Mode → List Nat
  | .startSectionName => []
  | .inSectionName raw => [raw.start]
  | .startKeyname cur | .inKeyname cur _ | .inKeyvalue cur _ _ | .full cur => [cur.name.start]

/-- The offsets of all sections, in the order they were opened. -/
def Scan.starts (s : Scan) : List Nat := s.closed.map (·.name.start) ++ s.mode.opened

/-- Sections start one behind the other, and before the scan's position. -/
structure Scan.Ordered (s : Scan) : Prop where
  increasing : s.starts.Pairwise (· < ·)
  behind : ∀ p ∈ s.starts, p < s.pos

theorem Scan.step_starts (s : Scan) (c : UInt8) :
    (s.step c).starts = s.starts ∨ (s.step c).starts = s.starts ++ [s.pos] := by
  unfold Scan.step
  cases mode : s.mode with
  | startSectionName =>
    split_ifs <;> simp [Scan.starts, mode, Mode.opened]
  | inSectionName raw =>
    split_ifs <;> simp [Scan.starts, mode, Mode.opened, Field.push]
  | startKeyname cur =>
    split_ifs <;> simp [Scan.starts, mode, Mode.opened]
  | inKeyname cur key =>
    split_ifs <;> simp [Scan.starts, mode, Mode.opened]
  | inKeyvalue cur key value =>
    simp only
    split_ifs
    · simp only [Scan.afterPair]
      split_ifs <;> simp [Scan.starts, mode, Mode.opened, Block.addPair]
    · simp [Scan.starts, mode, Mode.opened]
  | full cur => simp [Scan.starts, mode]

theorem Scan.Ordered.step (h : s.Ordered) (c : UInt8) : (s.step c).Ordered := by
  rcases s.step_starts c with same | opened
  · refine ⟨same ▸ h.increasing, fun p hp => ?_⟩
    rw [same] at hp
    have := h.behind p hp
    rw [Scan.step_pos]
    omega
  · constructor
    · rw [opened, pairwise_append]
      exact ⟨h.increasing, by simp, fun p hp q hq => by
        rw [mem_singleton] at hq
        exact hq ▸ h.behind p hp⟩
    · intro p hp
      rw [opened, mem_append, mem_singleton] at hp
      rw [Scan.step_pos]
      rcases hp with hp | rfl
      · have := h.behind p hp
        omega
      · omega

theorem Scan.Ordered.run (h : s.Ordered) (text : Bytes) : (s.run text).Ordered := by
  induction text generalizing s with
  | nil => exact h
  | cons c text ih => exact ih (h.step c)

/-- **No two sections share their offset.** -/
theorem scan_starts (text : Bytes) : ((scan text).blocks.map (·.name.start)).Pairwise (· < ·) := by
  have start : Scan.start.Ordered := ⟨by simp [Scan.starts, Scan.start, Mode.opened],
    by simp [Scan.starts, Scan.start, Mode.opened]⟩
  have ordered : (scan text).Ordered := start.run text
  refine ordered.increasing.sublist ?_
  rw [Scan.blocks, map_append, Scan.starts]
  refine List.Sublist.append (List.Sublist.refl _) ?_
  unfold Mode.pending
  cases (scan text).mode <;> simp only [Mode.current, Mode.opened] <;> first
    | exact nil_sublist _
    | (split_ifs <;> simp)

/-! ## Fields lie apart -/

inductive Role where
  | name
  | key
  | value
  deriving DecidableEq, Repr

def Block.fields (b : Block) : List (Role × Field) :=
  (.name, b.name) :: b.pairs.flatMap fun p => [(.key, p.1), (.value, p.2)]

def Mode.fields : Mode → List (Role × Field)
  | .startSectionName => []
  | .inSectionName raw => [(.name, raw)]
  | .startKeyname cur | .full cur => cur.fields
  | .inKeyname cur key => cur.fields ++ [(.key, key)]
  | .inKeyvalue cur key value => cur.fields ++ [(.key, key), (.value, value)]

/-- All fields of a scan, in the order of the packet. -/
def Scan.fields (s : Scan) : List (Role × Field) := s.closed.flatMap Block.fields ++ s.mode.fields

def Mode.reads : Mode → Bool
  | .inSectionName _ | .inKeyname _ _ | .inKeyvalue _ _ _ => true
  | _ => false

/-- Where the terminator of a field is, at the latest. -/
def Field.stop (f : Field) : Nat := f.start + f.text.length

/-- What one byte does to the fields. -/
inductive FieldStep (s : Scan) (t : Scan) : Prop
  | same (fields : t.fields = s.fields)
  | opens (role : Role) (c : UInt8) (idle : s.mode.reads = false) (fields : t.fields = s.fields ++ [(role, ⟨s.pos, [c]⟩)])
      (reads : t.mode.reads = true)
  | splits (fields : t.fields = s.fields ++ [(.value, ⟨s.pos + 1, []⟩)]) (reads : t.mode.reads = true)
  | grows (before : List (Role × Field)) (role : Role) (f : Field) (c : UInt8) (fields : s.fields = before ++ [(role, f)])
      (fields' : t.fields = before ++ [(role, f.push c)]) (reads : t.mode.reads = true)
  | trims (before : List (Role × Field)) (role : Role) (f : Field) (text : Bytes) (shorter : text.length ≤ f.text.length)
      (fields : s.fields = before ++ [(role, f)]) (fields' : t.fields = before ++ [(role, ⟨f.start, text⟩)])

theorem nameText_length (raw : Bytes) : (nameText raw).length ≤ raw.length :=
  Nat.le_trans (List.takeWhile_prefix _).length_le (List.rdropWhile_prefix _ _).length_le

theorem Block.fields_addPair (b : Block) (key value : Field) :
    (b.addPair key value).fields = b.fields ++ [(.key, key), (.value, value)] := by
  simp [Block.fields, Block.addPair]

theorem Scan.step_fields (s : Scan) (c : UInt8) : FieldStep s (s.step c) := by
  unfold Scan.step
  cases mode : s.mode with
  | startSectionName =>
    simp only
    split_ifs
    · refine .opens .name c (by rw [mode]; rfl) ?_ rfl
      simp [Scan.fields, mode, Mode.fields]
    · exact .same (by simp [Scan.fields, mode])
  | inSectionName raw =>
    simp only
    split_ifs
    · refine .trims (s.closed.flatMap Block.fields) .name raw (nameText raw.text) (nameText_length _) ?_ ?_
      · simp [Scan.fields, mode, Mode.fields]
      · simp [Scan.fields, Mode.fields, Block.fields]
    · refine .grows (s.closed.flatMap Block.fields) .name raw c ?_ ?_ rfl
      · simp [Scan.fields, mode, Mode.fields]
      · simp [Scan.fields, Mode.fields]
  | startKeyname cur =>
    simp only
    split_ifs
    · exact .same (by simp [Scan.fields, mode, Mode.fields])
    · refine .opens .key c (by rw [mode]; rfl) ?_ rfl
      simp [Scan.fields, mode, Mode.fields]
    · exact .same (by simp [Scan.fields, mode])
  | inKeyname cur key =>
    simp only
    split_ifs
    · refine .splits ?_ rfl
      simp [Scan.fields, mode, Mode.fields]
    · refine .grows (s.closed.flatMap Block.fields ++ cur.fields) .key key c ?_ ?_ rfl
      · simp [Scan.fields, mode, Mode.fields]
      · simp [Scan.fields, Mode.fields]
  | inKeyvalue cur key value =>
    simp only
    split_ifs
    · refine .same ?_
      simp only [Scan.afterPair]
      split_ifs
      · simp [Scan.fields, mode, Mode.fields, Block.fields_addPair]
      · simp [Scan.fields, mode, Mode.fields, Block.fields_addPair]
    · refine .grows (s.closed.flatMap Block.fields ++ cur.fields ++ [(.key, key)]) .value value c ?_ ?_ rfl
      · simp [Scan.fields, mode, Mode.fields]
      · simp [Scan.fields, Mode.fields]
  | full cur => exact .same (by simp [Scan.fields, mode])

/-- Fields lie one behind the other with a byte between them, and before the scan's position. -/
structure Scan.Spread (s : Scan) : Prop where
  apart : s.fields.Pairwise fun f g => f.2.stop < g.2.start
  reach : ∀ f ∈ s.fields, f.2.stop ≤ s.pos
  settled : s.mode.reads = false → ∀ f ∈ s.fields, f.2.stop < s.pos

variable {role : Role}

/-- A last field behind fields that lie apart. -/
theorem Scan.Spread.last {t : Scan} {before : List (Role × Field)} {g : Field}
    (fields : t.fields = before ++ [(role, g)]) (apart : before.Pairwise fun f g => f.2.stop < g.2.start)
    (behind : ∀ f ∈ before, f.2.stop < g.start) (reach : g.stop ≤ t.pos)
    (settled : t.mode.reads = false → g.stop < t.pos) : t.Spread := by
  have begins : g.start ≤ g.stop := Nat.le_add_right _ _
  constructor
  · rw [fields]
    refine pairwise_append.2 ⟨apart, pairwise_singleton _ _, fun f mem g' last => ?_⟩
    rw [mem_singleton.1 last]
    exact behind f mem
  · intro f mem
    rw [fields, mem_append, mem_singleton] at mem
    rcases mem with old | rfl
    · have := behind f old
      omega
    · exact reach
  · intro quiet f mem
    have := settled quiet
    rw [fields, mem_append, mem_singleton] at mem
    rcases mem with old | rfl
    · have := behind f old
      omega
    · exact this

/-- What lies before the last field. -/
theorem Scan.Spread.before (h : s.Spread) {before : List (Role × Field)} (fields : s.fields = before ++ [(role, f)]) :
    (before.Pairwise fun f g => f.2.stop < g.2.start) ∧ (∀ g ∈ before, g.2.stop < f.start) ∧ f.stop ≤ s.pos := by
  have apart := h.apart
  rw [fields] at apart
  obtain ⟨apart, -, behind⟩ := pairwise_append.1 apart
  refine ⟨apart, fun g mem => behind g mem _ (mem_singleton_self _), h.reach (role, f) ?_⟩
  rw [fields]
  exact mem_append_right _ (mem_singleton_self _)

theorem Scan.Spread.step (h : s.Spread) (c : UInt8) : (s.step c).Spread := by
  have pos := Scan.step_pos s c
  have reading : (s.step c).mode.reads = true → ∀ {p : Prop}, (s.step c).mode.reads = false → p :=
    fun reads _ quiet => absurd (reads.symm.trans quiet) (by decide)
  cases s.step_fields c with
  | same fields =>
    refine ⟨fields ▸ h.apart, fun f mem => ?_, fun _ f mem => ?_⟩
    · have := h.reach f (fields ▸ mem)
      omega
    · have := h.reach f (fields ▸ mem)
      omega
  | opens role c' idle fields reads =>
    exact .last fields h.apart (h.settled idle) (Nat.le_of_eq pos.symm) (reading reads)
  | splits fields reads =>
    exact .last fields h.apart (fun f mem => Nat.lt_succ_of_le (h.reach f mem)) (Nat.le_of_eq pos.symm) (reading reads)
  | grows before role f c' fields fields' reads =>
    obtain ⟨apart, behind, reach⟩ := h.before fields
    refine .last fields' apart behind ?_ (reading reads)
    simp only [Field.stop, Field.push, length_append, length_singleton] at reach ⊢
    omega
  | trims before role f text shorter fields fields' =>
    obtain ⟨apart, behind, reach⟩ := h.before fields
    have bound : Field.stop ⟨f.start, text⟩ ≤ s.pos := by
      simp only [Field.stop] at reach ⊢
      omega
    exact .last fields' apart behind (by omega) fun _ => by omega

/-- **The fields of a scan lie one behind the other**, with a byte between them. -/
theorem scan_fields (text : Bytes) :
    ((scan text).blocks.flatMap Block.fields).Pairwise fun f g => f.2.stop < g.2.start := by
  have run : ∀ (text : Bytes) {s : Scan}, s.Spread → (s.run text).Spread := by
    intro text
    induction text with
    | nil => exact fun h => h
    | cons c text ih => exact fun h => ih (h.step c)
  have start : Scan.start.Spread := ⟨by simp [Scan.fields, Scan.start, Mode.fields],
    by simp [Scan.fields, Scan.start, Mode.fields], by simp [Scan.fields, Scan.start, Mode.fields]⟩
  refine (run text start).apart.sublist ?_
  change (((scan text).closed ++ (scan text).mode.pending).flatMap Block.fields).Sublist
    ((scan text).closed.flatMap Block.fields ++ (scan text).mode.fields)
  rw [flatMap_append]
  refine List.Sublist.append (List.Sublist.refl _) ?_
  unfold Mode.pending
  cases (scan text).mode <;> simp only [Mode.current, Mode.fields] <;> first
    | exact nil_sublist _
    | (split_ifs <;> simp)

end Hah.Xap
