import Hah.Lua.Match
import Hah.Xap.RoundTrip

/-!
# Messages of the Lua library: `Frame` in `xap/init.lua`

A frame reads a message line by line, trimmed, and fills a table for every section. A table
is kept as the list of the assignments that were made to it; the last one counts.

A message that is laid out as the C library prints it is read as its sections
(`frame_readable`), if nothing in it starts or ends with a blank. If besides no section and no
key is repeated, a lookup finds in the frame what the C library finds in its own
(`getValue_lookup`).
-/

namespace Hah.Lua
open C Xap List Option

/-! ## The model -/

def lower (s : Bytes) : Bytes := s.map tolower

/-- The assignments made to a table, in their order. -/
abbrev Table (A : Type) := List (Bytes × A)

def Table.index {A : Type} (t : Table A) (k : Bytes) : Option A :=
  (t.reverse.find? fun p => p.1 == k).map Prod.snd

/-- What `nextLine` returns one call after the other. -/
def messageLines (msg : Bytes) : List Bytes :=
  ((gmatch "%s*(.-)%s*\n" msg).getD []).map fun captures => captures.headD []

/-- The assignment that a line of a section makes. -/
def assignment (line : Bytes) : Table Bytes :=
  match find "(.-)%s*=%s*(.*)" line with
  | some (some (_, _, [.inl k, .inl v])) => [(lower k, v)]
  | _ => []

/-- `readBody`, with the lines behind the section. -/
def readBody : List Bytes → Table Bytes × List Bytes
  | [] => ([], [])
  | line :: rest =>
    if line = "\x7d" then ([], rest)
    else (assignment line ++ (readBody rest).1, (readBody rest).2)

/-- `readXap`. Every turn takes a line. -/
def readXap : (fuel : Nat) → List Bytes → Table (Table Bytes)
  | _, [] => []
  | 0, _ :: _ => []
  | fuel + 1, line :: rest =>
    -- the line behind the name is skipped
    (lower line, (readBody rest.tail).1) :: readXap fuel (readBody rest.tail).2

def frame (msg : Bytes) : Table (Table Bytes) := readXap (messageLines msg).length (messageLines msg)

/-- `Frame:getValue` with a key. -/
def getValue (f : Table (Table Bytes)) (sectionName key : Bytes) : Option Bytes :=
  (Table.index f (lower sectionName)).bind fun t => Table.index t (lower key)

example : frame (ascii "A\n\x7b\n k = v w \nx\n\x7d\n") = [(ascii "a", [(ascii "k", ascii "v w")])] := by
  decide +kernel

/-! ## Lines -/

def lineItems : List Item :=
  [.single (.letter 115) .star, .openCapture, .single .any .lazy, .closeCapture, .single (.letter 115) .star,
    .single (.byte 10) .one]

def pairItems : List Item :=
  [.openCapture, .single .any .lazy, .closeCapture, .single (.letter 115) .star, .single (.byte 61) .one,
    .single (.letter 115) .star, .openCapture, .single .any .star, .closeCapture]

theorem compile_line : compile "%s*(.-)%s*\n" = some lineItems := by decide +kernel

theorem find_pair (line : Bytes) :
    find "(.-)%s*=%s*(.*)" line =
      some ((findFrom false pairItems 0 line).map fun r => (r.1, r.2.1, r.2.2.map .inl)) :=
  find_compiled (by decide +kernel) (by decide) (by decide) (by decide) line

def EndsPlain (s : Bytes) : Prop := ∀ c ∈ s.getLast?, isspace c = false

def StartsPlain (s : Bytes) : Prop := ∀ c ∈ s.head?, isspace c = false

theorem EndsPlain.suffix {s t : Bytes} (h : EndsPlain s) (part : t <:+ s) (some_byte : t ≠ []) : EndsPlain t := by
  obtain ⟨front, rfl⟩ := part
  intro c last
  apply h
  rwa [getLast?_append_of_ne_nil front some_byte]

section Expand

variable {R : Type} {test : UInt8 → Bool} {next : Bytes → Option R}

theorem maxExpand_here {s : Bytes} (stop : ∀ c ∈ s.head?, test c = false) : maxExpand test next s = next s := by
  cases s with
  | nil => rfl
  | cons c s =>
    rw [maxExpand, if_neg]
    simp [stop c rfl]

theorem maxExpand_run {run s : Bytes} {r : R} (inside : ∀ c ∈ run, test c = true)
    (found : maxExpand test next s = some r) : maxExpand test next (run ++ s) = some r := by
  induction run with
  | nil => exact found
  | cons c run ih =>
    obtain ⟨passes, later⟩ := forall_mem_cons.1 inside
    rw [cons_append, maxExpand, if_pos passes, ih later]
    rfl

/-- All of the subject, if that is enough. -/
theorem maxExpand_all {s : Bytes} {r : R} (inside : ∀ c ∈ s, test c = true) (hit : next [] = some r) :
    maxExpand test next s = some r := by
  induction s with
  | nil => exact hit
  | cons c s ih =>
    obtain ⟨passes, later⟩ := forall_mem_cons.1 inside
    rw [maxExpand, if_pos passes, ih later]
    rfl

theorem minExpand_run {run s : Bytes} {r : R} (inside : ∀ c ∈ run, test c = true)
    (before : ∀ t, t <:+ run → t ≠ [] → next (t ++ s) = none) (hit : next s = some r) :
    minExpand test next (run ++ s) = some r := by
  induction run with
  | nil =>
    cases s with
    | nil => exact hit
    | cons c s =>
      rw [nil_append, minExpand, hit]
      rfl
  | cons c run ih =>
    obtain ⟨passes, inside⟩ := forall_mem_cons.1 inside
    have nothing := before (c :: run) (suffix_refl _) (cons_ne_nil c run)
    rw [cons_append] at nothing ⊢
    rw [minExpand, nothing, if_pos passes, none_or]
    exact ih inside fun t part => before t (part.trans (suffix_cons c run))

end Expand

/-- White space and a byte that stands further back do not match inside a text. -/
theorem space_stop_none {stop : UInt8} {p : List Item} {caps : List Capture} {t s : Bytes} (plain : EndsPlain t)
    (some_byte : t ≠ []) (away : stop ∉ t) :
    maxExpand (fun c => (Class.letter 115).test c) (fun s => doMatch (.single (.byte stop) .one :: p) s caps) (t ++ s) =
      none := by
  rw [eq_none_iff_forall_not_mem]
  intro r found
  obtain ⟨run, rest, split, ⟨inside, -⟩, hit, -⟩ := expand_some (show Class.expand _ .star _ _ = _ from found)
  have last : ∀ u, run = t ++ u → False := by
    rintro u rfl
    have mem := mem_append_left u (getLast_mem some_byte)
    have blank : isspace (t.getLast some_byte) = true := inside _ mem
    rw [plain _ (getLast?_eq_getLast_of_ne_nil some_byte)] at blank
    cases blank
  rcases append_eq_append_iff.1 split with ⟨u, longer, -⟩ | ⟨u, rfl, rfl⟩
  · exact last u longer
  · cases u with
    | nil => exact last [] (by simp)
    | cons d u =>
      rw [cons_append, doMatch, Class.expand] at hit
      split_ifs at hit with same
      obtain rfl : stop = d := beq_iff_eq.1 same
      exact away (mem_append_right run mem_cons_self)

theorem lazy_text {stop : UInt8} {p : List Item} {caps : List Capture} {text s : Bytes}
    {r : Bytes × List Capture} (plain : EndsPlain text) (away : stop ∉ text)
    (hit : doMatch (.closeCapture :: .single (.letter 115) .star :: .single (.byte stop) .one :: p) s caps = some r) :
    doMatch (.single .any .lazy :: .closeCapture :: .single (.letter 115) .star :: .single (.byte stop) .one :: p)
      (text ++ s) caps = some r := by
  refine minExpand_run (fun _ _ => rfl) (fun t part some_byte => ?_) hit
  exact space_stop_none (plain.suffix part some_byte) some_byte fun mem => away (part.subset mem)

/-- A line as the messages have them: one that `nextLine` returns as it is. -/
structure LineOk (line : Bytes) : Prop where
  filled : line ≠ []
  starts : StartsPlain line
  ends : EndsPlain line
  single : 10 ∉ line

theorem StartsPlain.append {s t : Bytes} (h : StartsPlain s) (filled : s ≠ []) : StartsPlain (s ++ t) := by
  obtain ⟨c, s, rfl⟩ := exists_cons_of_ne_nil filled
  exact h

theorem take_front (a b : Bytes) : (a ++ b).take ((a ++ b).length - b.length) = a := by
  simp

/-- **One line** is matched with the newline behind it. -/
theorem match_line {line rest : Bytes} (ok : LineOk line) (next : StartsPlain rest) :
    doMatch lineItems (line ++ 10 :: rest) [] = some (rest, [⟨line ++ 10 :: rest, some line⟩]) := by
  rw [lineItems, doMatch]
  refine (maxExpand_here (ok.starts.append ok.filled)).trans ?_
  refine lazy_text ok.ends ok.single ?_
  rw [doMatch, closeCapture, if_pos rfl, take_front, doMatch, Class.expand]
  have behind : maxExpand (fun c => (Class.letter 115).test c)
      (fun s => doMatch [.single (.byte 10) .one] s [⟨line ++ 10 :: rest, some line⟩]) rest = none := by
    refine (maxExpand_here next).trans ?_
    cases rest with
    | nil => rfl
    | cons c rest =>
      have other : ¬ (Class.byte 10).test c = true := by
        intro same
        obtain rfl : 10 = c := beq_iff_eq.1 same
        exact absurd (next 10 rfl) (by decide)
      exact if_neg other
  rw [maxExpand, if_pos (show (Class.letter 115).test 10 = true by decide), behind, none_or]
  exact doMatch_one rfl

theorem gmatchLoop_skip (p : List Item) (a s : Bytes) : gmatchLoop p a.length (a ++ s) = gmatchLoop p 0 s := by
  induction a with
  | nil => rfl
  | cons c a ih => exact ih

theorem gmatch_line {line rest : Bytes} (ok : LineOk line) (next : StartsPlain rest) :
    gmatchLoop lineItems 0 (line ++ 10 :: rest) = [line] :: gmatchLoop lineItems 0 rest := by
  have found := match_line ok next
  obtain ⟨c, line, rfl⟩ := exists_cons_of_ne_nil ok.filled
  rw [cons_append] at found ⊢
  rw [gmatchLoop, found]
  have skipped : (line ++ 10 :: rest).length - rest.length = (line ++ [10]).length := by
    simp only [length_append, length_cons, length_nil]
    omega
  have split : line ++ 10 :: rest = (line ++ [10]) ++ rest := by simp
  dsimp only
  rw [skipped, split, gmatchLoop_skip]
  rfl

theorem line_asks : Item.single (.byte 10) .one ∈ lineItems := by decide

/-- A text without a line end has no line. -/
theorem lines_none {s : Bytes} (away : 10 ∉ s) : gmatchLoop lineItems 0 s = [] := by
  induction s with
  | nil => decide
  | cons c s ih =>
    rw [gmatchLoop, doMatch_missing line_asks away]
    exact ih fun mem => away (mem_cons_of_mem c mem)

/-- **The lines of a text** of such lines, and of a rest that is none. -/
theorem messageLines_text {ls : List Bytes} {tail : Bytes} (ok : ∀ line ∈ ls, LineOk line)
    (starts : StartsPlain tail) (away : 10 ∉ tail) :
    messageLines ((ls.flatMap fun line => line ++ [10]) ++ tail) = ls := by
  have walk : gmatchLoop lineItems 0 ((ls.flatMap fun line => line ++ [10]) ++ tail) = ls.map fun line => [line] := by
    induction ls with
    | nil => exact lines_none away
    | cons line ls ih =>
      obtain ⟨first, later⟩ := forall_mem_cons.1 ok
      have next : StartsPlain ((ls.flatMap fun line => line ++ [10]) ++ tail) := by
        cases ls with
        | nil => exact starts
        | cons other ls =>
          have second := later other mem_cons_self
          rw [flatMap_cons, append_assoc, append_assoc]
          exact second.starts.append second.filled
      rw [flatMap_cons, append_assoc, append_assoc, singleton_append, gmatch_line first next, ih later]
      rfl
  rw [messageLines, gmatch, compile_line, map_some, getD_some, walk, List.map_map]
  exact (map_congr_left fun _ _ => rfl).trans (map_id ls)

/-- **An assignment**: a key and a value with blanks around the `=`. -/
theorem assignment_blanks {key before after value : Bytes} (ends : EndsPlain key) (starts : StartsPlain value)
    (away : 61 ∉ key) (spaces : ∀ c ∈ before, isspace c = true) (spaces' : ∀ c ∈ after, isspace c = true) :
    assignment (key ++ (before ++ 61 :: (after ++ value))) = [(lower key, value)] := by
  have found : doMatch pairItems (key ++ (before ++ 61 :: (after ++ value))) [] =
      some ([], [⟨value, some value⟩, ⟨key ++ (before ++ 61 :: (after ++ value)), some key⟩]) := by
    rw [pairItems, doMatch]
    refine lazy_text ends away ?_
    rw [doMatch, closeCapture, if_pos rfl, take_front, doMatch]
    refine maxExpand_run spaces ?_
    refine (maxExpand_here fun c first => ?_).trans ?_
    · obtain rfl : 61 = c := some.inj first
      rfl
    refine (doMatch_one rfl).trans ?_
    refine maxExpand_run spaces' ?_
    refine (maxExpand_here starts).trans ?_
    refine maxExpand_all (fun _ _ => rfl) ?_
    simp [doMatch, closeCapture]
  rw [assignment, find_pair, findFrom.eq_def, found]
  rfl

theorem assignment_pair {key value : Bytes} (ends : EndsPlain key) (starts : StartsPlain value)
    (away : 61 ∉ key) : assignment (key ++ 61 :: value) = [(lower key, value)] :=
  @assignment_blanks key [] [] value ends starts away (by simp) (by simp)

/-! ## Laid out messages -/

def sectionLines (s : Section) : List Bytes :=
  s.name :: ascii "\x7b" :: (s.pairs.map fun p => p.1 ++ 61 :: p.2) ++ [ascii "\x7d"]

def tableOf (sections : List Section) : Table (Table Bytes) :=
  sections.map fun s => (lower s.name, s.pairs.map fun p => (lower p.1, p.2))

/-- A key and a value that stand in one line and are read back from it. -/
structure PairOk (p : Bytes × Bytes) : Prop where
  keyStarts : StartsPlain p.1
  keyEnds : EndsPlain p.1
  keySingle : 10 ∉ p.1
  away : 61 ∉ p.1
  valueStarts : StartsPlain p.2
  valueEnds : EndsPlain p.2
  valueSingle : 10 ∉ p.2

/-- A section whose lines are read back. -/
structure Readable (s : Section) : Prop where
  name : LineOk s.name
  pairs : ∀ p ∈ s.pairs, PairOk p

/-- Neither a name nor a key nor a value starts or ends with a blank, and no key holds a `=`. -/
structure Trimmed (s : Section) : Prop where
  printable : ∀ c ∈ s.name, 32 ≤ c
  name : s.name.getLast? ≠ some 32
  keys : ∀ p ∈ s.pairs, p.1.getLast? ≠ some 32 ∧ equals ∉ p.1
  values : ∀ p ∈ s.pairs, p.2.head? ≠ some 32 ∧ p.2.getLast? ≠ some 32

theorem isspace_printable {c : UInt8} (printable : 32 ≤ c) (other : c ≠ 32) : isspace c = false := by
  revert printable other
  exact byte_cases (by decide +kernel) c

theorem endsPlain_of {s : Bytes} (printable : ∀ c ∈ s, 32 ≤ c) (last : s.getLast? ≠ some 32) : EndsPlain s :=
  fun c mem => isspace_printable (printable c (mem_of_getLast? mem)) fun same => last (same ▸ mem)

theorem startsPlain_of {s : Bytes} (printable : ∀ c ∈ s, 32 ≤ c) (first : s.head? ≠ some 32) : StartsPlain s :=
  fun c mem => isspace_printable (printable c (mem_of_head? mem)) fun same => first (same ▸ mem)

theorem newline_not_mem {s : Bytes} (printable : ∀ c ∈ s, 32 ≤ c) : 10 ∉ s :=
  fun mem => absurd (printable 10 mem) (by decide)

/-- A text of printable bytes with a visible one at either end. -/
theorem lineOk_of {s : Bytes} (filled : s ≠ []) (printable : ∀ c ∈ s, 32 ≤ c) (first : s.head? ≠ some 32)
    (last : s.getLast? ≠ some 32) : LineOk s :=
  ⟨filled, startsPlain_of printable first, endsPlain_of printable last, newline_not_mem printable⟩

section Layout

variable {s : Section} {sections : List Section}

theorem head_visible {c : UInt8} {rest : Bytes} (visible : 32 < c) : (c :: rest).head? ≠ some 32 := by
  rintro ⟨rfl⟩
  exact absurd visible (by decide)

theorem name_line (ok : s.Ok) (trimmed : Trimmed s) : LineOk s.name := by
  obtain ⟨c, rest, name, visible, -⟩ := ok.name.first
  have first : s.name.head? ≠ some 32 := name ▸ head_visible visible
  exact lineOk_of (name ▸ cons_ne_nil c rest) trimmed.printable first trimmed.name

theorem key_printable {key : Bytes} (ok : KeyOk key) : (∀ c ∈ key, 32 ≤ c) ∧ key.head? ≠ some 32 := by
  obtain ⟨c, rest, rfl, visible, -, -, others⟩ := ok.first
  refine ⟨fun d mem => ?_, head_visible visible⟩
  rcases mem_cons.1 mem with rfl | mem
  · exact UInt8.le_of_lt visible
  · exact (others d mem).1

theorem readable_of (ok : s.Ok) (trimmed : Trimmed s) : Readable s := by
  refine ⟨name_line ok trimmed, fun p mem => ?_⟩
  obtain ⟨key, value⟩ := ok.pairs p mem
  obtain ⟨printable, first⟩ := key_printable key
  obtain ⟨keyLast, away⟩ := trimmed.keys p mem
  obtain ⟨valueFirst, valueLast⟩ := trimmed.values p mem
  exact ⟨startsPlain_of printable first, endsPlain_of printable keyLast, newline_not_mem printable, away,
    startsPlain_of value valueFirst, endsPlain_of value valueLast, newline_not_mem value⟩

theorem PairOk.line {p : Bytes × Bytes} (ok : PairOk p) : LineOk (p.1 ++ 61 :: p.2) := by
  have sep : isspace 61 = false := by decide
  refine ⟨by simp, ?_, ?_, ?_⟩
  · cases key : p.1 with
    | nil => exact fun c first => (some.inj first) ▸ sep
    | cons c rest => exact fun d first => ok.keyStarts d (key ▸ first)
  · intro c last
    rw [getLast?_append_of_ne_nil _ (cons_ne_nil _ _)] at last
    cases value : p.2 with
    | nil =>
      rw [value] at last
      exact (some.inj last) ▸ sep
    | cons d rest =>
      rw [value, getLast?_cons_cons, ← value] at last
      exact ok.valueEnds c last
  · simp [ok.keySingle, ok.valueSingle]

theorem layout_lines (sections : List Section) :
    layout sections = (sections.flatMap sectionLines).flatMap fun line => line ++ [10] := by
  have pairs : pairLayout = fun p => (p.1 ++ 61 :: p.2) ++ [10] := by
    funext p
    simp [pairLayout, equals, ascii]
  rw [layout, flatMap_assoc]
  congr 1
  funext s
  simp only [Section.layout, pairs, sectionLines, flatMap_append, flatMap_cons, flatMap_map,
    flatMap_nil, append_nil, append_assoc]
  rfl

theorem sectionLines_ok (readable : Readable s) : ∀ line ∈ sectionLines s, LineOk line := by
  have opens : LineOk "\x7b" := lineOk_of (by decide) (bytes_of_all (by decide)) (by decide) (by decide)
  have closes : LineOk "\x7d" := lineOk_of (by decide) (bytes_of_all (by decide)) (by decide) (by decide)
  intro line mem
  simp only [sectionLines, cons_append, mem_cons, mem_append, List.mem_map, not_mem_nil,
    or_false] at mem
  rcases mem with rfl | rfl | ⟨p, pair, rfl⟩ | rfl
  · exact readable.name
  · exact opens
  · exact (readable.pairs p pair).line
  · exact closes

theorem readBody_close (rest : List Bytes) : readBody ("\x7d" :: rest) = ([], rest) := if_pos rfl

/-- The pairs of a section, and what is read behind them. -/
theorem readBody_pairs {pairs : List (Bytes × Bytes)} (ok : ∀ p ∈ pairs, PairOk p)
    (rest : List Bytes) :
    readBody ((pairs.map fun p => p.1 ++ 61 :: p.2) ++ rest) =
      ((pairs.map fun p => (lower p.1, p.2)) ++ (readBody rest).1, (readBody rest).2) := by
  induction pairs with
  | nil => rfl
  | cons p pairs ih =>
    obtain ⟨first, later⟩ := forall_mem_cons.1 ok
    have other : p.1 ++ 61 :: p.2 ≠ "\x7d" := by
      intro same
      have mem : 61 ∈ ascii "\x7d" := same ▸ mem_append_right p.1 mem_cons_self
      exact absurd mem (by decide)
    have assigned := assignment_pair first.keyEnds first.valueStarts first.away
    rw [map_cons, cons_append, readBody, if_neg other, ih later, assigned]
    rfl

theorem readXap_sections (readable : ∀ s ∈ sections, Readable s) {fuel : Nat}
    (enough : (sections.flatMap sectionLines).length ≤ fuel) :
    readXap fuel (sections.flatMap sectionLines) = tableOf sections := by
  induction sections generalizing fuel with
  | nil => cases fuel <;> rfl
  | cons s sections ih =>
    obtain ⟨first, later⟩ := forall_mem_cons.1 readable
    have text : (s :: sections).flatMap sectionLines = s.name :: ascii "\x7b" ::
        ((s.pairs.map fun p => p.1 ++ 61 :: p.2) ++ ascii "\x7d" :: sections.flatMap sectionLines) := by
      simp [sectionLines]
    rw [text] at enough ⊢
    obtain ⟨fuel, rfl⟩ : ∃ n, fuel = n + 1 := ⟨fuel - 1, by rw [length_cons] at enough; omega⟩
    have left : (sections.flatMap sectionLines).length ≤ fuel := by
      simp only [length_cons, length_append] at enough
      omega
    rw [readXap, tail_cons, readBody_pairs first.pairs, readBody_close, ih later left, append_nil]
    rfl

/-- **A laid out message** of readable sections is read as its sections. -/
theorem frame_readable (readable : ∀ s ∈ sections, Readable s) : frame (layout sections) = tableOf sections := by
  have lines : ∀ line ∈ sections.flatMap sectionLines, LineOk line := by
    intro line mem
    obtain ⟨s, inside, here⟩ := mem_flatMap.1 mem
    exact sectionLines_ok (readable s inside) line here
  have read := messageLines_text lines (by simp [StartsPlain]) (@not_mem_nil UInt8 10)
  rw [append_nil, ← layout_lines] at read
  rw [frame, read]
  exact readXap_sections readable (Nat.le_refl _)

end Layout

/-! ## Lookups -/

section Lookup

variable {A : Type}

theorem index_cons (p : Bytes × A) (t : Table A) (k : Bytes) :
    Table.index (p :: t) k = (Table.index t k).or (if p.1 = k then some p.2 else none) := by
  unfold Table.index
  rw [reverse_cons, find?_append, map_or]
  by_cases same : p.1 = k <;> simp [same]

theorem index_none {t : Table A} {k : Bytes} (absent : ∀ p ∈ t, p.1 ≠ k) : Table.index t k = none := by
  induction t with
  | nil => rfl
  | cons p t ih =>
    obtain ⟨first, later⟩ := forall_mem_cons.1 absent
    rw [index_cons, ih later, if_neg first]
    rfl

/-- No section has two keys, and no message two sections, that differ in case alone. -/
structure NoRepeats (sections : List Section) : Prop where
  names : (sections.map fun s => lower s.name).Nodup
  keys : ∀ s ∈ sections, (s.pairs.map fun p => lower p.1).Nodup

theorem index_pairs {pairs : List (Bytes × Bytes)} (distinct : (pairs.map fun p => lower p.1).Nodup)
    (key : Bytes) :
    Table.index (pairs.map fun p => (lower p.1, p.2)) (lower key) =
      (pairs.find? fun p => strcasecmpEq key p.1).map Prod.snd := by
  induction pairs with
  | nil => rfl
  | cons p pairs ih =>
    obtain ⟨fresh, distinct⟩ := nodup_cons.1 distinct
    rw [map_cons, index_cons, find?_cons]
    by_cases same : lower p.1 = lower key
    · have here := strcasecmpEq_iff.2 same.symm
      have alone : Table.index (pairs.map fun p => (lower p.1, p.2)) (lower key) = none := by
        refine index_none fun q mem equal => fresh ?_
        obtain ⟨r, inside, rfl⟩ := mem_map.1 mem
        exact mem_map.2 ⟨r, inside, equal.trans same.symm⟩
      rw [alone, if_pos same, here]
      rfl
    · have other := Bool.eq_false_iff.2 fun equal => same (strcasecmpEq_iff.1 equal).symm
      rw [if_neg same, other, ih distinct, or_none]

/-- **A lookup in the Lua frame** is the lookup of the C library. -/
theorem getValue_lookup {sections : List Section} (distinct : NoRepeats sections) (sectionName key : Bytes) :
    getValue (tableOf sections) sectionName key = Xap.lookup sections sectionName key := by
  obtain ⟨names, keys⟩ := distinct
  induction sections with
  | nil => rfl
  | cons s sections ih =>
    obtain ⟨fresh, names⟩ := nodup_cons.1 names
    obtain ⟨first, later⟩ := forall_mem_cons.1 keys
    have rest := ih names later
    have split : Xap.lookup (s :: sections) sectionName key =
        (((s.pairs.map fun p => (s.name, p)).find? fun p => strcasecmpEq sectionName p.1 && strcasecmpEq key p.2.1).map
          (·.2.2)).or (Xap.lookup sections sectionName key) := by
      rw [Xap.lookup, sectionPairs, flatMap_cons, find?_append, map_or]
      rfl
    rw [split, find?_map]
    unfold getValue at rest ⊢
    rw [tableOf, map_cons, index_cons]
    by_cases same : lower s.name = lower sectionName
    · have here := strcasecmpEq_iff.2 same.symm
      have alone : Table.index (tableOf sections) (lower sectionName) = none := by
        refine index_none fun q mem equal => fresh ?_
        obtain ⟨r, inside, rfl⟩ := mem_map.1 mem
        exact mem_map.2 ⟨r, inside, equal.trans same.symm⟩
      rw [alone, bind_none] at rest
      rw [← rest, or_none]
      change ((Table.index (tableOf sections) (lower sectionName)).or _).bind _ = _
      rw [alone, if_pos same, none_or, bind_some, index_pairs first]
      simp [here, Function.comp_def]
    · have other := Bool.eq_false_iff.2 fun equal => same (strcasecmpEq_iff.1 equal).symm
      have nothing : s.pairs.find? (fun _ => false) = none := find?_eq_none.2 fun _ _ => Bool.false_ne_true
      rw [if_neg same, or_none]
      refine Eq.trans rest ?_
      simp only [Function.comp_def, other, Bool.false_and, nothing, map_none, none_or]

end Lookup

end Hah.Lua
