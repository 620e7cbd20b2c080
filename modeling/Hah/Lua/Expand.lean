import Mathlib.Data.List.Nodup
import Hah.Lua.Frame
import Hah.Xap.Lower

/-!
# Short messages in Lua: `expandShortMsg`

A message is read into a frame, the keys that its header section lacks are filled in from
`defaultKeys`, and the frame is printed again. `pairs` enumerates a table in no particular
order, so the printed text is one of many (`Order`).

Two halves make the round trip. Whatever a message is, the sections of its frame are readable
(`frame_sections`), unless there is no line in it but a blank one: then the frame has a single
section without a name. And sections that are readable are read back, in whatever order they
and their keys are printed. So a message survives its expansion (`expand_reads_back`).
-/

namespace Hah.Lua
open C Xap List Option

/-! ## The lines of any text -/

variable {s blanks line : Bytes} {rest : Bytes} {b : UInt8} {lines : List Bytes}

/-- The blanks that a text starts with hold no line end. -/
def NoBlankLine (s : Bytes) : Prop :=
  ∀ blanks rest, s = blanks ++ 10 :: rest → ¬ ∀ c ∈ blanks, isspace c = true

/-- The part of the line pattern behind the line: blanks, as far as there is a line end behind them. -/
theorem match_end (caps : List Capture) (split : s = blanks ++ 10 :: rest) (spaces : ∀ c ∈ blanks, isspace c = true) :
    ∃ front e, doMatch [.single (.letter 115) .star, .single (.byte 10) .one] s caps = some (e, caps) ∧
      s = front ++ 10 :: e ∧ NoBlankLine e := by
  subst split
  have some_match :
      doMatch [.single (.letter 115) .star, .single (.byte 10) .one] (blanks ++ 10 :: rest) caps ≠ none := by
    intro nothing
    exact absurd (expand_none nothing ⟨spaces, trivial⟩) (by simp [doMatch, Class.expand, Class.test])
  obtain ⟨r, found⟩ := ne_none_iff_exists'.1 some_match
  obtain ⟨run, behind, whole, ⟨inside, -⟩, hit, longest⟩ := expand_some found
  cases behind with
  | nil => cases hit
  | cons c e =>
    rw [doMatch, Class.expand] at hit
    split_ifs at hit with same
    obtain rfl : 10 = c := beq_iff_eq.1 same
    cases hit
    refine ⟨run, e, found, whole, fun more t later spaces' => ?_⟩
    -- blanks up to a later line end would have been taken as well
    have nothing := longest (run ++ 10 :: more) (10 :: t) (by rw [whole, later]; simp)
      ⟨forall_mem_append.2 ⟨inside, forall_mem_cons.2 ⟨by decide, spaces'⟩⟩, trivial⟩ (by simp [Rep.Before])
    exact absurd nothing (by simp [doMatch, Class.expand, Class.test])

/-- Blanks at the start of a text. -/
theorem split_leading (s : Bytes) :
    ∃ blanks body, s = blanks ++ body ∧ (∀ c ∈ blanks, isspace c = true) ∧ StartsPlain body := by
  refine ⟨s.takeWhile isspace, s.dropWhile isspace, takeWhile_append_dropWhile.symm,
    fun c mem => mem_takeWhile_imp mem, fun c first => ?_⟩
  have plain := head?_dropWhile_not isspace s
  rw [mem_def.1 first] at plain
  simpa using plain

/-- Blanks at the end of a text. -/
theorem split_trailing (l : Bytes) :
    ∃ line blanks, l = line ++ blanks ∧ EndsPlain line ∧ ∀ c ∈ blanks, isspace c = true := by
  refine ⟨l.rdropWhile isspace, l.rtakeWhile isspace, rdropWhile_append_rtakeWhile.symm, fun c last => ?_,
    fun c mem => mem_rtakeWhile_imp mem⟩
  have some_byte : l.rdropWhile isspace ≠ [] := by
    intro none
    rw [none] at last
    cases last
  have plain := rdropWhile_last_not isspace l some_byte
  rw [getLast?_eq_getLast_of_ne_nil some_byte] at last
  cases last
  simpa using plain

/-- **The next line** of a text with a line end behind its blanks. -/
theorem match_next {body : Bytes} (spaces : ∀ c ∈ blanks, isspace c = true) (starts : StartsPlain body)
    (mem : 10 ∈ body) :
    ∃ line front e init, doMatch lineItems (blanks ++ body) [] = some (e, [⟨init, some line⟩]) ∧
      blanks ++ body = front ++ 10 :: e ∧ LineOk line ∧ NoBlankLine e := by
  obtain ⟨l, rest, rfl, away⟩ := eq_append_cons_of_mem mem
  obtain ⟨line, trailing, rfl, ends, spaces'⟩ := split_trailing l
  have single : 10 ∉ line := fun inside => away (mem_append_left trailing inside)
  have filled : line ≠ [] := by
    -- the body does not start with a blank, and not with a line end
    rintro rfl
    cases trailing with
    | nil => exact absurd (starts 10 rfl) (by decide)
    | cons c trailing =>
      have blank := spaces' c mem_cons_self
      rw [starts c rfl] at blank
      cases blank
  have startsLine : StartsPlain line := by
    obtain ⟨c, line, rfl⟩ := exists_cons_of_ne_nil filled
    exact starts
  obtain ⟨front, e, ended, split, noBlank⟩ := match_end [⟨line ++ (trailing ++ 10 :: rest), some line⟩] rfl spaces'
  refine ⟨line, blanks ++ (line ++ front), e, line ++ (trailing ++ 10 :: rest), ?_, ?_,
    ⟨filled, startsLine, ends, single⟩, noBlank⟩
  · rw [lineItems, doMatch]
    refine maxExpand_run spaces ?_
    rw [append_assoc]
    refine (maxExpand_here (startsLine.append filled)).trans ?_
    refine lazy_text ends single ?_
    rw [doMatch, closeCapture, if_pos rfl, take_front]
    exact ended
  · rw [append_assoc line, split]
    simp

theorem endsPlain_nil : EndsPlain [] := fun _ none => absurd none (not_mem_none _)

/-- If the only line ends of a text stand in the blanks before it, its line is empty. -/
theorem match_blank (spaces : ∀ c ∈ blanks, isspace c = true) (away : 10 ∉ rest) :
    ∃ init, doMatch lineItems (blanks ++ 10 :: rest) [] = some (rest, [⟨init, some []⟩]) := by
  refine ⟨10 :: rest, ?_⟩
  rw [lineItems, doMatch]
  refine maxExpand_run spaces ?_
  have taken := doMatch_missing line_asks away []
  have here : doMatch lineItems.tail (10 :: rest) [] = some (rest, [⟨10 :: rest, some []⟩]) := by
    rw [lineItems, tail_cons, doMatch]
    refine @lazy_text _ _ _ [] (10 :: rest) _ endsPlain_nil not_mem_nil ?_
    rw [doMatch, closeCapture, if_pos rfl, Nat.sub_self, take_zero, doMatch, Class.expand]
    have behind := doMatch_missing (p := [.single (.letter 115) .star, .single (.byte 10) .one]) (by decide) away
      [⟨10 :: rest, some []⟩]
    rw [doMatch, Class.expand] at behind
    rw [maxExpand, if_pos (show (Class.letter 115).test 10 = true by decide), behind, none_or]
    exact doMatch_one rfl
  rw [maxExpand, if_pos (show (Class.letter 115).test 10 = true by decide)]
  exact (congrArg₂ Option.or taken here).trans (none_or)

/-- One turn of the loop. -/
theorem lines_step {e front init : Bytes} (found : doMatch lineItems s [] = some (e, [⟨init, some line⟩]))
    (split : s = front ++ 10 :: e) : gmatchLoop lineItems 0 s = [line] :: gmatchLoop lineItems 0 e := by
  obtain ⟨c, taken, first⟩ : ∃ c taken, front ++ [10] = c :: taken := exists_cons_of_ne_nil (by simp)
  obtain rfl : s = c :: (taken ++ e) := by rw [split, append_cons, first, cons_append]
  have skipped : (taken ++ e).length - e.length = taken.length := by simp
  rw [gmatchLoop, found]
  dsimp only
  rw [skipped, gmatchLoop_skip]
  rfl

theorem lines_noBlank (noBlank : NoBlankLine s) : ∀ l ∈ gmatchLoop lineItems 0 s, ∃ line, l = [line] ∧ LineOk line := by
  induction size : s.length using Nat.strong_induction_on generalizing s with
  | _ n ih =>
    obtain ⟨blanks, body, rfl, spaces, starts⟩ := split_leading s
    by_cases mem : 10 ∈ body
    · obtain ⟨line, front, e, init, found, split, ok, later⟩ := match_next spaces starts mem
      have shorter : e.length < n := by
        rw [← size, split, length_append, length_cons]
        omega
      rw [lines_step found split]
      exact forall_mem_cons.2 ⟨⟨line, rfl, ok⟩, ih e.length shorter later rfl⟩
    · have away : 10 ∉ blanks ++ body := by
        intro inside
        obtain ⟨front, rest, split, -⟩ := eq_append_cons_of_mem ((mem_append.1 inside).resolve_right mem)
        refine noBlank front (rest ++ body) (by rw [split]; simp) fun c here => spaces c ?_
        exact split ▸ mem_append_left _ here
      rw [lines_none away]
      exact fun l none => absurd none not_mem_nil

/-- **The lines of any message**: trimmed, not empty and without a line end, unless there is none
but an empty one. -/
theorem messageLines_ok (msg : Bytes) : messageLines msg = [[]] ∨ ∀ line ∈ messageLines msg, LineOk line := by
  have lines : messageLines msg = (gmatchLoop lineItems 0 msg).map fun captures => captures.headD [] := by
    rw [messageLines, gmatch, compile_line]
    rfl
  have all_ok : (∀ l ∈ gmatchLoop lineItems 0 msg, ∃ line, l = [line] ∧ LineOk line) →
      ∀ line ∈ messageLines msg, LineOk line := by
    intro ok line mem
    rw [lines] at mem
    obtain ⟨l, inside, rfl⟩ := mem_map.1 mem
    obtain ⟨line, rfl, lineOk⟩ := ok l inside
    exact lineOk
  obtain ⟨blanks, body, rfl, spaces, starts⟩ := split_leading msg
  by_cases mem : 10 ∈ body
  · obtain ⟨line, front, e, init, found, split, ok, noBlank⟩ := match_next spaces starts mem
    right
    apply all_ok
    rw [lines_step found split]
    exact forall_mem_cons.2 ⟨⟨line, rfl, ok⟩, lines_noBlank noBlank⟩
  by_cases blank : 10 ∈ blanks
  · -- the last line end of the blanks
    obtain ⟨rest, front, reversed, last⟩ := eq_append_cons_of_mem (mem_reverse.2 blank)
    obtain rfl : blanks = front.reverse ++ 10 :: rest.reverse := by
      rw [← reverse_reverse blanks, reversed]
      simp
    have away : 10 ∉ rest.reverse ++ body := by simp [last, mem]
    obtain ⟨init, found⟩ := match_blank (fun c here => spaces c (mem_append_left _ here)) away
    left
    rw [lines, append_assoc, cons_append, lines_step found rfl, lines_none away]
    rfl
  · right
    apply all_ok
    rw [lines_none (by simp [blank, mem])]
    exact fun l none => absurd none not_mem_nil

/-! ## The sections of any frame -/

theorem isspace_low {c : UInt8} (blank : isspace c = true) : c < 65 := by
  simp only [isspace, Bool.or_eq_true, beq_iff_eq, Bool.and_eq_true, decide_eq_true_eq] at blank
  rcases blank with rfl | ⟨-, high⟩
  · decide
  · exact UInt8.lt_of_le_of_lt high (by decide)

theorem isspace_tolower (c : UInt8) : isspace (tolower c) = isspace c := by
  rw [Bool.eq_iff_iff]
  constructor
  · intro blank
    rwa [(tolower_eq_iff (isspace_low blank)).1 rfl]
  · intro blank
    rwa [(tolower_eq_iff (isspace_low blank)).2 rfl]

theorem lower_startsPlain (h : StartsPlain s) : StartsPlain (lower s) := by
  intro c first
  rw [lower, head?_map] at first
  obtain ⟨d, here, rfl⟩ := map_eq_some_iff.1 first
  rw [isspace_tolower]
  exact h d here

theorem lower_endsPlain (h : EndsPlain s) : EndsPlain (lower s) := by
  intro c last
  rw [lower, getLast?_map] at last
  obtain ⟨d, here, rfl⟩ := map_eq_some_iff.1 last
  rw [isspace_tolower]
  exact h d here

theorem lower_away (plain : b < 65) (away : b ∉ s) : b ∉ lower s := by
  intro mem
  obtain ⟨c, inside, same⟩ := mem_map.1 mem
  exact away ((tolower_eq_iff plain).1 same ▸ inside)

theorem LineOk.lower (ok : LineOk line) : LineOk (lower line) :=
  ⟨by simpa [Lua.lower] using ok.filled, lower_startsPlain ok.starts, lower_endsPlain ok.ends,
    lower_away (by decide) ok.single⟩

/-- A search for a byte that is not there. -/
theorem findFrom_missing {p : List Item} (asked : .single (.byte b) .one ∈ p) {anchor : Bool} (away : b ∉ s) (k : Nat) :
    findFrom anchor p k s = none := by
  induction s generalizing k with
  | nil => rw [findFrom, doMatch_missing asked away]
  | cons c s ih =>
    rw [findFrom, doMatch_missing asked away]
    split_ifs
    · rfl
    · exact ih (fun mem => away (mem_cons_of_mem c mem)) (k + 1)

/-- A line without a `=` assigns nothing. -/
theorem assignment_none (away : 61 ∉ line) : assignment line = [] := by
  rw [assignment, find_pair, findFrom_missing (b := 61) (by decide) away]
  rfl

/-- **The assignment of a line** can be printed and read back, and its key is in lower case. -/
theorem assignment_ok (ok : LineOk line) : ∀ p ∈ assignment line, PairOk p ∧ lower p.1 = p.1 := by
  by_cases mem : 61 ∈ line
  · obtain ⟨front, rest, rfl, first⟩ := eq_append_cons_of_mem mem
    obtain ⟨key, before, rfl, ends, spaces⟩ := split_trailing front
    obtain ⟨after, value, rfl, spaces', starts⟩ := split_leading rest
    have away : 61 ∉ key := fun inside => first (mem_append_left before inside)
    have single : 10 ∉ key ∧ 10 ∉ value := by
      have inside := ok.single
      simp only [mem_append, mem_cons, not_or] at inside
      exact ⟨inside.1.1, inside.2.2.2⟩
    have keyStarts : StartsPlain key := by
      cases key with
      | nil => exact fun _ none => absurd none (not_mem_none _)
      | cons c key => exact ok.starts
    have valueEnds : EndsPlain value := by
      by_cases empty : value = []
      · subst empty
        exact endsPlain_nil
      · exact ok.ends.suffix ⟨key ++ before ++ 61 :: after, by simp⟩ empty
    rw [append_assoc, assignment_blanks ends starts away spaces spaces']
    intro p pair
    obtain rfl := mem_singleton.1 pair
    exact ⟨⟨lower_startsPlain keyStarts, lower_endsPlain ends, lower_away (by decide) single.1,
      lower_away (by decide) away, starts, valueEnds, single.2⟩, map_tolower_map key⟩
  · rw [assignment_none mem]
    exact fun p none => absurd none not_mem_nil

/-- A section as a frame holds them: readable, with its names in lower case. -/
structure Lowered (s : Section) : Prop extends Readable s where
  lowerName : lower s.name = s.name
  lowerKeys : ∀ p ∈ s.pairs, lower p.1 = p.1

theorem readBody_ok (ok : ∀ line ∈ lines, LineOk line) :
    (∀ p ∈ (readBody lines).1, PairOk p ∧ lower p.1 = p.1) ∧ ∀ line ∈ (readBody lines).2, LineOk line := by
  induction lines with
  | nil => exact ⟨fun p none => absurd none not_mem_nil, ok⟩
  | cons line lines ih =>
    obtain ⟨first, later⟩ := forall_mem_cons.1 ok
    rw [readBody]
    split_ifs
    · exact ⟨fun p none => absurd none not_mem_nil, later⟩
    · refine ⟨fun p mem => ?_, (ih later).2⟩
      rcases mem_append.1 mem with here | further
      · exact assignment_ok first p here
      · exact (ih later).1 p further

theorem readXap_ok {fuel : Nat} (ok : ∀ line ∈ lines, LineOk line) : ∀ e ∈ readXap fuel lines, Lowered ⟨e.1, e.2⟩ := by
  induction fuel generalizing lines with
  | zero => cases lines <;> exact fun e none => absurd none not_mem_nil
  | succ fuel ih =>
    cases lines with
    | nil => exact fun e none => absurd none not_mem_nil
    | cons line rest =>
      obtain ⟨first, later⟩ := forall_mem_cons.1 ok
      obtain ⟨pairs, left⟩ := readBody_ok fun l mem => later l (mem_of_mem_tail mem)
      rw [readXap]
      refine forall_mem_cons.2 ⟨⟨⟨first.lower, fun p mem => (pairs p mem).1⟩, map_tolower_map line,
        fun p mem => (pairs p mem).2⟩, ih left⟩

/-- **The sections of any frame** can be printed and read back, unless there is but one that has
no name. -/
theorem frame_sections (msg : Bytes) : frame msg = [([], [])] ∨ ∀ e ∈ frame msg, Lowered ⟨e.1, e.2⟩ := by
  rcases messageLines_ok msg with blank | ok
  · left
    rw [frame, blank]
    rfl
  · exact .inr (readXap_ok ok)

/-! ## Tables -/

section Tables

variable {A : Type} {t : Table A} {k : Bytes} {v : A} {l : List (Bytes × A)}

theorem index_append (t u : Table A) (k : Bytes) :
    Table.index (t ++ u) k = (Table.index u k).or (Table.index t k) := by
  unfold Table.index
  rw [reverse_append, find?_append, map_or]

theorem index_mem (here : Table.index t k = some v) : (k, v) ∈ t := by
  obtain ⟨p, found, rfl⟩ := map_eq_some_iff.1 here
  obtain rfl : p.1 = k := by simpa using find?_some found
  exact mem_reverse.1 (mem_of_find?_eq_some found)

/-- A table with one value for every name. -/
theorem index_map (names : List Bytes) (g : Bytes → A) (k : Bytes) :
    Table.index (names.map fun name => (name, g name)) k = if k ∈ names then some (g k) else none := by
  induction names with
  | nil => rfl
  | cons name names ih =>
    rw [map_cons, index_cons, ih]
    by_cases later : k ∈ names
    · simp [later]
    · by_cases same : name = k
      · simp [same, later]
      · simp [same, later, Ne.symm same]

/-- What `pairs` yields: every key of a table once, with its value. -/
structure Enumerates (t : Table A) (l : List (Bytes × A)) : Prop where
  once : (l.map Prod.fst).Nodup
  entries : ∀ k v, (k, v) ∈ l ↔ Table.index t k = some v

theorem index_of_mem (once : (l.map Prod.fst).Nodup) (mem : (k, v) ∈ l) : Table.index l k = some v := by
  cases found : Table.index l k with
  | none =>
    have absent := map_eq_none_iff.1 found
    have other := find?_eq_none.1 absent (k, v) (mem_reverse.2 mem)
    exact absurd (beq_self_eq_true k) other
  | some w =>
    have same := inj_on_of_nodup_map once mem (index_mem found) rfl
    exact congrArg some (Prod.mk.inj same).2.symm

theorem Enumerates.index (all : Enumerates t l) (k : Bytes) : Table.index l k = Table.index t k := by
  refine Option.ext fun v => ⟨fun here => (all.entries k v).1 (index_mem here), fun here => ?_⟩
  exact index_of_mem all.once ((all.entries k v).2 here)

/-- An enumeration in the order of the last assignments. -/
def enumerate : Table A → List (Bytes × A)
  | [] => []
  | p :: t => if (Table.index t p.1).isSome then enumerate t else p :: enumerate t

theorem enumerate_ok (t : Table A) : Enumerates t (enumerate t) := by
  induction t with
  | nil => exact ⟨nodup_nil, by simp [enumerate, Table.index]⟩
  | cons p t ih =>
    rw [enumerate]
    split_ifs with again
    · -- a later assignment to the key counts
      refine ⟨ih.once, fun k v => ?_⟩
      rw [ih.entries, index_cons]
      by_cases same : p.1 = k
      · obtain ⟨w, later⟩ := isSome_iff_exists.1 again
        rw [same] at later
        rw [later, some_or]
      · rw [if_neg same, or_none]
    · have fresh := not_isSome_iff_eq_none.1 again
      refine ⟨nodup_cons.2 ⟨fun mem => ?_, ih.once⟩, fun k v => ?_⟩
      · obtain ⟨q, inside, same⟩ := mem_map.1 mem
        have found := (ih.entries q.1 q.2).1 inside
        rw [same, fresh] at found
        cases found
      · rw [mem_cons, ih.entries, index_cons]
        by_cases same : p.1 = k
        · subst same
          rw [fresh, if_pos rfl]
          simp [Prod.ext_iff, eq_comm]
        · have other : (k, v) ≠ p := fun equal => same (equal ▸ rfl)
          rw [if_neg same, or_none]
          simp [other]

end Tables

/-! ## Printing and expanding a frame -/

/-- One order in which `pairs` may enumerate the tables that `__tostring` goes through. -/
structure Order (f : Table (Table Bytes)) where
  /-- the literal table of the two header names -/
  headers : List Bytes
  keys : List Bytes
  pairs : Bytes → List (Bytes × Bytes)
  headers_all : headers.Perm ["xap-header", "xap-hbeat"]
  keys_once : keys.Nodup
  keys_all : ∀ k, k ∈ keys ↔ Table.index f k ≠ none
  pairs_all : ∀ k t, Table.index f k = some t → Enumerates t (pairs k)

section Printing

variable {f : Table (Table Bytes)}

/-- The order of the last assignments. -/
def Order.last (f : Table (Table Bytes)) : Order f where
  headers := ["xap-header", "xap-hbeat"]
  keys := (enumerate f).map Prod.fst
  pairs k := enumerate ((Table.index f k).getD [])
  headers_all := .refl _
  keys_once := (enumerate_ok f).once
  keys_all k := by
    rw [ne_none_iff_exists', List.mem_map]
    constructor
    · rintro ⟨e, mem, rfl⟩
      exact ⟨e.2, ((enumerate_ok f).entries e.1 e.2).1 mem⟩
    · rintro ⟨t, here⟩
      exact ⟨(k, t), ((enumerate_ok f).entries k t).2 here, rfl⟩
  pairs_all k t here := by
    rw [here]
    exact enumerate_ok t

def Order.encodeSection (order : Order f) (s : Bytes) : Bytes :=
  s ++ ascii "\n\x7b\n" ++ ((order.pairs s).flatMap fun p => p.1 ++ [equals] ++ p.2 ++ ascii "\n") ++ ascii "\x7d\n"

/-- The header section that is printed first. -/
def Order.header (order : Order f) : Option Bytes := order.headers.find? fun v => (Table.index f v).isSome

/-- `Frame:__tostring`. -/
def tostring (order : Order f) : Bytes :=
  order.keys.foldl (fun out k => if some k ≠ order.header then out ++ order.encodeSection k else out)
    ((order.header.map order.encodeSection).getD [])

/-- The names of the sections as they are printed. -/
def Order.names (order : Order f) : List Bytes :=
  order.header.toList ++ order.keys.filter fun k => some k ≠ order.header

theorem Order.mem_names (order : Order f) (k : Bytes) : k ∈ order.names ↔ Table.index f k ≠ none := by
  rw [names, mem_append, mem_filter, decide_eq_true_eq, order.keys_all, mem_toList]
  constructor
  · rintro (first | ⟨here, -⟩)
    · have present := find?_some (mem_def.1 first)
      exact isSome_iff_ne_none.1 present
    · exact here
  · intro here
    by_cases first : some k = order.header
    · exact .inl first.symm
    · exact .inr ⟨here, first⟩

theorem tostring_layout (order : Order f) : tostring order = layout (order.names.map fun k => ⟨k, order.pairs k⟩) := by
  have walk : ∀ (keys : List Bytes) (out : Bytes),
      keys.foldl (fun out k => if some k ≠ order.header then out ++ order.encodeSection k else out) out =
        out ++ (keys.filter fun k => some k ≠ order.header).flatMap order.encodeSection := by
    intro keys
    induction keys with
    | nil => exact fun out => (append_nil out).symm
    | cons k keys ih =>
      intro out
      rw [foldl_cons, ih]
      by_cases other : some k ≠ order.header
      · simp [other]
      · simp [not_not.1 other]
  have first : (order.header.map order.encodeSection).getD [] =
      order.header.toList.flatMap order.encodeSection := by
    cases order.header with
    | none => rfl
    | some v => simp
  have same : order.encodeSection = fun k => Section.layout ⟨k, order.pairs k⟩ := rfl
  rw [tostring, walk, first, ← flatMap_append, layout, flatMap_map, same]
  rfl

/-- The contents of a frame: what its sections and keys stand for. -/
def contents (f : Table (Table Bytes)) : Bytes → Option (Bytes → Option Bytes) :=
  fun s => (Table.index f s).map Table.index

/-- **A printed frame is read back**, in whatever order it was printed. -/
theorem contents_printed (lowered : ∀ e ∈ f, Lowered ⟨e.1, e.2⟩) (order : Order f) :
    contents (frame (tostring order)) = contents f := by
  -- what is printed of a section is what its table holds
  have printed : ∀ k t, Table.index f k = some t → Lowered ⟨k, order.pairs k⟩ := by
    intro k t here
    have whole := lowered (k, t) (index_mem here)
    have all := order.pairs_all k t here
    have inside : ∀ p ∈ order.pairs k, p ∈ t := fun p mem => index_mem ((all.entries p.1 p.2).1 mem)
    exact ⟨⟨whole.name, fun p mem => whole.pairs p (inside p mem)⟩, whole.lowerName,
      fun p mem => whole.lowerKeys p (inside p mem)⟩
  have sections : ∀ s ∈ order.names.map fun k => (⟨k, order.pairs k⟩ : Section), Lowered s := by
    intro s mem
    obtain ⟨k, named, rfl⟩ := mem_map.1 mem
    obtain ⟨t, here⟩ := ne_none_iff_exists'.1 ((order.mem_names k).1 named)
    exact printed k t here
  have table : tableOf (order.names.map fun k => ⟨k, order.pairs k⟩) =
      order.names.map fun k => (k, order.pairs k) := by
    rw [tableOf, List.map_map]
    refine map_congr_left fun k named => ?_
    have whole := sections _ (mem_map_of_mem named)
    refine Prod.ext whole.lowerName ((map_congr_left fun p mem => ?_).trans (map_id _))
    exact Prod.ext (whole.lowerKeys p mem) rfl
  funext s
  rw [tostring_layout, frame_readable fun s mem => (sections s mem).toReadable, table, contents, index_map,
    contents]
  cases here : Table.index f s with
  | none =>
    rw [if_neg fun named => (order.mem_names s).1 named here]
  | some t =>
    rw [if_pos ((order.mem_names s).2 (here ▸ some_ne_none t))]
    exact congrArg some (funext (order.pairs_all s t here).index)

end Printing

/-! ## Short messages -/

/-- The loop of `expandShortMsg` on the table of the header section. -/
def fillDefaults (defaultKeys : List (Bytes × Bytes)) (t : Table Bytes) : Table Bytes :=
  defaultKeys.foldl (fun t d => if Table.index t d.1 = none then t ++ [d] else t) t

/-- The frame that `expandShortMsg` prints; `none` is the error of an index into a section that the
message lacks. The defaults stand in the order in which `pairs` yields them, with the texts that
their values are printed as. -/
def expandFrame (f : Table (Table Bytes)) (sectionName : Bytes)
    (defaultKeys : List (Bytes × Bytes)) : Option (Table (Table Bytes)) :=
  match Table.index f sectionName with
  | none => if defaultKeys = [] then some f else none
  | some t => some (f ++ [(sectionName, fillDefaults defaultKeys t)])

/-- `expandShortMsg`, with the orders in which frames are enumerated. -/
def expandShortMsg (order : ∀ f, Order f) (msg sectionName : Bytes)
    (defaultKeys : List (Bytes × Bytes)) : Option Bytes :=
  (expandFrame (frame msg) sectionName defaultKeys).map fun f => tostring (order f)

/-- A default that can stand in a message: its key in lower case without `=` and blanks, its value
trimmed and of one line. -/
structure DefaultOk (d : Bytes × Bytes) : Prop where
  lowercase : lower d.1 = d.1
  away : 61 ∉ d.1
  plain : ∀ c ∈ d.1, isspace c = false
  starts : StartsPlain d.2
  ends : EndsPlain d.2
  single : 10 ∉ d.2

theorem DefaultOk.pair {d : Bytes × Bytes} (ok : DefaultOk d) : PairOk d where
  keyStarts c first := ok.plain c (mem_of_head? first)
  keyEnds c last := ok.plain c (mem_of_getLast? last)
  keySingle mem := absurd (ok.plain 10 mem) (by decide)
  away := ok.away
  valueStarts := ok.starts
  valueEnds := ok.ends
  valueSingle := ok.single

/-- A default of visible bytes. -/
theorem DefaultOk.of_visible {k v : Bytes} (lowercase : lower k = k) (away : 61 ∉ k)
    (key : ∀ c ∈ k, 32 < c) (value : ∀ c ∈ v, 32 < c) : DefaultOk (k, v) := by
  have visible : ∀ {c : UInt8}, 32 < c → isspace c = false := by
    intro c above
    exact isspace_printable (UInt8.le_of_lt above) fun same => absurd (same ▸ above) (by decide)
  refine ⟨lowercase, away, fun c mem => visible (key c mem), fun c first => ?_, fun c last => ?_, fun mem => ?_⟩
  · exact visible (value c (mem_of_head? first))
  · exact visible (value c (mem_of_getLast? last))
  · exact absurd (value 10 mem) (by decide)

/-- The contents with the defaults behind those of one section. -/
def withDefaults (sectionName : Bytes) (defaultKeys : List (Bytes × Bytes))
    (m : Bytes → Option (Bytes → Option Bytes)) :
    Bytes → Option (Bytes → Option Bytes) :=
  fun s => (m s).map fun values k => (values k).or (if s = sectionName then Table.index defaultKeys k else none)

section Fill

variable {defaultKeys : List (Bytes × Bytes)}

/-- What the section says itself comes first. -/
theorem index_fillDefaults (distinct : (defaultKeys.map Prod.fst).Nodup) (t : Table Bytes) (k : Bytes) :
    Table.index (fillDefaults defaultKeys t) k = (Table.index t k).or (Table.index defaultKeys k) := by
  induction defaultKeys generalizing t with
  | nil => exact (or_none).symm
  | cons d defaultKeys ih =>
    obtain ⟨fresh, distinct⟩ := nodup_cons.1 distinct
    refine (ih distinct _).trans ?_
    dsimp only
    rw [index_cons]
    by_cases same : d.1 = k
    · have alone := index_none fun p mem equal => fresh (mem_map.2 ⟨p, mem, equal.trans same.symm⟩)
      subst same
      rw [alone, if_pos rfl, none_or, or_none]
      split_ifs with lacks
      · rw [index_append, index_cons, lacks, if_pos rfl]
        rfl
      · obtain ⟨v, here⟩ := ne_none_iff_exists'.1 lacks
        rw [here, some_or]
    · rw [if_neg same, or_none]
      split_ifs
      · rw [index_append, index_cons, if_neg same]
        rfl
      · rfl

theorem mem_fillDefaults {t : Table Bytes} {p : Bytes × Bytes}
    (mem : p ∈ fillDefaults defaultKeys t) : p ∈ t ∨ p ∈ defaultKeys := by
  induction defaultKeys generalizing t with
  | nil => exact .inl mem
  | cons d defaultKeys ih =>
    rcases ih mem with before | default
    · dsimp only at before
      split_ifs at before
      · rcases mem_append.1 before with own | filled
        · exact .inl own
        · exact .inr (mem_cons.2 (.inl (mem_singleton.1 filled)))
      · exact .inl before
    · exact .inr (mem_cons_of_mem d default)

theorem fillDefaults_lowered (ok : ∀ d ∈ defaultKeys, DefaultOk d) {s : Section} (lowered : Lowered s) :
    Lowered ⟨s.name, fillDefaults defaultKeys s.pairs⟩ := by
  refine ⟨⟨lowered.name, fun p mem => ?_⟩, lowered.lowerName, fun p mem => ?_⟩
  · rcases mem_fillDefaults mem with own | default
    · exact lowered.pairs p own
    · exact (ok p default).pair
  · rcases mem_fillDefaults mem with own | default
    · exact lowered.lowerKeys p own
    · exact (ok p default).lowercase

/-- **A message survives its expansion.** Whatever the text is, if it has the header section and
that has a name, then the expanded message is read as the message itself with the defaults that
its header section lacks, and with nothing else. -/
theorem expand_reads_back {msg sectionName : Bytes} (named : sectionName ≠ [])
    (given : Table.index (frame msg) sectionName ≠ none) (distinct : (defaultKeys.map Prod.fst).Nodup)
    (ok : ∀ d ∈ defaultKeys, DefaultOk d) (order : ∀ f, Order f) :
    ∃ text, expandShortMsg order msg sectionName defaultKeys = some text ∧
      contents (frame text) = withDefaults sectionName defaultKeys (contents (frame msg)) := by
  obtain ⟨t, here⟩ := ne_none_iff_exists'.1 given
  have lowered : ∀ e ∈ frame msg, Lowered ⟨e.1, e.2⟩ := by
    rcases frame_sections msg with blank | lowered
    · -- the only section of such a message has no name
      rw [blank] at here
      have only := mem_singleton.1 (index_mem here)
      exact absurd (congrArg Prod.fst only) named
    · exact lowered
  refine ⟨tostring (order (frame msg ++ [(sectionName, fillDefaults defaultKeys t)])), ?_, ?_⟩
  · rw [expandShortMsg, expandFrame, here]
    rfl
  have expanded : ∀ e ∈ frame msg ++ [(sectionName, fillDefaults defaultKeys t)], Lowered ⟨e.1, e.2⟩ := by
    intro e mem
    rcases mem_append.1 mem with old | new
    · exact lowered e old
    · obtain rfl := mem_singleton.1 new
      exact fillDefaults_lowered ok (lowered (sectionName, t) (index_mem here))
  rw [contents_printed expanded]
  funext s
  rw [contents, withDefaults, contents, index_append, index_cons]
  by_cases same : sectionName = s
  · subst same
    rw [if_pos rfl, here]
    simp only [if_true]
    exact congrArg some (funext (index_fillDefaults distinct t))
  · rw [if_neg same, or_none, Option.map_map]
    simp only [if_neg (Ne.symm same), or_none]
    rfl

end Fill

/-- A command without a hop count, and with a version of its own. -/
def shortCommand : Bytes :=
  "xAP-Header\n\x7b\nclass = xAPBSC.cmd\nv=13\n\x7d\noutput.state\n\x7b\nid=*\ntext=a=b\n\x7d\n"

def shortDefaults : List (Bytes × Bytes) := [("v", "12"), ("hop", "1")]

/-- It gets the hop count and keeps its version. -/
theorem expand_reads_back_command :
    ∃ text, expandShortMsg Order.last shortCommand "xap-header" shortDefaults = some text ∧
      contents (frame text) = withDefaults "xap-header" shortDefaults (contents (frame shortCommand)) := by
  have ok : ∀ d ∈ shortDefaults, DefaultOk d := by
    intro d mem
    simp only [shortDefaults, mem_cons, not_mem_nil, or_false] at mem
    rcases mem with rfl | rfl
    · exact .of_visible (by decide) (by decide) (bytes_of_all (by decide)) (bytes_of_all (by decide))
    · exact .of_visible (by decide) (by decide) (bytes_of_all (by decide)) (bytes_of_all (by decide))
  exact expand_reads_back (by decide) (by decide +kernel) (by decide) ok Order.last

/-- A blank message has a section without a name. Its expansion starts with a blank line, which is
skipped, and the `\x7b` behind it is taken for the name. -/
theorem blank_message_renamed :
    Table.index (frame "\n") [] = some [] ∧
      ∃ text, expandShortMsg Order.last "\n" [] [("v", "12")] = some text ∧
        contents (frame text) ≠ withDefaults [] [("v", "12")] (contents (frame "\n")) := by
  have kept : Table.index (frame "\n") [] = some [] := by decide +kernel
  have lost : Table.index (frame "\n\x7b\nv=12\n\x7d\n") [] = none := by decide +kernel
  refine ⟨kept, ascii "\n\x7b\nv=12\n\x7d\n", by decide +kernel, fun same => ?_⟩
  have here := congrFun same []
  rw [contents, lost, withDefaults, contents, kept] at here
  cases here

end Hah.Lua
