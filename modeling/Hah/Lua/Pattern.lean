import Hah.C.Numbers

/-!
# Lua patterns: `lstrlib.c`

A pattern is compiled to a list of items, and `doMatch` is the backtracking `match` on them:
it returns what is left of the subject behind the first match that it finds, not behind the
longest. `gsub` and `gmatch` search with it, for the patterns that the programs write.

`match` itself reads its pattern as it goes and so meets an error in it only when it gets there, where
`compile` refuses the pattern at once, as it refuses position captures, `%b`, `%f` and references to
captures. Patterns from outside are left to the module on `match`.
-/

namespace Hah.Lua
open C List

/-! ## Patterns -/

/-- What `match_class` compares: the letter behind `%`. -/
def matchClass (c cl : UInt8) : Bool :=
  let lower := fun (c : UInt8) => 97 ≤ c && c ≤ 122
  let upper := fun (c : UInt8) => 65 ≤ c && c ≤ 90
  let printed := fun (c : UInt8) => 33 ≤ c && c ≤ 126
  let alpha := lower c || upper c
  let test : Option Bool :=
    match (tolower cl).toNat with
    | 97 => some alpha -- a
    | 99 => some (c < 32 || c == 127) -- c
    | 100 => some (isdigit c) -- d
    | 108 => some (lower c) -- l
    | 112 => some (printed c && !(alpha || isdigit c)) -- p
    | 115 => some (isspace c) -- s
    | 117 => some (upper c) -- u
    | 119 => some (alpha || isdigit c) -- w
    | 120 => some (isxdigit c) -- x
    | 122 => some (c == 0) -- z
    | _ => none
  match test with
  | none => cl == c
  | some res => if lower cl then res else !res

inductive Member where
  | byte (c : UInt8)
  | range (lo hi : UInt8)
  | letter (cl : UInt8)
  deriving DecidableEq, Repr

def Member.test (c : UInt8) : Member → Bool
  | .byte d => d == c
  | .range lo hi => lo ≤ c && c ≤ hi
  | .letter cl => matchClass c cl

/-- What `singlematch` compares a byte with. -/
inductive Class where
  | any
  | byte (c : UInt8)
  | letter (cl : UInt8)
  | set (negated : Bool) (members : List Member)
  deriving DecidableEq, Repr

/-- `singlematch`. -/
def Class.test (c : UInt8) : Class → Bool
  | .any => true
  | .byte d => d == c
  | .letter cl => matchClass c cl
  | .set negated members => members.any (Member.test c) != negated

/-- The suffix of an item: none, `?`, `*`, `+` or `-`. -/
inductive Rep where
  | one
  | opt
  | star
  | plus
  | lazy
  deriving DecidableEq, Repr

inductive Item where
  | single (c : Class) (rep : Rep)
  | openCapture
  | closeCapture
  | atEnd
  deriving DecidableEq, Repr

/-! ## Compilation -/

/-- `classend` behind `[` and `^`: the text of the set and what follows its `]`. -/
def setBody : Bytes → Option (Bytes × Bytes)
  | [] => none
  | 37 :: d :: p =>
    match p with
    | 93 :: p => some ([37, d], p)
    | p => (setBody p).map fun (body, p) => (37 :: d :: body, p)
  | c :: p =>
    match p with
    | 93 :: p => some ([c], p)
    | p => (setBody p).map fun (body, p) => (c :: body, p)

/-- The members as `matchbracketclass` reads them. -/
def setMembers : Bytes → List Member
  | [] => []
  | 37 :: cl :: body => .letter cl :: setMembers body
  | lo :: 45 :: hi :: body => .range lo hi :: setMembers body
  | c :: body => .byte c :: setMembers body

/-- `classend` with what `singlematch` makes of the text before it. -/
def classAt : Bytes → Option (Class × Bytes)
  | [] => none
  | 46 :: p => some (.any, p)
  | 37 :: [] => none
  | 37 :: cl :: p => some (.letter cl, p)
  | 91 :: 94 :: p => (setBody p).map fun (body, p) => (.set true (setMembers body), p)
  | 91 :: p => (setBody p).map fun (body, p) => (.set false (setMembers body), p)
  | c :: p => some (.byte c, p)

/-- The suffix of a single character class. -/
def repAt : Bytes → Rep × Bytes
  | 63 :: p => (.opt, p)
  | 42 :: p => (.star, p)
  | 43 :: p => (.plus, p)
  | 45 :: p => (.lazy, p)
  | p => (.one, p)

/-- The items of a pattern with `depth` captures open. Every turn takes at least one byte. -/
def compileLoop : (fuel depth : Nat) → Bytes → Option (List Item)
  | _, depth, [] => if depth = 0 then some [] else none
  | 0, _, _ :: _ => none
  | fuel + 1, depth, c :: p =>
    if c = 40 then
      if p.head? = some 41 then none else (compileLoop fuel (depth + 1) p).map (.openCapture :: ·)
    else if c = 41 then
      if depth = 0 then none else (compileLoop fuel (depth - 1) p).map (.closeCapture :: ·)
    else if c = 36 ∧ p = [] then if depth = 0 then some [.atEnd] else none
    else if c = 37 ∧ p.head?.any (fun d => d == 98 || d == 102 || isdigit d) then none
    else
      match classAt (c :: p) with
      | none => none
      | some (cls, p) => (compileLoop fuel depth (repAt p).2).map (.single cls (repAt p).1 :: ·)

def compile (p : Bytes) : Option (List Item) := compileLoop p.length 0 p

/-! ## Matching -/

/-- A capture: the subject where it was opened, and its text when it is closed. -/
structure Capture where
  init : Bytes
  text : Option Bytes
  deriving DecidableEq, Repr

/-- `end_capture` on the captures, the last opened first. -/
def closeCapture (s : Bytes) : List Capture → List Capture
  | [] => []
  | c :: caps =>
    if c.text = none then { c with text := some (c.init.take (c.init.length - s.length)) } :: caps
    else c :: closeCapture s caps

/-- `max_expand`: as many bytes as pass the test, then fewer. -/
def maxExpand {R : Type} (test : UInt8 → Bool) (next : Bytes → Option R) : Bytes → Option R
  | [] => next []
  | c :: s => if test c then (maxExpand test next s).or (next (c :: s)) else next (c :: s)

/-- `min_expand`: no byte, then more. -/
def minExpand {R : Type} (test : UInt8 → Bool) (next : Bytes → Option R) : Bytes → Option R
  | [] => next []
  | c :: s => (next (c :: s)).or (if test c then minExpand test next s else none)

/-- A class and its suffix, in front of the rest of the pattern. -/
def Class.expand {R : Type} (cls : Class) (rep : Rep) (next : Bytes → Option R) (s : Bytes) : Option R :=
  let test := fun c => cls.test c
  match rep, s with
  | .star, s => maxExpand test next s
  | .lazy, s => minExpand test next s
  | .plus, [] | .one, [] => none
  | .plus, c :: s => if test c then maxExpand test next s else none
  | .opt, [] => next []
  | .opt, c :: s => (if test c then next s else none).or (next (c :: s))
  | .one, c :: s => if test c then next s else none

/-- `match`: what is left of the subject, and the captures. -/
def doMatch : List Item → Bytes → List Capture → Option (Bytes × List Capture)
  | [], s, caps => some (s, caps)
  | .openCapture :: p, s, caps => doMatch p s (⟨s, none⟩ :: caps)
  | .closeCapture :: p, s, caps => doMatch p s (closeCapture s caps)
  | .atEnd :: p, s, caps => if s = [] then doMatch p s caps else none
  | .single cls rep :: p, s, caps => cls.expand rep (fun s => doMatch p s caps) s

/-- The texts of the captures, in the order in which they were opened. -/
def captures (caps : List Capture) : List Bytes := caps.reverse.map fun c => c.text.getD []

/-- The loop of `str_find_aux`, `k` bytes into the subject: the positions of the first and the
last byte of a match, counted from one, and the captures. -/
def findFrom (anchor : Bool) (p : List Item) (k : Nat) (s : Bytes) : Option (Nat × Nat × List Bytes) :=
  match doMatch p s [] with
  | some (e, caps) => some (k + 1, k + (s.length - e.length), captures caps)
  | none =>
    match s with
    | [] => none
    | _ :: s => if anchor then none else findFrom anchor p (k + 1) s

def anchored : Bytes → Bool × Bytes
  | 94 :: p => (true, p)
  | p => (false, p)

/-- `add_s` without captures. -/
def expand : Bytes → Bytes
  | 37 :: c :: news => c :: expand news
  | c :: news => c :: expand news
  | [] => []

/-- The loop of `str_gsub`; the next `skip` bytes belong to the last match. -/
def gsubLoop (p : List Item) (news : Bytes) : (skip : Nat) → Bytes → Bytes
  | skip + 1, _ :: s => gsubLoop p news skip s
  | _, [] => if (doMatch p [] []).isSome then expand news else []
  | 0, c :: s =>
    match doMatch p (c :: s) [] with
    | none => c :: gsubLoop p news 0 s
    | some (e, _) =>
      if e.length < (c :: s).length then expand news ++ gsubLoop p news (s.length - e.length) s
      else expand news ++ c :: gsubLoop p news 0 s

/-- `string.gsub` with a string and a pattern that is not anchored. -/
def gsub (p news s : Bytes) : Option Bytes := (compile p).map fun items => gsubLoop items news 0 s

/-- `gmatch_aux` called until it finds nothing: the captures of every match, or the whole of it
if there are none. -/
def gmatchLoop (p : List Item) : (skip : Nat) → Bytes → List (List Bytes)
  | skip + 1, _ :: s => gmatchLoop p skip s
  | skip, [] =>
    match skip, doMatch p [] [] with
    | 0, some (_, caps) => [if caps = [] then [[]] else captures caps]
    | _, _ => []
  | 0, c :: s =>
    match doMatch p (c :: s) [] with
    | none => gmatchLoop p 0 s
    | some (e, caps) =>
      (if caps = [] then [(c :: s).take ((c :: s).length - e.length)] else captures caps) ::
        gmatchLoop p (s.length - e.length) s

/-- `string.gmatch`, which is also `string.gfind`. -/
def gmatch (p s : Bytes) : Option (List (List Bytes)) := (compile p).map fun items => gmatchLoop items 0 s

example : gmatch (ascii "%s*(.-)%s*\n") (ascii " a b\n\n c\nd") = some [[ascii "a b"], [ascii "c"]] := by
  decide +kernel

/-! ## Repetitions -/

section Expand

variable {R : Type} {test : UInt8 → Bool} {next : Bytes → Option R} {r : R} {s run rest : Bytes}

/-- The numbers of bytes that a suffix lets its class take if `n` bytes pass the test, in the order in which
they are tried. -/
def Rep.tries (n : Nat) : Rep → List Nat
  | .star => (range (n + 1)).reverse
  | .lazy => range (n + 1)
  | .plus => (range' 1 n).reverse
  | .opt => if n = 0 then [0] else [1, 0]
  | .one => if n = 0 then [] else [1]

theorem maxExpand_eq : maxExpand test next s =
    ((range ((s.takeWhile test).length + 1)).reverse).findSome? fun n => next (s.drop n) := by
  induction s with
  | nil => simp [maxExpand]
  | cons c s ih =>
    by_cases passes : test c = true
    · rw [takeWhile_cons_of_pos passes, length_cons, range_succ_eq_map, reverse_cons, findSome?_append, ← map_reverse,
        List.findSome?_map, maxExpand, if_pos passes, ih]
      simp [Function.comp_def]
    · simp [maxExpand, passes]

theorem minExpand_eq : minExpand test next s =
    (range ((s.takeWhile test).length + 1)).findSome? fun n => next (s.drop n) := by
  induction s with
  | nil => simp [minExpand]
  | cons c s ih =>
    by_cases passes : test c = true
    · rw [takeWhile_cons_of_pos passes, length_cons, range_succ_eq_map, findSome?_cons, List.findSome?_map, minExpand,
        if_pos passes, ih, drop_zero]
      cases next (c :: s) <;> simp [Function.comp_def]
    · cases hit : next (c :: s) <;> simp [minExpand, passes, hit]

/-- A repetition tries the rest of the pattern behind one number of bytes after the other. -/
theorem expand_eq (cls : Class) (rep : Rep) (next : Bytes → Option R) (s : Bytes) : cls.expand rep next s =
    (rep.tries (s.takeWhile fun c => cls.test c).length).findSome? fun n => next (s.drop n) := by
  cases rep with
  | star => exact maxExpand_eq
  | lazy => exact minExpand_eq
  | plus =>
    cases s with
    | nil => rfl
    | cons c s =>
      by_cases passes : cls.test c = true
      · rw [takeWhile_cons_of_pos (p := fun c => cls.test c) passes, Rep.tries, length_cons, range'_eq_map_range,
          ← map_reverse, List.findSome?_map, Class.expand, if_pos passes, maxExpand_eq]
        simp [Function.comp_def, Nat.add_comm 1]
      · simp [Class.expand, passes, Rep.tries]
  | opt =>
    cases s with
    | nil => simp [Class.expand, Rep.tries]
    | cons c s =>
      by_cases passes : cls.test c = true
      · simp only [Class.expand, Rep.tries, takeWhile_cons, passes, if_true, length_cons, Nat.succ_ne_zero, if_false,
          findSome?_cons, findSome?_nil, drop_succ_cons, drop_zero]
        cases next s <;> cases next (c :: s) <;> rfl
      · simp [Class.expand, Rep.tries, passes]
  | one =>
    cases s with
    | nil => rfl
    | cons c s => by_cases passes : cls.test c = true <;> simp [Class.expand, Rep.tries, passes]

/-- How many bytes a suffix lets its class take. -/
def Rep.Allows : Rep → Nat → Prop
  | .one, n => n = 1
  | .opt, n => n ≤ 1
  | .plus, n => 0 < n
  | .star, _ | .lazy, _ => True

/-- A run that a class with its suffix can take. -/
structure Class.Takes (cls : Class) (rep : Rep) (run : Bytes) : Prop where
  inside : ∀ c ∈ run, cls.test c = true
  allowed : rep.Allows run.length

/-- Which of two runs is tried before the other: the longer one, with `-` the shorter one. -/
def Rep.Before (rep : Rep) (m n : Nat) : Prop := if rep = .lazy then m < n else n < m

variable {cls : Class} {rep : Rep}

theorem takes_one {c : UInt8} : cls.Takes .one [c] ↔ cls.test c = true :=
  ⟨fun takes => takes.inside c mem_cons_self, fun passes => ⟨forall_mem_singleton.2 passes, rfl⟩⟩

theorem mem_tries {k n : Nat} : n ∈ rep.tries k ↔ n ≤ k ∧ rep.Allows n := by
  cases rep with
  | opt | one =>
    unfold Rep.tries Rep.Allows
    split_ifs <;> simp <;> omega
  | _ =>
    simp only [Rep.tries, Rep.Allows, mem_reverse, mem_range, mem_range'_1, and_true]
    omega

theorem tries_order (rep : Rep) (k : Nat) : (rep.tries k).Pairwise rep.Before := by
  cases rep with
  | lazy => exact pairwise_lt_range
  | star => exact pairwise_reverse.2 pairwise_lt_range
  | plus => exact pairwise_reverse.2 (pairwise_lt_range' )
  | opt | one =>
    unfold Rep.tries
    split_ifs <;> simp [Rep.Before]

theorem length_mem_tries (takes : cls.Takes rep run) (rest : Bytes) :
    run.length ∈ rep.tries ((run ++ rest).takeWhile fun c => cls.test c).length := by
  rw [takeWhile_append_of_pos takes.inside, length_append]
  exact mem_tries.2 ⟨Nat.le_add_right _ _, takes.allowed⟩

/-- A repetition tries the rest of the pattern behind every run that it can take. -/
theorem expand_none (nothing : cls.expand rep next (run ++ rest) = none) (takes : cls.Takes rep run) :
    next rest = none := by
  rw [expand_eq] at nothing
  have here := findSome?_eq_none_iff.1 nothing _ (length_mem_tries takes _)
  rwa [drop_left] at here

/-- **What a repetition finds** stands behind the first run, in the order of its suffix, behind which there
is anything. -/
theorem expand_some (found : cls.expand rep next s = some r) :
    ∃ run rest, s = run ++ rest ∧ cls.Takes rep run ∧ next rest = some r ∧
      ∀ run' rest', s = run' ++ rest' → cls.Takes rep run' → rep.Before run'.length run.length → next rest' = none := by
  rw [expand_eq] at found
  obtain ⟨earlier, n, later, split, hit, nothing⟩ := findSome?_eq_some_iff.1 found
  obtain ⟨few, allowed⟩ := mem_tries.1 (split ▸ mem_append_right _ mem_cons_self : n ∈ _)
  have whole : (s.take n).length = n :=
    length_take_of_le (few.trans (List.takeWhile_prefix _).length_le)
  refine ⟨s.take n, s.drop n, (take_append_drop n s).symm, ⟨fun c mem => ?_, by rwa [whole]⟩, hit, ?_⟩
  · obtain ⟨tail, split⟩ := takeWhile_prefix (l := s) fun c => cls.test c
    rw [← split, take_append_of_le_length few] at mem
    exact mem_takeWhile_imp (p := fun c => cls.test c) (mem_of_mem_take mem)
  · rintro run' rest' rfl takes before
    rw [whole] at before
    have order := tries_order rep ((run' ++ rest').takeWhile fun c => cls.test c).length
    have tried := length_mem_tries takes rest'
    rw [split] at order tried
    rcases mem_append.1 tried with first | last
    · have none := nothing _ first
      rwa [drop_left] at none
    · exfalso
      unfold Rep.Before at before order
      rcases mem_cons.1 last with same | last
      · split at before <;> omega
      · have := rel_of_pairwise_cons (pairwise_append.1 order).2.1 last
        split at before <;> simp_all <;> omega

end Expand

variable {p : List Item} {s e : Bytes} {caps caps' : List Capture}

theorem doMatch_one {cls : Class} {c : UInt8}
    (passes : cls.test c = true) : doMatch (.single cls .one :: p) (c :: s) caps = doMatch p s caps := if_pos passes

/-- What a match took: the front of the subject, with every byte as often as the pattern asks for it. -/
theorem doMatch_taken (found : doMatch p s caps = some (e, caps')) :
    ∃ text, s = text ++ e ∧ ∀ b, p.count (.single (.byte b) .one) ≤ text.count b := by
  -- an item that takes `run` leaves the rest of the pattern with what is behind
  have behind : ∀ {i : Item} {p : List Item} {run s : Bytes}, (∀ b, i = .single (.byte b) .one → b ∈ run) →
      (∃ text, s = text ++ e ∧ ∀ b, p.count (.single (.byte b) .one) ≤ text.count b) →
      ∃ text, run ++ s = text ++ e ∧ ∀ b, (i :: p).count (.single (.byte b) .one) ≤ text.count b := by
    rintro i p run s here ⟨text, rfl, later⟩
    refine ⟨run ++ text, (append_assoc run text e).symm, fun b => ?_⟩
    have rest := later b
    rw [count_cons, count_append]
    split
    · next same =>
      have first := count_pos_iff.2 (here b (beq_iff_eq.1 same))
      omega
    · omega
  induction p generalizing s caps with
  | nil =>
    cases found
    exact ⟨[], rfl, fun _ => Nat.le_refl _⟩
  | cons i p ih =>
    cases i with
    | openCapture => exact @behind _ _ [] s nofun (ih found)
    | closeCapture => exact @behind _ _ [] s nofun (ih found)
    | atEnd =>
      rw [doMatch] at found
      split_ifs at found
      exact @behind _ _ [] s nofun (ih found)
    | single cls rep =>
      obtain ⟨run, rest, rfl, takes, hit, -⟩ := expand_some found
      refine behind (fun b same => ?_) (ih hit)
      obtain ⟨rfl, rfl⟩ := Item.single.inj same
      obtain ⟨c, rfl⟩ := length_eq_one_iff.1 takes.allowed
      exact mem_singleton.2 (beq_iff_eq.1 (takes_one.1 takes))

/-- With fewer bytes than the pattern asks for there is no match. -/
theorem doMatch_too_few {b : UInt8}
    (few : s.count b < p.count (.single (.byte b) .one)) (caps : List Capture) : doMatch p s caps = none := by
  cases found : doMatch p s caps with
  | none => rfl
  | some r =>
    obtain ⟨text, rfl, taken⟩ := doMatch_taken found
    have enough := taken b
    rw [count_append] at few
    omega

theorem doMatch_missing {b : UInt8} (asked : .single (.byte b) .one ∈ p)
    (away : b ∉ s) (caps : List Capture) : doMatch p s caps = none := by
  apply doMatch_too_few (b := b)
  rw [count_eq_zero.2 away]
  exact count_pos_iff.2 asked

/-! ## Patterns without captures -/

/-- The subjects that a pattern describes. -/
inductive Spells : List Item → Bytes → Prop
  | nil : Spells [] []
  | item {cls : Class} {rep : Rep} {p : List Item} {run s : Bytes} (takes : cls.Takes rep run)
      (rest : Spells p s) : Spells (.single cls rep :: p) (run ++ s)

/-- **The reading that `match` finds**: every repetition takes the first run, in the order of its suffix,
behind which the rest of the pattern describes the start of what is left. -/
inductive First : List Item → Bytes → Bytes → Prop
  | nil {s : Bytes} : First [] s s
  | item {cls : Class} {rep : Rep} {p : List Item} {run s e : Bytes} (takes : cls.Takes rep run) (rest : First p s e)
      (first : ∀ run' s', run ++ s = run' ++ s' → cls.Takes rep run' → rep.Before run'.length run.length →
        ¬ ∃ text e, s' = text ++ e ∧ Spells p text) : First (.single cls rep :: p) (run ++ s) e

end Hah.Lua
