import Hah.Lua.Pattern

/-!
# Any text as a pattern: `match` and `str_find_aux` of `lstrlib.c`

`match` reads its pattern as it goes, so that an error in it is met only when the search gets there, and
a text that was never meant as a pattern may be searched with. A result is an error, a match, or none;
an error ends the search as a match does, so that the repetitions treat both alike.

The patterns that stand in the source are read by `compile` at once. On such a pattern both search alike
(`find_compiled`).
-/

namespace Hah.Lua
open C List Option

/-! ## The code -/

/-- The length of a capture: `CAP_UNFINISHED`, `CAP_POSITION`, or that of its text. -/
inductive CapLen where
  | unfinished
  | position
  | text (t : Bytes)
  deriving DecidableEq, Repr

/-- The captures, each with the subject where it begins, the last one first. -/
abbrev Captures := List (Bytes × CapLen)

/-- What `match` returns: nothing, an error, or the rest of the subject and the captures. -/
abbrev Matched := Option (Option (Bytes × Captures))

def luaMaxCaptures : Nat := 32

/-- `end_capture`; an error if no capture is open. -/
def endCapture (s : Bytes) : Captures → Option Captures
  | [] => none
  | c :: caps =>
    if c.2 = .unfinished then some ((c.1, .text (c.1.take (c.1.length - s.length))) :: caps)
    else (endCapture s caps).map (c :: ·)

/-- The loop of `matchbalance`: behind the `e` that closes the `cont` that are open. -/
def balanced (b e : UInt8) : (cont : Nat) → Bytes → Option Bytes
  | _, [] => none
  | cont, c :: s =>
    if c = e then if cont = 1 then some s else balanced b e (cont - 1) s
    else balanced b e (if c = b then cont + 1 else cont) s

def matchbalance (b e : UInt8) : Bytes → Option Bytes
  | [] => none
  | c :: s => if c = b then balanced b e 1 s else none

/-- `match_capture`: an error for a capture that is not closed, and no match for a position. -/
def matchCapture (digit : UInt8) (s : Bytes) (caps : Captures) : Option (Option Bytes) :=
  if digit = 48 then none
  else
    match caps.reverse[digit.toNat - 49]? with
    | none | some (_, .unfinished) => none
    | some (_, .position) => some none
    | some (_, .text t) => some (if t <+: s then some (s.drop t.length) else none)

/-- `match` in the subject `src`. Every turn takes at least one byte of the pattern. -/
def matchAt (src : Bytes) : (fuel : Nat) → Bytes → Bytes → Captures → Matched
  | _, [], s, caps => some (some (s, caps))
  | 0, _ :: _, _, _ => some none
  | n + 1, c :: p, s, caps =>
    if c = 40 then
      if luaMaxCaptures ≤ caps.length then some none
      else if p.head? = some 41 then matchAt src n p.tail s ((s, .position) :: caps)
      else matchAt src n p s ((s, .unfinished) :: caps)
    else if c = 41 then
      match endCapture s caps with
      | none => some none
      | some caps => matchAt src n p s caps
    else if c = 37 ∧ p.head? = some 98 then
      match p.tail with
      | b :: e :: p => (matchbalance b e s).bind fun s => matchAt src n p s caps
      | _ => some none
    else if c = 37 ∧ p.head? = some 102 then
      -- a frontier: the byte before is outside of the set, the byte here inside
      match (if p.tail.head? = some 91 then classAt p.tail else none) with
      | none => some none
      | some (cls, p) =>
        let previous := if s.length = src.length then 0 else src.getD (src.length - s.length - 1) 0
        if cls.test previous = true ∨ cls.test (s.headD 0) = false then none else matchAt src n p s caps
    else if c = 37 ∧ p.head?.any isdigit then
      match matchCapture (p.headD 0) s caps with
      | none => some none
      | some s => s.bind fun s => matchAt src n p.tail s caps
    else if c = 36 ∧ p = [] then if s = [] then some (some (s, caps)) else none
    else
      match classAt (c :: p) with
      | none => some none
      | some (cls, p) => cls.expand (repAt p).1 (fun s => matchAt src n (repAt p).2 s caps) s

/-- `push_onecapture`: a text or a position; an error for a capture that is not closed. -/
def pushOnecapture (src : Bytes) (c : Bytes × CapLen) : Option (Bytes ⊕ Nat) :=
  match c.2 with
  | .unfinished => none
  | .position => some (.inr (src.length - c.1.length + 1))
  | .text t => some (.inl t)

/-- What `find` returns: the positions of the first and the last byte, counted from one, and the
captures. -/
abbrev Found := Nat × Nat × List (Bytes ⊕ Nat)

/-- The loop of `str_find_aux` over the starts of a match, `k` bytes into the subject. The outer `none`
is an error. -/
def searchFrom (src : Bytes) (anchor : Bool) (p : Bytes) (k : Nat) (s : Bytes) : Option (Option Found) :=
  match matchAt src p.length p s [] with
  | some none => none
  | some (some (e, caps)) =>
    (caps.reverse.mapM (pushOnecapture src)).map fun texts => some (k + 1, k + (s.length - e.length), texts)
  | none =>
    match s with
    | [] => some none
    | _ :: s => if anchor then some none else searchFrom src anchor p (k + 1) s

/-- `lmemfind`, `k` bytes into the subject. -/
def lmemfind (p : Bytes) (k : Nat) : Bytes → Option Nat
  | [] => if p = [] then some k else none
  | c :: s => if p <+: c :: s then some k else lmemfind p (k + 1) s

def specials : Bytes := "^$*+?.([%-"

/-- `string.find`. A pattern ends at its first zero, but the search for one without special characters
takes it whole. -/
def find (p s : Bytes) : Option (Option Found) :=
  let text := p.takeWhile (· != 0)
  if text.all (· ∉ specials) then some ((lmemfind p 0 s).map fun k => (k + 1, k + p.length, []))
  else searchFrom s (anchored text).1 (anchored text).2 0 s

/-! ## Patterns that are read at once -/

section Expand

variable {R R' : Type} (next : Bytes → Option R) (g : R → R') (s : Bytes)

/-- A repetition hands on what the rest of the pattern returns. -/
theorem expand_map (cls : Class) (rep : Rep) :
    cls.expand rep (fun s => (next s).map g) s = (cls.expand rep next s).map g := by
  rw [expand_eq, expand_eq, map_findSome?]
  rfl

end Expand

variable {p s : Bytes} {items : List Item} {caps : List Capture}

def Capture.cap (c : Capture) : Bytes × CapLen := (c.init, c.text.elim .unfinished .text)

/-- How many captures are open. -/
def openCaptures (caps : List Capture) : Nat := caps.countP (·.text.isNone)

theorem endCapture_open (caps : List Capture) (s : Bytes) (opened : 0 < openCaptures caps) :
    endCapture s (caps.map Capture.cap) = some ((closeCapture s caps).map Capture.cap) ∧
      openCaptures (closeCapture s caps) + 1 = openCaptures caps ∧ (closeCapture s caps).length = caps.length := by
  induction caps with
  | nil => cases opened
  | cons c caps ih =>
    obtain ⟨init, text⟩ := c
    cases text with
    | none => exact ⟨rfl, (countP_cons_of_pos rfl).symm, rfl⟩
    | some text =>
      have same : ∀ caps, openCaptures (⟨init, some text⟩ :: caps) = openCaptures caps := fun caps =>
        countP_cons_of_neg (by simp)
      rw [same] at opened ⊢
      obtain ⟨closed, fewer, long⟩ := ih opened
      rw [closeCapture, if_neg (by simp), map_cons, endCapture, closed, if_neg nofun, same]
      exact ⟨rfl, fewer, congrArg (· + 1) long⟩

/-- **A pattern that is read at once** matches as it does when it is read on the way, and leaves no capture
open. -/
theorem matchAt_compiled {n depth : Nat} (src : Bytes) (caps : List Capture) (read : compileLoop n depth p = some items)
    (opened : openCaptures caps = depth) (room : caps.length + items.count .openCapture ≤ luaMaxCaptures) (s : Bytes) :
    matchAt src n p s (caps.map Capture.cap) = (doMatch items s caps).map (fun r => some (r.1, r.2.map Capture.cap)) ∧
      ∀ r, doMatch items s caps = some r → openCaptures r.2 = 0 := by
  induction n generalizing depth p items caps s with
  | zero =>
    cases p with
    | nil =>
      rw [compileLoop] at read
      split_ifs at read with none
      cases read
      exact ⟨rfl, fun r found => by cases found; exact opened.trans none⟩
    | cons c p => cases read
  | succ n ih =>
    cases p with
    | nil =>
      rw [compileLoop] at read
      split_ifs at read with none
      cases read
      exact ⟨rfl, fun r found => by cases found; exact opened.trans none⟩
    | cons c p =>
      rw [compileLoop] at read
      rw [matchAt]
      split_ifs at read with opens position closes outside ends top other
      · obtain ⟨later, here, rfl⟩ := map_eq_some_iff.1 read
        rw [count_cons_self] at room
        rw [if_pos opens, if_neg (by rw [length_map]; omega), if_neg position]
        refine ih (⟨s, none⟩ :: caps) here ?_ (by rw [length_cons]; omega) s
        rw [openCaptures, countP_cons_of_pos rfl, ← opened, openCaptures]
      · obtain ⟨later, here, rfl⟩ := map_eq_some_iff.1 read
        rw [count_cons_of_ne (by decide)] at room
        obtain ⟨closed, fewer, long⟩ := endCapture_open caps s (by omega)
        rw [if_neg opens, if_pos closes, closed]
        exact ih (closeCapture s caps) here (by omega) (by omega) s
      · obtain ⟨rfl, rfl⟩ := ends
        cases read
        rw [if_neg opens, if_neg closes, if_neg (by simp), if_neg (by simp), if_neg (by simp), if_pos ⟨rfl, rfl⟩]
        rw [doMatch, doMatch]
        split_ifs
        · exact ⟨rfl, fun r found => by cases found; exact opened.trans top⟩
        · exact ⟨rfl, fun r found => found.elim⟩
      · have plain : ∀ d, c = 37 → p.head? = some d → ¬ ((d = 98 ∨ d = 102) ∨ isdigit d = true) := by
          rintro d rfl first special
          refine other ⟨rfl, ?_⟩
          rw [first, Option.any_some]
          simpa using special
        rw [if_neg opens, if_neg closes, if_neg fun h => plain 98 h.1 h.2 (.inl (.inl rfl)),
          if_neg fun h => plain 102 h.1 h.2 (.inl (.inr rfl)), if_neg ?_, if_neg ends]
        · cases class' : classAt (c :: p) with
          | none => rw [class'] at read; cases read
          | some r =>
            obtain ⟨cls, rest⟩ := r
            rw [class'] at read
            obtain ⟨later, here, rfl⟩ := map_eq_some_iff.1 read
            rw [count_cons_of_ne (by simp)] at room
            have next := fun t => ih caps here opened room t
            dsimp only
            rw [doMatch, ← expand_map]
            refine ⟨congrArg (cls.expand _ · s) (funext fun t => (next t).1), fun r found => ?_⟩
            obtain ⟨run, t, -, -, hit, -⟩ := expand_some found
            exact (next t).2 r hit
        · rintro ⟨isEscape, digit⟩
          obtain ⟨d, first, isDigit⟩ := (Option.any_eq_true ..).1 digit
          exact plain d isEscape first (.inr isDigit)

theorem push_closed (src : Bytes) (closed : openCaptures caps = 0) :
    (caps.map Capture.cap).reverse.mapM (pushOnecapture src) = some ((captures caps).map .inl) := by
  have texts : ∀ c ∈ caps.reverse, pushOnecapture src c.cap = some (.inl (c.text.getD [])) := by
    intro c mem
    have done := countP_eq_zero.1 closed c (mem_reverse.1 mem)
    obtain ⟨text, same⟩ := ne_none_iff_exists'.1 (show c.text ≠ none by simpa using done)
    rw [Capture.cap, same]
    rfl
  rw [← map_reverse, captures, List.map_map]
  generalize caps.reverse = l at texts
  induction l with
  | nil => rfl
  | cons c l ih =>
    obtain ⟨here, later⟩ := forall_mem_cons.1 texts
    rw [map_cons, mapM_cons, here, ih later]
    rfl

theorem searchFrom_compiled (src : Bytes) (read : compile p = some items) (few : items.count .openCapture ≤ luaMaxCaptures)
    (anchor : Bool) (k : Nat) (s : Bytes) :
    searchFrom src anchor p k s = some ((findFrom anchor items k s).map fun r => (r.1, r.2.1, r.2.2.map .inl)) := by
  have turn := matchAt_compiled src [] read rfl (by simpa using few)
  rw [map_nil] at turn
  induction s generalizing k with
  | nil =>
    rw [searchFrom, findFrom, (turn []).1]
    cases found : doMatch items [] [] with
    | none => rfl
    | some r =>
      rw [map_some]
      dsimp only
      rw [push_closed src ((turn []).2 r found)]
      rfl
  | cons c s ih =>
    rw [searchFrom, findFrom, (turn (c :: s)).1]
    cases found : doMatch items (c :: s) [] with
    | none =>
      rw [map_none]
      dsimp only
      rw [ih]
      split <;> rfl
    | some r =>
      rw [map_some]
      dsimp only
      rw [push_closed src ((turn (c :: s)).2 r found)]
      rfl

/-- **A search with a pattern that is read at once.** -/
theorem find_compiled (read : compile (anchored p).2 = some items) (few : items.count .openCapture ≤ luaMaxCaptures)
    (text : 0 ∉ p) (special : p.all (· ∉ specials) = false) (s : Bytes) :
    find p s = some ((findFrom (anchored p).1 items 0 s).map fun r => (r.1, r.2.1, r.2.2.map .inl)) := by
  have whole : p.takeWhile (· != 0) = p := takeWhile_eq_self_iff.2 fun c mem =>
    bne_iff_ne.2 fun zero => text (zero ▸ mem)
  rw [find, whole, special, if_neg (by decide)]
  exact searchFrom_compiled s read few _ 0 s

end Hah.Lua
