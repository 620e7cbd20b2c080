import Mathlib.Data.List.Basic
import Mathlib.Data.List.Induction

/-!
# Lines of a stream

A stream is cut at the symbols that end a line: `complete` are the lines that have ended and
`pending` is the one that has not. A receiver sees the stream symbol by symbol, and what it
knows is about the stream so far, so all rules here go from a stream to the stream with one
more symbol, and from there to the stream in the pieces of its calls.
-/

namespace Hah.Lines
open List

section Cut

variable {α : Type} (ends : α → Bool)

/-- The lines that have ended, without the symbols that end them. -/
def complete (s : List α) : List (List α) := (s.splitOnP ends).dropLast

def pending (s : List α) : List α := (s.splitOnP ends).getLast (splitOnP_ne_nil ends s)

def nonempty (s : List α) : List (List α) := (complete ends s).filter (· ≠ [])

variable {s : List α} {b : α}

theorem complete_pending (s : List α) : complete ends s ++ [pending ends s] = s.splitOnP ends :=
  dropLast_concat_getLast _

variable {ends}

@[simp] theorem complete_nil : complete ends [] = [] := by
  simp [complete]

@[simp] theorem pending_nil : pending ends [] = [] := by
  simp [pending]

theorem complete_of_splitOnP {line : List α} {lines : List (List α)} (cut : s.splitOnP ends = lines ++ [line]) :
    complete ends s = lines ∧ pending ends s = line := by
  constructor
  · rw [complete, cut, dropLast_concat]
  · simp only [pending, cut, getLast_append_singleton]

theorem cut_end (isEnd : ends b = true) (s : List α) :
    complete ends (s ++ [b]) = complete ends s ++ [pending ends s] ∧ pending ends (s ++ [b]) = [] := by
  apply complete_of_splitOnP
  rw [splitOnP_append_cons s [] isEnd, splitOnP_nil, complete_pending]

/-- The symbol that ends a line. -/
theorem complete_end (isEnd : ends b = true) (s : List α) :
    complete ends (s ++ [b]) = complete ends s ++ [pending ends s] :=
  (cut_end isEnd s).1

theorem pending_end (isEnd : ends b = true) (s : List α) : pending ends (s ++ [b]) = [] :=
  (cut_end isEnd s).2

theorem splitOnP_inside (inside : ends b = false) (s : List α) :
    (s ++ [b]).splitOnP ends = complete ends s ++ [pending ends s ++ [b]] := by
  induction s with
  | nil => simp [splitOnP_cons_eq_if_modifyHead, inside]
  | cons a s ih =>
    rw [cons_append, splitOnP_cons_eq_if_modifyHead, ih]
    have cut := splitOnP_cons_eq_if_modifyHead (p := ends) a s
    rw [← complete_pending ends s] at cut
    cases isEnd : ends a with
    | true =>
      rw [isEnd, if_pos rfl, ← cons_append] at cut
      obtain ⟨lines, line⟩ := complete_of_splitOnP cut
      rw [if_pos rfl, lines, line, cons_append]
    | false =>
      rw [isEnd, if_neg Bool.false_ne_true] at cut
      rw [if_neg Bool.false_ne_true]
      -- the symbol joins the first line, which is the unfinished one when no line has ended
      cases lines : complete ends s with
      | nil =>
        rw [lines, nil_append, modifyHead_cons, ← nil_append [_]] at cut
        obtain ⟨lines', line'⟩ := complete_of_splitOnP cut
        simp [lines', line']
      | cons first later =>
        rw [lines, cons_append, modifyHead_cons, ← cons_append] at cut
        obtain ⟨lines', line'⟩ := complete_of_splitOnP cut
        simp [lines', line']

/-- A symbol inside a line. -/
theorem complete_inside (inside : ends b = false) (s : List α) : complete ends (s ++ [b]) = complete ends s :=
  (complete_of_splitOnP (splitOnP_inside inside s)).1

theorem pending_inside (inside : ends b = false) (s : List α) : pending ends (s ++ [b]) = pending ends s ++ [b] :=
  (complete_of_splitOnP (splitOnP_inside inside s)).2

@[simp] theorem nonempty_nil : nonempty ends [] = [] := by
  simp [nonempty]

theorem nonempty_inside (inside : ends b = false) (s : List α) : nonempty ends (s ++ [b]) = nonempty ends s := by
  rw [nonempty, complete_inside inside, nonempty]

theorem nonempty_end_empty (isEnd : ends b = true) (empty : pending ends s = []) :
    nonempty ends (s ++ [b]) = nonempty ends s := by
  rw [nonempty, complete_end isEnd, filter_append, empty, nonempty]
  simp

theorem nonempty_end_line (isEnd : ends b = true) (text : pending ends s ≠ []) :
    nonempty ends (s ++ [b]) = nonempty ends s ++ [pending ends s] := by
  rw [nonempty, complete_end isEnd, filter_append, nonempty]
  simp [text]

/-- The lines of a longer stream begin with those of the shorter one. -/
theorem nonempty_snoc (s : List α) (b : α) : nonempty ends s <+: nonempty ends (s ++ [b]) := by
  cases isEnd : ends b with
  | false => exact (nonempty_inside isEnd s).symm ▸ prefix_refl _
  | true =>
    by_cases empty : pending ends s = []
    · exact (nonempty_end_empty isEnd empty).symm ▸ prefix_refl _
    · rw [nonempty_end_line isEnd empty]
      exact prefix_append _ _

/-- No symbol of an unfinished line ends it. -/
theorem pending_mem (mem : b ∈ pending ends s) : ends b = false := by
  induction s using List.reverseRecOn with
  | nil => simp at mem
  | append_singleton s a ih =>
    cases isEnd : ends a with
    | true => simp [pending_end isEnd] at mem
    | false =>
      rw [pending_inside isEnd] at mem
      rcases mem_append.1 mem with earlier | last
      · exact ih earlier
      · rw [mem_singleton.1 last, isEnd]

end Cut

/-! ## Receivers -/

section Receivers

variable {α S C : Type} (Inv : List α → Option S → Prop)

/-- What each call keeps, a run of calls keeps, whatever the pieces are. `none` is a receiver that
has gone wrong. -/
theorem calls_keep {call : S → C → Option S} {p : C → List α}
    (next : ∀ s o c, Inv s o → Inv (s ++ p c) (o.bind (call · c))) (calls : List C) {s : List α}
    {o : Option S} (start : Inv s o) : Inv (s ++ calls.flatMap p) (o.bind (calls.foldlM call)) := by
  induction calls generalizing s o with
  | nil =>
    have same : o.bind (List.foldlM call · []) = o := by cases o <;> rfl
    rw [same, flatMap_nil, append_nil]
    exact start
  | cons c calls ih =>
    have split : o.bind (List.foldlM call · (c :: calls)) =
        (o.bind (call · c)).bind (List.foldlM call · calls) := by
      cases o <;> simp [foldlM_cons]
    rw [split, flatMap_cons, ← append_assoc]
    exact ih (next s o c start)

/-- What each symbol keeps, the loop over the symbols of a call keeps. -/
theorem symbols_keep {step : S → α → Option S} (next : ∀ s o b, Inv s o → Inv (s ++ [b]) (o.bind (step · b)))
    (piece : List α) {s : List α} {o : Option S} (start : Inv s o) : Inv (s ++ piece) (o.bind (piece.foldlM step)) := by
  have run := calls_keep Inv (p := fun b => [b]) next piece start
  rwa [flatMap_singleton'] at run

end Receivers

end Hah.Lines
