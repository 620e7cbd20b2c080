import Mathlib.Data.List.Basic

/-!
# Recognising a template in a stream

A matcher for a template of `n` places keeps one number, the place it waits at. An input
that fits the place moves it on, any other input sends it back to the beginning, where a
start symbol already counts as the first place. The number means that the inputs just
seen fit the places before it (`Tracks`), so a match is always real; and a start symbol
that fits no later place brings every matcher to place 1, whatever came before, so a
template that follows it is always found.
-/

namespace Hah.Recogniser

section Matcher

variable {A : Type} (start : A → Bool) (fits : Nat → A → Bool) (n : Nat)

/-- An input that the matcher accepts at place `q`. -/
def hit (q : Nat) (x : A) : Bool := (start x && q == 0) || fits q x

/-- One input: the next place and whether the template is complete. -/
def step (q : Nat) (x : A) : Nat × Bool :=
  if hit start fits q x then
    if q + 1 = n then (0, true) else (q + 1, false)
  else if start x then (1, false)
  else (0, false)

def place (q : Nat) (xs : List A) : Nat := xs.foldl (fun q x => (step start fits n q x).1) q

def answers (q : Nat) : List A → List Bool
  | [] => []
  | x :: xs => (step start fits n q x).2 :: answers (step start fits n q x).1 xs

/-- The last `q` inputs of the stream fit the first `q` places. -/
def Tracks (q : Nat) (xs : List A) : Prop :=
  ∃ before w, xs = before ++ w ∧ w.length = q ∧ ∀ k (h : k < w.length), hit start fits k (w.get ⟨k, h⟩) = true

variable {start fits n} {q : Nat} {xs : List A} {x : A}

theorem step_lt (long : 1 < n) (bound : q < n) (x : A) : (step start fits n q x).1 < n := by
  unfold step
  split
  next =>
    split
    next => exact Nat.lt_trans Nat.zero_lt_one long
    next => exact Nat.lt_of_le_of_ne bound (by assumption)
  next =>
    split
    next => exact long
    next => exact Nat.lt_trans Nat.zero_lt_one long

/-- **The place never leaves the template.** -/
theorem place_lt (long : 1 < n) (bound : q < n) (xs : List A) : place start fits n q xs < n := by
  induction xs generalizing q with
  | nil => exact bound
  | cons x xs ih => exact ih (step_lt long bound x)

theorem Tracks.zero (xs : List A) : Tracks start fits 0 xs := ⟨xs, [], by simp, rfl, by simp⟩

theorem Tracks.snoc (tracks : Tracks start fits q xs)
    (hits : hit start fits q x = true) : Tracks start fits (q + 1) (xs ++ [x]) := by
  obtain ⟨before, w, rfl, rfl, fit⟩ := tracks
  refine ⟨before, w ++ [x], by simp, by simp, fun k inside => ?_⟩
  by_cases old : k < w.length
  · simpa [List.getElem_append_left old] using fit k old
  · obtain rfl : k = w.length := by simp at inside; omega
    simpa using hits

/-- One input keeps the meaning of the place, and a complete template was seen. -/
theorem step_tracks (tracks : Tracks start fits q xs) (x : A) :
    Tracks start fits (step start fits n q x).1 (xs ++ [x]) ∧
      ((step start fits n q x).2 = true → Tracks start fits n (xs ++ [x])) := by
  by_cases hits : hit start fits q x = true
  · have longer := tracks.snoc hits
    by_cases complete : q + 1 = n
    · rw [step, if_pos hits, if_pos complete]
      exact ⟨.zero _, fun _ => complete ▸ longer⟩
    · rw [step, if_pos hits, if_neg complete]
      exact ⟨longer, by simp⟩
  · by_cases starts : start x = true
    · rw [step, if_neg hits, if_pos starts]
      refine ⟨(Tracks.zero xs).snoc ?_, by simp⟩
      simp [hit, starts]
    · rw [step, if_neg hits, if_neg starts]
      exact ⟨.zero _, by simp⟩

theorem place_tracks {seen : List A} (tracks : Tracks start fits q seen) (xs : List A) :
    Tracks start fits (place start fits n q xs) (seen ++ xs) := by
  induction xs generalizing q seen with
  | nil => simpa [place] using tracks
  | cons x xs ih =>
    have next := ih (step_tracks (n := n) tracks x).1
    rwa [List.append_assoc, List.singleton_append] at next

/-- **A match is real**: the last `n` inputs fit the template. -/
theorem tracks_of_match (found : (step start fits n (place start fits n 0 xs) x).2 = true) :
    Tracks start fits n (xs ++ [x]) :=
  (step_tracks (by simpa using place_tracks (n := n) (Tracks.zero ([] : List A)) xs) x).2 found

/-- A start symbol that fits no later place brings the matcher to place 1. -/
theorem step_start (long : 1 < n) (bound : q < n) (starts : start x = true)
    (apart : ∀ k, 0 < k → k < n → fits k x = false) : step start fits n q x = (1, false) := by
  by_cases first : q = 0
  · subst first
    rw [step, if_pos (by simp [hit, starts]), if_neg (by omega)]
  · have misses : hit start fits q x = false := by
      simp [hit, first, apart q (Nat.pos_of_ne_zero first) bound]
    rw [step, if_neg (by simp [misses]), if_pos starts]

/-- Inputs that fit the places from `q` on complete the template with the last of them. -/
theorem answers_of_fits {w : List A} (filled : w ≠ []) (total : q + w.length = n)
    (fit : ∀ k (h : k < w.length), fits (q + k) (w.get ⟨k, h⟩) = true) :
    answers start fits n q w = List.replicate (w.length - 1) false ++ [true] := by
  induction w generalizing q with
  | nil => exact absurd rfl filled
  | cons x w ih =>
    have hits : hit start fits q x = true := by
      have here : fits q x = true := fit 0 (by simp)
      simp [hit, here]
    cases w with
    | nil =>
      have complete : q + 1 = n := by simpa using total
      rw [answers, step, if_pos hits, if_pos complete]
      rfl
    | cons y w =>
      have more : ¬ q + 1 = n := by simp only [List.length_cons] at total; omega
      have rest := ih (q := q + 1) (by simp) (by simp only [List.length_cons] at total ⊢; omega)
        (fun k inside => by
          rw [show q + 1 + k = q + (k + 1) by omega]
          exact fit (k + 1) (by simpa using inside))
      rw [answers, step, if_pos hits, if_neg more, rest]
      rfl

/-- **A template behind a start symbol is found**, from every place: nothing is answered before
its last input, and that one completes it. -/
theorem answers_of_template (long : 1 < n) (bound : q < n) {w : List A}
    (starts : start x = true) (apart : ∀ k, 0 < k → k < n → fits k x = false) (length : w.length + 1 = n)
    (fit : ∀ k (h : k < w.length), fits (k + 1) (w.get ⟨k, h⟩) = true) :
    answers start fits n q (x :: w) = List.replicate w.length false ++ [true] := by
  have filled : w ≠ [] := by
    rintro rfl
    simp only [List.length_nil] at length
    omega
  have rest : answers start fits n 1 w = List.replicate (w.length - 1) false ++ [true] := by
    apply answers_of_fits filled (by omega)
    intro k inside
    rw [Nat.add_comm 1 k]
    exact fit k inside
  have count : w.length = w.length - 1 + 1 := by omega
  rw [answers, step_start long bound starts apart, rest, count, List.replicate_succ]
  rfl

end Matcher

end Hah.Recogniser
