import Mathlib.Data.List.Infix

/-!
# Searching a text

The first place where a word stands in a text. A text that grows piece by piece can be
searched in a window: if the word was not there before, it is enough to look at the new piece
and at as many symbols before it as the word has.
-/

namespace Hah.Search
open List

variable {α : Type} [DecidableEq α] {w s t : List α} {i : Nat}

/-- Where `w` stands first in a text. -/
def find (w : List α) : List α → Option Nat
  | [] => if w = [] then some 0 else none
  | a :: s => if w <+: a :: s then some 0 else (find w s).map (· + 1)

/-- The first place is one where the word stands and before which it does not. -/
theorem find_eq_some_iff : find w s = some i ↔ w <+: s.drop i ∧ ∀ j < i, ¬ w <+: s.drop j := by
  induction s generalizing i with
  | nil =>
    simp only [find, drop_nil, prefix_nil]
    by_cases empty : w = []
    · rw [if_pos empty, Option.some.injEq]
      constructor
      · rintro rfl
        exact ⟨empty, fun j before => absurd before (Nat.not_lt_zero j)⟩
      · rintro ⟨-, first⟩
        by_contra later
        exact first 0 (by omega) empty
    · rw [if_neg empty]
      exact iff_of_false (by simp) fun h => empty h.1
  | cons a s ih =>
    by_cases here : w <+: a :: s
    · rw [find, if_pos here, Option.some.injEq]
      constructor
      · rintro rfl
        exact ⟨here, fun j before => absurd before (Nat.not_lt_zero j)⟩
      · rintro ⟨-, first⟩
        by_contra later
        exact first 0 (by omega) here
    · rw [find, if_neg here, Option.map_eq_some_iff]
      constructor
      · rintro ⟨k, found, rfl⟩
        obtain ⟨stands, first⟩ := ih.1 found
        refine ⟨stands, fun j before => ?_⟩
        cases j with
        | zero => exact here
        | succ j => exact first j (by omega)
      · rintro ⟨stands, first⟩
        cases i with
        | zero => exact absurd stands here
        | succ k => exact ⟨k, ih.2 ⟨stands, fun j before => first (j + 1) (by omega)⟩, rfl⟩

theorem exists_find (stands : w <+: s.drop i) : ∃ k ≤ i, find w s = some k := by
  induction i using Nat.strongRecOn with
  | ind i ih =>
    by_cases earlier : ∃ j < i, w <+: s.drop j
    · obtain ⟨j, before, standsJ⟩ := earlier
      obtain ⟨k, first, found⟩ := ih j before standsJ
      exact ⟨k, by omega, found⟩
    · exact ⟨i, Nat.le_refl i, find_eq_some_iff.2 ⟨stands, fun j before standsJ => earlier ⟨j, before, standsJ⟩⟩⟩

omit [DecidableEq α] in
theorem infix_iff_drop : w <:+: s ↔ ∃ i, w <+: s.drop i := by
  constructor
  · rintro ⟨before, after, rfl⟩
    exact ⟨before.length, after, by simp⟩
  · rintro ⟨i, stands⟩
    exact stands.isInfix.trans (drop_suffix i s).isInfix

theorem find_isSome_iff : (find w s).isSome = true ↔ w <:+: s := by
  rw [Option.isSome_iff_exists, infix_iff_drop]
  constructor
  · rintro ⟨i, found⟩
    exact ⟨i, (find_eq_some_iff.1 found).1⟩
  · rintro ⟨i, stands⟩
    obtain ⟨k, -, found⟩ := exists_find stands
    exact ⟨k, found⟩

omit [DecidableEq α] in
/-- A word that stands in the first part of a text, in terms of that part. -/
theorem prefix_drop_append (inside : i + w.length ≤ s.length) : w <+: (s ++ t).drop i ↔ w <+: s.drop i := by
  rw [drop_append_of_le_length (by omega)]
  constructor
  · intro stands
    exact prefix_of_prefix_length_le stands (prefix_append _ t) (by rw [length_drop]; omega)
  · intro stands
    exact stands.trans (prefix_append _ t)

/-! ## From a place on -/

/-- Where `w` stands first in a text at or behind place `k`. -/
def findFrom (w s : List α) (k : Nat) : Option Nat := (find w (s.drop k)).map (k + ·)

variable {k : Nat}

theorem findFrom_zero : findFrom w s 0 = find w s := by
  simp [findFrom]

theorem findFrom_eq_some_iff :
    findFrom w s k = some i ↔ k ≤ i ∧ w <+: s.drop i ∧ ∀ j, k ≤ j → j < i → ¬ w <+: s.drop j := by
  rw [findFrom, Option.map_eq_some_iff]
  constructor
  · rintro ⟨d, found, rfl⟩
    obtain ⟨stands, first⟩ := find_eq_some_iff.1 found
    rw [drop_drop] at stands
    refine ⟨Nat.le_add_right k d, stands, fun j behind before => ?_⟩
    have earlier := first (j - k) (by omega)
    rwa [drop_drop, show k + (j - k) = j by omega] at earlier
  · rintro ⟨behind, stands, first⟩
    refine ⟨i - k, find_eq_some_iff.2 ⟨?_, fun j before => ?_⟩, by omega⟩
    · rwa [drop_drop, show k + (i - k) = i by omega]
    · rw [drop_drop]
      exact first (k + j) (by omega) (by omega)

theorem exists_findFrom (behind : k ≤ i) (stands : w <+: s.drop i) : ∃ j ≤ i, findFrom w s k = some j := by
  have stands' : w <+: (s.drop k).drop (i - k) := by rwa [drop_drop, show k + (i - k) = i by omega]
  obtain ⟨d, first, found⟩ := exists_find stands'
  exact ⟨k + d, by omega, by rw [findFrom, found, Option.map_some]⟩

omit [DecidableEq α] in
theorem stands_le (stands : w <+: s.drop i) (nonempty : w ≠ []) : i + w.length ≤ s.length := by
  have size := stands.length_le
  have positive := length_pos_of_ne_nil nonempty
  rw [length_drop] at size
  omega

/-- What is found in a text is found at the same place when the text goes on. -/
theorem findFrom_append (found : findFrom w s k = some i) (nonempty : w ≠ []) (t : List α) :
    findFrom w (s ++ t) k = some i := by
  obtain ⟨behind, stands, first⟩ := findFrom_eq_some_iff.1 found
  have inside := stands_le stands nonempty
  refine findFrom_eq_some_iff.2 ⟨behind, (prefix_drop_append inside).2 stands, fun j after before => ?_⟩
  rw [prefix_drop_append (by omega)]
  exact first j after before

/-- A search that begins later finds the same place exactly if it does not begin behind it. -/
theorem findFrom_later (found : findFrom w s k = some i) {k' : Nat} (later : k ≤ k') :
    findFrom w s k' = some i ↔ k' ≤ i := by
  obtain ⟨-, stands, first⟩ := findFrom_eq_some_iff.1 found
  constructor
  · intro found'
    exact (findFrom_eq_some_iff.1 found').1
  · intro behind
    exact findFrom_eq_some_iff.2 ⟨behind, stands, fun j after before => first j (by omega) before⟩

/-- **A search in a window**: a word that was not in the old part is found by a search that begins
with as many symbols of it as the word has. -/
theorem findFrom_window (absent : ¬ w <:+: s) (window : k = 0 ∨ k + w.length ≤ s.length) (t : List α) :
    findFrom w (s ++ t) k = find w (s ++ t) := by
  have outside : ∀ j < k, ¬ w <+: (s ++ t).drop j := by
    intro j before stands
    rw [prefix_drop_append (by omega)] at stands
    exact absent (infix_iff_drop.2 ⟨j, stands⟩)
  rw [← findFrom_zero]
  ext i
  rw [findFrom_eq_some_iff, findFrom_eq_some_iff]
  constructor
  · rintro ⟨-, stands, first⟩
    refine ⟨Nat.zero_le i, stands, fun j _ before => ?_⟩
    by_cases early : j < k
    · exact outside j early
    · exact first j (Nat.not_lt.1 early) before
  · rintro ⟨-, stands, first⟩
    exact ⟨Nat.not_lt.1 fun early => outside i early stands, stands, fun j _ before => first j (Nat.zero_le j) before⟩

end Hah.Search
