import Mathlib.Data.List.Basic

/-!
# Longest-match lexing

A lexer is given by the token of every word it knows. At each point it takes the longest
prefix that is such a word. `Lexes` is the relation, `lex` computes it when every single
letter is a word. A text that is cut between two words is lexed piece by piece
(`lex_pieces`); any other cut can change the tokens. Two texts that no word straddles can be
put together (`lex_append`), and a text is read letter by letter when it holds no longer word
(`Letters.lexes`), which its number of words tells (`Lexes.letters_of_length`).
-/

namespace Hah.Lexer
open List

section Lexer

variable {α τ : Type} (word : List α → Option τ)

/-- `w` is the longest prefix of `s` that is a word, and `t` its token. -/
structure First (s w : List α) (t : τ) : Prop where
  initial : w <+: s
  nonempty : w ≠ []
  token : word w = some t
  longest : ∀ v, v <+: s → w.length < v.length → word v = none

/-- The words of `s` with their tokens. -/
inductive Lexes : List α → List (List α × τ) → Prop
  | nil : Lexes [] []
  | cons {w rest : List α} {t : τ} {pairs : List (List α × τ)} (first : First word (w ++ rest) w t)
      (others : Lexes rest pairs) : Lexes (w ++ rest) ((w, t) :: pairs)

/-- Try the prefixes of `s` from length `n` down. -/
def longestWord (s : List α) : Nat → Option (List α × τ)
  | 0 => none
  | n + 1 =>
    match word (s.take (n + 1)) with
    | some t => some (s.take (n + 1), t)
    | none => longestWord s n

def lexFuel : Nat → List α → List (List α × τ)
  | 0, _ => []
  | fuel + 1, s =>
    match longestWord word s s.length with
    | none => []
    | some (w, t) => (w, t) :: lexFuel fuel (s.drop w.length)

/-- The words of `s` with their tokens, computed. -/
def lex (s : List α) : List (List α × τ) := lexFuel word s.length s

def tokens (s : List α) : List τ := (lex word s).map (·.2)

def text (pairs : List (List α × τ)) : List α := pairs.flatMap (·.1)

/-- No word begins in `s` and ends in `s'`. -/
def Apart (s s' : List α) : Prop :=
  ∀ u v, u ≠ [] → v ≠ [] → u <:+ s → v <+: s' → word (u ++ v) = none

/-- No word of `s` is longer than a letter. -/
def Letters (s : List α) : Prop := ∀ w, w <:+: s → 1 < w.length → word w = none

end Lexer

section Lexes

variable {α τ : Type} {word : List α → Option τ} {s w : List α} {t : τ} {pairs : List (List α × τ)}

theorem First.eq {w' : List α} {t' : τ} (h : First word s w t) (h' : First word s w' t') : w = w' ∧ t = t' := by
  have size : w.length = w'.length := by
    rcases Nat.lt_trichotomy w.length w'.length with less | same | more
    · have := h.longest w' h'.initial less
      simp [h'.token] at this
    · exact same
    · have := h'.longest w h.initial more
      simp [h.token] at this
  obtain rfl : w = w' := (prefix_of_prefix_length_le h.initial h'.initial (by omega)).eq_of_length size
  have tokens := h.token.symm.trans h'.token
  exact ⟨rfl, by simpa using tokens⟩

theorem Lexes.text_eq (h : Lexes word s pairs) : text pairs = s := by
  induction h with
  | nil => rfl
  | cons first others ih => simpa [text] using ih

theorem Lexes.words (h : Lexes word s pairs) : ∀ pair ∈ pairs, word pair.1 = some pair.2 := by
  induction h with
  | nil => simp
  | cons first others ih =>
    intro pair mem
    rcases mem_cons.1 mem with rfl | mem
    · exact first.token
    · exact ih pair mem

theorem Lexes.head (h : Lexes word s ((w, t) :: pairs)) :
    ∃ rest, s = w ++ rest ∧ First word s w t ∧ Lexes word rest pairs := by
  cases h with
  | cons first others => exact ⟨_, rfl, first, others⟩

/-- A text has one reading. -/
theorem Lexes.unique {pairs' : List (List α × τ)} (h : Lexes word s pairs)
    (h' : Lexes word s pairs') : pairs = pairs' := by
  induction h generalizing pairs' with
  | nil =>
    cases pairs' with
    | nil => rfl
    | cons pair pairs' =>
      obtain ⟨rest, empty, first, -⟩ := h'.head
      exact absurd (append_eq_nil_iff.1 empty.symm).1 first.nonempty
  | cons first others ih =>
    cases pairs' with
    | nil =>
      have empty := h'.text_eq
      exact absurd (append_eq_nil_iff.1 empty.symm).1 first.nonempty
    | cons pair pairs' =>
      obtain ⟨rest, same, first', others'⟩ := h'.head
      obtain ⟨equal, token⟩ := first.eq first'
      rw [← equal] at same
      rw [← append_cancel_left same] at others'
      rw [ih others', equal, token]

/-- The first words of a text are the reading of the text they cover, and the others are the
reading of the rest. -/
theorem Lexes.split {front back : List (List α × τ)} (h : Lexes word s (front ++ back)) :
    Lexes word (text front) front ∧ Lexes word (text back) back := by
  induction front generalizing s with
  | nil =>
    have whole : text back = s := h.text_eq
    exact ⟨.nil, whole ▸ h⟩
  | cons pair front ih =>
    obtain ⟨w, t⟩ := pair
    obtain ⟨rest, rfl, first, others⟩ := h.head
    obtain ⟨inner, outer⟩ := ih others
    refine ⟨?_, outer⟩
    have inside : w ++ text front <+: w ++ rest := by
      rw [← others.text_eq]
      simp [text]
    -- a longer word in the front would be a longer word in the whole text
    exact .cons ⟨prefix_append w _, first.nonempty, first.token,
      fun v start longer => first.longest v (start.trans inside) longer⟩ inner

/-- A word by itself is read as one word. -/
theorem Lexes.single (nonempty : w ≠ []) (token : word w = some t) : Lexes word w [(w, t)] := by
  have first : First word (w ++ []) w t := by
    refine ⟨by simp, nonempty, token, fun v start longer => ?_⟩
    have := start.length_le
    simp only [append_nil] at this
    omega
  simpa using Lexes.cons first .nil

/-- A prefix of two texts is one of the first, or the first and a part of the second. -/
theorem prefix_append_cases {v s' : List α} (start : v <+: s ++ s') :
    v <+: s ∨ ∃ u, u ≠ [] ∧ u <+: s' ∧ v = s ++ u := by
  rcases Nat.lt_or_ge s.length v.length with longer | within
  · obtain ⟨u, rfl⟩ := prefix_of_prefix_length_le (prefix_append s s') start (by omega)
    refine .inr ⟨u, ?_, (prefix_append_right_inj s).1 start, rfl⟩
    rintro rfl
    simp at longer
  · exact .inl (prefix_of_prefix_length_le start (prefix_append s s') within)

/-- Texts that no word straddles are read one after the other. -/
theorem Lexes.append {s' : List α} {front back : List (List α × τ)} (h : Lexes word s front)
    (h' : Lexes word s' back) (apart : Apart word s s') : Lexes word (s ++ s') (front ++ back) := by
  induction h with
  | nil => exact h'
  | @cons w rest t pairs first others ih =>
    have later : Apart word rest s' := fun u v some_u some_v ends =>
      apart u v some_u some_v (ends.trans (suffix_append w rest))
    rw [append_assoc]
    refine .cons ⟨prefix_append w _, first.nonempty, first.token, fun v start longer => ?_⟩ (ih later)
    rw [← append_assoc] at start
    -- a longer word would stand in the first text or straddle the two
    rcases prefix_append_cases start with inside | ⟨u, some_u, begins, rfl⟩
    · exact first.longest v inside longer
    · exact apart (w ++ rest) u (by simp [first.nonempty]) some_u suffix_rfl begins

/-! ## Letters -/

theorem Letters.tail {a : α} (h : Letters word (a :: s)) : Letters word s :=
  fun w part => h w (part.trans (suffix_cons a s).isInfix)

/-- A text without longer words is read letter by letter. -/
theorem Letters.lexes {letter : α → τ} (single : ∀ a, word [a] = some (letter a))
    (h : Letters word s) : Lexes word s (s.map fun a => ([a], letter a)) := by
  induction s with
  | nil => exact .nil
  | cons a s ih =>
    refine .cons (w := [a]) ⟨prefix_append [a] s, by simp, single a, fun v start longer => ?_⟩ (ih h.tail)
    exact h v start.isInfix longer

theorem Lexes.length_le (h : Lexes word s pairs) : pairs.length ≤ s.length := by
  induction h with
  | nil => exact Nat.le_refl 0
  | @cons w rest t pairs first others ih =>
    have positive := length_pos_of_ne_nil first.nonempty
    simp only [length_cons, length_append]
    omega

/-- A text of as many words as letters holds no longer word, at a word's start or elsewhere. -/
theorem Lexes.letters_of_length (h : Lexes word s pairs) (many : s.length ≤ pairs.length) : Letters word s := by
  induction h with
  | nil =>
    intro w part longer
    have := part.length_le
    simp only [length_nil] at this
    omega
  | @cons w rest t pairs first others ih =>
    have positive := length_pos_of_ne_nil first.nonempty
    have fewer := others.length_le
    simp only [length_cons, length_append] at many
    obtain ⟨a, rfl⟩ := length_eq_one_iff.1 (show w.length = 1 by omega)
    intro v part longer
    rcases infix_cons_iff.1 part with start | later
    · exact first.longest v start longer
    · exact ih (by omega) v later longer

/-! ## The computed reading -/

theorem longestWord_spec {n : Nat} (bound : n ≤ s.length) (above : ∀ v, v <+: s → n < v.length → word v = none)
    (found : longestWord word s n = some (w, t)) : First word s w t := by
  induction n with
  | zero => simp [longestWord] at found
  | succ n ih =>
    have size : (s.take (n + 1)).length = n + 1 := by
      rw [length_take]
      omega
    rw [longestWord] at found
    cases token : word (s.take (n + 1)) with
    | some t' =>
      simp only [token, Option.some.injEq, Prod.mk.injEq] at found
      obtain ⟨rfl, rfl⟩ := found
      refine ⟨List.take_prefix _ s, ?_, token, fun v start longer => above v start (by omega)⟩
      exact ne_nil_of_length_pos (by omega)
    | none =>
      simp only [token] at found
      refine ih (by omega) (fun v start longer => ?_) found
      rcases Nat.lt_or_ge (n + 1) v.length with more | most
      · exact above v start more
      · have whole : v = s.take (n + 1) := by
          rw [prefix_iff_eq_take.1 start, show v.length = n + 1 by omega]
        rw [whole, token]

theorem longestWord_some {n : Nat} (positive : 0 < n)
    (single : (word (s.take 1)).isSome) : (longestWord word s n).isSome := by
  induction n with
  | zero => omega
  | succ n ih =>
    rw [longestWord]
    cases token : word (s.take (n + 1)) with
    | some t => rfl
    | none =>
      cases n with
      | zero => simp [token] at single
      | succ n => exact ih (by omega)

section Total

variable (total : ∀ a, (word [a]).isSome)

include total

variable {s : List α}

theorem lexFuel_lexes {fuel : Nat} (enough : s.length ≤ fuel) : Lexes word s (lexFuel word fuel s) := by
  induction fuel generalizing s with
  | zero =>
    obtain rfl : s = [] := by simpa using enough
    exact .nil
  | succ fuel ih =>
    cases s with
    | nil => exact .nil
    | cons a s =>
      have some_word : (longestWord word (a :: s) (a :: s).length).isSome :=
        longestWord_some (by simp) (total a)
      obtain ⟨⟨w, t⟩, found⟩ := Option.isSome_iff_exists.1 some_word
      have first := longestWord_spec (Nat.le_refl _) (fun v start longer => by
        have := start.length_le
        omega) found
      obtain ⟨rest, whole⟩ := first.initial
      have positive := length_pos_of_ne_nil first.nonempty
      have shorter : rest.length ≤ fuel := by
        have := congrArg List.length whole
        simp only [length_append, length_cons] at this enough
        omega
      rw [lexFuel, found]
      rw [← whole] at first ⊢
      simpa using Lexes.cons first (ih shorter)

theorem lex_lexes (s : List α) : Lexes word s (lex word s) :=
  lexFuel_lexes total (Nat.le_refl _)

theorem lex_eq {pairs : List (List α × τ)} (h : Lexes word s pairs) : lex word s = pairs :=
  (lex_lexes total s).unique h

theorem lex_append {s' : List α} (apart : Apart word s s') : lex word (s ++ s') = lex word s ++ lex word s' :=
  lex_eq total ((lex_lexes total s).append (lex_lexes total s') apart)

theorem lex_word {w : List α} {t : τ} (nonempty : w ≠ []) (token : word w = some t) : lex word w = [(w, t)] :=
  lex_eq total (Lexes.single nonempty token)

/-- **Cutting between words**: pieces that are made of whole words of a text are read as the
text is. -/
theorem lex_pieces {groups : List (List (List α × τ))} (whole : groups.flatten = lex word s) :
    (groups.map text).flatMap (lex word) = lex word s := by
  have reading : Lexes word s groups.flatten := whole ▸ lex_lexes total s
  rw [← whole]
  clear whole
  induction groups generalizing s with
  | nil => rfl
  | cons group groups ih =>
    rw [flatten_cons] at reading
    obtain ⟨front, back⟩ := reading.split
    rw [map_cons, flatMap_cons, flatten_cons, lex_eq total front, ih back]

end Total

end Lexes

end Hah.Lexer
