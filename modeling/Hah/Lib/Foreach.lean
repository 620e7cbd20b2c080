import Mathlib.Data.List.Nodup

/-!
# Walking by index over a list that shrinks

A loop counts from the first index to the length that a list had at its start and reads the list
anew at every turn. If a turn removes the item that it read, what stands behind moves up by one
while the index goes on, so that the next item is not read, and the last turns read nothing.

If a turn that reads nothing fails, the loop fails as soon as the list is too short (`foreach_short`).
Otherwise `Visits` says what one turn does and `foreach_walk` what the loop does: the items that are
read are `seen`, those that stay are `left`. The items of interest are all seen if none of them follows
one that is removed (`mem_seen_iff`); and the items to be removed are all removed if no two of them are
neighbours (`left_eq_iff`).
-/

namespace Hah.Lib.Foreach
open List

section Loop

variable {S A : Type} (items : S → List A) (body : Nat → Option A → S → Option S)

/-- `n` turns from the index `i` on; a turn past the end of the list reads nothing. -/
def foreach : (n i : Nat) → S → Option S
  | 0, _, s => some s
  | n + 1, i, s => (body i (items s)[i]? s).bind (foreach n (i + 1))

variable (removes : A → Bool)

def seen : List A → List A
  | [] => []
  | [x] => [x]
  | x :: y :: rest => x :: if removes x then seen rest else seen (y :: rest)

def left : List A → List A
  | [] => []
  | [x] => if removes x then [] else [x]
  | x :: y :: rest => if removes x then y :: left rest else x :: left (y :: rest)

/-- What a turn does: it leaves the other items where they are, removes its own or not, and notes it or
not. `Fresh` is what has to be known about the items that were not yet read. -/
structure Visits (note : S → List A) (notes : A → Bool) (Fresh : List A → S → Prop) : Prop where
  nil : ∀ i s, body i none s = some s
  turn : ∀ {kept rest : List A} {x : A} {s : S}, items s = kept ++ x :: rest → Fresh (x :: rest) s →
    ∃ s', body kept.length (some x) s = some s' ∧ items s' = kept ++ (if removes x then rest else x :: rest) ∧
      note s' = note s ++ (if notes x then [x] else []) ∧ Fresh rest s'
  skips : ∀ {rest : List A} {x : A} {s : S}, Fresh (x :: rest) s → Fresh rest s

end Loop

section Run

variable {S A : Type} {items : S → List A} {body : Nat → Option A → S → Option S} {removes : A → Bool}
  {note : S → List A} {notes : A → Bool} {Fresh : List A → S → Prop} {n i : Nat} {s : S} {rest : List A} {x : A}

/-- The first turn, on a list that still has items. -/
theorem foreach_turn {kept : List A} (at_x : items s = kept ++ x :: rest) (n : Nat) :
    foreach items body (n + 1) kept.length s =
      (body kept.length (some x) s).bind (foreach items body n (kept.length + 1)) := by
  rw [foreach, at_x, getElem?_append_right (Nat.le_refl _), Nat.sub_self]
  rfl

/-- With more turns to go than there are items, one of them reads nothing, and fails. -/
theorem foreach_short (nil : ∀ i s, body i none s = none)
    (shrinks : ∀ {i x s s'}, body i (some x) s = some s' → (items s').length ≤ (items s).length)
    (short : (items s).length < i + n) (turns : n ≠ 0) : foreach items body n i s = none := by
  induction n generalizing i s with
  | zero => exact absurd rfl turns
  | succ n ih =>
    rw [foreach]
    cases read : (items s)[i]? with
    | none => rw [nil, Option.bind_none]
    | some x =>
      cases step : body i (some x) s with
      | none => rfl
      | some s' =>
        have inside := (List.getElem?_eq_some_iff.1 read).1
        have fewer := shrinks step
        exact ih (by omega) (by omega)

/-- Past the end the turns do nothing. -/
theorem foreach_past (nil : ∀ i s, body i none s = some s) (past : (items s).length ≤ i) :
    foreach items body n i s = some s := by
  induction n generalizing i with
  | zero => rfl
  | succ n ih => rw [foreach, getElem?_eq_none past, nil, Option.bind_some, ih (Nat.le_succ_of_le past)]

/-- **The walk** leaves and notes what the indices have met. -/
theorem foreach_walk (visits : Visits items body removes note notes Fresh) :
    ∀ {n : Nat} (kept : List A) {s : S}, items s = kept ++ rest → Fresh rest s → rest.length ≤ n →
    ∃ s', foreach items body n kept.length s = some s' ∧ items s' = kept ++ left removes rest ∧
      note s' = note s ++ (seen removes rest).filter notes := by
  induction rest using seen.induct with
  | case1 =>
    intro n kept s at_nil _ _
    have length : (items s).length = kept.length := by rw [at_nil, append_nil]
    exact ⟨s, foreach_past visits.nil (Nat.le_of_eq length), at_nil, (append_nil _).symm⟩
  | case2 x =>
    intro n kept s at_x fresh enough
    obtain ⟨n, rfl⟩ : ∃ k, n = k + 1 := ⟨n - 1, by rw [length_singleton] at enough; omega⟩
    obtain ⟨s', step, items', note', -⟩ := visits.turn at_x fresh
    have past : (items s').length ≤ kept.length + 1 := by
      rw [items', length_append]
      split <;> simp
    refine ⟨s', ?_, items', ?_⟩
    · rw [foreach_turn at_x, step, Option.bind_some, foreach_past visits.nil past]
    · rw [note', seen, filter_cons]
      rfl
  | case3 x y rest ih ih' =>
    intro n kept s at_x fresh enough
    rw [length_cons, length_cons] at enough
    obtain ⟨n, rfl⟩ : ∃ k, n = k + 1 := ⟨n - 1, by omega⟩
    obtain ⟨s₁, step, items₁, note₁, fresh₁⟩ := visits.turn at_x fresh
    rw [foreach_turn at_x, step, Option.bind_some]
    -- the walk goes on behind `y`, which has moved up, or at `y`
    cases removed : removes x with
    | true =>
      rw [removed, if_pos rfl] at items₁
      obtain ⟨s', run, items', note'⟩ := ih (n := n) (kept ++ [y]) (s := s₁) (by rw [items₁, append_assoc]; rfl)
        (visits.skips fresh₁) (by omega)
      rw [length_append, length_singleton] at run
      refine ⟨s', run, ?_, ?_⟩
      · rw [items', left, removed, if_pos rfl, append_assoc]
        rfl
      · rw [note', note₁, seen, removed, if_pos rfl, append_assoc, filter_cons]
        cases notes x <;> rfl
    | false =>
      rw [removed] at items₁
      obtain ⟨s', run, items', note'⟩ := ih' (n := n) (kept ++ [x]) (s := s₁) (by rw [items₁, append_assoc]; rfl)
        fresh₁ (by rw [length_cons]; omega)
      rw [length_append, length_singleton] at run
      refine ⟨s', run, ?_, ?_⟩
      · rw [items', left, removed, append_assoc]
        rfl
      · rw [note', note₁, seen, removed, append_assoc, filter_cons]
        cases notes x <;> rfl

end Run

section Lists

variable {A : Type} {removes : A → Bool} {l : List A}

theorem seen_sublist (l : List A) : (seen removes l).Sublist l := by
  induction l using seen.induct with
  | case1 => exact .slnil
  | case2 x => exact .refl _
  | case3 x y rest ih ih' =>
    rw [seen]
    cases removes x with
    | true => exact (ih.cons y).cons_cons x
    | false => exact ih'.cons_cons x

theorem left_sublist (l : List A) : (left removes l).Sublist l := by
  induction l using seen.induct with
  | case1 => exact .slnil
  | case2 x =>
    rw [left]
    split
    · exact nil_sublist _
    · exact .refl _
  | case3 x y rest ih ih' =>
    rw [left]
    cases removes x with
    | true => exact (ih.cons_cons y).cons x
    | false => exact ih'.cons_cons x

theorem isChain_behind {R : A → A → Prop} {y : A} {rest : List A} (free : ∀ z, R y z) :
    (y :: rest).IsChain R ↔ rest.IsChain R := by
  cases rest with
  | nil => simp
  | cons z rest => rw [isChain_cons_cons, and_iff_right (free z)]

theorem isChain_of_forall {R : A → A → Prop} (free : ∀ x ∈ l, ∀ y, R x y) : l.IsChain R := by
  induction l with
  | nil => exact .nil
  | cons x rest ih => exact (isChain_behind (free x mem_cons_self)).2 (ih fun y mem => free y (mem_cons_of_mem x mem))

/-- The items of interest, among them all that are removed, are read if and only if none of them
stands right behind one that is removed. -/
theorem mem_seen_iff {p : A → Prop} (once : l.Nodup) (concerns : ∀ x, removes x = true → p x) :
    (∀ y ∈ l, p y → y ∈ seen removes l) ↔ l.IsChain fun x y => removes x = true → ¬ p y := by
  induction l using seen.induct with
  | case1 => simp
  | case2 x => simp [seen]
  | case3 x y rest ih ih' =>
    obtain ⟨other, once'⟩ := nodup_cons.1 once
    rw [isChain_cons_cons, seen]
    cases removed : removes x with
    | true =>
      rw [if_pos rfl]
      have unread : y ∉ x :: seen removes rest := by
        intro mem
        rcases mem_cons.1 mem with rfl | mem
        · exact other mem_cons_self
        · exact (nodup_cons.1 once').1 ((seen_sublist rest).subset mem)
      constructor
      · intro all
        have spared : ¬ p y := fun due => unread (all y (by simp) due)
        have stays : ∀ z, removes y = true → ¬ p z := fun z removed => absurd (concerns y removed) spared
        refine ⟨fun _ => spared, (isChain_behind stays).2 ((ih (nodup_cons.1 once').2).1 fun z mem due => ?_)⟩
        rcases mem_cons.1 (all z (by simp [mem]) due) with rfl | found
        · exact absurd (mem_cons_of_mem y mem) other
        · exact found
      · rintro ⟨spared, chain⟩ z mem due
        rcases mem_cons.1 mem with rfl | mem
        · exact mem_cons_self
        rcases mem_cons.1 mem with rfl | mem
        · exact absurd due (spared rfl)
        · exact mem_cons_of_mem x ((ih (nodup_cons.1 once').2).2 chain.of_cons z mem due)
    | false =>
      rw [if_neg (by decide), and_iff_right (fun removed => absurd removed (by decide)), ← ih' once']
      constructor
      · intro all z mem due
        rcases mem_cons.1 (all z (mem_cons_of_mem x mem) due) with rfl | found
        · exact absurd mem other
        · exact found
      · intro all z mem due
        rcases mem_cons.1 mem with rfl | mem
        · exact mem_cons_self
        · exact mem_cons_of_mem x (all z mem due)

/-- Every item that is to be removed is removed if and only if no two of them are neighbours. -/
theorem left_eq_iff :
    left removes l = l.filter (fun x => !removes x) ↔ l.IsChain fun x y => ¬ (removes x = true ∧ removes y = true) := by
  induction l using seen.induct with
  | case1 => simp [left]
  | case2 x => cases removed : removes x <;> simp [left, removed]
  | case3 x y rest ih ih' =>
    rw [isChain_cons_cons, left, filter_cons]
    cases removed : removes x with
    | true =>
      rw [if_pos rfl, Bool.not_true, if_neg (by decide), filter_cons]
      cases next : removes y with
      | true =>
        rw [Bool.not_true, if_neg (by decide)]
        refine iff_of_false (fun same => ?_) fun both => both.1 ⟨rfl, rfl⟩
        have kept : y ∈ rest.filter fun x => !removes x := same ▸ mem_cons_self
        rw [mem_filter, next] at kept
        exact absurd kept.2 (by decide)
      | false =>
        rw [Bool.not_false, if_pos rfl, cons_inj_right, ih,
          isChain_behind (fun z both => absurd (next ▸ both.1) (by decide))]
        exact (and_iff_right fun both => absurd both.2 (by decide)).symm
    | false =>
      rw [if_neg (by decide), Bool.not_false, if_pos rfl, cons_inj_right, ih']
      exact (and_iff_right fun both => absurd both.1 (by decide)).symm

theorem left_of_none (none : ∀ x ∈ l, removes x = false) : left removes l = l := by
  have all : l.filter (fun x => !removes x) = l := filter_eq_self.2 fun x mem => by rw [none x mem]; rfl
  exact (left_eq_iff.2 (isChain_of_forall fun x mem y both => absurd (none x mem ▸ both.1) (by decide))).trans all

end Lists

end Hah.Lib.Foreach
