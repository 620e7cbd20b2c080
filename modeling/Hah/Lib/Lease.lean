import Mathlib.Data.List.Induction

/-!
# Leases that run out

A table grants a key a term when the key renews, drops it when the key releases it,
and lets every term decay at a tick. What the table holds for a key depends on the last
renewal of that key alone, and on the ticks since (`run_iff`).
-/

namespace Hah.Lease
open List

inductive Signal (K A : Type) where
  | renew (key : K) (ask : A)
  | release (key : K)
  | tick
  | other
  deriving DecidableEq, Repr

section Table

variable {K A T : Type} [DecidableEq K] (grant : A → T) (decay : T → Option T)

/-- The terms held, by key. -/
abbrev Table (K T : Type) := K → Option T

def step (table : Table K T) : Signal K A → Table K T
  | .renew key ask => fun k => if k = key then some (grant ask) else table k
  | .release key => fun k => if k = key then none else table k
  | .tick => fun k => (table k).bind decay
  | .other => table

/-- The table after a history, from an empty one. -/
def run (history : List (Signal K A)) : Table K T := history.foldl (step grant decay) fun _ => none

/-- `n` ticks of a term. -/
def decayed : Nat → T → Option T
  | 0, t => some t
  | n + 1, t => (decayed n t).bind decay

/-- Neither a renewal nor a release of `key`. -/
def Signal.quiet (key : K) : Signal K A → Bool
  | .renew k _ => k != key
  | .release k => k != key
  | _ => true

def Signal.isTick : Signal K A → Bool
  | .tick => true
  | _ => false

def ticks (history : List (Signal K A)) : Nat := history.countP Signal.isTick

/-- `ask` is what `key` asked for in its last renewal, it has not released it, and there were
`n` ticks since. -/
def Since (history : List (Signal K A)) (key : K) (ask : A) (n : Nat) : Prop :=
  ∃ before after, history = before ++ .renew key ask :: after ∧
    (∀ s ∈ after, s.quiet key = true) ∧ ticks after = n

variable {history : List (Signal K A)} {key : K}

theorem run_snoc (history : List (Signal K A)) (s : Signal K A) :
    run grant decay (history ++ [s]) = step grant decay (run grant decay history) s := by
  simp [run]

/-- A history ends with the renewal in question, or goes on quietly after it. -/
theorem since_snoc {s : Signal K A} {ask : A} {n : Nat} :
    Since (history ++ [s]) key ask n ↔ (s = .renew key ask ∧ n = 0) ∨
      (s.quiet key = true ∧ ∃ m, Since history key ask m ∧ n = m + if s.isTick then 1 else 0) := by
  constructor
  · rintro ⟨before, after, split, quiet, rfl⟩
    rcases eq_nil_or_concat after with rfl | ⟨after, last, rfl⟩
    · obtain ⟨rfl, same⟩ := append_inj' split rfl
      exact .inl ⟨by simpa using same, rfl⟩
    · rw [concat_eq_append, ← cons_append, ← append_assoc] at split
      obtain ⟨rfl, same⟩ := append_inj' split rfl
      obtain rfl : s = last := by simpa using same
      refine .inr ⟨quiet s (by simp), ticks after, ⟨before, after, rfl, ?_, rfl⟩, ?_⟩
      · intro t ht
        exact quiet t (by simp [ht])
      · simp [ticks, countP_append, countP_singleton]
  · rintro (⟨rfl, rfl⟩ | ⟨calm, m, ⟨before, after, rfl, quiet, rfl⟩, rfl⟩)
    · exact ⟨history, [], rfl, by simp, rfl⟩
    · refine ⟨before, after ++ [s], by simp, ?_, ?_⟩
      · intro t ht
        rcases mem_append.1 ht with ht | ht
        · exact quiet t ht
        · rwa [mem_singleton.1 ht]
      · simp [ticks, countP_append, countP_singleton]

/-- A key that renewed and never released has a last renewal. -/
theorem exists_since (renewed : ∃ ask, .renew key ask ∈ history)
    (kept : .release key ∉ history) : ∃ ask n, Since history key ask n := by
  induction history using List.reverseRecOn with
  | nil =>
    obtain ⟨ask, mem⟩ := renewed
    cases mem
  | append_singleton history s ih =>
    rw [mem_append, mem_singleton, not_or] at kept
    simp only [since_snoc]
    by_cases quiet : s.quiet key = true
    · have earlier : ∃ ask, .renew key ask ∈ history := by
        obtain ⟨ask, mem⟩ := renewed
        rcases mem_append.1 mem with before | last
        · exact ⟨ask, before⟩
        · rw [← mem_singleton.1 last] at quiet
          simp [Signal.quiet] at quiet
      obtain ⟨ask, n, since⟩ := ih earlier kept.1
      exact ⟨ask, _, .inr ⟨quiet, n, since, rfl⟩⟩
    · cases s with
      | renew k ask =>
        have same : k = key := by simpa [Signal.quiet] using quiet
        exact ⟨ask, 0, .inl ⟨by rw [same], rfl⟩⟩
      | release k =>
        have same : k = key := by simpa [Signal.quiet] using quiet
        exact absurd (by rw [same]) kept.2
      | tick => exact absurd rfl quiet
      | other => exact absurd rfl quiet

/-- **A table remembers the last renewal**: it holds a term for a key iff that is what the ticks
since the last renewal left of it, and the key did not release it. -/
theorem run_iff {t : T} :
    run grant decay history key = some t ↔
      ∃ ask n, Since history key ask n ∧ decayed decay n (grant ask) = some t := by
  induction history using List.reverseRecOn generalizing t with
  | nil =>
    constructor
    · intro held
      simp [run] at held
    · rintro ⟨ask, n, ⟨before, after, split, -⟩, -⟩
      simp at split
  | append_singleton history s ih =>
    rw [run_snoc]
    simp only [since_snoc]
    cases s with
    | renew k ask =>
      by_cases same : key = k
      · subst same
        simp [step, Signal.quiet, decayed]
      · simp [step, Signal.quiet, Signal.isTick, same, Ne.symm same, ih]
    | release k =>
      by_cases same : key = k
      · subst same
        simp [step, Signal.quiet]
      · simp [step, Signal.quiet, Signal.isTick, same, Ne.symm same, ih]
    | tick =>
      simp only [step, Signal.quiet, Signal.isTick, Option.bind_eq_some_iff, ih]
      constructor
      · rintro ⟨u, ⟨ask, n, since, left⟩, gone⟩
        refine ⟨ask, n + 1, .inr ⟨trivial, n, since, rfl⟩, ?_⟩
        simpa [decayed, left] using gone
      · rintro ⟨ask, n, ⟨impossible, -⟩ | ⟨-, m, since, rfl⟩, left⟩
        · cases impossible
        · obtain ⟨u, before, gone⟩ := Option.bind_eq_some_iff.1 left
          exact ⟨u, ⟨ask, m, since, before⟩, gone⟩
    | other => simp [step, Signal.quiet, Signal.isTick, ih]

end Table

end Hah.Lease
