import Mathlib.Data.List.Basic

/-!
# Fresh values

What an operating system hands out, addresses or descriptors: any value that is not in use,
also one that was used before. A supply answers the `n`-th request, so a supply stands for any
sequence of answers. One that may refuse is told what is in use by a test.
-/

namespace Hah.Lib

structure Supply (α : Type) where
  pick : Nat → List α → α
  fresh : ∀ n used, pick n used ∉ used

structure RefusingSupply (α : Type) where
  pick : Nat → (α → Bool) → Option α
  fresh : ∀ n used a, pick n used = some a → used a = false

theorem le_foldr_max {l : List Nat} {a : Nat} (mem : a ∈ l) : a ≤ l.foldr max 0 := by
  induction l with
  | nil => cases mem
  | cons b l ih =>
    rcases List.mem_cons.1 mem with rfl | later
    · exact Nat.le_max_left _ _
    · exact Nat.le_trans (ih later) (Nat.le_max_right _ _)

def Supply.rising : Supply Nat where
  pick := fun _ used => used.foldr max 0 + 1
  fresh := fun _ _ mem => Nat.not_succ_le_self _ (le_foldr_max mem)

end Hah.Lib
