import Hah.Lib.Foreach
import Hah.Lua.Endpoint

/-!
# The chain of a filter: `Filter:add` and `Filter:delete` in `xap/init.lua`

`add` appends a key with its value in lower case. `delete` walks the chain with `pairs`, which goes
through the array by index, and takes every key that equals its arguments out with `table.remove`.
It compares the value as it was given, and what follows a removed key is passed over. So a value
with upper case letters is never found, and of neighbouring equal keys every other one stays
(`delete_after_calls_iff`).
-/

namespace Hah.Lua
open C Lib.Foreach

def FilterKey.equals (fk : FilterKey) (sectionName : Bytes) (key : Option Bytes) (value : Bytes) : Bool :=
  fk.sectionName = sectionName && fk.key = key && fk.value = value

/-- The body of the loop in `Filter:delete`; `pairs` passes over a slot that is empty. -/
def deleteTurn (sectionName : Bytes) (key : Option Bytes) (value : Bytes) (k : Nat) : Option FilterKey → List FilterKey → Option (List FilterKey)
  | none, filterChain => some filterChain
  | some v, filterChain => some (if v.equals sectionName key value then filterChain.eraseIdx k else filterChain)

/-- `Filter:delete`; `pairs(nil)` of a destroyed filter is an error. -/
def FilterTable.delete (filter : FilterTable) (sectionName : Bytes) (key : Option Bytes) (value : Bytes) : Option FilterTable := do
  let filterChain ← filter.filterChain
  let filterChain ← foreach id (deleteTurn sectionName key value) filterChain.length 0 filterChain
  return { filter with filterChain := some filterChain }

inductive ChainCall where
  | add (sectionName : Bytes) (key : Option Bytes) (value : Bytes)
  | delete (sectionName : Bytes) (key : Option Bytes) (value : Bytes)
  deriving DecidableEq, Repr

def FilterTable.call (filter : FilterTable) : ChainCall → Option FilterTable
  | .add sectionName key value => some (filter.add sectionName key value)
  | .delete sectionName key value => filter.delete sectionName key value

def afterCalls (calls : List ChainCall) : Option FilterTable :=
  calls.foldlM FilterTable.call ⟨some [], none, none⟩

/-- The key that `add` would insert. -/
def inserted (sectionName : Bytes) (key : Option Bytes) (value : Bytes) : FilterKey := ⟨sectionName, key, lower value⟩

/-- What a delete is to do with the chain: no such key is left, and the others are where they were. -/
structure Deletes (fk : FilterKey) (before after : List FilterKey) : Prop where
  gone : fk ∉ after
  others : after.filter (· ≠ fk) = before.filter (· ≠ fk)

/-! ## One call -/

theorem equals_iff {fk : FilterKey} {sectionName : Bytes} {key : Option Bytes} {value : Bytes} :
    fk.equals sectionName key value = true ↔ fk = ⟨sectionName, key, value⟩ := by
  obtain ⟨s, k, v⟩ := fk
  simp [FilterKey.equals, and_assoc]

theorem deletes_iff {fk : FilterKey} {before after : List FilterKey} :
    Deletes fk before after ↔ after = before.filter (· ≠ fk) := by
  constructor
  · rintro ⟨gone, others⟩
    rw [← others, List.filter_eq_self.2]
    intro x mem
    exact decide_eq_true fun same => gone (same ▸ mem)
  · rintro rfl
    refine ⟨fun mem => ?_, by rw [List.filter_filter]; simp⟩
    simpa using (List.mem_filter.1 mem).2

/-- What one turn of `Filter:delete` does. -/
theorem deleteTurn_visits (sectionName : Bytes) (key : Option Bytes) (value : Bytes) :
    Visits id (deleteTurn sectionName key value) (FilterKey.equals · sectionName key value)
      (fun _ => []) (fun _ => false) (fun _ _ => True) where
  nil _ _ := rfl
  turn {kept rest x s} here _ := by
    refine ⟨_, rfl, ?_, rfl, trivial⟩
    rw [show s = kept ++ x :: rest from here]
    split
    · exact List.eraseIdx_append_of_length_le (Nat.le_refl _) _ |>.trans (by rw [Nat.sub_self]; rfl)
    · rfl
  skips _ := trivial

/-- **A delete** leaves what the walk leaves. -/
theorem FilterTable.delete_eq {filter : FilterTable} {chain : List FilterKey} (live : filter.filterChain = some chain)
    (sectionName : Bytes) (key : Option Bytes) (value : Bytes) :
    filter.delete sectionName key value =
      some { filter with filterChain := some (left (FilterKey.equals · sectionName key value) chain) } := by
  obtain ⟨chain', run, items, -⟩ := foreach_walk (deleteTurn_visits sectionName key value) (n := chain.length) []
    (s := chain) rfl trivial (Nat.le_refl _)
  rw [FilterTable.delete, live]
  dsimp only [Option.bind_eq_bind, Option.bind_some]
  rw [show foreach id (deleteTurn sectionName key value) chain.length 0 chain = some chain' from run]
  rw [show chain' = left _ chain from items]
  rfl

/-! ## Calls one after the other -/

def LowerValues (chain : List FilterKey) : Prop := ∀ fk ∈ chain, lower fk.value = fk.value

/-- No sequence of calls fails, and the values stay in lower case. -/
theorem afterCalls_live (calls : List ChainCall) :
    ∃ filter chain, afterCalls calls = some filter ∧ filter.filterChain = some chain ∧ LowerValues chain := by
  induction calls using List.reverseRecOn with
  | nil => exact ⟨_, [], rfl, rfl, fun fk mem => absurd mem List.not_mem_nil⟩
  | append_singleton calls call ih =>
    obtain ⟨filter, chain, run, live, lowered⟩ := ih
    have last : afterCalls (calls ++ [call]) = filter.call call := by
      unfold afterCalls at run ⊢
      rw [List.foldlM_append, run]
      exact bind_pure (m := Option) (filter.call call)
    rw [last]
    cases call with
    | add sectionName key value =>
      refine ⟨_, chain ++ [inserted sectionName key value], rfl, ?_, fun fk mem => ?_⟩
      · rw [FilterTable.add, live]
        rfl
      · rcases List.mem_append.1 mem with mem | mem
        · exact lowered fk mem
        · rw [List.mem_singleton.1 mem]
          simp [inserted, lower, tolower_tolower]
    | delete sectionName key value =>
      refine ⟨_, _, filter.delete_eq live sectionName key value, rfl, fun fk mem => ?_⟩
      exact lowered fk ((left_sublist chain).subset mem)

/-- On a chain in lower case: the value must be given in lower case, if there is something to be
deleted, and no two keys to be deleted may be neighbours. -/
theorem left_deletes_iff {chain : List FilterKey} (lowered : LowerValues chain) (sectionName : Bytes) (key : Option Bytes) (value : Bytes) :
    Deletes (inserted sectionName key value) chain (left (FilterKey.equals · sectionName key value) chain) ↔
      (inserted sectionName key value ∈ chain → lower value = value) ∧
        chain.IsChain fun x y => ¬ (x = inserted sectionName key value ∧ y = inserted sectionName key value) := by
  rw [deletes_iff]
  by_cases small : lower value = value
  · -- what is compared is what was inserted
    have same : ∀ fk : FilterKey, fk.equals sectionName key value = decide (fk = inserted sectionName key value) := by
      intro fk
      rw [Bool.eq_iff_iff, equals_iff, decide_eq_true_eq, inserted, small]
    rw [and_iff_right fun _ => small, show (FilterKey.equals · sectionName key value) = _ from funext same]
    have walk := @left_eq_iff _ (fun fk => decide (fk = inserted sectionName key value)) chain
    simpa only [decide_eq_true_eq, decide_not] using walk
  · -- nothing in the chain equals a value with upper case letters
    have never : ∀ fk ∈ chain, FilterKey.equals fk sectionName key value = false := by
      intro fk mem
      rw [Bool.eq_false_iff]
      intro equal
      have low := lowered fk mem
      rw [equals_iff.1 equal] at low
      exact small low
    rw [left_of_none never]
    constructor
    · intro same
      have absent : inserted sectionName key value ∉ chain := by
        rw [same]
        intro mem
        simpa using (List.mem_filter.1 mem).2
      exact ⟨fun mem => absurd mem absent, isChain_of_forall fun x mem y both => absent (both.1 ▸ mem)⟩
    · rintro ⟨absent, -⟩
      refine (List.filter_eq_self.2 fun fk mem => ?_).symm
      exact decide_eq_true fun equal => small (absent (equal ▸ mem))

/-- **A delete removes what an add would insert, unless it is misspelt or doubled.** After every
sequence of calls on a filter a delete completes; no key that an add with the same arguments would
insert is left, and the others are there in their order, if and only if the value was given in
lower case, or there was nothing to delete, and no two keys to be deleted were neighbours. -/
theorem delete_after_calls_iff (calls : List ChainCall) (sectionName : Bytes) (key : Option Bytes) (value : Bytes) :
    ∃ filter chain filter' chain', afterCalls calls = some filter ∧ filter.filterChain = some chain ∧
      filter.delete sectionName key value = some filter' ∧ filter'.filterChain = some chain' ∧
      (Deletes (inserted sectionName key value) chain chain' ↔
        (inserted sectionName key value ∈ chain → lower value = value) ∧
          chain.IsChain fun x y => ¬ (x = inserted sectionName key value ∧ y = inserted sectionName key value)) := by
  obtain ⟨filter, chain, run, live, lowered⟩ := afterCalls_live calls
  exact ⟨filter, chain, _, _, run, live, filter.delete_eq live sectionName key value, rfl,
    left_deletes_iff lowered sectionName key value⟩

/-- A class that is given as it was added stays in the chain, and so does one of two equal keys. -/
theorem delete_leaves_keys :
    (afterCalls [.add "xap-header" "class" "xAPBSC.cmd",
        .delete "xap-header" "class" "xAPBSC.cmd"]).bind FilterTable.filterChain =
      some [inserted "xap-header" "class" "xAPBSC.cmd"] ∧
    (afterCalls [.add "a" "b" "c", .add "a" "b" "c",
        .delete "a" "b" "c"]).bind FilterTable.filterChain =
      some [inserted "a" "b" "c"] := by
  decide +kernel

end Hah.Lua
