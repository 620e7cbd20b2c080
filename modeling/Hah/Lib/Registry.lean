import Mathlib.Data.List.Nodup
import Mathlib.Logic.Function.Iterate

/-!
# Lists of registrations

A list holds entries that owners have registered. An entry names its owner by a key, or
nobody. The account of an owner is the entries that carry its key; a list is in order if
every owner's account holds what is due to it and no entry carries the key of somebody
who is not an owner.
-/

namespace Hah.Lib
open List

section Erase

variable {E : Type}

/-- Removing the first hit as often as there are hits removes them all. -/
theorem eraseP_iterate {p : E → Bool} (n : Nat) (l : List E) (few : l.countP p ≤ n) :
    (List.eraseP p)^[n] l = l.filter fun x => !p x := by
  induction n generalizing l with
  | zero =>
    have none := countP_eq_zero.1 (Nat.le_zero.1 few)
    rw [Function.iterate_zero, id_eq, filter_eq_self.2 fun x hx => by simp [none x hx]]
  | succ n ih =>
    rw [Function.iterate_succ_apply]
    by_cases hit : ∃ x ∈ l, p x = true
    · obtain ⟨x, mem, holds⟩ := hit
      obtain ⟨y, front, back, before, here, rfl, erased⟩ := exists_of_eraseP mem holds
      rw [erased, ih]
      · simp [here]
      · rw [countP_append, countP_cons_of_pos here] at few
        rw [countP_append]
        omega
    · have none : ∀ x ∈ l, ¬ p x = true := fun x mem holds => hit ⟨x, mem, holds⟩
      rw [eraseP_of_forall_not none]
      apply ih
      rw [countP_eq_zero.2 none]
      exact Nat.zero_le n

end Erase

section Accounts

variable {O E K : Type} [DecidableEq K] (key : O → K) (owner : E → Option K)

def ownedBy (k : K) (l : List E) : List E := l.filter fun x => owner x == some k

/-- The list when the owner of a key is gone. -/
def without (k : K) (l : List E) : List E := l.filter fun x => !(owner x == some k)

/-- Every owner's account holds what is due to it, and every entry with a key has an owner. -/
structure Accounts (owners : List O) (due : O → List E) (l : List E) : Prop where
  paid : ∀ o ∈ owners, ownedBy owner (key o) l = due o
  live : ∀ x ∈ l, ∀ k, owner x = some k → ∃ o ∈ owners, key o = k

variable {key owner} {owners : List O} {due : O → List E} {l : List E}
  {k : K} {p : E → Bool} {more : O → List E} (os : List O)

theorem ownedBy_append (k : K) (l l' : List E) :
    ownedBy owner k (l ++ l') = ownedBy owner k l ++ ownedBy owner k l' := filter_append _ _

theorem ownedBy_self {l : List E} (all : ∀ x ∈ l, owner x = some k) : ownedBy owner k l = l :=
  filter_eq_self.2 fun x mem => by simp [all x mem]

theorem ownedBy_other {l : List E} (away : ∀ x ∈ l, owner x ≠ some k) : ownedBy owner k l = [] :=
  filter_eq_nil_iff.2 fun x mem => by simp [away x mem]

theorem ownedBy_filter (passes : ∀ x ∈ l, owner x = some k → p x = true) :
    ownedBy owner k (l.filter p) = ownedBy owner k l := by
  unfold ownedBy
  rw [filter_filter]
  apply filter_congr
  intro x mem
  by_cases own : owner x = some k
  · simp [own, passes x mem own]
  · simp [own]

section

variable (h : Accounts key owner owners due l)
include h

theorem Accounts.congr {due' : O → List E}
    (same : ∀ o ∈ owners, due o = due' o) : Accounts key owner owners due' l :=
  ⟨fun o mem => (h.paid o mem).trans (same o mem), h.live⟩

/-- A new owner brings what is due to it. -/
theorem Accounts.open {o : O} (fresh : ∀ o' ∈ owners, key o' ≠ key o)
    (own : ∀ x ∈ due o, owner x = some (key o)) : Accounts key owner (o :: owners) due (due o ++ l) := by
  constructor
  · intro o' mem
    rw [ownedBy_append]
    rcases mem_cons.1 mem with rfl | old
    · have nothing : ownedBy owner (key o') l = [] := by
        apply ownedBy_other
        intro x hx carries
        obtain ⟨o, hit, same⟩ := h.live x hx _ carries
        exact fresh o hit same
      rw [ownedBy_self own, nothing, append_nil]
    · have nothing : ownedBy owner (key o') (due o) = [] := by
        apply ownedBy_other
        intro x hx carries
        exact fresh o' old (Option.some.inj (carries.symm.trans (own x hx)))
      rw [nothing, nil_append, h.paid o' old]
  · intro x mem k carries
    rcases mem_append.1 mem with new | old
    · exact ⟨o, mem_cons_self, Option.some.inj ((own x new).symm.trans carries)⟩
    · obtain ⟨o', hit, same⟩ := h.live x old k carries
      exact ⟨o', mem_cons_of_mem _ hit, same⟩

/-- An entry of nobody changes no account. -/
theorem Accounts.anonymous {x : E} (nobody : owner x = none) :
    Accounts key owner owners due (x :: l) := by
  constructor
  · intro o mem
    rw [← h.paid o mem]
    unfold ownedBy
    rw [filter_cons_of_neg (by simp [nobody])]
  · intro y mem k carries
    rcases mem_cons.1 mem with rfl | old
    · rw [nobody] at carries
      cases carries
    · exact h.live y old k carries

/-- A filter that lets pass every entry of an owner changes no account. -/
theorem Accounts.filter
    (passes : ∀ x ∈ l, ∀ k, owner x = some k → p x = true) : Accounts key owner owners due (l.filter p) := by
  constructor
  · intro o mem
    rw [ownedBy_filter fun x hx => passes x hx _, h.paid o mem]
  · exact fun x mem => h.live x (mem_of_mem_filter mem)

/-- An owner leaves with its account. -/
theorem Accounts.close (k : K) :
    Accounts key owner (owners.filter fun o => !(key o == k)) due (without owner k l) := by
  constructor
  · intro o mem
    obtain ⟨old, other⟩ := mem_filter.1 mem
    have different : key o ≠ k := by simpa using other
    rw [← h.paid o old]
    apply ownedBy_filter
    intro x _ carries
    simp [carries, different]
  · intro x mem j carries
    obtain ⟨old, other⟩ := mem_filter.1 mem
    obtain ⟨o, hit, same⟩ := h.live x old j carries
    have different : j ≠ k := by
      rintro rfl
      simp [carries] at other
    exact ⟨o, mem_filter.2 ⟨hit, by simp [same, different]⟩, same⟩

end

/-- Every owner in turn gets `more`. -/
def creditAll (more : O → List E) (os : List O) (l : List E) : List E := os.foldl (fun l o => more o ++ l) l

theorem mem_creditAll {x : E} (l : List E) :
    x ∈ creditAll more os l ↔ (∃ o ∈ os, x ∈ more o) ∨ x ∈ l := by
  induction os generalizing l with
  | nil => simp [creditAll]
  | cons o os ih =>
    show x ∈ creditAll more os (more o ++ l) ↔ _
    rw [ih, mem_append, ← or_assoc, or_comm (a := ∃ o ∈ os, x ∈ more o)]
    simp

theorem countP_creditAll (l : List E)
    (none : ∀ o ∈ os, ∀ x ∈ more o, ¬ p x = true) : (creditAll more os l).countP p = l.countP p := by
  induction os generalizing l with
  | nil => rfl
  | cons o os ih =>
    show (creditAll more os (more o ++ l)).countP p = _
    rw [ih _ fun o' mem => none o' (mem_cons_of_mem _ mem), countP_append,
      countP_eq_zero.2 (none o mem_cons_self), Nat.zero_add]

theorem ownedBy_creditAll_other (l : List E) (away : ∀ o ∈ os, ∀ x ∈ more o, owner x ≠ some k) :
    ownedBy owner k (creditAll more os l) = ownedBy owner k l := by
  induction os generalizing l with
  | nil => rfl
  | cons o os ih =>
    show ownedBy owner k (creditAll more os (more o ++ l)) = _
    rw [ih _ fun o' mem => away o' (mem_cons_of_mem _ mem), ownedBy_append,
      ownedBy_other (away o mem_cons_self), nil_append]

/-- The account of an owner after the round: what it got in front of what it had. -/
theorem ownedBy_creditAll (l : List E) (distinct : (os.map key).Nodup)
    (own : ∀ o ∈ os, ∀ x ∈ more o, owner x = some (key o)) {o : O} (mem : o ∈ os) :
    ownedBy owner (key o) (creditAll more os l) = more o ++ ownedBy owner (key o) l := by
  induction os generalizing l with
  | nil => cases mem
  | cons first os ih =>
    rw [map_cons, nodup_cons] at distinct
    have ownRest : ∀ o ∈ os, ∀ x ∈ more o, owner x = some (key o) :=
      fun o hit => own o (mem_cons_of_mem _ hit)
    have ownFirst := own first mem_cons_self
    show ownedBy owner (key o) (creditAll more os (more first ++ l)) = _
    rcases mem_cons.1 mem with rfl | later
    · -- the other owners have other keys
      rw [ownedBy_creditAll_other, ownedBy_append, ownedBy_self ownFirst]
      intro o' hit x hx carries
      have same := Option.some.inj ((ownRest o' hit x hx).symm.trans carries)
      exact distinct.1 (same ▸ mem_map_of_mem hit)
    · rw [ih _ distinct.2 ownRest later, ownedBy_append, ownedBy_other, nil_append]
      intro x hx carries
      have same := Option.some.inj (carries.symm.trans (ownFirst x hx))
      exact distinct.1 (same ▸ mem_map_of_mem later)

theorem Accounts.creditAll (h : Accounts key owner owners due l)
    (distinct : (owners.map key).Nodup) (own : ∀ o ∈ owners, ∀ x ∈ more o, owner x = some (key o)) :
    Accounts key owner owners (fun o => more o ++ due o) (creditAll more owners l) := by
  constructor
  · intro o mem
    rw [ownedBy_creditAll owners l distinct own mem, h.paid o mem]
  · intro x mem k carries
    rcases (mem_creditAll owners l).1 mem with ⟨o, hit, new⟩ | old
    · exact ⟨o, hit, Option.some.inj ((own o hit x new).symm.trans carries)⟩
    · exact h.live x old k carries

end Accounts

end Hah.Lib
