import Mathlib.Data.List.Nodup
import Mathlib.Logic.Function.Basic

/-!
# Linked nodes in a heap

A heap holds nodes at addresses; each node has data and the address of the next one. A
`Segment` is the path of nodes from one address to another, so a null-terminated list is a
segment that ends at the null address. Segments compose, a store elsewhere does not disturb
them, and a store to the link of the last node moves their end.
-/

namespace Hah.Lib
open Function

structure Link (A α : Type) where
  data : α
  next : A
  deriving DecidableEq, Repr

/-- What is allocated, and what it holds. -/
abbrev Heap (A α : Type) := A → Option (Link A α)

variable {A α : Type}

/-- The nodes from `p` up to `q`, with their addresses. -/
def Segment (heap : Heap A α) : A → List (A × α) → A → Prop
  | p, [], q => p = q
  | p, (a, data) :: nodes, q => p = a ∧ ∃ next, heap a = some ⟨data, next⟩ ∧ Segment heap next nodes q

def addresses (nodes : List (A × α)) : List A := nodes.map (·.1)

section Segment

variable {heap heap' : Heap A α} {p q : A} {nodes more : List (A × α)} {a : A} {data : α}

theorem segment_append : Segment heap p (nodes ++ more) q ↔ ∃ m, Segment heap p nodes m ∧ Segment heap m more q := by
  induction nodes generalizing p with
  | nil => exact ⟨fun h => ⟨p, rfl, h⟩, fun ⟨m, same, h⟩ => by cases same; exact h⟩
  | cons node nodes ih =>
    obtain ⟨a, data⟩ := node
    constructor
    · rintro ⟨here, next, holds, rest⟩
      obtain ⟨m, first, last⟩ := ih.1 rest
      exact ⟨m, ⟨here, next, holds, first⟩, last⟩
    · rintro ⟨m, ⟨here, next, holds, first⟩, last⟩
      exact ⟨here, next, holds, ih.2 ⟨m, first, last⟩⟩

/-- A segment depends on its own nodes only. -/
theorem Segment.frame (h : Segment heap p nodes q) (same : ∀ a ∈ addresses nodes, heap' a = heap a) :
    Segment heap' p nodes q := by
  induction nodes generalizing p with
  | nil => exact h
  | cons node nodes ih =>
    obtain ⟨a, data⟩ := node
    obtain ⟨here, next, holds, rest⟩ := h
    refine ⟨here, next, ?_, ih rest fun b mem => same b (List.mem_cons_of_mem _ mem)⟩
    rw [same a List.mem_cons_self, holds]

theorem Segment.allocated (h : Segment heap p nodes q) (mem : a ∈ addresses nodes) : (heap a).isSome = true := by
  induction nodes generalizing p with
  | nil => cases mem
  | cons node nodes ih =>
    obtain ⟨b, data⟩ := node
    obtain ⟨here, next, holds, rest⟩ := h
    rcases List.mem_cons.1 mem with rfl | later
    · rw [holds]
      rfl
    · exact ih rest later

theorem Segment.head (h : Segment heap p ((a, data) :: nodes) q) : p = a := h.1

section Stores

variable [DecidableEq A] {a : A} {data : α} {front rest : List (A × α)}

/-- A store elsewhere. -/
theorem Segment.update (h : Segment heap p nodes q) (outside : a ∉ addresses nodes)
    (link : Option (Link A α)) : Segment (Function.update heap a link) p nodes q := by
  apply h.frame
  intro b mem
  have other : b ≠ a := by
    rintro rfl
    exact outside mem
  exact update_of_ne other link heap

/-- A store to the link of the last node. -/
theorem Segment.relink (h : Segment heap p (nodes ++ [(a, data)]) q) (outside : a ∉ addresses nodes) (end_ : A) :
    Segment (Function.update heap a (some ⟨data, end_⟩)) p (nodes ++ [(a, data)]) end_ := by
  obtain ⟨m, first, here, next, holds, last⟩ := segment_append.1 h
  refine segment_append.2 ⟨m, first.update outside _, here, end_, ?_, rfl⟩
  exact update_self a _ heap

/-- A store to the data of a node. -/
theorem Segment.modify (h : Segment heap p (front ++ (a, data) :: rest) q)
    (outside : a ∉ addresses front) (outside' : a ∉ addresses rest) (data' : α) :
    ∃ next, heap a = some ⟨data, next⟩ ∧
      Segment (Function.update heap a (some ⟨data', next⟩)) p (front ++ (a, data') :: rest) q := by
  obtain ⟨m, first, here, next, holds, last⟩ := segment_append.1 h
  refine ⟨next, holds, segment_append.2 ⟨m, first.update outside _, here, next, ?_, last.update outside' _⟩⟩
  exact update_self a _ heap

/-- A node is taken out by a store to the link before it. -/
theorem Segment.unlink {b : A} {data' : α} (h : Segment heap p (front ++ (a, data) :: (b, data') :: rest) q)
    (outside : a ∉ addresses front) (outside' : a ∉ addresses rest) {next : A} (holds : heap b = some ⟨data', next⟩) :
    Segment (Function.update heap a (some ⟨data, next⟩)) p (front ++ (a, data) :: rest) q := by
  obtain ⟨m, first, here, link, -, here', next', holds', last⟩ := segment_append.1 h
  rw [holds, Option.some.injEq, Link.mk.injEq] at holds'
  refine segment_append.2 ⟨m, first.update outside _, here, next, update_self a _ heap, ?_⟩
  rw [holds'.2]
  exact last.update outside' _

end Stores

/-- The node behind some others. -/
theorem Segment.node {front rest : List (A × α)} (h : Segment heap p (front ++ (a, data) :: rest) q) :
    ∃ next, heap a = some ⟨data, next⟩ ∧ Segment heap next rest q := by
  obtain ⟨m, -, -, next, holds, last⟩ := segment_append.1 h
  exact ⟨next, holds, last⟩

end Segment

end Hah.Lib
