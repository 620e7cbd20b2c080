import Mathlib.Data.List.Nodup
import Mathlib.Data.List.Induction

/-!
# Records in order of first appearance

A list holds one record for every key that was called, in the order in which the keys
appeared first. A call whose key has a record changes that record; any other call appends
one. What a record holds depends on the calls with its key alone.
-/

namespace Hah.Lib
open List

section Keys

variable {K : Type} [DecidableEq K]

/-- A key that has appeared already adds nothing. -/
theorem eraseDups_known {l : List K} {k : K} (known : k ∈ l) : (l ++ [k]).eraseDups = l.eraseDups := by
  rw [eraseDups_append]
  simp [List.removeAll, known]

/-- A new key goes to the end. -/
theorem eraseDups_fresh {l : List K} {k : K} (fresh : k ∉ l) : (l ++ [k]).eraseDups = l.eraseDups ++ [k] := by
  rw [eraseDups_append]
  simp [List.removeAll, fresh, eraseDups_cons]

/-- Every key is kept once. -/
theorem nodup_eraseDups (l : List K) : l.eraseDups.Nodup := by
  induction l using List.reverseRecOn with
  | nil => exact nodup_nil
  | append_singleton l k ih =>
    by_cases known : k ∈ l
    · rwa [eraseDups_known known]
    · rw [eraseDups_fresh known]
      have apart : k ∉ l.eraseDups := fun mem => known (mem_eraseDups.1 mem)
      exact ih.append (nodup_singleton k) (disjoint_singleton.2 apart)

end Keys

section Records

variable {A B K : Type} [DecidableEq K] {key : A → K} {name : B → K} {holds : List A → B → Prop}
  {calls : List A} {l : List B}

/-- The list has a record for every key called, in order of first appearance, and every record
is what the calls with its key make of it. -/
structure Follows (key : A → K) (name : B → K) (holds : List A → B → Prop) (calls : List A) (l : List B) : Prop where
  names : l.map name = (calls.map key).eraseDups
  records : ∀ b ∈ l, holds (calls.filter fun a => key a = name b) b

/-- No two records have one name. -/
theorem Follows.nodup (h : Follows key name holds calls l) : (l.map name).Nodup := h.names ▸ nodup_eraseDups _

/-- The names are the keys that were called. -/
theorem Follows.called_iff (h : Follows key name holds calls l) {k : K} :
    (∃ b ∈ l, name b = k) ↔ ∃ a ∈ calls, key a = k := by
  have same : k ∈ l.map name ↔ k ∈ calls.map key := by
    rw [h.names, mem_eraseDups]
  rwa [mem_map, mem_map] at same

/-- The calls with one key, after another call. -/
theorem filter_snoc (a : A) (k : K) :
    (calls ++ [a]).filter (fun c => key c = k) =
      calls.filter (fun c => key c = k) ++ if key a = k then [a] else [] := by
  rw [filter_append]
  split_ifs with same <;> simp [same]

/-- A call whose key has a record. -/
theorem Follows.update (h : Follows key name holds calls l) {a : A} {i : Nat} (inside : i < l.length) {b : B}
    (found : name l[i] = key a) (renamed : name b = key a)
    (held : holds (calls.filter fun c => key c = key a) l[i] → holds ((calls.filter fun c => key c = key a) ++ [a]) b) :
    Follows key name holds (calls ++ [a]) (l.set i b) := by
  have known : key a ∈ calls.map key := by
    obtain ⟨c, mem, same⟩ := h.called_iff.1 ⟨l[i], getElem_mem inside, found⟩
    exact mem_map.2 ⟨c, mem, same⟩
  have mapped : i < (l.map name).length := by rwa [length_map]
  have here : (l.map name)[i] = key a := by rw [getElem_map, found]
  constructor
  · rw [map_set, map_append, map_singleton, eraseDups_known known, ← h.names, renamed, ← here,
      set_getElem_self]
  · intro d mem
    obtain ⟨j, bound, rfl⟩ := getElem_of_mem mem
    rw [length_set] at bound
    rw [filter_snoc]
    by_cases same : i = j
    · subst same
      rw [getElem_set_self, renamed, if_pos rfl]
      have before := h.records l[i] (getElem_mem inside)
      rw [found] at before
      exact held before
    · rw [getElem_set_ne same]
      have other : key a ≠ name l[j] := by
        intro equal
        have there : j < (l.map name).length := by rwa [length_map]
        have twice : (l.map name)[i] = (l.map name)[j] := by rw [here, equal, getElem_map]
        exact same ((List.Nodup.getElem_inj_iff h.nodup).1 twice)
      rw [if_neg other, append_nil]
      exact h.records _ (getElem_mem bound)

/-- A call with a new key. -/
theorem Follows.insert (h : Follows key name holds calls l) {a : A} {b : B} (fresh : ∀ d ∈ l, name d ≠ key a)
    (named : name b = key a) (held : holds [a] b) : Follows key name holds (calls ++ [a]) (l ++ [b]) := by
  have never : ∀ c ∈ calls, key c ≠ key a := by
    intro c mem same
    obtain ⟨d, here, equal⟩ := h.called_iff.2 ⟨c, mem, same⟩
    exact fresh d here equal
  constructor
  · rw [map_append, map_append, map_singleton, map_singleton, h.names, named]
    refine (eraseDups_fresh fun mem => ?_).symm
    obtain ⟨c, called, same⟩ := mem_map.1 mem
    exact never c called same
  · intro d mem
    rw [filter_snoc]
    rcases mem_append.1 mem with mem | mem
    · rw [if_neg (fresh d mem).symm, append_nil]
      exact h.records d mem
    · obtain rfl := mem_singleton.1 mem
      rw [named, if_pos rfl, filter_eq_nil_iff.2 fun c called => by simpa using never c called]
      exact held

end Records

end Hah.Lib
