import Mathlib.Data.Int.Bitwise
import Hah.C.Numbers
import Hah.Bsc.Endpoint

/-!
# `xap-livebox/serial.c`

A line from the AVR is cut into words at spaces and commas, the first word names a handler
and the rest are its arguments. The handlers for the inputs and for the port expanders
work on the list of endpoints and send events for those they change.
-/

namespace Hah.Livebox
open C Bsc List

/-! ## Words -/

def separates (c : UInt8) : Bool := isspace c || c == 44

/-- The loop that fills `argv`; `some` is the word that has begun. -/
def tokenize : Option Bytes → Bytes → List Bytes
  | none, [] => []
  | some word, [] => [word]
  | word, c :: rest =>
    if separates c then word.getD [] :: tokenize none rest else tokenize (some (word.getD [] ++ [c])) rest

/-- The handlers of the table `cmd`. -/
inductive Handler where
  | input
  | oneWire
  | ppe
  | firmwareRev
  deriving DecidableEq, Repr

/-- The table `cmd`: name, handler and least number of arguments. -/
def cmdTable : List (Bytes × Handler × Nat) :=
  [("input", .input, 2), ("1wire", .oneWire, 2), ("i2c-ppe", .ppe, 3),
    ("rev", .firmwareRev, 1)]

/-- `processSerialCommand` up to the call: the handler and its arguments from `argv[1]` on. -/
def serialCommand (line : Bytes) : Option (Handler × List Bytes) :=
  let argv := tokenize none line
  if 8 < argv.length then none
  else
    match argv with
    | [] => none
    | name :: args =>
      match cmdTable.find? fun entry => entry.1 == name with
      | none => none
      | some (_, handler, least) => if args.length < least then none else some (handler, args)

/-! ## Handlers -/

section Handlers

variable {D : Type}

/-- The endpoints and the events sent so far, each as the endpoint was when it was sent. -/
structure Endpoints (D : Type) where
  list : List (Endpoint D)
  events : List (Endpoint D)
  deriving DecidableEq, Repr

/-- `bscSetState` and `bscSendEvent` on the endpoint that a search finds first. -/
def Endpoints.setState (s : Endpoints D) (found : Endpoint D → Bool) (code : StateCode) : Endpoints D :=
  { list := modifyFirst found (bscSetState · code) s.list
    events := s.events ++ ((s.list.find? found).map (bscSetState · code)).toList }

/-- What the handlers make of a bit of the new value. -/
def bitCode (new : Int) (bit : Nat) : StateCode := if new.testBit bit then .on else .off

/-- The loop body of the handlers for lines with two values: when bit `i + shift` differs, that is
`(old ^ new) & (1 << (i + shift))`, the endpoint of `i` is set from the new value. -/
def setBit (found : Nat → Endpoint D → Bool) (shift : Nat) (old new : Int) (s : Endpoints D) (i : Nat) :
    Endpoints D :=
  if old.testBit (i + shift) ≠ new.testBit (i + shift) then s.setState (found i) (bitCode new (i + shift)) else s

/-- `buff` of `serin_input`: the digits `1` to `4`. -/
def inputSubaddr (i : Nat) : Bytes := [49 + i.toUInt8]

def isInput (i : Nat) (e : Endpoint D) : Bool := e.isNamed "input" (some (inputSubaddr i))

def serinInput (s : Endpoints D) (args : List Bytes) : Endpoints D :=
  let old := atoi (args.getD 0 [])
  let new := atoi (args.getD 1 [])
  (List.range 4).foldl (setBit isInput 2 old new) s

end Handlers

/-! ## Cutting printed lines -/

variable {w : Bytes}

section

variable (plain : ∀ c ∈ w, separates c = false)
include plain

theorem tokenize_word {sep : UInt8}
    (ends : separates sep = true) (word : Option Bytes) (rest : Bytes) :
    tokenize word (w ++ sep :: rest) = (word.getD [] ++ w) :: tokenize none rest := by
  induction w generalizing word with
  | nil => cases word <;> simp [tokenize, ends]
  | cons c w ih =>
    have here := plain c (by simp)
    have later := ih (fun d hd => plain d (by simp [hd])) (some (word.getD [] ++ [c]))
    rw [cons_append, tokenize.eq_def]
    cases word <;> simpa [here] using later

theorem tokenize_last (word : Bytes) :
    tokenize (some word) w = [word ++ w] := by
  induction w generalizing word with
  | nil => simp [tokenize]
  | cons c w ih =>
    have here := plain c (by simp)
    have later := ih (fun d hd => plain d (by simp [hd])) (word ++ [c])
    simpa [tokenize, here] using later

theorem tokenize_single (nonempty : w ≠ []) : tokenize none w = [w] := by
  obtain ⟨c, w, rfl⟩ := exists_cons_of_ne_nil nonempty
  have here := plain c (by simp)
  have rest := tokenize_last (w := w) (fun d hd => plain d (mem_cons_of_mem c hd)) [c]
  simpa [tokenize, here] using rest

end

/-- A printed number is one word. -/
theorem decimal_plain (n : Nat) : ∀ c ∈ decimal n, separates c = false := by
  intro c mem
  have isDigit := isdigit_decimal c mem
  have notSpace := (digit_plain isDigit).1
  have notComma : c ≠ 44 := by
    rintro rfl
    exact absurd isDigit (by decide)
  simp [separates, notSpace, notComma]

/-- A line of a word and printed numbers, one space before each, is cut at the spaces. -/
theorem tokenize_printed (plain : ∀ c ∈ w, separates c = false) (nonempty : w ≠ []) (numbers : List Nat) :
    tokenize none (w ++ numbers.flatMap fun n => 32 :: decimal n) = w :: numbers.map decimal := by
  have space : separates 32 = true := by decide
  induction numbers generalizing w with
  | nil =>
    rw [flatMap_nil, append_nil]
    exact tokenize_single plain nonempty
  | cons n numbers ih =>
    rw [flatMap_cons, cons_append, tokenize_word plain space, ih (decimal_plain n) (decimal_ne_nil n)]
    rfl

/-- A printed byte is read back. -/
theorem byte_atoi (b : UInt8) : atoi (decimal b.toNat) = b.toNat :=
  atoi_decimal (Nat.lt_trans b.toNat_lt (by decide))

theorem testBit_natCast (n k : Nat) : (n : Int).testBit k = n.testBit k := rfl

/-! ## What a handler does to one endpoint -/

section Bits

variable {D : Type} {found : Nat → Endpoint D → Bool} {n : Nat}

/-- An event was sent for endpoint `i`. -/
def Endpoints.Reported (s : Endpoints D) (found : Endpoint D → Bool) : Prop := ∃ e ∈ s.events, found e = true

def Endpoints.find (s : Endpoints D) (found : Endpoint D → Bool) : Option (Endpoint D) := s.list.find? found

/-- A search that does not look at the state. -/
def StateBlind (found : Nat → Endpoint D → Bool) : Prop :=
  ∀ i e code, found i (bscSetState e code) = found i e

/-- The searches below `n` find different endpoints. -/
def Apart (found : Nat → Endpoint D → Bool) (n : Nat) : Prop :=
  ∀ i < n, ∀ j < n, i ≠ j → ∀ e, found i e = true → found j e = false

variable {i j : Nat}

section

variable (blind : StateBlind found)
include blind

theorem setState_find (s : Endpoints D) (i : Nat) (code : StateCode) :
    (s.setState (found i) code).find (found i) = (s.find (found i)).map (bscSetState · code) :=
  find_modifyFirst (fun e => blind i e code) s.list

theorem setState_find_other (apart : Apart found n) (hi : i < n)
    (hj : j < n) (different : i ≠ j) (s : Endpoints D) (code : StateCode) :
    (s.setState (found i) code).find (found j) = s.find (found j) :=
  find_modifyFirst_other (fun e => blind j e code) (apart i hi j hj different) s.list

theorem setState_reported (s : Endpoints D) (i : Nat) (code : StateCode) :
    (s.setState (found i) code).Reported (found i) ↔
      s.Reported (found i) ∨ (s.find (found i)).isSome = true := by
  constructor
  · rintro ⟨e, mem, named⟩
    rcases mem_append.1 mem with old | new
    · exact .inl ⟨e, old, named⟩
    · refine .inr ?_
      rw [Option.mem_toList] at new
      obtain ⟨e', isFound, -⟩ := Option.map_eq_some_iff.1 new
      exact Option.isSome_iff_exists.2 ⟨e', isFound⟩
  · rintro (⟨e, mem, named⟩ | present)
    · exact ⟨e, mem_append_left _ mem, named⟩
    · obtain ⟨e, isFound⟩ := Option.isSome_iff_exists.1 present
      have named := find?_some isFound
      refine ⟨bscSetState e code, mem_append_right _ ?_, ?_⟩
      · rw [Option.mem_toList]
        exact Option.map_eq_some_iff.2 ⟨e, isFound, rfl⟩
      · rw [blind]
        exact named

theorem setState_reported_other (apart : Apart found n) (hi : i < n)
    (hj : j < n) (different : i ≠ j) (s : Endpoints D) (code : StateCode) :
    (s.setState (found i) code).Reported (found j) ↔ s.Reported (found j) := by
  constructor
  · rintro ⟨e, mem, named⟩
    rcases mem_append.1 mem with old | new
    · exact ⟨e, old, named⟩
    · rw [Option.mem_toList] at new
      obtain ⟨e', isFound, rfl⟩ := Option.map_eq_some_iff.1 new
      rw [blind, apart i hi j hj different e' (find?_some isFound)] at named
      exact absurd named Bool.false_ne_true
  · rintro ⟨e, mem, named⟩
    exact ⟨e, mem_append_left _ mem, named⟩

end

theorem setBit_changed {shift : Nat} {old new : Int} (differs : old.testBit (i + shift) ≠ new.testBit (i + shift))
    (s : Endpoints D) : setBit found shift old new s i = s.setState (found i) (bitCode new (i + shift)) :=
  if_pos differs

theorem setBit_same {shift : Nat} {old new : Int} (same : old.testBit (i + shift) = new.testBit (i + shift))
    (s : Endpoints D) : setBit found shift old new s i = s :=
  if_neg (not_not.2 same)

theorem setBits_other (blind : StateBlind found) (apart : Apart found n) (shift : Nat) (old new : Int) (hj : j < n)
    (is : List Nat) (small : ∀ i ∈ is, i < n) (others : j ∉ is) (s : Endpoints D) :
    (is.foldl (setBit found shift old new) s).find (found j) = s.find (found j) ∧
      ((is.foldl (setBit found shift old new) s).Reported (found j) ↔ s.Reported (found j)) := by
  induction is generalizing s with
  | nil => exact ⟨rfl, Iff.rfl⟩
  | cons i is ih =>
    have hi := small i mem_cons_self
    have different : i ≠ j := fun same => others (same ▸ mem_cons_self)
    obtain ⟨rest, restReported⟩ := ih (fun k hk => small k (mem_cons_of_mem i hk))
      (fun mem => others (mem_cons_of_mem i mem)) (setBit found shift old new s i)
    rw [foldl_cons, rest, restReported]
    by_cases same : old.testBit (i + shift) = new.testBit (i + shift)
    · rw [setBit_same same]
      exact ⟨rfl, Iff.rfl⟩
    · rw [setBit_changed same]
      exact ⟨setState_find_other blind apart hi hj different s _,
        setState_reported_other blind apart hi hj different s _⟩

/-- **What a line does to an endpoint**: nothing when its bit is the same in both values; else its
state is set from the new value and an event is sent. -/
theorem setBits_spec (blind : StateBlind found) (apart : Apart found n) (shift : Nat) (old new : Int)
    (s : Endpoints D) (hi : i < n) :
    ((List.range n).foldl (setBit found shift old new) s).find (found i) =
        (if old.testBit (i + shift) = new.testBit (i + shift) then s.find (found i)
          else (s.find (found i)).map (bscSetState · (bitCode new (i + shift)))) ∧
      (((List.range n).foldl (setBit found shift old new) s).Reported (found i) ↔ s.Reported (found i) ∨
        (old.testBit (i + shift) ≠ new.testBit (i + shift) ∧ (s.find (found i)).isSome = true)) := by
  obtain ⟨before, after, turns⟩ := append_of_mem (mem_range.2 hi)
  have small : ∀ k ∈ before ++ i :: after, k < n := fun k hk => mem_range.1 (turns ▸ hk)
  have distinct : (before ++ i :: after).Nodup := turns ▸ nodup_range
  obtain ⟨-, restDistinct, disjoint⟩ := nodup_append.1 distinct
  have notAfter := (nodup_cons.1 restDistinct).1
  have notBefore : i ∉ before := fun mem => disjoint i mem i mem_cons_self rfl
  have smallBefore : ∀ k ∈ before, k < n := fun k hk => small k (mem_append_left _ hk)
  have smallAfter : ∀ k ∈ after, k < n := fun k hk =>
    small k (mem_append_right _ (mem_cons_of_mem i hk))
  obtain ⟨early, earlyReported⟩ := setBits_other blind apart shift old new hi before smallBefore notBefore s
  obtain ⟨late, lateReported⟩ := setBits_other blind apart shift old new hi after smallAfter notAfter
    (setBit found shift old new (before.foldl (setBit found shift old new) s) i)
  rw [turns, foldl_append, foldl_cons, late, lateReported]
  by_cases same : old.testBit (i + shift) = new.testBit (i + shift)
  · rw [setBit_same same, if_pos same, early, earlyReported]
    exact ⟨rfl, by simp [same]⟩
  · rw [setBit_changed same, if_neg same, setState_find blind, setState_reported blind, early, earlyReported]
    exact ⟨rfl, by simp [same]⟩

end Bits

end Hah.Livebox
