import Mathlib.Data.List.Induction
import Mathlib.Data.List.Nodup
import Hah.CurrentCost.House

/-!
# The total of the channels

A message is worked off reading by reading. What a reading does to the list of endpoints is
said through `House.view`: the pointers, texts and types of the endpoints of one name. A
reading for one name leaves the views of all others (`Touches`).

`Books` ties the views of `ch.1`, `ch.2`, `ch.3` and `ch.total` to the latest values of the
channels: each channel that was seen has one endpoint, which shows its latest value, and
`ch.total` is the endpoint that `ccTotal` points to, or none. Every reading keeps the books
(`Books.reading`), so they are kept along every sequence of messages.
-/

namespace Hah.CurrentCost
open C Bsc List

/-! ## Endpoints by name -/

/-- What is kept of an endpoint in a view. -/
structure Shown where
  pointer : Nat
  text : Option Bytes
  type : UInt8
  deriving DecidableEq, Repr

def Entry.shown (e : Entry) : Shown := ⟨e.pointer, e.reporter.endpoint.text, e.reporter.endpoint.device.type⟩

/-- The endpoints of a name, in list order. -/
def House.view (h : House) (name : Bytes) (subaddr : Option Bytes) : List Shown :=
  (h.endpointList.filter fun e => e.isNamed name subaddr).map Entry.shown

def SameName (r r' : Reporter UserData) : Prop :=
  r'.endpoint.name = r.endpoint.name ∧ r'.endpoint.subaddr = r.endpoint.subaddr

variable {e : Entry}

theorem SameName.isNamed {r r' : Reporter UserData} (same : SameName r r') (name : Bytes)
    (subaddr : Option Bytes) : r'.endpoint.isNamed name subaddr = r.endpoint.isNamed name subaddr := by
  simp only [Endpoint.isNamed, same.1, same.2]

/-- Pointers are distinct, and below the next one to be handed out. -/
structure Sound (h : House) : Prop where
  distinct : (h.endpointList.map Entry.pointer).Nodup
  below : ∀ e ∈ h.endpointList, e.pointer < h.endpointList.length

/-- A pointer belongs to one entry. -/
theorem Sound.same {h : House} (sound : Sound h) {e' : Entry} (mem : e ∈ h.endpointList)
    (mem' : e' ∈ h.endpointList) (pointer : e.pointer = e'.pointer) : e = e' :=
  inj_on_of_nodup_map sound.distinct mem mem' pointer

theorem Sound.sameName {h : House} (sound : Sound h) {r : Reporter UserData} (mem : e ∈ h.endpointList)
    (same : SameName e.reporter r) : ∀ e' ∈ h.endpointList, e'.pointer = e.pointer → SameName e'.reporter r := by
  intro e' mem' pointer
  rw [sound.same mem' mem pointer]
  exact same

/-- A search by pointer finds the entry. -/
theorem Sound.find {h : House} (sound : Sound h) {k : Nat} (mem : e ∈ h.endpointList)
    (pointer : e.pointer = k) : h.endpointList.find? (fun e => e.pointer = k) = some e := by
  cases search : h.endpointList.find? (fun e => e.pointer = k) with
  | none => exact absurd pointer (by simpa using find?_eq_none.1 search e mem)
  | some e' =>
    have there := mem_of_find?_eq_some search
    have pointer' : e'.pointer = k := by simpa using find?_some search
    rw [sound.same there mem (pointer'.trans pointer.symm)]

/-- An entry at the head of the list. -/
theorem Sound.cons {h : House} (sound : Sound h) (fresh : e.pointer = h.endpointList.length)
    (ccTotal : Option Nat) : Sound { h with endpointList := e :: h.endpointList, ccTotal := ccTotal } := by
  have other : ∀ e' ∈ h.endpointList, e'.pointer ≠ e.pointer := fun e' mem => by
    have := sound.below e' mem
    omega
  refine ⟨?_, forall_mem_cons.2 ⟨?_, fun e' mem => ?_⟩⟩
  · rw [map_cons, nodup_cons]
    refine ⟨fun mem => ?_, sound.distinct⟩
    obtain ⟨e', mem', same⟩ := mem_map.1 mem
    exact other e' mem' same
  · rw [fresh, length_cons]
    exact Nat.lt_succ_self _
  · rw [length_cons]
    exact Nat.lt_succ_of_lt (sound.below e' mem)

theorem view_cons (h : House) (e : Entry) (ccTotal : Option Nat) (name : Bytes) (subaddr : Option Bytes) :
    House.view { h with endpointList := e :: h.endpointList, ccTotal := ccTotal } name subaddr =
      if e.isNamed name subaddr then e.shown :: h.view name subaddr else h.view name subaddr := by
  simp only [House.view, filter_cons]
  split <;> rfl

section Store

variable {h : House} {pointer : Nat} {r : Reporter UserData} (message : Option Message)

theorem store_sound (sound : Sound h) : Sound (h.store pointer r message) := by
  have pointers : (h.store pointer r message).endpointList.map Entry.pointer = h.endpointList.map Entry.pointer := by
    simp only [House.store, map_map]
    refine map_congr_left fun e _ => ?_
    simp only [Function.comp_apply]
    split <;> rfl
  have length : (h.store pointer r message).endpointList.length = h.endpointList.length := length_map _
  refine ⟨pointers ▸ sound.distinct, fun e mem => ?_⟩
  have inside : e.pointer ∈ h.endpointList.map Entry.pointer := pointers ▸ mem_map_of_mem mem
  obtain ⟨e', mem', same⟩ := mem_map.1 inside
  rw [length, ← same]
  exact sound.below e' mem'

section

variable (named : ∀ e ∈ h.endpointList, e.pointer = pointer → SameName e.reporter r)
include named

/-- Storing an endpoint under its own name changes what its pointer shows, in the view of that name. -/
theorem store_view (name : Bytes)
    (subaddr : Option Bytes) :
    (h.store pointer r message).view name subaddr =
      (h.view name subaddr).map fun v =>
        if v.pointer = pointer then ⟨pointer, r.endpoint.text, r.endpoint.device.type⟩ else v := by
  have test : ∀ e ∈ h.endpointList,
      ((fun e : Entry => e.isNamed name subaddr) ∘ fun e : Entry =>
        if e.pointer = pointer then { e with reporter := r } else e) e = e.isNamed name subaddr := by
    intro e mem
    simp only [Function.comp_apply]
    split
    next here => exact (named e mem here).isNamed name subaddr
    next => rfl
  simp only [House.view, House.store, filter_map, map_map]
  rw [filter_congr test]
  refine map_congr_left fun e _ => ?_
  by_cases here : e.pointer = pointer
  · simp [Entry.shown, here]
  · simp [Entry.shown, here]

theorem store_names {e : Entry}
    (mem : e ∈ (h.store pointer r message).endpointList) : ∃ e' ∈ h.endpointList, SameName e'.reporter e.reporter := by
  obtain ⟨e', mem', rfl⟩ := mem_map.1 mem
  refine ⟨e', mem', ?_⟩
  split
  next here => exact named e' mem' here
  next => exact ⟨rfl, rfl⟩

end

end Store

/-! ## A value for an endpoint -/

theorem callback_endpoint (s : Settings) (callback : Callback) (clazz : Clazz) (r : Reporter UserData) :
    (callback.run s clazz r).1.endpoint = r.endpoint := by
  cases callback with
  | channel => simp only [Callback.run, infoEventChannel]; split <;> rfl
  | temp => simp only [Callback.run, infoEventTemp]; split <;> rfl
  | sensor =>
    simp only [Callback.run, sensorInfoEvent]
    split
    · split <;> rfl
    · rfl
  | always => rfl

/-- An event leaves the endpoint it is about. -/
theorem sendEvent_endpoint (s : Settings) (callback : Callback) (now : Nat) (r : Reporter UserData) :
    (bscSendEvent (callback.run s) now r).1.endpoint = r.endpoint := by
  have kept := callback_endpoint s callback .event r
  unfold bscSendEvent bscSendInfoEvent
  split
  next r' same =>
    rw [same] at kept
    rw [(bscInfoEvent_spec now .event r').1]
    exact kept
  next r' same =>
    rw [same] at kept
    exact kept

/-- The endpoint behind a value. -/
theorem updateEndpointValue_endpoint (s : Settings) (callback : Callback) (now : Nat) (value : Bytes)
    (r : Reporter UserData) : let e := (updateEndpointValue (callback.run s) now value r).1.endpoint
    (r.endpoint.device.type = 73 ∧
        (e = { r.endpoint with device := { r.endpoint.device with currentValue := some value } } ∨
          (∃ current, e = (takeImpulse r current value).endpoint) ∨ e = r.endpoint)) ∨
      (r.endpoint.device.type ≠ 73 ∧
        (e = (takeValue r value).endpoint ∨ (r.endpoint.text = some value ∧ e = r.endpoint))) := by
  intro e
  simp only [e, updateEndpointValue]
  by_cases impulse : r.endpoint.device.type = 73
  · refine .inl ⟨impulse, ?_⟩
    rw [if_pos impulse]
    cases r.endpoint.device.currentValue with
    | none => exact .inl rfl
    | some current =>
      right
      dsimp only
      split
      · exact .inl ⟨current, sendEvent_endpoint s callback now _⟩
      · exact .inr rfl
  · refine .inr ⟨impulse, ?_⟩
    rw [if_neg impulse]
    by_cases text : r.endpoint.text = some value
    · rw [if_neg (not_not.2 text)]
      exact .inr ⟨text, rfl⟩
    · rw [if_pos text]
      exact .inl (sendEvent_endpoint s callback now _)

/-- A value keeps name and type of the endpoint, and is the text unless the endpoint counts impulses. -/
theorem updateEndpointValue_spec (s : Settings) (callback : Callback) (now : Nat) (value : Bytes)
    (r : Reporter UserData) : let r' := (updateEndpointValue (callback.run s) now value r).1
    SameName r r' ∧ r'.endpoint.device.type = r.endpoint.device.type ∧
      (r.endpoint.device.type ≠ 73 → r'.endpoint.text = some value) := by
  intro r'
  have taken := takeValue_spec r value
  have takenName : (takeValue r value).endpoint.name = r.endpoint.name ∧
      (takeValue r value).endpoint.subaddr = r.endpoint.subaddr := by
    rw [takeValue, bscSetState_eq]
    exact ⟨rfl, rfl⟩
  rcases updateEndpointValue_endpoint s callback now value r with ⟨impulse, outcome⟩ | ⟨-, outcome⟩
  · have kept : r'.endpoint.name = r.endpoint.name ∧ r'.endpoint.subaddr = r.endpoint.subaddr ∧
        r'.endpoint.device.type = r.endpoint.device.type := by
      rcases outcome with same | ⟨current, same⟩ | same
      all_goals exact ⟨congrArg (·.name) same, congrArg (·.subaddr) same, congrArg (·.device.type) same⟩
    exact ⟨⟨kept.1, kept.2.1⟩, kept.2.2, fun other => absurd impulse other⟩
  · rcases outcome with same | ⟨text, same⟩
    · unfold SameName
      rw [same]
      exact ⟨takenName, taken.2.2, fun _ => taken.1⟩
    · unfold SameName
      rw [same]
      exact ⟨⟨rfl, rfl⟩, rfl, fun _ => text⟩

/-! ## What a reading touches -/

/-- Only endpoints of one name have changed. -/
structure Touches (name : Bytes) (subaddr : Option Bytes) (h h' : House) : Prop where
  sound : Sound h'
  others : ∀ n s, (n, s) ≠ (name, subaddr) → h'.view n s = h.view n s
  names : ∀ e ∈ h'.endpointList, e.isNamed name subaddr = true ∨
    ∃ e' ∈ h.endpointList, SameName e'.reporter e.reporter

theorem isNamed_other {name n : Bytes} {subaddr s : Option Bytes}
    (named : e.isNamed name subaddr = true) (other : (n, s) ≠ (name, subaddr)) : e.isNamed n s = false := by
  rw [Bool.eq_false_iff]
  intro both
  obtain ⟨sameName, sameSub⟩ := isNamed_iff.1 named
  obtain ⟨otherName, otherSub⟩ := isNamed_iff.1 both
  exact other (by rw [← sameName, ← sameSub, ← otherName, ← otherSub])

section Touched

variable {h : House} {name : Bytes} {subaddr : Option Bytes}

theorem Touches.refl (sound : Sound h) : Touches name subaddr h h :=
  ⟨sound, fun _ _ _ => rfl, fun e mem => .inr ⟨e, mem, rfl, rfl⟩⟩

theorem Touches.cons (sound : Sound h) (fresh : e.pointer = h.endpointList.length)
    (named : e.isNamed name subaddr = true) (ccTotal : Option Nat) :
    Touches name subaddr h { h with endpointList := e :: h.endpointList, ccTotal := ccTotal } := by
  refine ⟨sound.cons fresh ccTotal, fun n s other => ?_, ?_⟩
  · exact (view_cons h e ccTotal n s).trans (if_neg (by rw [isNamed_other named other]; decide))
  · exact forall_mem_cons.2 ⟨.inl named, fun e mem => .inr ⟨e, mem, rfl, rfl⟩⟩

end Touched

theorem newEntry_named (s : Settings) (pointer : Nat) (id : UInt8) (name : Bytes)
    (subaddr : Option Bytes) (type : EndpointType) (callback : Callback) (sensorType : UInt8) :
    (newEntry s pointer id name subaddr type callback sensorType).isNamed name subaddr = true :=
  isNamed_iff.2 ⟨rfl, rfl⟩

section Obtain

variable (s : Settings) (id : UInt8) (name : Bytes) (subaddr : Option Bytes) (type : EndpointType)
  (callback : Callback) (sensorType : UInt8)

/-- The endpoint is there already, or becomes the only one of its name. -/
theorem obtain_cases (h : House) : let result := h.obtain s id name subaddr type callback sensorType
    (result.1 = h ∧ result.2 ∈ h.endpointList ∧ result.2.isNamed name subaddr = true) ∨
      (h.view name subaddr = [] ∧
        result.2 = newEntry s h.endpointList.length id name subaddr type callback sensorType ∧
        result.1 = { h with endpointList := result.2 :: h.endpointList }) := by
  intro result
  simp only [result, House.obtain]
  cases found : h.endpointList.find? fun e => e.isNamed name subaddr with
  | some e =>
    have named := find?_some (p := fun e : Entry => e.isNamed name subaddr) found
    exact .inl ⟨rfl, mem_of_find?_eq_some found, named⟩
  | none =>
    refine .inr ⟨?_, rfl, rfl⟩
    rw [House.view, filter_eq_nil_iff.2 (find?_eq_none.1 found)]
    rfl

theorem obtain_touches {h : House} (sound : Sound h) : let result := h.obtain s id name subaddr type callback sensorType
    Touches name subaddr h result.1 ∧ result.2 ∈ result.1.endpointList ∧ result.2.isNamed name subaddr = true := by
  intro result
  rcases obtain_cases s id name subaddr type callback sensorType h with ⟨same, mem, named⟩ | ⟨-, entry, list⟩
  · rw [show result.1 = h from same]
    exact ⟨.refl sound, mem, named⟩
  · have named : result.2.isNamed name subaddr = true := by
      rw [show result.2 = _ from entry]
      exact newEntry_named ..
    have fresh : result.2.pointer = h.endpointList.length := by
      rw [show result.2 = _ from entry]
      rfl
    rw [show result.1 = _ from list]
    exact ⟨.cons sound fresh named h.ccTotal, mem_cons_self, named⟩

theorem obtain_ccTotal (h : House) : (h.obtain s id name subaddr type callback sensorType).1.ccTotal = h.ccTotal := by
  rcases obtain_cases s id name subaddr type callback sensorType h with ⟨same, -⟩ | ⟨-, -, list⟩
  · rw [same]
  · rw [list]

/-- A name with at most one endpoint has exactly the one that is obtained. -/
theorem obtain_view {h : House} (single : (h.view name subaddr).length ≤ 1) :
    let result := h.obtain s id name subaddr type callback sensorType
    result.1.view name subaddr = [result.2.shown] := by
  intro result
  rcases obtain_cases s id name subaddr type callback sensorType h with ⟨same, mem, named⟩ | ⟨empty, entry, list⟩
  · have inside : result.2.shown ∈ h.view name subaddr :=
      mem_map_of_mem (mem_filter.2 ⟨mem, named⟩)
    rw [show result.1 = h from same]
    obtain ⟨v, one⟩ := length_eq_one_iff.1 (Nat.le_antisymm single (length_pos_of_mem inside))
    rw [one] at inside ⊢
    rw [mem_singleton.1 inside]
  · have named : result.2.isNamed name subaddr = true := by
      rw [show result.2 = _ from entry]
      exact newEntry_named ..
    have list' : result.1.view name subaddr = _ := (congrArg (House.view · name subaddr) list).trans
      (view_cons h result.2 h.ccTotal name subaddr)
    rw [list', if_pos named, empty]

end Obtain

/-- Store an endpoint of the touched name. -/
theorem Touches.store {name : Bytes} {subaddr : Option Bytes} {h h' : House}
    (touched : Touches name subaddr h h') (mem : e ∈ h'.endpointList)
    (named : e.isNamed name subaddr = true) {r : Reporter UserData} (same : SameName e.reporter r)
    (message : Option Message) : Touches name subaddr h (h'.store e.pointer r message) := by
  have own := touched.sound.sameName mem same
  refine ⟨store_sound _ touched.sound, fun n s other => ?_, fun e' mem' => ?_⟩
  · rw [store_view _ own, ← touched.others n s other]
    refine (map_congr_left fun v shown => if_neg ?_).trans (map_id' _)
    obtain ⟨e', inside, rfl⟩ := mem_map.1 shown
    obtain ⟨mem', named'⟩ := mem_filter.1 inside
    intro pointer
    rw [touched.sound.same mem' mem pointer, isNamed_other named other] at named'
    exact absurd named' (by decide)
  · obtain ⟨e₀, mem₀, same₀⟩ := store_names _ own mem'
    rcases touched.names e₀ mem₀ with named₀ | ⟨e₁, mem₁, same₁⟩
    · exact .inl ((same₀.isNamed name subaddr).trans named₀)
    · exact .inr ⟨e₁, mem₁, same₀.1.trans same₁.1, same₀.2.trans same₁.2⟩

section Value

variable (s : Settings) (id : UInt8) (name : Bytes) (subaddr : Option Bytes) (type : EndpointType)
  (callback : Callback) (now : Nat) (value : Bytes) {h : House}

/-- A value touches the endpoints of its name only. -/
theorem value_touches (sensorType : UInt8) (sound : Sound h) :
    let result := h.obtain s id name subaddr type callback sensorType
    Touches name subaddr h (result.1.updateValue s now value result.2) := by
  intro result
  obtain ⟨touched, mem, named⟩ := obtain_touches s id name subaddr type callback sensorType sound
  exact touched.store mem named (updateEndpointValue_spec s result.2.callback now value result.2.reporter).1 _

/-- An analogue endpoint shows the value. -/
theorem value_view (sound : Sound h) (single : (h.view name subaddr).length ≤ 1)
    (analogue : ∀ v ∈ h.view name subaddr, v.type = 65) : let result := h.obtain s id name subaddr type callback 65
    (result.1.updateValue s now value result.2).view name subaddr = [⟨result.2.pointer, some value, 65⟩] := by
  intro result
  obtain ⟨touched, mem, -⟩ := obtain_touches s id name subaddr type callback 65 sound
  have one := obtain_view s id name subaddr type callback 65 single
  have analogueType : result.2.reporter.endpoint.device.type = 65 := by
    rcases obtain_cases s id name subaddr type callback 65 h with ⟨-, inside, named⟩ | ⟨-, entry, -⟩
    · exact analogue result.2.shown (mem_map_of_mem (mem_filter.2 ⟨inside, named⟩))
    · rw [show result.2 = _ from entry]
      rfl
  obtain ⟨same, typeKept, text⟩ := updateEndpointValue_spec s result.2.callback now value result.2.reporter
  have shown := store_view (updateEndpointValue (result.2.callback.run s) now value result.2.reporter).2
    (touched.sound.sameName mem same) name subaddr
  have pointer : result.2.shown.pointer = result.2.pointer := rfl
  rw [one, map_singleton, if_pos pointer, typeKept, text (by rw [analogueType]; decide), analogueType] at shown
  exact shown

end Value

/-! ## The sum -/

/-- The phases of the house, `ch1` to `ch3`. -/
inductive Phase where
  | one
  | two
  | three
  deriving DecidableEq, Repr

def Phase.subaddr : Phase → Bytes
  | .one => "1"
  | .two => "2"
  | .three => "3"

/-- A value of at most eight digits. -/
structure Number (text : Bytes) : Prop where
  filled : text ≠ []
  digits : ∀ c ∈ text, isdigit c = true
  short : text.length ≤ 8

theorem Number.atoi_eq {text : Bytes} (number : Number text) :
    atoi text = leadingNumber text ∧ leadingNumber text < 100000000 := by
  have small : leadingNumber text < 100000000 := leadingNumber_lt number.short
  obtain ⟨c, rest, rfl⟩ := exists_cons_of_ne_nil number.filled
  exact ⟨atoi_digits (number.digits c mem_cons_self) (by omega), small⟩

/-- The sum of the texts and the number of entries, without overflow. -/
def tally (entries : List Entry) : Int × Nat :=
  entries.foldr (fun e t => (atoi e.reporter.text + t.1, t.2 + 1)) (0, 0)

/-- The loop of the daemon computes the tally when it stays in the range of an `int`. -/
theorem foldl_tally {entries : List Entry} (positive : ∀ e ∈ entries, 0 ≤ atoi e.reporter.text) :
    0 ≤ (tally entries).1 ∧ ∀ (a : Int) (n : Nat), 0 ≤ a → a + (tally entries).1 < 2147483648 →
      entries.foldl (fun t e => (wrap32 (t.1 + atoi e.reporter.text), t.2 + 1)) (a, n) =
        (a + (tally entries).1, n + (tally entries).2) := by
  induction entries with
  | nil => exact ⟨Int.le_refl 0, fun a n _ _ => by simp [tally]⟩
  | cons e entries ih =>
    obtain ⟨first, rest⟩ := forall_mem_cons.1 positive
    obtain ⟨sum, loop⟩ := ih rest
    have head : tally (e :: entries) = (atoi e.reporter.text + (tally entries).1, (tally entries).2 + 1) := rfl
    rw [head]
    refine ⟨by dsimp only; omega, fun a n low fits => ?_⟩
    rw [foldl_cons, wrap32_of_range (by omega) (by omega), loop _ _ (by omega) (by omega)]
    simp only [Prod.mk.injEq]
    omega

/-- The sub-addresses that the daemon gives to channels. -/
def KnownName (e : Entry) : Prop :=
  e.reporter.endpoint.name = "ch" →
    e.reporter.endpoint.subaddr = some (ascii "total") ∨ ∃ c : Phase, e.reporter.endpoint.subaddr = some c.subaddr

def ofChannel (entries : List Entry) (c : Phase) : List Entry :=
  entries.filter fun e => e.isNamed "ch" (some c.subaddr)

/-- **The summands are the entries of the three channels.** -/
theorem tally_channels {entries : List Entry} (known : ∀ e ∈ entries, KnownName e) :
    let sums := fun c => tally (ofChannel entries c)
    tally (entries.filter Entry.isSummand) =
      ((sums .one).1 + (sums .two).1 + (sums .three).1, (sums .one).2 + (sums .two).2 + (sums .three).2) := by
  induction entries with
  | nil => rfl
  | cons e entries ih =>
    obtain ⟨first, rest⟩ := forall_mem_cons.1 known
    have later := ih rest
    have cons : ∀ l : List Entry, tally (e :: l) = (atoi e.reporter.text + (tally l).1, (tally l).2 + 1) :=
      fun _ => rfl
    have keep : ∀ p : Entry → Bool,
        (e :: entries).filter p = if p e then e :: entries.filter p else entries.filter p := fun _ => filter_cons
    simp only [ofChannel, keep] at later ⊢
    by_cases ch : e.reporter.endpoint.name = "ch"
    · rcases first ch with sub | ⟨c, sub⟩
      · have skipped : e.isSummand = false := by simp [Entry.isSummand, sub]
        have others : ∀ c : Phase, e.isNamed "ch" (some c.subaddr) = false := fun c => by
          cases c <;> simp [Entry.isNamed, Endpoint.isNamed, ch, sub, Phase.subaddr] <;> decide
        simp only [skipped, others, Bool.false_eq_true, if_false]
        exact later
      · have summand : e.isSummand = true := by
          cases c <;> simp [Entry.isSummand, ch, sub, Phase.subaddr] <;> decide
        have own : ∀ c' : Phase, e.isNamed "ch" (some c'.subaddr) = decide (c = c') := fun c' => by
          cases c <;> cases c' <;> simp [Entry.isNamed, Endpoint.isNamed, ch, sub, Phase.subaddr] <;> decide
        simp only [summand, own, if_true, cons, later, decide_eq_true_eq]
        cases c <;> simp [cons] <;> omega
    · have skipped : e.isSummand = false := by simp [Entry.isSummand, ch]
      have others : ∀ c : Phase, e.isNamed "ch" (some c.subaddr) = false := fun c => by
        simp [Entry.isNamed, Endpoint.isNamed, ch]
      simp only [skipped, others, Bool.false_eq_true, if_false]
      exact later

/-! ## The books -/

/-- The latest value of each channel that was seen. -/
abbrev Latest := Phase → Option Bytes

def Latest.value (latest : Latest) (c : Phase) : Nat := ((latest c).map leadingNumber).getD 0

def Latest.total (latest : Latest) : Nat := latest.value .one + latest.value .two + latest.value .three

def Latest.seen (latest : Latest) : List Phase :=
  [Phase.one, Phase.two, Phase.three].filter fun c => (latest c).isSome

theorem Latest.seen_length (latest : Latest) :
    latest.seen.length = (latest .one).toList.length + (latest .two).toList.length + (latest .three).toList.length := by
  simp only [Latest.seen, filter_cons, filter_nil]
  cases latest .one <;> cases latest .two <;> cases latest .three <;> rfl

/-- Every channel has one endpoint with its latest value or was not seen, and nothing else is
called `ch` but the total. -/
structure Channels (h : House) (latest : Latest) : Prop where
  sound : Sound h
  texts : ∀ c, (h.view "ch" (some c.subaddr)).map (fun v => (v.text, v.type)) =
    (latest c).toList.map fun t => (some t, 65)
  known : ∀ e ∈ h.endpointList, KnownName e
  numbers : ∀ c, ∀ t ∈ latest c, Number t

/-- `ccTotal` points to the only total, which shows the sum once two channels were seen. -/
structure Books (h : House) (latest : Latest) : Prop extends Channels h latest where
  pointer : (h.view "ch" (some "total")).map Shown.pointer = h.ccTotal.toList
  sum : 2 ≤ latest.seen.length →
    (h.view "ch" (some "total")).map Shown.text = [some (decimal latest.total)]

variable {latest : Latest}

theorem Channels.value_lt {h : House} (channels : Channels h latest) (c : Phase) : latest.value c < 100000000 := by
  unfold Latest.value
  cases value : latest c with
  | none => decide
  | some t => exact (channels.numbers c t value).atoi_eq.2

theorem Channels.total_lt {h : House} (channels : Channels h latest) : latest.total < 300000000 := by
  have one := channels.value_lt .one
  have two := channels.value_lt .two
  have three := channels.value_lt .three
  unfold Latest.total
  omega

theorem Channels.tally_eq {h : House} (channels : Channels h latest) (c : Phase) :
    tally (ofChannel h.endpointList c) = ((latest.value c : Int), (latest c).toList.length) ∧
      ∀ e ∈ ofChannel h.endpointList c, 0 ≤ atoi e.reporter.text := by
  have texts : (ofChannel h.endpointList c).map (fun e => (e.reporter.endpoint.text, e.reporter.endpoint.device.type)) =
      (latest c).toList.map fun t => (some t, 65) := by
    have viewed := channels.texts c
    rw [House.view, map_map] at viewed
    exact viewed
  unfold Latest.value
  cases value : latest c with
  | none =>
    rw [value] at texts
    rw [map_eq_nil_iff.1 texts]
    exact ⟨rfl, by simp⟩
  | some t =>
    rw [value] at texts
    obtain ⟨e, one, shown⟩ := map_eq_singleton_iff.1 texts
    have text : e.reporter.text = t := by
      rw [Reporter.text, (Prod.mk.inj shown).1]
      rfl
    have number := (channels.numbers c t value).atoi_eq.1
    rw [one]
    refine ⟨?_, forall_mem_singleton.2 ?_⟩
    · show (atoi e.reporter.text + 0, 0 + 1) = _
      rw [text, number]
      rfl
    · rw [text, number]
      exact Int.natCast_nonneg _

/-- **The loop adds up the latest values.** -/
theorem Channels.sumChannels_eq {h : House} (channels : Channels h latest) :
    sumChannels h.endpointList = ((latest.total : Int), latest.seen.length) := by
  have parts := tally_channels channels.known
  dsimp only at parts
  rw [(channels.tally_eq .one).1, (channels.tally_eq .two).1, (channels.tally_eq .three).1] at parts
  have positive : ∀ e ∈ h.endpointList.filter Entry.isSummand, 0 ≤ atoi e.reporter.text := by
    intro e mem
    obtain ⟨inside, summand⟩ := mem_filter.1 mem
    simp only [Entry.isSummand, Bool.and_eq_true, beq_iff_eq, bne_iff_ne] at summand
    rcases channels.known e inside summand.1 with total | ⟨c, sub⟩
    · rw [total] at summand
      exact absurd rfl summand.2
    · exact (channels.tally_eq c).2 e (mem_filter.2 ⟨inside, isNamed_iff.2 ⟨summand.1, sub⟩⟩)
  have small : latest.value .one + latest.value .two + latest.value .three < 300000000 := channels.total_lt
  have loop := (foldl_tally positive).2 0 0 (Int.le_refl 0) (by rw [parts]; omega)
  rw [sumChannels, loop, parts, latest.seen_length]
  simp [Latest.total]

theorem KnownName.same {e' : Entry} (known : KnownName e) (same : SameName e.reporter e'.reporter) : KnownName e' := by
  intro ch
  rw [same.2]
  exact known (same.1.symm.trans ch)

theorem Phase.subaddr_ne_total (c : Phase) : c.subaddr ≠ "total" := by
  cases c <;> decide

theorem Phase.subaddr_inj {c c' : Phase} (same : c.subaddr = c'.subaddr) : c = c' := by
  cases c <;> cases c' <;> first | rfl | exact absurd same (by decide)

/-- Touching anything but a channel leaves the channels. -/
theorem Channels.touch {h h' : House} (channels : Channels h latest) {name : Bytes}
    {subaddr : Option Bytes} (touched : Touches name subaddr h h')
    (other : name = "ch" → subaddr = some (ascii "total")) : Channels h' latest := by
  refine ⟨touched.sound, fun c => ?_, fun e mem => ?_, channels.numbers⟩
  · rw [touched.others _ _ fun same => ?_]
    · exact channels.texts c
    · obtain ⟨ch, sub⟩ := Prod.mk.inj same
      rw [other ch.symm] at sub
      exact c.subaddr_ne_total (Option.some.inj sub)
  · rcases touched.names e mem with named | ⟨e', mem', same⟩
    · obtain ⟨sameName, sameSub⟩ := isNamed_iff.1 named
      intro ch
      rw [sameSub]
      exact .inl (other (sameName.symm.trans ch))
    · exact (channels.known e' mem').same same

/-- The endpoint of the total: there already, or made now. -/
theorem obtainTotal_spec {h : House} (s : Settings) (sound : Sound h)
    (pointer : (h.view "ch" (some "total")).map Shown.pointer = h.ccTotal.toList) :
    let result := h.obtainTotal s
    Touches "ch" (some "total") h result.1 ∧ result.1.ccTotal = some result.2 ∧
      (result.1.view "ch" (some "total")).map Shown.pointer = [result.2] := by
  intro result
  simp only [result, House.obtainTotal]
  cases total : h.ccTotal with
  | some k =>
    rw [total] at pointer
    exact ⟨.refl sound, total, pointer⟩
  | none =>
    rw [total] at pointer
    have empty := map_eq_nil_iff.1 pointer
    dsimp only
    generalize made : newEntry s h.endpointList.length 5 "ch" (some "total") .stream .channel 65 = e₀
    have fresh : Entry.pointer { e₀ with reporter := { e₀.reporter with
        endpoint := bscSetState e₀.reporter.endpoint .on } } = h.endpointList.length := by
      rw [← made]
      rfl
    have named : Entry.isNamed { e₀ with reporter := { e₀.reporter with
        endpoint := bscSetState e₀.reporter.endpoint .on } } "ch" (some "total") = true := by
      rw [← made]
      exact isNamed_iff.2 ⟨rfl, rfl⟩
    refine ⟨.cons sound fresh named _, rfl, ?_⟩
    rw [view_cons, if_pos named, empty]
    rfl

/-- The total of three channels has nine digits at most, so the text holds all of it. -/
theorem Channels.total_fits {h : House} (channels : Channels h latest) :
    (decimalInt latest.total).take 9 = decimal latest.total := by
  have small := channels.total_lt
  have nine : (decimal latest.total).length ≤ 9 :=
    decimal_length (by omega) (show latest.total < 1000000000 by omega)
  rw [decimalInt, if_neg (by omega), Int.natAbs_natCast, take_of_length_le nine]

/-- **Behind a channel value the total is the sum.** -/
theorem Channels.updateTotal {h : House} (channels : Channels h latest) (s : Settings) (now : Nat)
    (pointer : (h.view "ch" (some "total")).map Shown.pointer = h.ccTotal.toList) :
    Books (h.updateTotal s now) latest := by
  rw [House.updateTotal, channels.sumChannels_eq]
  dsimp only
  by_cases more : 1 < latest.seen.length
  · rw [if_pos more]
    obtain ⟨touched, total, one⟩ := obtainTotal_spec s channels.sound pointer
    generalize h.obtainTotal s = result at touched total one ⊢
    obtain ⟨h', k⟩ := result
    -- the view of the total holds one entry, and `ccTotal` is its pointer
    obtain ⟨v, viewed, vPointer⟩ := map_eq_singleton_iff.1 one
    obtain ⟨e, filtered, rfl⟩ := map_eq_singleton_iff.1 viewed
    have inside : e ∈ h'.endpointList.filter fun e => e.isNamed "ch" (some "total") := by
      rw [filtered]
      exact mem_singleton_self e
    obtain ⟨mem, named⟩ := mem_filter.1 inside
    obtain rfl : e.pointer = k := vPointer
    rw [touched.sound.find mem rfl]
    dsimp only
    have endpoint := sendEvent_endpoint s e.callback now (rollTotal latest.total e.reporter)
    generalize bscSendEvent (e.callback.run s) now (rollTotal latest.total e.reporter) = sent at endpoint ⊢
    have same : SameName e.reporter sent.1 := by
      rw [SameName, endpoint]
      exact ⟨rfl, rfl⟩
    have shown := store_view sent.2 (touched.sound.sameName mem same) "ch" (some "total")
    rw [viewed, map_singleton, if_pos (show e.shown.pointer = e.pointer from rfl)] at shown
    refine ⟨channels.touch (touched.store mem named same sent.2) fun _ => rfl, ?_, fun _ => ?_⟩
    · rw [shown]
      exact congrArg Option.toList total.symm
    · rw [shown, map_singleton, endpoint]
      exact congrArg (fun text => [some text]) channels.total_fits
  · rw [if_neg more]
    exact ⟨channels, pointer, fun two => absurd two (by omega)⟩

/-! ## Readings -/

/-- One value of a message and where it goes. -/
inductive Reading where
  | channel (c : Phase) (value : Bytes)
  | temperature (name : Bytes) (value : Bytes)
  | sensor (sensorId : Int) (suffix value : Bytes) (infoEvent : Callback) (uidOffset : Int)
  deriving DecidableEq, Repr

def Phase.uidOffset : Phase → UInt8
  | .one => 1
  | .two => 2
  | .three => 3

def House.take (s : Settings) (h : House) (timed : Nat × Reading) : House :=
  match timed.2 with
  | .channel c value =>
    h.updateWholeOfHouseEndpoint s timed.1 "ch" (some c.subaddr) value .channel c.uidOffset
  | .temperature name value => h.updateWholeOfHouseEndpoint s timed.1 name none value .temp 4
  | .sensor sensorId suffix value infoEvent uidOffset =>
    h.updateSensor s timed.1 sensorId suffix value infoEvent uidOffset

/-- The readings of a message, in the order they are worked off. -/
def Msg.readings (msg : Msg) : List Reading :=
  let temperatures :=
    msg.tempr.toList.map (.temperature "temp") ++ msg.temprf.toList.map (.temperature "tempF")
  if msg.sensor = 0 then
    msg.ch1.toList.map (.channel .one) ++ msg.ch2.toList.map (.channel .two) ++ msg.ch3.toList.map (.channel .three) ++
      temperatures
  else if 0 < msg.sensor then
    msg.ch1.toList.map (.sensor msg.sensor [] · .sensor 1) ++ msg.ch2.toList.map (.sensor msg.sensor ".2" · .sensor 2) ++
      msg.ch3.toList.map (.sensor msg.sensor ".3" · .sensor 3) ++
      msg.imp.toList.map (.sensor msg.sensor [] · .always 1) ++ temperatures
  else []

theorem endElementCB_readings (s : Settings) (now : Nat) (msg : Msg) (h : House) :
    h.endElementCB s now msg = (msg.readings.map fun r => (now, r)).foldl (House.take s) h := by
  have present : ∀ (f : Bytes → House → House) (reading : Bytes → Reading),
      (∀ value h, House.take s h (now, reading value) = f value h) → ∀ (value : Option Bytes) (h : House),
      h.ifPresent f value = ((value.toList.map reading).map fun r => (now, r)).foldl (House.take s) h := by
    intro f reading same value h
    cases value with
    | none => rfl
    | some value => exact (same value h).symm
  have temp := present (House.updateWholeOfHouseEndpoint s now "temp" none · .temp 4)
    (.temperature "temp") fun _ _ => rfl
  have tempF := present (House.updateWholeOfHouseEndpoint s now "tempF" none · .temp 4)
    (.temperature "tempF") fun _ _ => rfl
  unfold House.endElementCB Msg.readings House.updateTemperatures
  split
  · have one := present (House.updateWholeOfHouseEndpoint s now "ch" (some "1") · .channel 1)
      (.channel .one) fun _ _ => rfl
    have two := present (House.updateWholeOfHouseEndpoint s now "ch" (some "2") · .channel 2)
      (.channel .two) fun _ _ => rfl
    have three := present (House.updateWholeOfHouseEndpoint s now "ch" (some "3") · .channel 3)
      (.channel .three) fun _ _ => rfl
    simp only [map_append, foldl_append, one, two, three, temp, tempF]
  · split
    · have sensor := fun suffix infoEvent uidOffset =>
        present (House.updateSensor s now msg.sensor suffix · infoEvent uidOffset)
          (.sensor msg.sensor suffix · infoEvent uidOffset) fun _ _ => rfl
      simp only [map_append, foldl_append, sensor, temp, tempF]
    · rfl

def Reading.ofChannel (c : Phase) : Reading → Option Bytes
  | .channel c' value => if c' = c then some value else none
  | _ => none

/-- The latest value of each channel in a history of readings. -/
def latestOf (history : List Reading) : Latest := fun c => (history.filterMap (Reading.ofChannel c)).getLast?

/-- Channel values are numbers; nothing is asked of the rest, but that it is not called a channel. -/
def Reading.Valid : Reading → Prop
  | .channel _ value => Number value
  | .temperature name _ => name ≠ "ch"
  | .sensor .. => True

theorem latestOf_concat (history : List Reading) (r : Reading) (c : Phase) :
    latestOf (history ++ [r]) c = (r.ofChannel c).or (latestOf history c) := by
  simp only [latestOf, filterMap_append, filterMap_cons, filterMap_nil]
  cases r.ofChannel c with
  | none => simp
  | some value => simp

section Step

variable {h : House} {history : List Reading} (s : Settings) (now : Nat)

theorem Books.other (books : Books h (latestOf history)) {h' : House} {name : Bytes}
    {subaddr : Option Bytes} (touched : Touches name subaddr h h') (ccTotal : h'.ccTotal = h.ccTotal)
    (other : name ≠ "ch") {r : Reading} (silent : ∀ c, r.ofChannel c = none) :
    Books h' (latestOf (history ++ [r])) := by
  have same : latestOf (history ++ [r]) = latestOf history := by
    funext c
    rw [latestOf_concat, silent, Option.none_or]
  have total : h'.view "ch" (some "total") = h.view "ch" (some "total") :=
    touched.others _ _ fun both => other (Prod.mk.inj both).1.symm
  rw [same]
  refine ⟨books.toChannels.touch touched fun ch => absurd ch other, ?_, ?_⟩
  · rw [total, ccTotal]
    exact books.pointer
  · rw [total]
    exact books.sum

theorem take_channel (h : House) (c : Phase) (value : Bytes) :
    h.take s (now, .channel c value) =
      let result := h.obtain s c.uidOffset "ch" (some c.subaddr) .stream .channel 65
      (result.1.updateValue s now value result.2).updateTotal s now := by
  unfold House.take House.updateWholeOfHouseEndpoint
  exact if_pos rfl

theorem take_temperature (h : House) {name : Bytes} (other : name ≠ "ch") (value : Bytes) :
    h.take s (now, .temperature name value) =
      let result := h.obtain s 4 name none .stream .temp 65
      result.1.updateValue s now value result.2 := by
  unfold House.take House.updateWholeOfHouseEndpoint
  exact if_neg other

/-- A channel value. -/
theorem Books.channel (books : Books h (latestOf history)) (c : Phase) {value : Bytes} (number : Number value) :
    Books (h.take s (now, .channel c value)) (latestOf (history ++ [.channel c value])) := by
  have shape := books.texts c
  have single : (h.view "ch" (some c.subaddr)).length ≤ 1 := by
    have length := congrArg List.length shape
    rw [length_map, length_map] at length
    rw [length]
    exact Option.length_toList_le
  have analogue : ∀ v ∈ h.view "ch" (some c.subaddr), v.type = 65 := by
    intro v mem
    have pair : (v.text, v.type) ∈ (latestOf history c).toList.map fun t => (some t, (65 : UInt8)) := by
      rw [← shape]
      exact mem_map_of_mem mem
    obtain ⟨t, -, same⟩ := mem_map.1 pair
    exact (Prod.mk.inj same).2.symm
  have touched := value_touches s c.uidOffset "ch" (some c.subaddr) .stream .channel now value 65 books.sound
  have shown := value_view s c.uidOffset "ch" (some c.subaddr) .stream .channel now value books.sound single
    analogue
  have kept := obtain_ccTotal s c.uidOffset "ch" (some c.subaddr) .stream .channel 65 h
  rw [take_channel]
  generalize h.obtain s c.uidOffset "ch" (some c.subaddr) .stream .channel 65 = result at touched shown kept ⊢
  have latest : ∀ c', latestOf (history ++ [.channel c value]) c' =
      if c = c' then some value else latestOf history c' := by
    intro c'
    rw [latestOf_concat, Reading.ofChannel]
    split <;> rfl
  have total : (result.1.updateValue s now value result.2).view "ch" (some "total") =
      h.view "ch" (some "total") :=
    touched.others _ _ fun same => c.subaddr_ne_total (Option.some.inj (Prod.mk.inj same).2).symm
  refine Channels.updateTotal ⟨touched.sound, fun c' => ?_, fun e mem => ?_, fun c' t mem => ?_⟩ s now ?_
  · rw [latest]
    by_cases same : c = c'
    · subst same
      rw [shown, if_pos rfl]
      rfl
    · rw [if_neg same, touched.others _ _ fun both =>
        same (Phase.subaddr_inj (Option.some.inj (Prod.mk.inj both).2)).symm]
      exact books.texts c'
  · rcases touched.names e mem with named | ⟨e', mem', same⟩
    · exact fun _ => .inr ⟨c, (isNamed_iff.1 named).2⟩
    · exact (books.known e' mem').same same
  · rw [latest] at mem
    split at mem
    · cases mem
      exact number
    · exact books.numbers c' t mem
  · rw [total]
    exact books.pointer.trans (congrArg Option.toList kept.symm)

/-- **One reading keeps the books.** -/
theorem Books.reading (books : Books h (latestOf history)) {r : Reading} (valid : r.Valid) :
    Books (h.take s (now, r)) (latestOf (history ++ [r])) := by
  cases r with
  | channel c value => exact books.channel s now c valid
  | temperature name value =>
    have touched := value_touches s 4 name none .stream .temp now value 65 books.sound
    have kept := obtain_ccTotal s 4 name none .stream .temp 65 h
    rw [take_temperature s now h valid]
    exact books.other touched kept valid fun _ => rfl
  | sensor sensorId suffix value infoEvent uidOffset =>
    have other : ascii "sensor" ≠ "ch" := by decide
    exact books.other (value_touches s _ "sensor" _ _ infoEvent now value _ books.sound)
      (obtain_ccTotal s _ "sensor" _ _ infoEvent _ h) other fun _ => rfl

end Step

/-! ## Runs -/

/-- The books of an empty house. -/
theorem books_start : Books House.start (latestOf []) := by
  refine ⟨⟨⟨nodup_nil, by simp [House.start]⟩, fun c => rfl, by simp [House.start], fun c t mem => ?_⟩, rfl,
    fun two => ?_⟩
  · cases mem
  · exact absurd two (by decide)

theorem books_run (s : Settings) {readings : List (Nat × Reading)} (valid : ∀ t ∈ readings, t.2.Valid) :
    Books (readings.foldl (House.take s) House.start) (latestOf (readings.map Prod.snd)) := by
  induction readings using List.reverseRecOn with
  | nil => exact books_start
  | append_singleton readings t ih =>
    rw [foldl_append, map_append]
    have before := ih fun t' mem => valid t' (mem_append_left _ mem)
    exact before.reading s t.1 (valid t (mem_append_right _ (mem_singleton_self t)))

/-- The readings of a sequence of messages, with the times of the messages. -/
def timedReadings (messages : List (Nat × Msg)) : List (Nat × Reading) :=
  messages.flatMap fun m => m.2.readings.map fun r => (m.1, r)

/-- The channel values of the whole-of-house messages are numbers of at most eight digits. -/
def Msg.Valid (msg : Msg) : Prop :=
  msg.sensor = 0 → ∀ value ∈ msg.ch1.toList ++ msg.ch2.toList ++ msg.ch3.toList, Number value

theorem Msg.Valid.readings {msg : Msg} (valid : msg.Valid) : ∀ r ∈ msg.readings, r.Valid := by
  have temperatures : ∀ r ∈ msg.tempr.toList.map (Reading.temperature "temp") ++
      msg.temprf.toList.map (Reading.temperature "tempF"), r.Valid := by
    have celsius : ascii "temp" ≠ "ch" := by decide
    have fahrenheit : ascii "tempF" ≠ "ch" := by decide
    refine forall_mem_append.2 ⟨forall_mem_map.2 fun _ _ => celsius, forall_mem_map.2 fun _ _ => fahrenheit⟩
  unfold Msg.readings
  split
  next house =>
    have numbers := valid house
    simp only [forall_mem_append] at numbers ⊢
    exact ⟨⟨⟨forall_mem_map.2 numbers.1.1, forall_mem_map.2 numbers.1.2⟩, forall_mem_map.2 numbers.2⟩,
      forall_mem_append.1 temperatures⟩
  next =>
    split
    · simp only [forall_mem_append]
      exact ⟨⟨⟨⟨forall_mem_map.2 fun _ _ => trivial, forall_mem_map.2 fun _ _ => trivial⟩,
        forall_mem_map.2 fun _ _ => trivial⟩, forall_mem_map.2 fun _ _ => trivial⟩,
        forall_mem_append.1 temperatures⟩
    · simp

/-- The texts of the endpoints called `ch.total`. -/
def House.totals (h : House) : List (Option Bytes) :=
  (h.endpointList.filter fun e => e.isNamed "ch" (some "total")).map fun e => e.reporter.endpoint.text

/-- **The total is always the sum**: messages are worked off reading by reading, and behind every
reading there is at most one `ch.total`, which, once two channels were seen, shows the sum of the
latest values. -/
theorem total_is_sum (s : Settings) (messages : List (Nat × Msg)) (valid : ∀ m ∈ messages, m.2.Valid) :
    messages.foldl (fun h m => h.endElementCB s m.1 m.2) House.start =
        (timedReadings messages).foldl (House.take s) House.start ∧
      ∀ done, done <+: timedReadings messages →
        (done.foldl (House.take s) House.start).totals.length ≤ 1 ∧
          (2 ≤ (latestOf (done.map Prod.snd)).seen.length →
            (done.foldl (House.take s) House.start).totals = [some (decimal (latestOf (done.map Prod.snd)).total)]) := by
  constructor
  · rw [timedReadings, foldl_flatMap]
    congr 1
    funext h m
    exact endElementCB_readings s m.1 m.2 h
  · intro done initial
    have all : ∀ t ∈ done, t.2.Valid := by
      intro t mem
      obtain ⟨m, there, inside⟩ := mem_flatMap.1 (initial.subset mem)
      obtain ⟨r, reading, rfl⟩ := mem_map.1 inside
      exact (valid m there).readings r reading
    have books := books_run s all
    constructor
    · have pointers := congrArg List.length books.pointer
      rw [length_map, House.view, length_map] at pointers
      rw [House.totals, length_map, pointers]
      exact Option.length_toList_le
    · intro two
      have sum := books.sum two
      rw [House.view, map_map] at sum
      exact sum

def meterSettings : Settings where
  hysteresis := 10
  sensorHysteresis := fun _ => none
  sensorUnit := fun _ => none
  sensorType := fun _ => none
  address := fun _ _ _ => ⟨"FF00CC00", "dbzoo.livebox.currentcost", by decide, by decide⟩

/-- Two messages, the second with another value of the first channel and with a second channel. -/
def meterMessages : List (Nat × Msg) :=
  [(1, ⟨0, some "120", none, none, some "21.5", none, none⟩),
    (7, ⟨0, some "90", none, some "45", none, none, none⟩)]

theorem total_is_sum_meter :
    (meterMessages.foldl (fun h m => h.endElementCB meterSettings m.1 m.2) House.start).totals =
      [some (ascii "135")] := by
  have valid : ∀ m ∈ meterMessages, m.2.Valid := by
    have number : ∀ t ∈ ["120", "90", "45"], Number t := by
      simp only [forall_mem_cons, not_mem_nil, false_implies, implies_true, and_true]
      exact ⟨⟨by decide, bytes_of_all (by decide), by decide⟩, ⟨by decide, bytes_of_all (by decide), by decide⟩,
        ⟨by decide, bytes_of_all (by decide), by decide⟩⟩
    simp only [meterMessages, forall_mem_cons, not_mem_nil, false_implies, implies_true, and_true]
    exact ⟨fun _ => by simpa using number _ mem_cons_self, fun _ => by simpa using ⟨number _ (by simp), number _ (by simp)⟩⟩
  obtain ⟨whole, totals⟩ := total_is_sum meterSettings meterMessages valid
  have last := (totals _ (prefix_refl _)).2 (by decide +kernel)
  rw [whole, last]
  decide +kernel

end Hah.CurrentCost
