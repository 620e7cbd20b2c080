import Hah.C.Strings

/-!
# `xaplib2/bsc.c`: endpoints

An endpoint is the part of a device that xAP can see: a name, an identifier of two hex
digits, a direction, a type, a state and a text. What the C structure holds as function
pointers and user data is the parameter `D`.

An endpoint is found by its name and sub-address and then changed through the pointer,
so only the first endpoint of that name in the list is changed.
-/

namespace Hah.Bsc
open C

inductive Io where
  | input
  | output
  deriving DecidableEq, Repr

inductive EndpointType where
  | binary
  | level
  | stream
  deriving DecidableEq, Repr

/-- The values of the two-bit field `state`: `BSC_STATE_OFF`, `BSC_STATE_ON` and
`BSC_STATE_UNKNOWN`. -/
inductive BscState where
  | off
  | on
  | unknown
  deriving DecidableEq, Repr

/-- The arguments that `bscSetState` is given: 0, 1, 2, and -1 or `BSC_STATE_UNKNOWN`. -/
inductive StateCode where
  | off
  | on
  | toggle
  | unknown
  deriving DecidableEq, Repr

/-- The table of `bscDecodeState`. -/
def stateValues : List (Bytes × StateCode) :=
  [("on", .on), ("off", .off), ("true", .on), ("false", .off), ("yes", .on),
    ("no", .off), ("1", .on), ("0", .off), ("toggle", .toggle)]

/-- `bscDecodeState`; `none` is `NULL`. -/
def bscDecodeState (msg : Option Bytes) : StateCode :=
  match msg with
  | none => .unknown
  | some msg => ((stateValues.find? fun v => strcasecmpEq msg v.1).map Prod.snd).getD .unknown

/-- `bscEndpoint`; `D` is what the handlers and the user data make of it. -/
structure Endpoint (D : Type) where
  name : Bytes
  subaddr : Option Bytes
  id : UInt8
  io : Io
  type : EndpointType
  state : BscState
  text : Option Bytes
  device : D
  deriving DecidableEq, Repr

section Endpoint

variable {D : Type}

/-- `bscSetState`: the mask leaves 3 of the value -1. -/
def bscSetState (e : Endpoint D) (code : StateCode) : Endpoint D :=
  match code with
  | .off => { e with state := .off }
  | .on => { e with state := .on }
  | .toggle => { e with state := if e.state = .on then .off else .on }
  | .unknown => { e with state := .unknown }

/-- The state that `bscSetState` leaves. -/
def nextState (s : BscState) : StateCode → BscState
  | .off => .off
  | .on => .on
  | .toggle => if s = .on then .off else .on
  | .unknown => .unknown

/-- `bscSetState` writes the state and nothing else. -/
theorem bscSetState_eq (e : Endpoint D) (code : StateCode) :
    bscSetState e code = { e with state := nextState e.state code } := by
  cases code <;> rfl

def bscSetText (e : Endpoint D) (text : Bytes) : Endpoint D := { e with text := some text }

/-- The test of `bscFindEndpoint`. -/
def Endpoint.isNamed (e : Endpoint D) (name : Bytes) (subaddr : Option Bytes) : Bool :=
  e.name == name && e.subaddr == subaddr

def bscFindEndpoint (head : List (Endpoint D)) (name : Bytes) (subaddr : Option Bytes) :
    Option (Endpoint D) :=
  head.find? fun e => e.isNamed name subaddr

/-- Change the first endpoint with a property. -/
def modifyFirst (p : Endpoint D → Bool) (f : Endpoint D → Endpoint D) : List (Endpoint D) → List (Endpoint D)
  | [] => []
  | e :: rest => if p e then f e :: rest else e :: modifyFirst p f rest

/-- The state of an endpoint when `bscAddEndpoint` returns. -/
def initialState (io : Io) (type : EndpointType) : BscState :=
  match io, type with
  | .input, _ => .unknown
  | .output, .binary => .off
  | .output, _ => .on

/-- `bscAddEndpoint`: the endpoint takes the identifier `id`, and the next one the successor of it
in a byte. -/
def bscAddEndpoint (head : List (Endpoint D)) (id : UInt8) (name : Bytes)
    (subaddr : Option Bytes) (io : Io) (type : EndpointType) (device : D) :
    List (Endpoint D) × UInt8 :=
  let e : Endpoint D :=
    { name := name, subaddr := subaddr, id := id, io := io, type := type, state := initialState io type,
      text := if type = .binary then none else some "?", device := device }
  (e :: head, id + 1)

/-! ## Lookup and update -/

theorem isNamed_iff {e : Endpoint D} {name : Bytes} {subaddr : Option Bytes} :
    e.isNamed name subaddr = true ↔ e.name = name ∧ e.subaddr = subaddr := by
  simp [Endpoint.isNamed]

@[simp] theorem bscSetState_isNamed (e : Endpoint D) (code : StateCode) (name : Bytes)
    (subaddr : Option Bytes) : (bscSetState e code).isNamed name subaddr = e.isNamed name subaddr := by
  rw [bscSetState_eq]
  rfl

/-- A change that keeps the names is found where the endpoint was found. -/
theorem find_modifyFirst {p : Endpoint D → Bool} {f : Endpoint D → Endpoint D} (keeps : ∀ e, p (f e) = p e)
    (head : List (Endpoint D)) : (modifyFirst p f head).find? p = (head.find? p).map f := by
  induction head with
  | nil => rfl
  | cons e rest ih =>
    by_cases here : p e = true
    · simp [modifyFirst, here, keeps]
    · simp [modifyFirst, here, ih]

/-- A change of other endpoints is not seen. -/
theorem find_modifyFirst_other {p q : Endpoint D → Bool} {f : Endpoint D → Endpoint D}
    (keeps : ∀ e, q (f e) = q e) (apart : ∀ e, p e = true → q e = false) (head : List (Endpoint D)) :
    (modifyFirst p f head).find? q = head.find? q := by
  induction head with
  | nil => rfl
  | cons e rest ih =>
    by_cases here : p e = true
    · have other := apart e here
      simp [modifyFirst, here, keeps, other]
    · by_cases wanted : q e = true
      · simp [modifyFirst, here, wanted]
      · simp [modifyFirst, here, wanted, ih]

theorem isNamed_apart {name name' : Bytes} {subaddr subaddr' : Option Bytes}
    (different : (name, subaddr) ≠ (name', subaddr')) (e : Endpoint D) (named : e.isNamed name subaddr = true) :
    e.isNamed name' subaddr' = false := by
  obtain ⟨sameName, sameSub⟩ := isNamed_iff.1 named
  rw [← Bool.not_eq_true, isNamed_iff]
  rintro ⟨rfl, rfl⟩
  exact different (by rw [sameName, sameSub])

end Endpoint

end Hah.Bsc
