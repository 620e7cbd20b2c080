import Hah.C.Numbers
import Hah.Bsc.Report

/-!
# `xap-currentcost/currentcost.c`: values of the endpoints

`updateEndpointValue` takes a value of the meter for an endpoint. The text of an analogue
or digital endpoint is the value itself, and the text before it moves to the user data.
The text of an impulse endpoint is the difference between two readings of the counter, and
the user data holds both.
-/

namespace Hah.CurrentCost
open C Bsc

/-- The `UserData` of an endpoint; no value is `NULL`. -/
structure UserData where
  type : UInt8
  previousValue : Option Bytes
  currentValue : Option Bytes
  hysteresis : Int
  unit : Option Bytes
  deriving DecidableEq, Repr

/-- `newBscEndpoint`. What `loadSensorINI` finds for the endpoint are the arguments `hysteresis` and
`unit`; the computed fields are those that `bscAddEndpointFilter` fills. -/
def newBscEndpoint (id : UInt8) (name : Bytes) (subaddr : Option Bytes) (type : EndpointType)
    (sensorType : UInt8) (hysteresis : Int) (unit : Option Bytes) (address : Address) : Reporter UserData :=
  let u : UserData :=
    { type := sensorType, previousValue := none, currentValue := none, hysteresis := hysteresis, unit := unit }
  { endpoint := (bscAddEndpoint [] id name subaddr .input type u).1.head (List.cons_ne_nil _ _)
    address := address
    displayText := none
    lastReport := 0 }

/-- `infoEventChannel`, with the hysteresis of the whole house. -/
def infoEventChannel (hysteresis : Int) : InfoCallback UserData := fun clazz r =>
  let old := (r.endpoint.device.previousValue.map atoi).getD 0
  let new := atoi r.text
  if clazz = .info ∨ wrap32 (old + hysteresis) < new ∨ new < wrap32 (old - hysteresis) then
    ({ r with displayText := some ((decimalInt new ++ " Watts").take 14) }, true)
  else (r, false)

/-- The condition under which an impulse endpoint takes a reading over. -/
def impulseMoves (r : Reporter UserData) (current value : Bytes) : Prop :=
  r.endpoint.text = none ∨ value ≠ current ∨
    (r.endpoint.device.previousValue ≠ none ∧ r.endpoint.device.previousValue ≠ some current)

instance (r : Reporter UserData) (current value : Bytes) : Decidable (impulseMoves r current value) :=
  inferInstanceAs (Decidable (_ ∨ _ ∨ (_ ∧ _)))

/-- The endpoint with a new impulse reading: the values move up, and the text is their difference. -/
def takeImpulse (r : Reporter UserData) (current value : Bytes) : Reporter UserData :=
  let newDelta := wrap32 (atoi value - atoi current)
  let e := bscSetState (bscSetText r.endpoint ((decimalInt newDelta).take 15)) .on
  { r with
    endpoint :=
      { e with
        device := { e.device with previousValue := some current, currentValue := some value } } }

/-- The endpoint with a new analogue or digital value. -/
def takeValue (r : Reporter UserData) (value : Bytes) : Reporter UserData :=
  let e := bscSetText r.endpoint value
  let code := if e.type = .binary then (if atoi value = 0 then StateCode.off else StateCode.on) else StateCode.on
  let e := bscSetState e code
  { r with
    endpoint :=
      { e with
        device := { e.device with previousValue := r.endpoint.text } } }

/-- `updateEndpointValue`; `infoEvent` is the info callback of the endpoint. -/
def updateEndpointValue (infoEvent : InfoCallback UserData) (now : Nat) (value : Bytes)
    (r : Reporter UserData) : Reporter UserData × Option Message :=
  if r.endpoint.device.type = 73 then
    match r.endpoint.device.currentValue with
    | none =>
      -- the first reading
      ({ r with
        endpoint :=
          { r.endpoint with
            device := { r.endpoint.device with currentValue := some value } } }, none)
    | some current =>
      if impulseMoves r current value then bscSendEvent infoEvent now (takeImpulse r current value) else (r, none)
  else if r.endpoint.text ≠ some value then bscSendEvent infoEvent now (takeValue r value)
  else (r, none)

/-! ## What the endpoint has then -/

theorem takeValue_spec (r : Reporter UserData) (value : Bytes) :
    (takeValue r value).endpoint.text = some value ∧
      (takeValue r value).endpoint.device.previousValue = r.endpoint.text ∧
      (takeValue r value).endpoint.device.type = r.endpoint.device.type := by
  rw [takeValue, bscSetState_eq]
  exact ⟨rfl, rfl, rfl⟩

end Hah.CurrentCost
