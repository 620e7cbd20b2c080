import Hah.CurrentCost.Endpoint

/-!
# `xap-currentcost/currentcost.c`: the messages of the meter

At the end of a `<msg>` the daemon passes the values it has collected to their endpoints and
makes endpoints for those it sees for the first time. Behind each value of a channel of the
whole house it adds up the channels in `endpointList` and, once there are two, keeps the sum
in one more endpoint of the same list, `ch.total`.

Endpoints are held by pointers: an `Entry` is an endpoint with its address and its info
callback. None is ever freed.
-/

namespace Hah.CurrentCost
open C Bsc

/-- What the configuration and the xAP library supply. The strings are as `ini_gets` stores them;
there is none when the key is missing. -/
structure Settings where
  hysteresis : Int
  sensorHysteresis : Int → Option Bytes
  sensorUnit : Int → Option Bytes
  sensorType : Int → Option UInt8
  address : UInt8 → Bytes → Option Bytes → Address

def infoEventTemp : InfoCallback UserData := fun clazz r =>
  let previous := r.endpoint.device.previousValue
  if clazz = .info ∨ previous = none ∨ previous ≠ some r.text then
    let unit : UInt8 := if r.endpoint.name.getLast? = some 70 then 70 else 67
    ({ r with displayText := some (("Temp " ++ r.text ++ [unit]).take 14) }, true)
  else (r, false)

def sensorInfoEvent : InfoCallback UserData := fun clazz r =>
  let u := r.endpoint.device
  let old := (u.previousValue.map atoi).getD 0
  let new := atoi r.text
  if clazz = .info ∨ wrap32 (old + u.hysteresis) < new ∨ new < wrap32 (old - u.hysteresis) ∨ r.lastReport = 0 then
    match u.unit with
    | none => (r, true)
    | some unit =>
      let text :=
        if r.endpoint.type = .binary then unit ++ " " ++ r.endpoint.state.text else r.text ++ " " ++ unit
      ({ r with displayText := some (text.take 29) }, true)
  else (r, false)

inductive Callback where
  | channel
  | temp
  | sensor
  | always
  deriving DecidableEq, Repr

def Callback.run (s : Settings) : Callback → InfoCallback UserData
  | .channel => infoEventChannel s.hysteresis
  | .temp => infoEventTemp
  | .sensor => sensorInfoEvent
  | .always => bscInfoEventDefault

/-- An endpoint, its address and its callback. -/
structure Entry where
  pointer : Nat
  reporter : Reporter UserData
  callback : Callback

def Entry.isNamed (e : Entry) (name : Bytes) (subaddr : Option Bytes) : Bool :=
  e.reporter.endpoint.isNamed name subaddr

/-- `endpointList`, newest endpoint first, the static `ccTotal`, and what has been sent. -/
structure House where
  endpointList : List Entry
  ccTotal : Option Nat
  sent : List Message

def House.start : House := { endpointList := [], ccTotal := none, sent := [] }

/-- `newBscEndpoint` with the identifier that `bscSetEndpointUID` has set. The `.ini` file is looked
at for a sub-address that starts with a digit. -/
def newEntry (s : Settings) (pointer : Nat) (id : UInt8) (name : Bytes) (subaddr : Option Bytes)
    (type : EndpointType) (callback : Callback) (sensorType : UInt8) : Entry :=
  let sensorId : Option Int := (subaddr.filter fun sub => sub.head?.any isdigit).map atoi
  let hysteresis := ((sensorId.bind s.sensorHysteresis).map atoi).getD 0
  { pointer := pointer
    reporter :=
      newBscEndpoint id name subaddr type sensorType hysteresis (sensorId.bind s.sensorUnit) (s.address id name subaddr)
    callback := callback }

/-- The endpoint of a name, as `bscFindEndpoint` finds it, or a new one at the head of the list. -/
def House.obtain (s : Settings) (id : UInt8) (name : Bytes) (subaddr : Option Bytes)
    (type : EndpointType) (callback : Callback) (sensorType : UInt8) (h : House) : House × Entry :=
  match h.endpointList.find? fun e => e.isNamed name subaddr with
  | some e => (h, e)
  | none =>
    let e := newEntry s h.endpointList.length id name subaddr type callback sensorType
    ({ h with endpointList := e :: h.endpointList }, e)

/-- Store an endpoint through its pointer, with the message that went out for it. -/
def House.store (h : House) (pointer : Nat) (r : Reporter UserData) (message : Option Message) : House :=
  { h with
    endpointList := h.endpointList.map fun e => if e.pointer = pointer then { e with reporter := r } else e
    sent := h.sent ++ message.toList }

/-- `updateEndpointValue(e, value)`. -/
def House.updateValue (s : Settings) (now : Nat) (value : Bytes) (h : House) (e : Entry) : House :=
  let (r, message) := updateEndpointValue (e.callback.run s) now value e.reporter
  h.store e.pointer r message

/-- The endpoints that the loop of `updateWholeOfHouseEndpoint` adds up. -/
def Entry.isSummand (e : Entry) : Bool :=
  e.reporter.endpoint.name == "ch" && e.reporter.endpoint.subaddr.getD [] != "total"

/-- `total` and `channelCount` behind that loop. -/
def sumChannels (entries : List Entry) : Int × Nat :=
  (entries.filter Entry.isSummand).foldl (fun t e => (wrap32 (t.1 + atoi e.reporter.text), t.2 + 1)) (0, 0)

/-- `ccTotal` with a new text: the text before it moves to the user data. -/
def rollTotal (total : Int) (r : Reporter UserData) : Reporter UserData :=
  { r with
    endpoint :=
      { r.endpoint with
        text := some ((decimalInt total).take 9)
        device := { r.endpoint.device with previousValue := r.endpoint.text } } }

/-- `ccTotal`, made and switched on when it is `NULL`. -/
def House.obtainTotal (s : Settings) (h : House) : House × Nat :=
  match h.ccTotal with
  | some pointer => (h, pointer)
  | none =>
    let e := newEntry s h.endpointList.length 5 "ch" (some "total") .stream .channel 65
    let e := { e with reporter := { e.reporter with endpoint := bscSetState e.reporter.endpoint .on } }
    ({ h with endpointList := e :: h.endpointList, ccTotal := some e.pointer }, e.pointer)

/-- The part of `updateWholeOfHouseEndpoint` behind a channel value. -/
def House.updateTotal (s : Settings) (now : Nat) (h : House) : House :=
  let (total, channelCount) := sumChannels h.endpointList
  if 1 < channelCount then
    let (h, pointer) := h.obtainTotal s
    match h.endpointList.find? fun e => e.pointer = pointer with
    | none => h -- a pointer into the list is always found
    | some e =>
      let (r, message) := bscSendEvent (e.callback.run s) now (rollTotal total e.reporter)
      h.store pointer r message
  else h

def House.updateWholeOfHouseEndpoint (s : Settings) (now : Nat) (addr : Bytes) (subaddr : Option Bytes)
    (value : Bytes) (infoEvent : Callback) (uidOffset : UInt8) (h : House) : House :=
  let (h, e) := h.obtain s uidOffset addr subaddr .stream infoEvent 65
  let h := h.updateValue s now value e
  if addr = "ch" then h.updateTotal s now else h

/-- `updateSensor`; `suffix` is what the format has behind `%d`. -/
def House.updateSensor (s : Settings) (now : Nat) (sensorId : Int) (suffix : Bytes) (value : Bytes)
    (infoEvent : Callback) (uidOffset : Int) (h : House) : House :=
  let subaddr := (decimalInt sensorId ++ suffix).take 19
  let uid : UInt8 := UInt8.ofNat (((sensorId - 1) * 4 + uidOffset + 10) % 256).toNat
  let sensorType := (s.sensorType sensorId).getD 0
  let type := if sensorType = 68 then EndpointType.binary else EndpointType.stream
  let (h, e) := h.obtain s uid "sensor" (some subaddr) type infoEvent sensorType
  h.updateValue s now value e

/-- `msg` at the end of its element; a missing value is `NULL`. -/
structure Msg where
  sensor : Int
  ch1 : Option Bytes
  ch2 : Option Bytes
  ch3 : Option Bytes
  tempr : Option Bytes
  temprf : Option Bytes
  imp : Option Bytes
  deriving DecidableEq, Repr

/-- `if(value) f(value)`. -/
def House.ifPresent (f : Bytes → House → House) (value : Option Bytes) (h : House) : House :=
  match value with
  | none => h
  | some value => f value h

def House.updateTemperatures (s : Settings) (now : Nat) (msg : Msg) (h : House) : House :=
  let h := h.ifPresent (updateWholeOfHouseEndpoint s now "temp" none · .temp 4) msg.tempr
  h.ifPresent (updateWholeOfHouseEndpoint s now "tempF" none · .temp 4) msg.temprf

/-- `endElementCB` for `</msg>`. -/
def House.endElementCB (s : Settings) (now : Nat) (msg : Msg) (h : House) : House :=
  if msg.sensor = 0 then
    let h := h.ifPresent (updateWholeOfHouseEndpoint s now "ch" (some "1") · .channel 1) msg.ch1
    let h := h.ifPresent (updateWholeOfHouseEndpoint s now "ch" (some "2") · .channel 2) msg.ch2
    let h := h.ifPresent (updateWholeOfHouseEndpoint s now "ch" (some "3") · .channel 3) msg.ch3
    h.updateTemperatures s now msg
  else if 0 < msg.sensor then
    let h := h.ifPresent (updateSensor s now msg.sensor [] · .sensor 1) msg.ch1
    let h := h.ifPresent (updateSensor s now msg.sensor ".2" · .sensor 2) msg.ch2
    let h := h.ifPresent (updateSensor s now msg.sensor ".3" · .sensor 3) msg.ch3
    let h := h.ifPresent (updateSensor s now msg.sensor [] · .always 1) msg.imp
    h.updateTemperatures s now msg
  else h

end Hah.CurrentCost
