import Hah.Livebox.Ppe
import Hah.Lib.Supply

/-!
# Start of the daemon: `livebox.c`, `ini.c` and the lists of `xaplib2`

`main` creates the endpoints of the board and those of the settings file, and registers
them: each endpoint gets filters for the messages it answers and a timeout for its info
message, in lists that hold pointers to the endpoints. A `Daemon` has these lists and
the identifier of the next endpoint.

An endpoint is known to the lists by its address. The addresses come from an `Allocator`,
which may hand out any address that no endpoint has, also one that was freed. What the
functions send to the serial port is left out.
-/

namespace Hah.Livebox
open C Bsc

/-! ## The settings file -/

/-- The settings file as `minIni` reads it: the sections in the order of the file, and the text of
a key of a section, empty if there is none. -/
structure Ini where
  sections : List Bytes
  value : Bytes → Bytes → Bytes

/-- `ini_gets` with the default `""` into a buffer of `size` bytes. -/
def Ini.gets (ini : Ini) (section' key : Bytes) (size : Nat) : Bytes :=
  (ini.value section' key).take (size - 1)

def Ini.getl (ini : Ini) (section' key : Bytes) (defValue : Int) : Int :=
  let buff := ini.gets section' key 64
  if buff = [] then defValue else atoi buff

/-- The sections that the loop of `addIniEndpoints` sees in its buffer of 30 bytes. -/
def Ini.sectionNames (ini : Ini) : List Bytes := (ini.sections.map (·.take 29)).takeWhile (· ≠ [])

/-- The settings file with these sections, and these values of a section and a key. -/
def Ini.of (sections : List String) (values : List (String × String × String)) : Ini where
  sections := sections.map ascii
  value := fun section' key =>
    ((values.find? fun v => ascii v.1 == section' && ascii v.2.1 == key).map fun v => ascii v.2.2).getD []

/-- `firmwareVersionOverride`: the major version it leaves. -/
def firmwareVersionOverride (ini : Ini) (major : Int) : Int :=
  let override := atoi (ini.gets "hardware" "major" 3)
  if override = 0 then major else override

/-! ## Endpoints and their registrations -/

/-- The address of an endpoint, and what stands behind it. -/
structure Handle where
  addr : Nat
  device : Device
  deriving DecidableEq, Repr

/-- `calloc` of an endpoint: an address that no endpoint has. -/
abbrev Allocator := Lib.Supply Nat

inductive FilterAction where
  | bscIncomingCmd
  | bscIncomingQuery
  | rfXmit
  | rfXmitPacked
  deriving DecidableEq, Repr

inductive TimeoutAction where
  | heartbeatHandler
  | bscInfoTimeout
  | timeoutCheck1wire
  | timeoutReport1wire
  deriving DecidableEq, Repr

/-- `xAPFilterCallback`; no user data is `NULL`. -/
structure FilterCallback where
  callback : FilterAction
  userData : Option Nat
  deriving DecidableEq, Repr

/-- `xAPTimeoutCallback`. -/
structure TimeoutCallback where
  callback : TimeoutAction
  interval : Int
  userData : Option Nat
  deriving DecidableEq, Repr

/-- The lists of the daemon, the `id` of `bsc.c`, the number of endpoints allocated so far, and
whether a `die_if` has ended the process. -/
structure Daemon where
  endpointList : List (Endpoint Handle)
  id : UInt8
  callocs : Nat
  filterList : List FilterCallback
  timeoutList : List TimeoutCallback
  died : Bool

def addrOf (e : Endpoint Handle) : Nat := e.device.addr

/-- `bscSetEndpointUID`. -/
def Daemon.setEndpointUID (s : Daemon) (nid : UInt8) : Daemon := { s with id := nid }

/-- `bscAddEndpoint(&endpointList, ..)`. -/
def Daemon.addEndpoint (m : Allocator) (s : Daemon) (name : Bytes) (subaddr : Option Bytes)
    (io : Io) (type : EndpointType) (device : Device) : Daemon :=
  let addr := m.pick s.callocs (s.endpointList.map addrOf)
  let added := bscAddEndpoint s.endpointList s.id name subaddr io type ⟨addr, device⟩
  { s with endpointList := added.1, id := added.2, callocs := s.callocs + 1 }

/-- `xapAddFilterAction`. -/
def Daemon.addFilterAction (s : Daemon) (callback : FilterAction) (data : Option Nat) : Daemon :=
  { s with filterList := ⟨callback, data⟩ :: s.filterList }

/-- `xapAddTimeoutAction`. -/
def Daemon.addTimeoutAction (s : Daemon) (callback : TimeoutAction) (interval : Int) (data : Option Nat) :
    Daemon :=
  { s with
    died := s.died || decide (interval < 1)
    timeoutList := ⟨callback, interval, data⟩ :: s.timeoutList }

def bscAddEndpointFilter (infoInterval : Int) (s : Daemon) (e : Endpoint Handle) : Daemon :=
  let s := if e.io = .output then s.addFilterAction .bscIncomingCmd (some (addrOf e)) else s
  let s := s.addFilterAction .bscIncomingQuery (some (addrOf e))
  if 0 < infoInterval then s.addTimeoutAction .bscInfoTimeout infoInterval (some (addrOf e)) else s

def bscAddEndpointFilterList (s : Daemon) (infoInterval : Int) : Daemon :=
  s.endpointList.foldl (bscAddEndpointFilter infoInterval) s

/-! ## Endpoints of the settings file -/

/-- The endpoints of a `[ppeN]` section in its mode. -/
def addPPEmode (m : Allocator) (s : Daemon) (p : PpeSection) : Daemon :=
  if p.byteMode then
    s.addEndpoint m "ppe" (some (decimal p.sectionNumber)) .output .stream (.ppe p.user)
  else
    (List.range 8).foldl (fun s pin =>
      s.addEndpoint m "ppe" (some (pinSubaddr p.sectionNumber pin)) .output .binary (.ppe p.user)) s

/-- `addPPEendpoints`. The local `addr` is not initialised: if the address is no number, it is what
the stack held, `stack`. -/
def addPPEendpoints (m : Allocator) (ini : Ini) (stack : Int) (s : Daemon) (section' : Bytes) : Daemon :=
  let sectionNumber := atoi (section'.drop 3)
  let sAddr := ini.gets section' "address" 5
  let addr := (sscanfHex sAddr).getD stack
  let mode := ini.gets section' "mode" 5
  if sectionNumber < 1 ∨ 8 < sectionNumber then s
  else if sAddr = [] then s
  else if addr < 0x40 ∨ 0x7e < addr ∨ addr % 2 = 1 then s
  else if mode = [] then s
  else
    let p := fun byteMode => PpeSection.mk sectionNumber.toNat addr.toNat.toUInt8 byteMode
    let s := s.setEndpointUID (p true).firstId
    if strcasecmpEq mode "byte" then addPPEmode m s (p true)
    else if strcasecmpEq mode "pin" then addPPEmode m s (p false)
    else s

inductive LoadMode where
  | delayed
  | immediate
  deriving DecidableEq, Repr

/-- `maxDevices` of `addOneWireIniEndpoints`. -/
def maxDevices (major : Int) : Int := if 1 < major then 31 else 15

/-- `n` of `addOneWireIniEndpoints`. -/
def oneWireDevices (ini : Ini) (major : Int) : Int :=
  min (ini.getl "1wire" "devices" (-1)) (maxDevices major)

/-- `t` of `addOneWireIniEndpoints`. -/
def oneWireTimeout (ini : Ini) : Int := ini.getl "1wire" "timeout" (-1)

/-- A sensor with a new firmware needs a ROM identifier of 16 characters. -/
def romidMissing (ini : Ini) (major : Int) (i : Nat) : Bool :=
  let buff := ("sensor" ++ decimal i ++ ".romid").take 29
  decide (1 < major) && decide (((ini.gets "1wire" buff 19).take 16).length < 16)

/-- What a turn of the loop registers for its new endpoint. -/
def watchSensor (mode : LoadMode) (t : Int) (s : Daemon) (e : Endpoint Handle) : Daemon :=
  let s := if 0 < t then s.addTimeoutAction .timeoutCheck1wire (wrap32 (t * 60)) (some (addrOf e)) else s
  if mode = .immediate then bscAddEndpointFilter 120 s e else s

/-- A turn of the loop of `addOneWireIniEndpoints`. -/
def addSensor (m : Allocator) (ini : Ini) (major : Int) (mode : LoadMode) (s : Daemon) (i : Nat) : Daemon :=
  if romidMissing ini major i then s
  else
    let s := s.addEndpoint m "1wire" (some (decimal i)) .input .stream .oneWire
    -- the endpoint that `bscAddEndpoint` returns is the head of the list
    match s.endpointList with
    | [] => s
    | e :: _ => watchSensor mode (oneWireTimeout ini) s e

def addOneWireIniEndpoints (m : Allocator) (ini : Ini) (major : Int) (mode : LoadMode) (s : Daemon) : Daemon :=
  let t := oneWireTimeout ini
  let s := (List.range' 1 (oneWireDevices ini major).toNat).foldl (addSensor m ini major mode)
    (s.setEndpointUID 128)
  if 0 < t then s.addTimeoutAction .timeoutReport1wire (wrap32 (t * 60 - 10)) none else s

/-- `devices` of an `[rf]` section. The limit that follows it in the source is assigned to `n`,
which the loop does not read. -/
def rfDevices (ini : Ini) : Int := ini.getl "rf" "devices" (-1)

/-- The loop of an `[rf]` section; `size` is that of the buffer for the sub-address. -/
def addRfEndpoints (m : Allocator) (ini : Ini) (size : Nat) (s : Daemon) : Daemon :=
  (List.range' 1 (rfDevices ini).toNat).foldl (fun s i =>
    s.addEndpoint m "rf" (some ((decimal i).take (size - 1))) .output .binary .rf)
    (s.setEndpointUID 160)

/-- A turn of the loop of `addIniEndpoints`. -/
def addSection (m : Allocator) (ini : Ini) (stack : Bytes → Int) (major : Int) (s : Daemon)
    (section' : Bytes) : Daemon :=
  if section'.take 3 = "ppe" then addPPEendpoints m ini (stack section') s section'
  else if section' = "1wire" then addOneWireIniEndpoints m ini major .delayed s
  else if major = 1 ∧ section' = "rf" then addRfEndpoints m ini 30 s
  else if 1 < major ∧ section' = "rf" then addRfEndpoints m ini 3 s
  else s

/-- `addIniEndpoints`, with the firmware version it works with. -/
def addIniEndpoints (m : Allocator) (ini : Ini) (stack : Bytes → Int) (major : Int) (s : Daemon) : Daemon :=
  ini.sectionNames.foldl (addSection m ini stack (firmwareVersionOverride ini major)) s

/-- The lists after `xapInit`. -/
def Daemon.init : Daemon :=
  { endpointList := [], id := 1, callocs := 0, filterList := [],
    timeoutList := [⟨.heartbeatHandler, 60, none⟩], died := false }

/-- The endpoints that `main` creates itself. -/
def addBoardEndpoints (m : Allocator) (s : Daemon) : Daemon :=
  let s := s.addEndpoint m "lcd" none .output .stream .lcd
  let s := [1, 2, 3, 4].foldl (fun s i =>
    s.addEndpoint m "input" (some (decimal i)) .input .binary .input) s
  [1, 2, 3, 4].foldl (fun s i =>
    s.addEndpoint m "relay" (some (decimal i)) .output .binary .relay) (s.setEndpointUID 96)

def createEndpoints (m : Allocator) (ini : Ini) (stack : Bytes → Int) (major : Int) : Daemon :=
  addIniEndpoints m ini stack major (addBoardEndpoints m Daemon.init)

/-- The filters that `main` adds for a universal RF transmitter. -/
def addRfFilters (major : Int) (s : Daemon) : Daemon :=
  if 1 < major then (s.addFilterAction .rfXmit none).addFilterAction .rfXmitPacked none else s

/-- `main` up to its loop. -/
def startDaemon (m : Allocator) (ini : Ini) (stack : Bytes → Int) (major : Int) : Daemon :=
  addRfFilters (firmwareVersionOverride ini major)
    (bscAddEndpointFilterList (createEndpoints m ini stack major) 120)

/-! ## What an operation leaves -/

/-- The new endpoint stands in front, at an address of its own, and nothing else changes. -/
theorem addEndpoint_spec (m : Allocator) (s : Daemon) (name : Bytes) (subaddr : Option Bytes)
    (io : Io) (type : EndpointType) (device : Device) :
    ∃ e : Endpoint Handle, s.addEndpoint m name subaddr io type device =
        { s with
          endpointList := e :: s.endpointList
          id := s.id + 1
          callocs := s.callocs + 1 } ∧
      e.name = name ∧ e.io = io ∧ e.id = s.id ∧ e.device.device = device ∧
      addrOf e ∉ s.endpointList.map addrOf :=
  ⟨_, rfl, rfl, rfl, rfl, rfl, m.fresh _ _⟩

/-- A property that the creation of an endpoint keeps, unless the endpoint is a sensor. -/
structure Lasting (m : Allocator) (P : Daemon → Prop) : Prop where
  uid : ∀ s nid, P s → P (s.setEndpointUID nid)
  add : ∀ s (name : Bytes) subaddr io type device, name ≠ "1wire" → (device = .rf → io = .output) → P s →
    P (s.addEndpoint m name subaddr io type device)

section Lasting

variable {m : Allocator} {P : Daemon → Prop} (lasting : Lasting m P) {s : Daemon} (ini : Ini)
include lasting

theorem Lasting.outputs {β : Type} {name : Bytes} (plain : name ≠ "1wire") (subaddr : β → Option Bytes)
    (type : EndpointType) (device : Device) (indices : List β) (h : P s) :
    P (indices.foldl (fun s i => s.addEndpoint m name (subaddr i) .output type device) s) :=
  List.foldlRecOn indices _ h fun s h _ _ => lasting.add s name _ _ _ _ plain (fun _ => rfl) h

theorem Lasting.ppeMode (p : PpeSection) (h : P s) : P (addPPEmode m s p) := by
  unfold addPPEmode
  split
  · exact lasting.add s _ _ _ _ _ (by decide) (fun _ => rfl) h
  · exact lasting.outputs (by decide) _ _ _ _ h

theorem Lasting.ppeEndpoints (stack : Int) (section' : Bytes) (h : P s) :
    P (addPPEendpoints m ini stack s section') := by
  simp only [addPPEendpoints]
  split_ifs
  all_goals first
    | exact h
    | exact lasting.ppeMode _ (lasting.uid s _ h)
    | exact lasting.uid s _ h

theorem Lasting.rfEndpoints (size : Nat) (h : P s) : P (addRfEndpoints m ini size s) :=
  lasting.outputs (by decide) _ _ _ _ (lasting.uid s _ h)

theorem Lasting.boardEndpoints (h : P s) : P (addBoardEndpoints m s) := by
  have lcd := lasting.add s "lcd" none .output .stream .lcd (by decide) (fun _ => rfl) h
  have inputs := List.foldlRecOn [1, 2, 3, 4] (fun s i => s.addEndpoint m "input" (some (decimal i)) .input .binary .input)
    lcd fun s h i _ => lasting.add s "input" _ _ _ _ (by decide) (by decide) h
  exact lasting.outputs (by decide) _ _ _ _ (lasting.uid _ _ inputs)

end Lasting

end Hah.Livebox
