import Hah.Xap.Lower
import Hah.Bsc.Command
import Hah.Bsc.Report
import Hah.Livebox.OneWire

/-!
# The loop of `xap-livebox`

`xapProcess` hands out xAP messages, requests of the web server, lines from the AVR and
timeouts. A `Connector` is what they work on: the lists of the daemon, the firmware version,
the settings that the sensors were created from, and the frame of the last message. An
event that reads through `NULL` or through the pointer to an endpoint that is gone has no
outcome.
-/

namespace Hah.Livebox
open C Bsc Xap

structure Connector where
  daemon : Daemon
  major : Int
  minor : Int
  /-- The settings that the 1-wire endpoints were created from. -/
  sensors : Ini
  /-- The RF endpoints have `cmdURF` and not `cmdRF`. -/
  universalRf : Bool
  /-- `gXAP->source`. -/
  source : Bytes
  frame : XapFrame

/-- What an event finds: the settings file, and the text that `infoEvent1wire` leaves in a sensor. -/
structure Around where
  ini : Ini
  infoText : Endpoint Handle → Option Bytes

/-! ## Handlers of endpoints -/

/-- `cmdURF`, as far as the endpoint is concerned. -/
def cmdURF (ini : Ini) (e : Endpoint Handle) : Endpoint Handle :=
  let relayKey := ("rf" ++ e.subaddr.getD [] ++ "." ++ e.state.text).take 9
  if ini.gets "rf" relayKey 256 = [] then bscSetState e .unknown else e

/-- `(*e->cmd)(e)`: the other handlers only write to the serial port. -/
def runCmd (universalRf : Bool) (ini : Ini) (e : Endpoint Handle) : Endpoint Handle :=
  if universalRf ∧ e.device.device = .rf then cmdURF ini e else e

/-- `bscSendInfoEvent`: only `infoEvent1wire` changes the text. -/
def bscSendInfoEvent (w : Around) (e : Endpoint Handle) : Endpoint Handle :=
  if e.device.device = .oneWire then { e with text := w.infoText e } else e

def bscSendCmdEvent (universalRf : Bool) (w : Around) (e : Endpoint Handle) : Endpoint Handle :=
  bscSendInfoEvent w (runCmd universalRf w.ini e)

/-- Change the endpoint that a pointer leads to. -/
def Daemon.atAddr (s : Daemon) (addr : Nat) (change : Endpoint Handle → Option (Endpoint Handle)) :
    Option Daemon := do
  let e ← s.endpointList.find? fun e => addrOf e == addr
  let e' ← change e
  return { s with endpointList := modifyFirst (fun e => addrOf e == addr) (fun _ => e') s.endpointList }

/-! ## xAP messages -/

/-- `bscFQEN`, in its buffer of 512 bytes. -/
def endpointSource (source : Bytes) (e : Endpoint Handle) : Bytes :=
  (source ++ ":" ++ e.name ++
    match e.subaddr with
    | none => []
    | some subaddr => "." ++ subaddr).take 511

/-- The filters that `bscAddEndpointFilter` and `main` register with a callback. -/
def filterChain (box : Connector) (f : FilterCallback) : List XapFilter :=
  let header := fun key value => XapFilter.mk "xap-header" key value
  let target := fun source => header "target" source
  let endpoint := (box.daemon.endpointList.find? fun e => some (addrOf e) == f.userData).map
    (endpointSource box.source)
  let rf := fun keys => [target box.source, header "class" "rf.xmit"] ++
    List.map (fun key => XapFilter.mk "rf" key xapFilterAny) keys
  match f.callback with
  | .bscIncomingCmd => [header "class" "xAPBSC.cmd", target (endpoint.getD [])]
  | .bscIncomingQuery => [header "class" "xAPBSC.query", target (endpoint.getD [])]
  | .rfXmit => rf ["pulsedef", "burstcount", "interburstdelay", "frames", "stream"]
  | .rfXmitPacked => rf ["data"]

/-- `xapGetValue` on the frame of the message. -/
def Connector.values (box : Connector) : Values := fun section' key => xapGetValueF box.frame section' (some key)

/-- A callback of the filter list; the RF callbacks only write to the serial port. -/
def callFilter (w : Around) (f : FilterCallback) (box : Connector) : Option Connector :=
  match f.callback, f.userData with
  | .bscIncomingCmd, some addr =>
    (box.daemon.atAddr addr fun e =>
      (bscIncomingCmd box.values (bscSendCmdEvent box.universalRf w) e).map Prod.fst).map
        fun daemon => { box with daemon := daemon }
  | .bscIncomingQuery, some addr =>
    (box.daemon.atAddr addr fun e => some (bscSendInfoEvent w e)).map fun daemon => { box with daemon := daemon }
  | .rfXmit, none | .rfXmitPacked, none => some box
  | _, _ => none

/-- `handleXapPacket`. A scan that stores behind `parsedMsg` has no outcome. -/
def handleXapPacket (w : Around) (box : Connector) (packet : Bytes) : Option Connector :=
  let loaded := box.frame.load packet
  if box.daemon.filterList = [] then some { box with frame := loaded }
  else if ∀ slot ∈ parseStores loaded, slot < xapMsgElements then
    let parsed := { box with frame := parseMsgF loaded }
    filterDispatch Connector.frame (callFilter w)
      (box.daemon.filterList.map fun f => ⟨f, filterChain box f⟩) parsed
  else none

/-! ## Requests of the web server -/

/-- `strtok`: the next token, and what is left behind the byte that ended it. -/
def strtok (delimiter : UInt8 → Bool) (s : Bytes) : Option (Bytes × Bytes) :=
  match s.dropWhile delimiter with
  | [] => none
  | c :: rest =>
    some ((c :: rest).takeWhile (!delimiter ·), ((c :: rest).dropWhile (!delimiter ·)).drop 1)

def isSpace (c : UInt8) : Bool := c == 32
def isDot (c : UInt8) : Bool := c == 46
def isComma (c : UInt8) : Bool := c == 44

/-- `strtok(NULL, "")`: everything that is left. -/
def strtokRest (s : Bytes) : Option Bytes := (strtok (fun _ => false) s).map Prod.fst

/-- An endpoint and a state as an `action` request gives them. -/
structure ActionTuple where
  name : Bytes
  subaddr : Bytes
  state : Bytes
  deriving DecidableEq, Repr

/-- The tuple in a word of the request, `none` if it is malformed. -/
def actionTuple (word : Bytes) : Option ActionTuple := do
  let (name, rest) ← strtok isDot word
  let (subaddr, rest) ← strtok isComma rest
  let (state, _) ← strtok isSpace rest
  return ⟨name, subaddr, state⟩

/-- The tuples that the loop of `msg_action` gets to: it returns at one that is malformed. The
argument bounds the number of words. -/
def actionTuples : Nat → Bytes → List ActionTuple
  | 0, _ => []
  | n + 1, args =>
    match strtok isSpace args with
    | none => []
    | some (word, rest) =>
      match actionTuple word with
      | none => []
      | some t => t :: actionTuples n rest

def ActionTuple.names (t : ActionTuple) (e : Endpoint Handle) : Bool := e.isNamed t.name (some t.subaddr)

/-- `bscSetState` and `bscSendCmdEvent` of a tuple. -/
def ActionTuple.drive (universalRf : Bool) (w : Around) (e : Endpoint Handle) (t : ActionTuple) : Endpoint Handle :=
  bscSendCmdEvent universalRf w (bscSetState e (bscDecodeState (some t.state)))

/-- The body of the loop of `msg_action`. -/
def actOn (universalRf : Bool) (w : Around) (l : List (Endpoint Handle)) (t : ActionTuple) :
    List (Endpoint Handle) :=
  modifyFirst t.names (t.drive universalRf w) l

/-- What the tuples of an `action` request make of the endpoints, one after the other. -/
def Connector.act (w : Around) (box : Connector) (ts : List ActionTuple) : Connector :=
  { box with daemon := { box.daemon with
    endpointList := ts.foldl (actOn box.universalRf w) box.daemon.endpointList } }

def msgAction (w : Around) (box : Connector) (args : Bytes) : Connector := box.act w (actionTuples args.length args)

/-- The text of a `version` reply. -/
def Connector.version (box : Connector) : Bytes := decimalInt box.major ++ "." ++ decimalInt box.minor

/-- `msg_handler`, without the reply. A request without a word, an argument that is not there but
is used, and a version that does not fit its buffer of 4 bytes have no outcome. -/
def msgHandler (m : Allocator) (w : Around) (box : Connector) (request : Bytes) : Option Connector := do
  let (cmd, rest) ← strtok isSpace request
  let args := strtokRest rest
  if cmd = "query" then
    let args ← args
    let _ ← strtok isDot args
    return box
  else if cmd = "version" then
    if box.version.length < 4 then return box else none
  else if cmd = "1wirereset" then
    return { box with
      daemon := resetOneWireEndpoints m box.daemon ⟨w.ini, box.major⟩
      sensors := w.ini }
  else if cmd = "1wireroms" then
    return box
  else if cmd = "action" then
    let args ← args
    return msgAction w box args
  else if cmd = "AVR" then
    return box
  else if cmd = "lcd" then
    match bscFindEndpoint box.daemon.endpointList "lcd" none with
    | none => return box
    | some _ =>
      let args ← args
      return { box with daemon := { box.daemon with
        endpointList := modifyFirst (fun e => e.isNamed "lcd" none)
          (fun e => bscSendCmdEvent box.universalRf w (bscSetText e args)) box.daemon.endpointList } }
  else return box

/-! ## Timeouts -/

/-- A callback of the timeout list. `due` says that an info message is due, or that a sensor has
been silent for too long. -/
def callTimeout (w : Around) (due : Bool) (box : Connector) (c : TimeoutCallback) : Option Connector :=
  match c.callback, c.userData with
  | .heartbeatHandler, _ | .timeoutReport1wire, _ => some box
  | .bscInfoTimeout, some addr =>
    (box.daemon.atAddr addr fun e => some (if due then bscSendInfoEvent w e else e)).map
      fun daemon => { box with daemon := daemon }
  | .timeoutCheck1wire, some addr =>
    (box.daemon.atAddr addr fun e =>
      some (if due then bscSetText (bscSetState e .unknown) "?" else e)).map
        fun daemon => { box with daemon := daemon }
  | _, none => none

/-! ## Lines from the AVR -/

/-- `sensor->romid` of a 1-wire endpoint. -/
def romid (sensors : Ini) (e : Endpoint Handle) : Bytes :=
  let buff := ("sensor" ++ e.subaddr.getD [] ++ ".romid").take 29
  (sensors.gets "1wire" buff 19).take 16

/-- The sensor that a `1wire` line is about: by its ROM identifier, or by its number with an old
firmware. -/
def isSensor (box : Connector) (arg : Bytes) (e : Endpoint Handle) : Bool :=
  if 1 < box.major then isOneWire e && romid box.sensors e == arg.take 16
  else e.isNamed "1wire" (some arg)

/-- `serin_1wire`; what it keeps of a sensor that is not assigned is left out. -/
def onSensorLine (w : Around) (box : Connector) (args : List Bytes) : Connector :=
  { box with daemon := { box.daemon with
    endpointList := modifyFirst (isSensor box (args.getD 0 []))
      (fun e => bscSendInfoEvent w (bscSetText (bscSetState e .on) (args.getD 1 []))) box.daemon.endpointList } }

/-- Let a function on endpoints of devices set the states and texts of the endpoints of the daemon,
place by place. -/
def onDevices (f : Endpoints Device → Endpoints Device) (l : List (Endpoint Handle)) : List (Endpoint Handle) :=
  let devices := l.map fun e => { e with device := e.device.device }
  List.zipWith (fun e e' => { e with state := e'.state, text := e'.text }) l (f ⟨devices, []⟩).list

/-- `serin_firmware_rev`. -/
def onRevisionLine (box : Connector) (args : List Bytes) : Connector :=
  let arg := args.getD 0 []
  { box with
    major := atoi (arg.takeWhile (!isDot ·))
    minor := if arg.any isDot then atoi ((arg.dropWhile (!isDot ·)).drop 1) else 0 }

/-- `processSerialCommand`; a prompt of the AVR ends the process. -/
def processSerialCommand (w : Around) (box : Connector) (line : Bytes) : Option Connector :=
  if line.head? = some 62 then none
  else
    let withList := fun l => { box with daemon := { box.daemon with endpointList := l } }
    match serialCommand line with
    | none => some box
    | some (.input, args) => some (withList (serinInput ⟨box.daemon.endpointList, []⟩ args).list)
    | some (.oneWire, args) => some (onSensorLine w box args)
    | some (.ppe, args) => some (withList (onDevices (serinPpe · args) box.daemon.endpointList))
    | some (.firmwareRev, args) => some (onRevisionLine box args)

/-! ## Runs -/

inductive LiveboxEvent where
  | packet (data : Bytes)
  | request (text : Bytes)
  | timeout (callback : TimeoutCallback) (due : Bool)
  | line (text : Bytes)
  deriving DecidableEq, Repr

/-- One event; only timeouts in the list fire, and nothing happens after a `die_if`. -/
def Connector.step (m : Allocator) (box : Connector) (w : Around) (event : LiveboxEvent) : Option Connector :=
  if box.daemon.died then none
  else
    match event with
    | .packet data => handleXapPacket w box data
    | .request text => msgHandler m w box text
    | .timeout callback due => if callback ∈ box.daemon.timeoutList then callTimeout w due box callback else none
    | .line text => processSerialCommand w box text

def Connector.run (m : Allocator) (box : Connector) : List (Around × LiveboxEvent) → Option Connector
  | [] => some box
  | (w, event) :: rest => (box.step m w event).bind fun next => next.run m rest

/-- `main` up to its loop, with the address on the LCD. -/
def startLivebox (m : Allocator) (ini : Ini) (stack : Bytes → Int) (major minor : Int)
    (source ip : Bytes) : Connector :=
  let daemon := startDaemon m ini stack major
  let major := firmwareVersionOverride ini major
  { daemon := { daemon with
      endpointList := modifyFirst (fun e => e.isNamed "lcd" none) (bscSetText · ip) daemon.endpointList }
    major := major
    minor := minor
    sensors := ini
    universalRf := decide (1 < major)
    source := source
    frame := XapFrame.blank }

end Hah.Livebox
