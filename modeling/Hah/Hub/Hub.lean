import Hah.C.Numbers
import Hah.Xap.Parse

/-!
# `xap-hub/hub.c`

The hub receives every packet of the bus on one port and relays it to the ports of the
programs on this host. A program announces its port with a heartbeat, leaves with
`xap-hbeat.stop`, and is dropped by the reaper when its heartbeats stop.

A packet of local origin is parsed in a copy of the frame. When that parse stores behind
`parsedMsg`, what the program does next is not defined by the source: the step is `none`.
-/

namespace Hah.Hub
open C Xap

def reapTimeSecs : Int := 10

/-- `XAP_PORT_L`, which `main` requires `gXAP->rxPort` to be. -/
def rxPort : Int := 3639

/-- `struct hubEntry`, without its list link. -/
structure HubEntry where
  port : Int
  interval : Int
  timer : Int
  isAlive : Bool
  deriving DecidableEq, Repr

/-- `hubList`, first entry first, and `gXAP->frame`. -/
structure HubState where
  hubList : List HubEntry
  frame : XapFrame

/-- One `sendto` to 127.0.0.1: the port of the socket address and the payload. -/
structure Sent where
  port : Nat
  payload : Bytes
  deriving DecidableEq, Repr

/-- The UDP port that `sin_port = htons(port)` denotes: `htons` takes 16 bits. -/
def udpPort (port : Int) : Nat := (port % 65536).toNat

def relayLoop (frame : XapFrame) : List HubEntry → List Sent
  | [] => []
  | entry :: rest =>
    if entry.isAlive then
      ⟨udpPort entry.port, bytesAt frame.dataPacket 0 frame.len⟩ :: relayLoop frame rest
    else relayLoop frame rest

/-- `hubRelay`: what it sends, in order. -/
def hubRelay (h : HubState) : List Sent := relayLoop h.frame h.hubList

/-- Change the entry that `LL_SEARCH_SCALAR` finds for a port. -/
def changeEntry (port : Int) (change : HubEntry → HubEntry) : List HubEntry → List HubEntry
  | [] => []
  | entry :: rest =>
    if entry.port = port then change entry :: rest else entry :: changeEntry port change rest

def addOrUpdateHubEntry (hubList : List HubEntry) (port interval : Int) : List HubEntry :=
  if hubList.any (·.port = port) then
    changeEntry port (fun entry =>
      { entry with interval := interval, timer := wrap32 (interval * 2), isAlive := true }) hubList
  else ⟨port, interval, wrap32 (interval * 2), true⟩ :: hubList

/-- The loop body of `reapHubConnections`. -/
def reapEntry (interval : Int) (entry : HubEntry) : HubEntry :=
  if entry.isAlive then
    let entry := { entry with timer := wrap32 (entry.timer - interval) }
    if entry.timer ≤ 0 then { entry with isAlive := false } else entry
  else entry

def reapHubConnections (interval : Int) (hubList : List HubEntry) : List HubEntry :=
  hubList.map (reapEntry interval)

def stopHubConnection (hubList : List HubEntry) (port : Int) : List HubEntry :=
  changeEntry port (fun entry => { entry with isAlive := false }) hubList

/-- What `recvfrom` stores of a datagram. -/
def received (datagram : Bytes) : Bytes := datagram.take (xapDataLen - 1)

/-- The heartbeat branch of `xapRxBroadcast`, on the parsed copy `f` of the frame: the new
`hubList`, or `none` when the heartbeat is the hub's own. -/
def onHeartbeat (hubList : List HubEntry) (f : XapFrame) : Option (List HubEntry) :=
  let interval := xapGetValueF f (ascii "xap-hbeat") (some (ascii "interval"))
  let port := xapGetValueF f (ascii "xap-hbeat") (some (ascii "port"))
  match port, interval with
  | some port, some interval =>
    let iport := atoi port
    if iport = rxPort then none
    else if xapGetValueF f (ascii "xap-hbeat") (some (ascii "class")) = some (ascii "xap-hbeat.stop") then
      some (stopHubConnection hubList iport)
    else some (addOrUpdateHubEntry hubList iport (atoi interval))
  | _, _ => some hubList

/-- `xapRxBroadcast` on a datagram; `fromHere` when its source address is the hub's own. -/
def xapRxBroadcast (h : HubState) (fromHere : Bool) (datagram : Bytes) : Option (HubState × List Sent) :=
  if received datagram = [] then some ({ h with frame := { h.frame with len := 0 } }, [])
  else
    let h := { h with frame := h.frame.load (received datagram) }
    if fromHere then
      if ∀ slot ∈ parseStores h.frame, slot < xapMsgElements then
        let f := parseMsgF h.frame
        if xapGetTypeF f = .hbeat then
          match onHeartbeat h.hubList f with
          | none => some (h, [])
          | some hubList => some ({ h with hubList := hubList }, hubRelay { h with hubList := hubList })
        else some (h, hubRelay h)
      else none
    else some (h, hubRelay h)

inductive HubEvent where
  | packet (fromHere : Bool) (datagram : Bytes)
  | reap
  deriving DecidableEq, Repr

/-- One callback of the main loop: the new state and what it sends. -/
def hubStep (h : HubState) : HubEvent → Option (HubState × List Sent)
  | .packet fromHere datagram => xapRxBroadcast h fromHere datagram
  | .reap => some ({ h with hubList := reapHubConnections reapTimeSecs h.hubList }, [])

/-- The hub as `main` sets it up: `gXAP` comes from `calloc`. -/
def hubStart : HubState := ⟨[], XapFrame.blank⟩

def hubRun (h : HubState) : List HubEvent → Option HubState
  | [] => some h
  | event :: run => (hubStep h event).bind fun next => hubRun next.1 run

end Hah.Hub
