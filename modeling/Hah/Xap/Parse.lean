import Hah.C.Strings

/-!
# `xaplib2/parse.c`

The frame of `xap.h` and the functions that read and write it. `parseMsgF` scans
`dataPacket` with five states and edits it in place: the byte that ends a name, a
key or a value becomes NUL and `rtrim` walks back over control bytes. Pointers are
offsets into `dataPacket`, `none` is `NULL`.

`parsedMsg` is indexed by every natural number. The C array has
`XAP_MSG_ELEMENTS` slots, and `stores` keeps the index of every slot that a scan
writes, so that a store behind the array is visible.
-/

namespace Hah.Xap
open C

def xapDataLen : Nat := 1500
def xapMsgElements : Nat := 150

def lbrace : UInt8 := 123
def rbrace : UInt8 := 125
def equals : UInt8 := 61

/-- `struct parsedMsgElement`. -/
structure ParsedMsgElement where
  sectionPtr : Option Nat
  keyPtr : Option Nat
  valuePtr : Option Nat
  deriving DecidableEq, Repr

structure XapFrame where
  len : Nat
  dataPacket : Mem
  parsedMsgCount : Nat
  parsedMsg : Nat → ParsedMsgElement

/-- A frame of zero bytes, as `calloc` gives it. -/
def XapFrame.blank : XapFrame :=
  { len := 0, dataPacket := fun _ => 0, parsedMsgCount := 0, parsedMsg := fun _ => ⟨none, none, none⟩ }

/-- Fill the packet with `d` and terminate it, as `readXapData` does after `recvfrom`.
The bytes behind the terminator are left over from earlier packets. -/
def XapFrame.load (frame : XapFrame) (d : Bytes) : XapFrame :=
  { frame with
    len := d.length
    dataPacket := fun j =>
      if j < d.length then d.getD j 0 else if j = d.length then 0 else frame.dataPacket j }

/-- The string a pointer into the packet denotes. -/
def XapFrame.str (frame : XapFrame) (p : Nat) : Bytes :=
  strAt frame.dataPacket (xapDataLen + 1 - p) p

/-- `rtrim(msg, &msg[p])`: right trim control chars. -/
def rtrim (m : Mem) : Nat → Mem
  | 0 => m
  | p + 1 => if m (p + 1) < 32 then rtrim (store m (p + 1) 0) p else m

inductive ParseState where
  | startSectionName
  | inSectionName
  | startKeyname
  | inKeyname
  | inKeyvalue
  deriving DecidableEq, Repr

/-- The locals of `parseMsgF` and the frame it fills. -/
structure Scanner where
  state : ParseState
  currentSection : Option Nat
  i : Nat
  keycount : Nat
  frame : XapFrame
  stores : List Nat

/-- `frame->parsedMsg[frame->parsedMsgCount] = e`. -/
def Scanner.storeElement (s : Scanner) (e : ParsedMsgElement) : Scanner :=
  { s with
    frame := { s.frame with
      parsedMsg := fun j => if j = s.frame.parsedMsgCount then e else s.frame.parsedMsg j }
    stores := s.stores ++ [s.frame.parsedMsgCount] }

/-- `*buf = '\0'; rtrim(frame->dataPacket, buf)`. -/
def Scanner.terminate (s : Scanner) (buf : Nat) : Scanner :=
  { s with frame := { s.frame with dataPacket := rtrim (store s.frame.dataPacket buf 0) buf } }

def Scanner.countElement (s : Scanner) : Scanner :=
  { s with frame := { s.frame with parsedMsgCount := s.frame.parsedMsgCount + 1 } }

/-- The `switch` of `parseMsgF` at the byte `buf`. -/
def parseChar (s : Scanner) (buf : Nat) : Scanner :=
  let c := s.frame.dataPacket buf
  let slot := s.frame.parsedMsg s.frame.parsedMsgCount
  match s.state with
  | .startSectionName =>
    if 32 < c ∧ c < 128 then { s with state := .inSectionName, currentSection := some buf } else s
  | .inSectionName =>
    if c = lbrace then { s.terminate buf with state := .startKeyname, keycount := 0 } else s
  | .startKeyname =>
    if c = rbrace then
      -- the empty section is counted here, without the capacity check of `inKeyvalue`
      let s := if s.keycount = 0 then (s.storeElement ⟨s.currentSection, none, none⟩).countElement else s
      { s with state := .startSectionName }
    else if 32 < c ∧ c < 128 then
      { s.storeElement ⟨s.currentSection, some buf, slot.valuePtr⟩ with state := .inKeyname }
    else s
  | .inKeyname =>
    if c < 32 ∨ c = equals then
      { (s.terminate buf).storeElement { slot with valuePtr := some (buf + 1) } with
        state := .inKeyvalue }
    else s
  | .inKeyvalue =>
    if c < 32 then
      let s := { (s.terminate buf).countElement with
        state := .startKeyname, keycount := s.keycount + 1 }
      -- "Dropping key/section pairs": `i = frame->len` ends the loop
      if xapMsgElements ≤ s.frame.parsedMsgCount then { s with i := s.frame.len } else s
    else s

/-- The `for` loop; `room` is what is left of the packet buffer behind `buf`. -/
def parseLoop : Nat → Nat → Scanner → Scanner
  | 0, _, s => s
  | room + 1, buf, s =>
    if s.i < s.frame.len then
      let s := parseChar s buf
      parseLoop room (buf + 1) { s with i := s.i + 1 }
    else s

/-- The scanner when the loop of `parseMsgF` starts. -/
def parseStart (frame : XapFrame) : Scanner :=
  { state := .startSectionName, currentSection := none, i := 0, keycount := 0,
    frame := { frame with parsedMsgCount := 0 }, stores := [] }

def parseScan (frame : XapFrame) : Scanner := parseLoop xapDataLen 0 (parseStart frame)

/-- `parseMsgF`: the frame it leaves; the value it returns is `parsedMsgCount`. -/
def parseMsgF (frame : XapFrame) : XapFrame := (parseScan frame).frame

/-- The slots of `parsedMsg` that `parseMsgF` writes, in order. -/
def parseStores (frame : XapFrame) : List Nat := (parseScan frame).stores

/-- The strings of an element: section, key and value. -/
def XapFrame.strings (frame : XapFrame) (i : Nat) :
    Option Bytes × Option Bytes × Option Bytes :=
  let e := frame.parsedMsg i
  (e.sectionPtr.map frame.str, e.keyPtr.map frame.str, e.valuePtr.map frame.str)

/-- `XAP_MSG_NONE` and `XAP_MSG_UNKNOWN` are both 0. -/
inductive MsgType where
  | none
  | hbeat
  | ordinary
  | configRequest
  | cacheRequest
  | configReply
  | cacheReply
  | unknown
  deriving DecidableEq, Repr

def xapGetTypeF (frame : XapFrame) : MsgType :=
  if frame.parsedMsgCount = 0 then .none
  else
    let section0 := ((frame.parsedMsg 0).sectionPtr.map frame.str).getD []
    if strcasecmpEq section0 "xap-hbeat" then .hbeat
    else if strcasecmpEq section0 "xap-header" then .ordinary
    else if strcasecmpEq section0 "xap-config-request" then .configRequest
    else if strcasecmpEq section0 "xap-cache-request" then .cacheRequest
    else if strcasecmpEq section0 "xap-cache-reply" then .cacheReply
    else if strcasecmpEq section0 "xap-config-reply" then .configReply
    else .unknown

def xapFilterAny : Bytes := "XAP_FILTER_ANY"

/-- The test of `xapGetValueF` on one element. -/
def elementMatches (sectionName : Bytes) (key : Option Bytes)
    (e : Option Bytes × Option Bytes × Option Bytes) : Bool :=
  strcasecmpEq sectionName (e.1.getD []) &&
    match key, e.2.1 with
    | none, none => true
    | some k, some k' => strcasecmpEq k k'
    | _, _ => false

/-- `xapGetValueF`: the text of the value it returns, `none` for `NULL`. -/
def xapGetValueF (frame : XapFrame) (sectionName : Bytes) (key : Option Bytes) :
    Option Bytes :=
  match ((List.range frame.parsedMsgCount).map frame.strings).find? (elementMatches sectionName key) with
  | none => none
  | some e =>
    -- Return something for an empty section.
    if e.2.2 = none ∧ key = none then some xapFilterAny else e.2.2

/-- The buffer, the running length and `currentSection` of `parsedMsgToRawWithoutSectionF`. -/
structure RawState where
  msg : Mem
  len : Nat
  currentSection : Option Nat

/-- `len += snprintf(&msg[len], size, ...)`: every call is given the whole `size`. -/
def RawState.print (s : RawState) (size : Nat) (text : Bytes) : RawState :=
  { s with msg := snprintf s.msg s.len size text, len := s.len + text.length }

/-- The loop body of `parsedMsgToRawWithoutSectionF` for element `i`. -/
def rawElement (frame : XapFrame) (size : Nat) (skip : Option Bytes) (s : RawState) (i : Nat) :
    RawState :=
  let e := frame.parsedMsg i
  let name := (e.sectionPtr.map frame.str).getD []
  if skip.any (strcasecmpEq · name) then s
  else
    let s :=
      if s.currentSection = none ∨ s.currentSection ≠ e.sectionPtr then
        let s := if s.currentSection ≠ none then s.print size "\x7d\n" else s
        { s.print size (name ++ "\n\x7b\n") with currentSection := e.sectionPtr }
      else s
    match e.keyPtr with
    | none => s
    | some k =>
      s.print size (frame.str k ++ [equals] ++ (e.valuePtr.map frame.str).getD [] ++ "\n")

/-- `parsedMsgToRawWithoutSectionF`: the buffer and the length it returns. -/
def parsedMsgToRawWithoutSectionF (frame : XapFrame) (msg : Mem) (size : Nat)
    (skip : Option Bytes) : Mem × Nat :=
  let s : RawState := { msg := store msg 0 0, len := 0, currentSection := none }
  let s := (List.range frame.parsedMsgCount).foldl (rawElement frame size skip) s
  let s := if s.currentSection ≠ none then s.print size "\x7d\n" else s
  (s.msg, s.len)

def parsedMsgToRawF (frame : XapFrame) (msg : Mem) (size : Nat) : Mem × Nat :=
  parsedMsgToRawWithoutSectionF frame msg size none

end Hah.Xap
