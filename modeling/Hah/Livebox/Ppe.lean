import Mathlib.Data.List.Perm.Subperm
import Hah.Avr.Firmware
import Hah.Livebox.Serial

/-!
# Port expanders: `cmdPPEpin`, `cmdPPEbyte` and `serin_ppe`

A `[ppeN]` section gives a chip one endpoint for its byte or eight for its pins. A command
for a pin is inverted on its way to the chip, so that on is a low pin; a report from the
firmware is not, and sets on for a high pin. A byte is reported in decimal and commanded
in hexadecimal.

A `Rig` is the daemon, the firmware and the chips. Every processed message for a pin
leaves an `Observation`: the state of the endpoint and the level of the pin right after.
-/

namespace Hah.Livebox
open C Bsc Avr List

/-- `struct ppeEndpoint`. -/
structure PpeUser where
  sectionNumber : Nat
  i2cAddr : UInt8
  deriving DecidableEq, Repr

/-- What stands behind an endpoint of the daemon: its handlers and its user data. -/
inductive Device where
  | lcd
  | input
  | relay
  | ppe (user : PpeUser)
  | oneWire
  | rf
  deriving DecidableEq, Repr

/-! ## The daemon -/

/-- `e->userData->i2cAddr == addr`. -/
def Device.hasAddr (d : Device) (addr : Int) : Bool :=
  match d with
  | .ppe user => (user.i2cAddr.toNat : Int) == addr
  | _ => false

/-- The test of `findPPEendpoint` with a `NULL` sub-address. -/
def isPpe (addr : Int) (e : Endpoint Device) : Bool := e.name == "ppe" && e.device.hasAddr addr

/-- `"%d.%d"` of a section and a pin. -/
def pinSubaddr (sectionNumber pin : Nat) : Bytes := decimal sectionNumber ++ "." ++ decimal pin

/-- The test of `findPPEendpoint` with the sub-address of a pin. -/
def isPpePin (addr : Int) (sectionNumber pin : Nat) (e : Endpoint Device) : Bool :=
  isPpe addr e && e.subaddr == some (pinSubaddr sectionNumber pin)

/-- `e->userData->section`. -/
def Device.sectionNumber : Device → Nat
  | .ppe user => user.sectionNumber
  | _ => 0

/-- `e->userData->i2cAddr`. -/
def Device.i2cAddr : Device → UInt8
  | .ppe user => user.i2cAddr
  | _ => 0

def serinPpe (s : Endpoints Device) (args : List Bytes) : Endpoints Device :=
  let addr := atoi (args.getD 0 [])
  match s.find (isPpe addr) with
  | none => s
  | some e =>
    if e.type = .stream then
      -- byte mode
      { list := modifyFirst (isPpe addr) (bscSetText · (args.getD 2 [])) s.list
        events := s.events ++ [bscSetText e (args.getD 2 [])] }
    else
      let oldi := atoi (args.getD 1 [])
      let newi := atoi (args.getD 2 [])
      (List.range 8).foldl (setBit (isPpePin addr e.device.sectionNumber) 0 oldi newi) s

/-- `strrchr(e->subaddr,'.')+1`. -/
def pinText (subaddr : Bytes) : Bytes := (subaddr.reverse.takeWhile (· ≠ 46)).reverse

/-- `cmdPPEpin`: the line it sends. The state is inverted: logical on is a low pin. -/
def cmdPPEpin (e : Endpoint Device) : Bytes :=
  ("i2c P" ++ hex02 e.device.i2cAddr ++ pinText (e.subaddr.getD []) ++
    [if e.state = BscState.on then (48 : UInt8) else 49]).take 31

/-- `cmdPPEbyte`: the line it sends, if the text is two hex digits. -/
def cmdPPEbyte (e : Endpoint Device) : Option Bytes :=
  let text := e.text.getD []
  if isxdigit (text.getD 0 0) && isxdigit (text.getD 1 0) && text.length == 2 then
    some (("i2c B" ++ hex02 e.device.i2cAddr ++ text).take 31)
  else none

/-- The command handler that `addPPEendpoints` gives an endpoint. -/
def cmdPPE (e : Endpoint Device) : Option Bytes :=
  if e.type = .stream then cmdPPEbyte e else some (cmdPPEpin e)

/-- A `[ppeN]` section that `addPPEendpoints` accepts. -/
structure PpeSection where
  sectionNumber : Nat
  addr : UInt8
  byteMode : Bool
  deriving DecidableEq, Repr

/-- The first identifier of a section: `(sectionNumbernumber-1)*8+32`. -/
def PpeSection.firstId (s : PpeSection) : UInt8 := ((s.sectionNumber - 1) * 8 + 32).toUInt8

def PpeSection.user (s : PpeSection) : PpeUser := ⟨s.sectionNumber, s.addr⟩

/-- The endpoints of a section, in front of those before it. -/
def PpeSection.add (s : PpeSection) (head : List (Endpoint Device)) : List (Endpoint Device) × UInt8 :=
  if s.byteMode then
    bscAddEndpoint head s.firstId "ppe" (some (decimal s.sectionNumber)) .output .stream (.ppe s.user)
  else
    (List.range 8).foldl (fun made pin =>
      bscAddEndpoint made.1 made.2 "ppe" (some (pinSubaddr s.sectionNumber pin)) .output .binary
        (.ppe s.user)) (head, s.firstId)

/-! ## Daemon, firmware and chips -/

structure Rig where
  daemon : Endpoints Device
  fw : Firmware
  chips : UInt8 → UInt8

/-- A line that the firmware receives, and what it puts on the bus. -/
def Rig.send (r : Rig) (line : Bytes) : Rig :=
  let done := doCommand r.fw line
  { r with
    fw := done.1
    chips := done.2.foldl (fun chips w a => if a = w.addr then w.val else chips a) r.chips }

/-- What holds after a message for a pin: it was a report, the endpoint is on, the pin is high. -/
structure Observation where
  report : Bool
  on : Bool
  high : Bool
  deriving DecidableEq, Repr

/-- The digit behind the point of a pin's sub-address. -/
def pinNumber (e : Endpoint Device) : Nat := ((pinText (e.subaddr.getD [])).getD 0 48 - 48).toNat

def observe (chips : UInt8 → UInt8) (report : Bool) (e : Endpoint Device) : Observation :=
  { report := report, on := e.state == .on, high := (chips e.device.i2cAddr).toNat.testBit (pinNumber e) }

/-- The endpoint as a command section leaves it, before its handler runs. -/
def applyCmd (code : StateCode) (text : Bytes) (e : Endpoint Device) : Endpoint Device :=
  if e.type = .stream then bscSetText (bscSetState e code) text else bscSetState e code

/-- `bscIncomingCmd` for a port expander: set the endpoint, send its line, report the event. -/
def Rig.command (r : Rig) (subaddr : Bytes) (code : StateCode) (text : Bytes) :
    Rig × List Observation :=
  let named := fun e : Endpoint Device => e.isNamed "ppe" (some subaddr)
  match r.daemon.find named with
  | none => (r, [])
  | some e =>
    let set := applyCmd code text e
    let daemon : Endpoints Device :=
      { list := modifyFirst named (applyCmd code text) r.daemon.list, events := r.daemon.events ++ [set] }
    match cmdPPE set with
    | none => ({ r with daemon := daemon }, [])
    | some line =>
      let r := ({ r with daemon := daemon }).send line
      (r, if e.type = .stream then [] else [observe r.chips false set])

/-- The pins that a line is about, as they are observed behind it. -/
def lineObservations (chips : UInt8 → UInt8) (s : Endpoints Device) (args : List Bytes) :
    List Observation :=
  let addr := atoi (args.getD 0 [])
  match s.find (isPpe addr) with
  | none => []
  | some e =>
    if e.type = .stream then []
    else
      let oldi := atoi (args.getD 1 [])
      let newi := atoi (args.getD 2 [])
      ((List.range 8).filter fun pin => oldi.testBit pin != newi.testBit pin).filterMap fun pin =>
        (s.find (isPpePin addr e.device.sectionNumber pin)).map (observe chips true)

/-- A line of the firmware as the daemon processes it. -/
def Rig.receive (made : Rig × List Observation) (line : Bytes) : Rig × List Observation :=
  match serialCommand line with
  | some (.ppe, args) =>
    let daemon := serinPpe made.1.daemon args
    ({ made.1 with daemon := daemon }, made.2 ++ lineObservations made.1.chips daemon args)
  | _ => made

def Rig.poll (r : Rig) : Rig × List Observation :=
  let polled := reportI2C r.fw r.chips
  polled.2.foldl Rig.receive ({ r with fw := polled.1 }, [])

inductive RigEvent where
  | command (subaddr : Bytes) (code : StateCode) (text : Bytes)
  | external (addr value : UInt8)
  | request
  | poll
  deriving DecidableEq, Repr

def Rig.step (r : Rig) : RigEvent → Rig × List Observation
  | .command subaddr code text => r.command subaddr code text
  | .external addr value => ({ r with chips := fun a => if a = addr then value else r.chips a }, [])
  | .request => (r.send "report ppe", [])
  | .poll => r.poll

def Rig.run (r : Rig) : List RigEvent → List Observation
  | [] => []
  | event :: events => (r.step event).2 ++ (r.step event).1.run events

/-- The lines that register the chips when the daemon starts. -/
def registerLines (sections : List PpeSection) : List Bytes :=
  "i2c R" :: sections.map fun s => "i2c M" ++ hex02 s.addr

/-- A rig after the daemon has read its sections and registered them. -/
def Rig.start (sections : List PpeSection) (fw : Firmware) (chips : UInt8 → UInt8) : Rig :=
  let daemon : Endpoints Device := ⟨sections.foldl (fun head s => (s.add head).1) [], []⟩
  (registerLines sections).foldl Rig.send { daemon := daemon, fw := fw, chips := chips }

/-- The writes that a command for an endpoint puts on the bus. -/
def commandWrites (fw : Firmware) (e : Endpoint Device) : List BusWrite :=
  match cmdPPE e with
  | none => []
  | some line => (doCommand fw line).2

/-! ## Lines to the firmware -/

variable {a : UInt8} {pin : Nat} {e : Endpoint Device} {r : Rig}
  {arg : Bytes} {fw : Firmware} {e' : Endpoint Device} {p : Endpoint Device → Bool}
  {l l' : List (Endpoint Device)} {sectionNumber : Nat} {made : Rig × List Observation} {o : Observation}
  {sections : List PpeSection}

theorem strcasecmpEq_length {a b : Bytes} (differ : a.length ≠ b.length) : strcasecmpEq a b = false := by
  rw [← Bool.not_eq_true, strcasecmpEq_iff]
  intro same
  have lengths := congrArg List.length same
  rw [length_map, length_map] at lengths
  exact differ lengths

/-- The I2C lines of the daemon have an odd number of bytes, the other commands an even one. -/
theorem doCommand_i2c (fw : Firmware) (odd : arg.length % 2 = 1) :
    doCommand fw ("i2c " ++ arg) = doI2C fw arg := by
  have length : ("i2c " ++ arg).length = arg.length + 4 := by
    rw [length_append, Nat.add_comm]
    rfl
  have other {text : Bytes} (even : text.length % 2 = 0) :
      strcasecmpEq ("i2c " ++ arg) text = false := by
    apply strcasecmpEq_length
    omega
  have word : ("i2c " ++ arg).takeWhile (· ≠ 32) = "i2c" := rfl
  have rest : (("i2c " ++ arg).dropWhile (· ≠ 32)).tail = arg := rfl
  have hasSpace : 32 ∈ ascii "i2c " ++ arg := mem_append_left _ (by decide)
  have isI2c : strcasecmpEq "i2c" "i2c" = true := by decide
  unfold doCommand
  rw [other (by decide), other (by decide), other (by decide), other (by decide), other (by decide), word, rest]
  simp only [Bool.false_eq_true, if_false, isI2c, hasSpace, and_self, if_true]

theorem hexByte_hex02 (a : UInt8) (rest : Bytes) : hexByte (hex02 a ++ rest) = a := by
  have all : ∀ a, hexByte (hex02 a) = a := fun c => byte_cases (by decide +kernel) c
  exact all a

theorem pinText_pinSubaddr (sectionNumber : Nat) (small : pin < 8) :
    pinText (pinSubaddr sectionNumber pin) = [digit pin] := by
  have plain : digit pin ≠ 46 := by
    intro same
    have isDigit := isdigit_digit (show pin < 10 by omega)
    rw [same] at isDigit
    exact absurd isDigit (by decide)
  have number : decimal pin = [digit pin] := if_pos (by omega)
  rw [pinText, pinSubaddr, number, reverse_append]
  simp [plain, ascii]

theorem digit_sub (small : pin < 8) : digit pin - 48 = pin.toUInt8 := by
  have all : ∀ pin < 8, digit pin - 48 = pin.toUInt8 := by decide
  exact all pin small

/-- Setting and clearing a pin of a chip. -/
theorem chipValue_pin (val : UInt8) (small : pin < 8) (high : Bool) :
    ∃ val', chipValue 80 val [digit pin, if high then 49 else 48] = some val' ∧
      val'.toNat.testBit pin = high := by
  have all : ∀ val : UInt8, ∀ pin < 8, (val ||| (1 : UInt8) <<< pin.toUInt8).toNat.testBit pin = true ∧
      (val &&& ~~~((1 : UInt8) <<< pin.toUInt8)).toNat.testBit pin = false :=
    fun c => byte_cases (by decide +kernel) c
  have bits := all val pin small
  have inRange : ¬ 7 < pin.toUInt8 := by
    have checked : ∀ pin < 8, ¬ 7 < pin.toUInt8 := by decide
    exact checked pin small
  cases high with
  | true =>
    refine ⟨_, ?_, bits.1⟩
    simp [chipValue, digit_sub small, inRange]
  | false =>
    refine ⟨_, ?_, bits.2⟩
    simp [chipValue, digit_sub small, inRange]

/-! ## The table of chips -/

theorem slot_isSome_iff {addr : UInt8} : (fw.slot addr).isSome = true ↔ addr ∈ fw.ppe.map PpeSlot.addr := by
  unfold Firmware.slot
  rw [find?_isSome, mem_map]
  constructor
  · rintro ⟨s, mem, same⟩
    exact ⟨s, mem, beq_iff_eq.1 same⟩
  · rintro ⟨s, mem, same⟩
    exact ⟨s, mem, beq_iff_eq.2 same⟩

theorem storeVal_addrs (addr val : UInt8) (ppe : List PpeSlot) :
    (storeVal addr val ppe).map PpeSlot.addr = ppe.map PpeSlot.addr := by
  induction ppe with
  | nil => rfl
  | cons s rest ih =>
    by_cases here : s.addr = addr
    · simp [storeVal, here]
    · simp [storeVal, here, ih]

theorem reportI2C_addrs (fw : Firmware) (chips : UInt8 → UInt8) :
    (reportI2C fw chips).1.ppe.map PpeSlot.addr = fw.ppe.map PpeSlot.addr := by
  have slot (s : PpeSlot) : (reportSlot fw.report s (chips s.addr)).1.addr = s.addr := by
    unfold reportSlot
    split <;> rfl
  simp [reportI2C, Function.comp_def, slot]

theorem doI2C_addrs (fw : Firmware) (plain : arg.getD 0 0 ∉ [82, 114, 77, 109]) :
    (doI2C fw arg).1.ppe.map PpeSlot.addr = fw.ppe.map PpeSlot.addr := by
  simp only [mem_cons, not_mem_nil, or_false, not_or] at plain
  obtain ⟨notR, notr, notM, notm⟩ := plain
  unfold doI2C
  simp only [notR, notr, notM, notm, or_self, if_false]
  split
  next => rfl
  next =>
    split
    next => rfl
    next => exact storeVal_addrs _ _ _

/-! ## The shape of the endpoints -/

def look (e : Endpoint Device) : Bytes × Option Bytes × EndpointType × Device :=
  (e.name, e.subaddr, e.type, e.device)

theorem look_eq_iff :
    look e' = look e ↔
      e'.name = e.name ∧ e'.subaddr = e.subaddr ∧ e'.type = e.type ∧ e'.device = e.device := by
  simp only [look, Prod.mk.injEq]

@[simp] theorem look_bscSetState (e : Endpoint Device) (code : StateCode) : look (bscSetState e code) = look e := by
  cases code <;> rfl

@[simp] theorem look_bscSetText (e : Endpoint Device) (text : Bytes) : look (bscSetText e text) = look e := rfl

@[simp] theorem look_applyCmd (code : StateCode) (text : Bytes) (e : Endpoint Device) :
    look (applyCmd code text e) = look e := by
  unfold applyCmd
  split <;> simp

theorem map_modifyFirst {f : Endpoint Device → Endpoint Device} (keeps : ∀ e, look (f e) = look e)
    (l : List (Endpoint Device)) : (modifyFirst p f l).map look = l.map look := by
  induction l with
  | nil => rfl
  | cons e l ih =>
    by_cases here : p e = true
    · simp [modifyFirst, here, keeps]
    · simp [modifyFirst, here, ih]

theorem isPpe_look {addr : Int} (same : look e' = look e) : isPpe addr e' = isPpe addr e := by
  obtain ⟨name, -, -, device⟩ := look_eq_iff.1 same
  simp only [isPpe, name, device]

/-- A search that looks at no more than this finds endpoints that look the same. -/
theorem find_look (blind : ∀ e e', look e' = look e → p e' = p e) (same : l'.map look = l.map look) :
    (l'.find? p).map look = (l.find? p).map look := by
  induction l generalizing l' with
  | nil =>
    rw [map_nil, map_eq_nil_iff] at same
    rw [same]
  | cons e l ih =>
    cases l' with
    | nil => simp at same
    | cons e' l' =>
      obtain ⟨here, rest⟩ := List.cons.inj same
      cases found : p e with
      | true =>
        have found' := (blind e e' here).trans found
        simpa [find?_cons, found, found'] using here
      | false =>
        have found' := (blind e e' here).trans found
        simpa [find?_cons, found, found'] using ih rest

/-- Every endpoint of a pin has the sub-address of one of the eight pins of its section. -/
def PinsNamed (l : List (Endpoint Device)) : Prop :=
  ∀ e ∈ l, e.name = "ppe" → e.type ≠ .stream →
    ∃ pin < 8, e.subaddr = some (pinSubaddr e.device.sectionNumber pin)

/-- Every chip with an endpoint is in the table of the firmware. -/
def Registered (fw : Firmware) (l : List (Endpoint Device)) : Prop :=
  ∀ e ∈ l, e.name = "ppe" → e.device.i2cAddr ∈ fw.ppe.map PpeSlot.addr

theorem mem_of_look (same : l'.map look = l.map look) (mem : e ∈ l') : ∃ e₀ ∈ l, look e = look e₀ := by
  have there : look e ∈ l.map look := same ▸ mem_map_of_mem mem
  obtain ⟨e₀, memL, eq⟩ := mem_map.1 there
  exact ⟨e₀, memL, eq.symm⟩

structure Rig.Inv (r : Rig) : Prop where
  pins : PinsNamed r.daemon.list
  registered : Registered r.fw r.daemon.list

/-- The invariant sees the look of the endpoints and the addresses of the table. -/
theorem Rig.Inv.congr {r' : Rig} (h : r.Inv) (looks : r'.daemon.list.map look = r.daemon.list.map look)
    (table : r'.fw.ppe.map PpeSlot.addr = r.fw.ppe.map PpeSlot.addr) : r'.Inv := by
  refine ⟨fun e mem name notStream => ?_, fun e mem name => ?_⟩
  · obtain ⟨e₀, mem₀, same⟩ := mem_of_look looks mem
    obtain ⟨sameName, sameSub, sameType, sameDevice⟩ := look_eq_iff.1 same
    rw [sameSub, sameDevice]
    exact h.pins e₀ mem₀ (sameName ▸ name) (sameType ▸ notStream)
  · obtain ⟨e₀, mem₀, same⟩ := mem_of_look looks mem
    obtain ⟨sameName, -, -, sameDevice⟩ := look_eq_iff.1 same
    rw [table, sameDevice]
    exact h.registered e₀ mem₀ (sameName ▸ name)

/-! ## Commands -/

/-- **A command for a pin** drives the pin low exactly when the endpoint is on. -/
theorem cmdPPEpin_drives (small : pin < 8) (subaddr : e.subaddr = some (pinSubaddr e.device.sectionNumber pin))
    (registered : e.device.i2cAddr ∈ fw.ppe.map PpeSlot.addr) :
    ∃ val, (doCommand fw (cmdPPEpin e)).2 = [⟨e.device.i2cAddr, val⟩] ∧
      (doCommand fw (cmdPPEpin e)).1.ppe.map PpeSlot.addr = fw.ppe.map PpeSlot.addr ∧
      val.toNat.testBit pin = !(e.state == .on) := by
  have line : cmdPPEpin e = "i2c " ++
      (80 :: (hex02 e.device.i2cAddr ++ [digit pin, if !(e.state == .on) then (49 : UInt8) else 48])) := by
    rw [cmdPPEpin, subaddr, Option.getD_some, pinText_pinSubaddr _ small]
    cases e.state <;> rfl
  obtain ⟨s, inTable⟩ := Option.isSome_iff_exists.1 (slot_isSome_iff.2 registered)
  obtain ⟨val, value, bit⟩ := chipValue_pin s.val small (!(e.state == .on))
  have written : doI2C fw (80 :: (hex02 e.device.i2cAddr ++
      [digit pin, if !(e.state == .on) then (49 : UInt8) else 48])) =
      ({ fw with ppe := storeVal e.device.i2cAddr val fw.ppe }, [⟨e.device.i2cAddr, val⟩]) := by
    unfold doI2C
    simp only [getD_cons_zero, tail_cons, hexByte_hex02]
    rw [if_neg (by decide), if_neg (by decide), inTable]
    simp only
    rw [show List.drop 3 (80 :: (hex02 e.device.i2cAddr ++
      [digit pin, if !(e.state == .on) then (49 : UInt8) else 48])) =
        [digit pin, if !(e.state == .on) then (49 : UInt8) else 48] from rfl, value]
  rw [line, doCommand_i2c fw (by simp [hex02]), written]
  exact ⟨val, rfl, storeVal_addrs _ _ _, bit⟩

theorem cmdPPEbyte_line {line : Bytes} (sent : cmdPPEbyte e = some line) :
    ∃ c d, e.text.getD [] = [c, d] ∧ line = "i2c " ++ (66 :: (hex02 e.device.i2cAddr ++ [c, d])) := by
  unfold cmdPPEbyte at sent
  simp only at sent
  split at sent
  next accepted =>
    simp only [Bool.and_eq_true, beq_iff_eq] at accepted
    obtain ⟨c, d, text⟩ := length_eq_two.1 accepted.2
    rw [text] at sent
    exact ⟨c, d, text, (Option.some.inj sent).symm⟩
  next => cases sent

theorem pinNumber_eq (small : pin < 8)
    (subaddr : e.subaddr = some (pinSubaddr sectionNumber pin)) : pinNumber e = pin := by
  rw [pinNumber, subaddr, Option.getD_some, pinText_pinSubaddr _ small, getD_cons_zero, digit_sub small]
  have all : ∀ pin < 8, pin.toUInt8.toNat = pin := by decide
  exact all pin small

/-- A command keeps the invariant, and the pin it drives is low exactly when the endpoint is on. -/
theorem Rig.command_inv (h : r.Inv) (subaddr : Bytes) (code : StateCode) (text : Bytes) :
    (r.command subaddr code text).1.Inv ∧
      ∀ o ∈ (r.command subaddr code text).2, o.report = false ∧ o.on = !o.high := by
  unfold Rig.command
  simp only
  split
  next => exact ⟨h, by simp⟩
  next e found =>
    have mem := mem_of_find?_eq_some found
    have named := find?_some (p := fun e : Endpoint Device => e.isNamed "ppe" (some subaddr)) found
    obtain ⟨name, -⟩ := isNamed_iff.1 named
    obtain ⟨-, sameSub, sameType, sameDevice⟩ := look_eq_iff.1 (look_applyCmd code text e)
    have looks := map_modifyFirst (p := fun e => e.isNamed "ppe" (some subaddr))
      (look_applyCmd code text) r.daemon.list
    by_cases stream : e.type = .stream
    · split
      next => exact ⟨h.congr looks rfl, by simp⟩
      next line sent =>
        rw [cmdPPE, sameType, if_pos stream] at sent
        obtain ⟨c, d, -, rfl⟩ := cmdPPEbyte_line sent
        rw [if_pos stream]
        refine ⟨h.congr looks ?_, by simp⟩
        have keeps : (doI2C r.fw (66 :: (hex02 (applyCmd code text e).device.i2cAddr ++ [c, d]))).1.ppe.map
            PpeSlot.addr = r.fw.ppe.map PpeSlot.addr := by
          apply doI2C_addrs
          rw [getD_cons_zero]
          decide
        simpa [Rig.send, doCommand_i2c, hex02] using keeps
    · obtain ⟨pin, small, pinSub⟩ := h.pins e mem name stream
      rw [cmdPPE, sameType, if_neg stream]
      simp only [if_neg stream]
      rw [← sameSub, ← sameDevice] at pinSub
      have inTable := h.registered e mem name
      rw [← sameDevice] at inTable
      obtain ⟨val, writes, keeps, bit⟩ := cmdPPEpin_drives small pinSub inTable
      refine ⟨h.congr looks keeps, ?_⟩
      intro o seen
      obtain rfl := mem_singleton.1 seen
      refine ⟨rfl, ?_⟩
      simp only [observe, Rig.send, writes, foldl_cons, foldl_nil, if_true, pinNumber_eq small pinSub, bit,
        Bool.not_not]

/-! ## Reports -/

theorem serialCommand_ppeLine (a old new : UInt8) :
    serialCommand (ppeLine a old new) = some (.ppe, [decimal a.toNat, decimal old.toNat, decimal new.toNat]) := by
  have word : ∀ c ∈ ascii "i2c-ppe", separates c = false := bytes_of_all (by decide)
  have line : ppeLine a old new =
      "i2c-ppe" ++ [a.toNat, old.toNat, new.toNat].flatMap fun n => 32 :: decimal n := by
    rw [ppeLine, show ascii "i2c-ppe " = ascii "i2c-ppe" ++ [32] by decide, show ascii " " = [32] by decide]
    simp
  have cut := tokenize_printed word (by decide) [a.toNat, old.toNat, new.toNat]
  simp only [serialCommand, line, cut]
  rfl

theorem isPpePin_apart (addr : Int) (sectionNumber : Nat) : Apart (isPpePin addr sectionNumber) 8 := by
  intro i hi j hj different e named
  simp only [isPpePin, Bool.and_eq_true, beq_iff_eq] at named
  rw [← Bool.not_eq_true]
  simp only [isPpePin, Bool.and_eq_true, beq_iff_eq]
  rintro ⟨-, sub⟩
  have texts := congrArg pinText (Option.some.inj (named.2.symm.trans sub))
  rw [pinText_pinSubaddr _ hi, pinText_pinSubaddr _ hj] at texts
  have all : ∀ i < 8, ∀ j < 8, [digit i] = [digit j] → i = j := by decide
  exact different (all i hi j hj texts)

theorem isPpe_addr (found : isPpe a.toNat e = true) : e.device.i2cAddr = a := by
  rw [isPpe, Bool.and_eq_true] at found
  have addr := found.2
  unfold Device.hasAddr at addr
  split at addr
  next user device =>
    rw [device]
    exact UInt8.toNat_inj.1 (Int.ofNat.inj (beq_iff_eq.1 addr))
  next => cases addr

/-- What the search for a pin finds. -/
theorem isPpePin_iff (named : isPpePin a.toNat sectionNumber pin e = true) :
    e.device.i2cAddr = a ∧ e.subaddr = some (pinSubaddr sectionNumber pin) := by
  rw [isPpePin, Bool.and_eq_true, beq_iff_eq] at named
  exact ⟨isPpe_addr named.1, named.2⟩

theorem setBits_looks (found : Nat → Endpoint Device → Bool) (old new : Int) (is : List Nat) (s : Endpoints Device) :
    (is.foldl (setBit found 0 old new) s).list.map look = s.list.map look := by
  induction is generalizing s with
  | nil => rfl
  | cons i is ih =>
    rw [foldl_cons, ih]
    by_cases same : old.testBit (i + 0) = new.testBit (i + 0)
    · rw [setBit_same same]
    · rw [setBit_changed same]
      exact map_modifyFirst (fun e => look_bscSetState e _) s.list

theorem serinPpe_looks (s : Endpoints Device) (args : List Bytes) :
    (serinPpe s args).list.map look = s.list.map look := by
  unfold serinPpe
  simp only
  split
  next => rfl
  next =>
    split
    next => exact map_modifyFirst (fun e => look_bscSetText e _) s.list
    next => exact setBits_looks _ _ _ _ s

/-- **A report for a pin** leaves the endpoint on exactly when the pin is high. -/
theorem lineObservations_high (chips : UInt8 → UInt8) (s : Endpoints Device) (a old : UInt8) :
    ∀ o ∈ lineObservations chips (serinPpe s [decimal a.toNat, decimal old.toNat, decimal (chips a).toNat])
      [decimal a.toNat, decimal old.toNat, decimal (chips a).toNat], o.report = true ∧ o.on = o.high := by
  intro o seen
  unfold lineObservations at seen
  simp only [getD_cons_zero, getD_cons_succ, byte_atoi] at seen
  split at seen
  next => cases seen
  next e' found' =>
    split at seen
    next => cases seen
    next notStream =>
      -- the endpoint that names the section looks the same before the line
      have looks := find_look (p := isPpe a.toNat) (fun _ _ => isPpe_look)
        (serinPpe_looks s [decimal a.toNat, decimal old.toNat, decimal (chips a).toNat])
      have foundList : (serinPpe s [decimal a.toNat, decimal old.toNat, decimal (chips a).toNat]).list.find?
          (isPpe a.toNat) = some e' := found'
      rw [foundList, Option.map_some] at looks
      obtain ⟨e, found, same⟩ := Option.map_eq_some_iff.1 looks.symm
      obtain ⟨-, -, sameType, sameDevice⟩ := look_eq_iff.1 same
      obtain ⟨pin, changed, observed⟩ := mem_filterMap.1 seen
      obtain ⟨mem, differs⟩ := mem_filter.1 changed
      have small := mem_range.1 mem
      have pinned : serinPpe s [decimal a.toNat, decimal old.toNat, decimal (chips a).toNat] =
          (List.range 8).foldl (setBit (isPpePin a.toNat e'.device.sectionNumber) 0 old.toNat (chips a).toNat) s := by
        unfold serinPpe
        simp only [getD_cons_zero, getD_cons_succ, byte_atoi]
        rw [show s.find (isPpe a.toNat) = some e from found]
        simp only [sameType, sameDevice, if_neg notStream]
      obtain ⟨after, -⟩ := setBits_spec (fun pin e code => by cases code <;> rfl)
        (isPpePin_apart a.toNat e'.device.sectionNumber) 0 old.toNat (chips a).toNat s small
      rw [← pinned, if_neg (by simpa using differs)] at after
      rw [after, Option.map_map] at observed
      obtain ⟨e₀, foundPin, rfl⟩ := Option.map_eq_some_iff.1 observed
      obtain ⟨addr, sub⟩ := isPpePin_iff (find?_some foundPin)
      obtain ⟨-, samePinSub, -, samePinDevice⟩ :=
        look_eq_iff.1 (look_bscSetState e₀ (bitCode (chips a).toNat (pin + 0)))
      refine ⟨rfl, ?_⟩
      simp only [Function.comp_apply, observe, samePinDevice, addr, pinNumber_eq small (samePinSub.trans sub)]
      cases bit : (chips a).toNat.testBit pin <;> simp [bitCode, testBit_natCast, bit, bscSetState]

/-- A line of a poll keeps the invariant and is observed as a report. -/
theorem Rig.receive_inv (h : made.1.Inv) (seen : ∀ o ∈ made.2, o.report = true ∧ o.on = o.high) (a old : UInt8) :
    (Rig.receive made (ppeLine a old (made.1.chips a))).1.Inv ∧
      (Rig.receive made (ppeLine a old (made.1.chips a))).1.chips = made.1.chips ∧
      ∀ o ∈ (Rig.receive made (ppeLine a old (made.1.chips a))).2, o.report = true ∧ o.on = o.high := by
  unfold Rig.receive
  rw [serialCommand_ppeLine]
  refine ⟨h.congr (serinPpe_looks _ _) rfl, rfl, ?_⟩
  intro o mem
  rcases mem_append.1 mem with earlier | now
  · exact seen o earlier
  · exact lineObservations_high _ _ _ _ o now

theorem Rig.receive_all {chips : UInt8 → UInt8} (lines : List Bytes)
    (printed : ∀ line ∈ lines, ∃ a old, line = ppeLine a old (chips a))
    (h : made.1.Inv) (same : made.1.chips = chips) (seen : ∀ o ∈ made.2, o.report = true ∧ o.on = o.high) :
    (lines.foldl Rig.receive made).1.Inv ∧
      ∀ o ∈ (lines.foldl Rig.receive made).2, o.report = true ∧ o.on = o.high := by
  induction lines generalizing made with
  | nil => exact ⟨h, seen⟩
  | cons line lines ih =>
    obtain ⟨a, old, rfl⟩ := printed line mem_cons_self
    rw [← same]
    obtain ⟨inv, kept, seenNow⟩ := Rig.receive_inv h seen a old
    exact ih (fun l hl => printed l (mem_cons_of_mem _ hl)) inv (kept.trans same) seenNow

theorem reportI2C_lines (fw : Firmware) (chips : UInt8 → UInt8) :
    ∀ line ∈ (reportI2C fw chips).2, ∃ a old, line = ppeLine a old (chips a) := by
  intro line mem
  obtain ⟨polled, inTable, isLine⟩ := mem_flatMap.1 mem
  obtain ⟨s, -, rfl⟩ := mem_map.1 inTable
  unfold reportSlot at isLine
  split at isLine
  next => exact ⟨s.addr, s.val, mem_singleton.1 isLine⟩
  next => cases isLine

theorem Rig.poll_inv (h : r.Inv) : r.poll.1.Inv ∧ ∀ o ∈ r.poll.2, o.report = true ∧ o.on = o.high := by
  apply Rig.receive_all _ (reportI2C_lines r.fw r.chips)
  · exact h.congr rfl (reportI2C_addrs r.fw r.chips)
  · rfl
  · simp

/-- What is observed in a step: commands drive on to low, reports read on from high. -/
def Observation.Explained (o : Observation) : Prop := (o.on = !o.high) ↔ o.report = false

theorem explained_report (h : o.report = true ∧ o.on = o.high) : o.Explained := by
  unfold Observation.Explained
  rw [h.1, h.2]
  cases o.high <;> decide

/-- One event keeps the invariant. -/
theorem Rig.step_inv (h : r.Inv) (event : RigEvent) : (r.step event).1.Inv ∧ ∀ o ∈ (r.step event).2, o.Explained := by
  cases event with
  | command subaddr code text =>
    obtain ⟨inv, seen⟩ := Rig.command_inv h subaddr code text
    exact ⟨inv, fun o mem => ⟨fun _ => (seen o mem).1, fun _ => (seen o mem).2⟩⟩
  | external addr value => exact ⟨⟨h.pins, h.registered⟩, by simp [Rig.step]⟩
  | request => exact ⟨h.congr rfl rfl, by simp [Rig.step]⟩
  | poll =>
    obtain ⟨inv, seen⟩ := Rig.poll_inv h
    exact ⟨inv, fun o mem => explained_report (seen o mem)⟩

theorem Rig.run_explained (h : r.Inv) (events : List RigEvent) : ∀ o ∈ r.run events, o.Explained := by
  induction events generalizing r with
  | nil => simp [Rig.run]
  | cons event events ih =>
    obtain ⟨inv, seen⟩ := Rig.step_inv h event
    intro o mem
    rcases mem_append.1 mem with now | later
    · exact seen o now
    · exact ih inv o later

/-! ## The start -/

def OfSection (s : PpeSection) (e : Endpoint Device) : Prop :=
  e.device = .ppe s.user ∧ (e.type = .stream ∨ ∃ pin < 8, e.subaddr = some (pinSubaddr s.sectionNumber pin))

theorem addPins_mem (s : PpeSection) (pins : List Nat) (small : ∀ pin ∈ pins, pin < 8)
    (made : List (Endpoint Device) × UInt8)
    (mem : e ∈ (pins.foldl (fun made pin =>
      bscAddEndpoint made.1 made.2 "ppe" (some (pinSubaddr s.sectionNumber pin)) .output .binary
        (.ppe s.user)) made).1) : e ∈ made.1 ∨ OfSection s e := by
  induction pins generalizing made with
  | nil => exact .inl mem
  | cons pin pins ih =>
    rcases ih (fun p hp => small p (mem_cons_of_mem _ hp)) _ mem with here | made
    · rcases mem_cons.1 here with rfl | earlier
      · exact .inr ⟨rfl, .inr ⟨pin, small pin mem_cons_self, rfl⟩⟩
      · exact .inl earlier
    · exact .inr made

theorem PpeSection.add_mem (s : PpeSection) (head : List (Endpoint Device))
    (mem : e ∈ (s.add head).1) : e ∈ head ∨ OfSection s e := by
  unfold PpeSection.add at mem
  split at mem
  next =>
    rcases mem_cons.1 mem with rfl | earlier
    · exact .inr ⟨rfl, .inl rfl⟩
    · exact .inl earlier
  next => exact addPins_mem s _ (fun pin hp => mem_range.1 hp) _ mem

theorem addSections_mem (sections : List PpeSection) (head : List (Endpoint Device))
    (mem : e ∈ sections.foldl (fun head s => (s.add head).1) head) : e ∈ head ∨ ∃ s ∈ sections, OfSection s e := by
  induction sections generalizing head with
  | nil => exact .inl mem
  | cons s sections ih =>
    rcases ih _ mem with here | ⟨s', mem', made⟩
    · rcases s.add_mem head here with earlier | made
      · exact .inl earlier
      · exact .inr ⟨s, mem_cons_self, made⟩
    · exact .inr ⟨s', mem_cons_of_mem _ mem', made⟩

/-- Registering a chip appends it to the table while there is room. -/
theorem send_register (r : Rig) (addr : UInt8) (room : r.fw.ppe.length < maxPpe) :
    (r.send ("i2c M" ++ hex02 addr)).fw.ppe = r.fw.ppe ++ [⟨addr, 0⟩] ∧
      (r.send ("i2c M" ++ hex02 addr)).daemon = r.daemon := by
  have line : ascii "i2c M" ++ hex02 addr = ascii "i2c " ++ (77 :: (hex02 addr ++ [])) := by
    rw [append_nil]
    rfl
  have done : doI2C r.fw (77 :: (hex02 addr ++ [])) = ({ r.fw with ppe := r.fw.ppe ++ [⟨addr, 0⟩] }, []) := by
    unfold doI2C
    simp only [getD_cons_zero, tail_cons, hexByte_hex02]
    rw [if_neg (by decide), if_pos (by decide), if_pos room]
  refine ⟨?_, rfl⟩
  rw [line, Rig.send, doCommand_i2c _ (by simp [hex02]), done]

theorem register_all (sections : List PpeSection) (r : Rig) (room : r.fw.ppe.length + sections.length ≤ maxPpe) :
    ((sections.map fun s => "i2c M" ++ hex02 s.addr).foldl Rig.send r).fw.ppe.map PpeSlot.addr =
        r.fw.ppe.map PpeSlot.addr ++ sections.map PpeSection.addr ∧
      ((sections.map fun s => "i2c M" ++ hex02 s.addr).foldl Rig.send r).daemon = r.daemon := by
  induction sections generalizing r with
  | nil => simp
  | cons s sections ih =>
    rw [length_cons] at room
    obtain ⟨table, daemon⟩ := send_register r s.addr (by omega)
    have grown : (r.send ("i2c M" ++ hex02 s.addr)).fw.ppe.length + sections.length ≤ maxPpe := by
      rw [table, length_append, length_singleton]
      omega
    obtain ⟨rest, kept⟩ := ih _ grown
    rw [map_cons, foldl_cons, rest, kept, table, daemon]
    exact ⟨by simp, rfl⟩

section

variable (valid : ∀ s ∈ sections, 1 ≤ s.sectionNumber ∧ s.sectionNumber ≤ 8)
include valid

theorem sections_le
    (distinct : (sections.map PpeSection.sectionNumber).Nodup) : sections.length ≤ maxPpe := by
  have inside : sections.map PpeSection.sectionNumber ⊆ List.range' 1 8 := by
    intro n mem
    obtain ⟨s, inSections, rfl⟩ := mem_map.1 mem
    have bounds := valid s inSections
    exact mem_range'_1.2 ⟨bounds.1, by omega⟩
  have count := (distinct.subperm inside).length_le
  simpa [maxPpe] using count

theorem Rig.start_inv
    (distinct : (sections.map PpeSection.sectionNumber).Nodup) (fw : Firmware) (chips : UInt8 → UInt8) :
    (Rig.start sections fw chips).Inv := by
  have reset (r : Rig) : (r.send "i2c R").fw.ppe = [] := by
    rw [show ascii "i2c R" = ascii "i2c " ++ [82] by decide, Rig.send, doCommand_i2c _ rfl]
    rfl
  obtain ⟨table, daemon⟩ := register_all sections
    (({ daemon := ⟨sections.foldl (fun head s => (s.add head).1) [], []⟩, fw := fw, chips := chips } : Rig).send
      "i2c R")
    (by rw [reset, length_nil, Nat.zero_add]; exact sections_le valid distinct)
  have list : (Rig.start sections fw chips).daemon.list = sections.foldl (fun head s => (s.add head).1) [] :=
    congrArg Endpoints.list daemon
  rw [reset, map_nil, nil_append] at table
  refine ⟨fun e mem _ notStream => ?_, fun e mem _ => ?_⟩
  · rw [list] at mem
    rcases addSections_mem sections [] mem with none | ⟨s, -, device, stream | named⟩
    · cases none
    · exact absurd stream notStream
    · rw [device]
      exact named
  · rw [list] at mem
    rcases addSections_mem sections [] mem with none | ⟨s, inSections, device, -⟩
    · cases none
    · rw [device,
        show (Rig.start sections fw chips).fw.ppe.map PpeSlot.addr = sections.map PpeSection.addr from table]
      exact mem_map_of_mem inSections

end

/-! ## Bytes -/

theorem serinPpe_text {s : Endpoints Device}
    (found : s.find (isPpe a.toNat) = some e) (stream : e.type = .stream) (old v : UInt8) :
    (serinPpe s [decimal a.toNat, decimal old.toNat, decimal v.toNat]).find (isPpe a.toNat) =
      some (bscSetText e (decimal v.toNat)) := by
  unfold serinPpe
  simp only [getD_cons_zero, getD_cons_succ, byte_atoi, found, if_pos stream]
  have changed := find_modifyFirst (p := isPpe a.toNat) (f := (bscSetText · (decimal v.toNat))) (fun _ => rfl) s.list
  rw [show s.list.find? (isPpe a.toNat) = some e from found] at changed
  exact changed

/-- Two decimal digits denote another byte in hexadecimal. -/
theorem hexByte_decimal_ne {v : UInt8} (two : (decimal v.toNat).length = 2) : hexByte (decimal v.toNat) ≠ v := by
  revert two
  exact byte_cases (by decide +kernel) v

/-- **The text of a reported byte, sent back, never writes that byte.** -/
theorem reported_byte_not_written (fw : Firmware) (stream : e.type = .stream) (code : StateCode) (v : UInt8) :
    ⟨e.device.i2cAddr, v⟩ ∉ commandWrites fw (applyCmd code (decimal v.toNat) e) := by
  obtain ⟨-, -, sameType, sameDevice⟩ := look_eq_iff.1 (look_applyCmd code (decimal v.toNat) e)
  have text : (applyCmd code (decimal v.toNat) e).text = some (decimal v.toNat) := by
    rw [applyCmd, if_pos stream]
    rfl
  unfold commandWrites
  rw [cmdPPE, sameType, if_pos stream]
  split
  next => simp
  next line sent =>
    obtain ⟨c, d, digits, rfl⟩ := cmdPPEbyte_line sent
    rw [text, Option.getD_some] at digits
    have other : hexByte [c, d] ≠ v := by
      rw [← digits]
      apply hexByte_decimal_ne
      rw [digits]
      rfl
    rw [doCommand_i2c _ (by simp [hex02]), sameDevice]
    unfold doI2C
    simp only [getD_cons_zero, tail_cons, hexByte_hex02]
    rw [if_neg (by decide), if_neg (by decide)]
    split
    next => simp
    next slot _ =>
      rw [show chipValue 66 slot.val (List.drop 3 (66 :: (hex02 e.device.i2cAddr ++ [c, d]))) =
        some (hexByte [c, d]) from rfl]
      simpa using fun same => other same.symm

/-- **Commands and reports of the port expanders use opposite encodings.** In every run, what is
observed behind a message for a pin, the endpoint on exactly when the pin is low, holds when the
message was a command and fails when it was a report; and the text that a report stores for a
byte never writes this byte when it is sent back. -/
theorem ppe_encodings {sections : List PpeSection}
    (valid : ∀ s ∈ sections, 1 ≤ s.sectionNumber ∧ s.sectionNumber ≤ 8)
    (distinct : (sections.map PpeSection.sectionNumber).Nodup) (fw : Firmware) (chips : UInt8 → UInt8)
    (events : List RigEvent) :
    (∀ o ∈ (Rig.start sections fw chips).run events, (o.on = !o.high) ↔ o.report = false) ∧
    ∀ (s : Endpoints Device) (a old v : UInt8) (e : Endpoint Device), s.find (isPpe a.toNat) = some e →
      e.type = .stream →
      ∃ e', (serinPpe s [decimal a.toNat, decimal old.toNat, decimal v.toNat]).find (isPpe a.toNat) = some e' ∧
        e'.text = some (decimal v.toNat) ∧
        ∀ (fw : Firmware) (code : StateCode), ⟨a, v⟩ ∉ commandWrites fw (applyCmd code (decimal v.toNat) e') := by
  refine ⟨Rig.run_explained (Rig.start_inv valid distinct fw chips) events, ?_⟩
  intro s a old v e found stream
  refine ⟨_, serinPpe_text found stream old v, rfl, ?_⟩
  intro fw code
  have named := find?_some found
  have addr : (bscSetText e (decimal v.toNat)).device.i2cAddr = a := isPpe_addr named
  have never := reported_byte_not_written fw (e := bscSetText e (decimal v.toNat)) stream code v
  rwa [addr] at never

def pinSection : PpeSection := ⟨1, 0x40, false⟩

/-- Two commands for a pin of it are observed as they should be. -/
theorem ppe_encodings_commands :
    ((Rig.start [pinSection] .start fun _ => 0xff).run
      [.command "1.3" .on [], .command "1.3" .toggle []]).length = 2 ∧
    ∀ o ∈ (Rig.start [pinSection] .start fun _ => 0xff).run
      [.command "1.3" .on [], .command "1.3" .toggle []], o.on = !o.high := by
  have valid : ∀ s ∈ [pinSection], 1 ≤ s.sectionNumber ∧ s.sectionNumber ≤ 8 := by decide
  obtain ⟨explained, -⟩ := ppe_encodings valid (by decide) .start (fun _ => 0xff)
    [.command "1.3" .on [], .command "1.3" .toggle []]
  have commands : ((Rig.start [pinSection] .start fun _ => 0xff).run
      [.command "1.3" .on [], .command "1.3" .toggle []]).map Observation.report =
      [false, false] := by decide +kernel
  refine ⟨by simpa using congrArg List.length commands, fun o mem => (explained o mem).2 ?_⟩
  have sent := mem_map_of_mem (f := Observation.report) mem
  rw [commands] at sent
  simpa using sent

/-- A chip with all pins high is reported with all endpoints on; and the byte 16 that a report
stores as `16` is written as 0x16. -/
theorem ppe_report_inverted :
    (⟨true, true, true⟩ : Observation) ∈ (Rig.start [pinSection] .start fun _ => 0xff).run [.poll] ∧
    commandWrites ⟨⟨false, false, false⟩, [⟨0x40, 16⟩], 0, 0⟩
      ⟨"ppe", some "1", 32, .output, .stream, .on, some (decimal 16), .ppe ⟨1, 0x40⟩⟩ =
        [⟨0x40, 0x16⟩] := by
  decide +kernel

end Hah.Livebox
