import Hah.C.Numbers

/-!
# The firmware `liveboxHAH.ino`

What the AVR keeps of its inputs and of the I2C port expanders, and the lines it prints
about them. A line stands without its `\r\n`. Values read from the hardware (the port, the
clock and the chips) are arguments.
-/

namespace Hah.Avr
open C

/-- The bits of `report`. -/
structure Report where
  input : Bool
  onewire : Bool
  ppe : Bool
  deriving DecidableEq, Repr

structure PpeSlot where
  addr : UInt8
  val : UInt8
  deriving DecidableEq, Repr

def maxPpe : Nat := 8

/-- `ppe` holds the first `ppeCount` entries; `prevValue` and `lasttime` are the statics of
`reportInputs`. -/
structure Firmware where
  report : Report
  ppe : List PpeSlot
  prevValue : UInt8
  lasttime : Nat
  deriving DecidableEq, Repr

def Firmware.start : Firmware := ⟨⟨false, false, false⟩, [], 0, 0⟩

/-- The pins of port D that carry the inputs: `B00111100`. -/
def inputMask : UInt8 := 0x3C

/-- `Serialprint("input %d %d\r\n", portd, prev_value)`. -/
def inputLine (portd prevValue : UInt8) : Bytes :=
  "input " ++ decimal portd.toNat ++ " " ++ decimal prevValue.toNat

/-- The part of `reportInputs` behind the debouncing, with the port read as `portd`. -/
def printInputs (fw : Firmware) (portd : UInt8) : Firmware × List Bytes :=
  let fw :=
    if fw.report.input then
      -- Invert all bits to force a difference on each
      { fw with report := { fw.report with input := false }, prevValue := portd ^^^ inputMask }
    else fw
  if fw.prevValue ≠ portd then ({ fw with prevValue := portd }, [inputLine portd fw.prevValue]) else (fw, [])

/-- `millis()` is before the end of the debouncing; the arithmetic is that of `unsigned long`. -/
def debouncing (lasttime millis : Nat) : Bool := millis < (lasttime + 10) % 4294967296

/-- `reportInputs`: the lines it prints. -/
def reportInputs (fw : Firmware) (pind : UInt8) (millis : Nat) : Firmware × List Bytes :=
  -- we wrapped around, lets just try again
  let fw := if millis < fw.lasttime then { fw with lasttime := millis } else fw
  if debouncing fw.lasttime millis then (fw, [])
  else printInputs { fw with lasttime := millis } (pind &&& inputMask)

/-- `hexDigit`; the invalid digit is the byte of -1. -/
def hexDigit (c : UInt8) : UInt8 :=
  if 48 ≤ c ∧ c ≤ 57 then c - 48
  else if 97 ≤ c ∧ c ≤ 102 then c - 97 + 10
  else if 65 ≤ c ∧ c ≤ 70 then c - 65 + 10
  else 0xff

/-- Two hex digits of a string, which reads NUL behind its end. -/
def hexByte (arg : Bytes) : UInt8 := hexDigit (arg.getD 0 0) <<< 4 ||| hexDigit (arg.getD 1 0)

/-- `val` of the registered chip at `addr`. -/
def Firmware.slot (fw : Firmware) (addr : UInt8) : Option PpeSlot := fw.ppe.find? fun s => s.addr == addr

/-- Store `val` in the entry of `addr`, the first one with that address. -/
def storeVal (addr val : UInt8) : List PpeSlot → List PpeSlot
  | [] => []
  | s :: rest => if s.addr = addr then { s with val := val } :: rest else s :: storeVal addr val rest

/-- What `doI2C` puts on the bus: a value for the chip at an address. -/
structure BusWrite where
  addr : UInt8
  val : UInt8
  deriving DecidableEq, Repr

/-- The new value of a chip for the commands `P` and `B`; `none` when the command is refused. -/
def chipValue (cmd val : UInt8) (arg : Bytes) : Option UInt8 :=
  if cmd = 80 ∨ cmd = 112 then
    -- PXXYZ: pin Y, state Z
    let pin := arg.getD 0 0 - 48
    if 7 < pin then none
    else if arg.getD 1 0 = 49 then some (val ||| 1 <<< pin)
    else some (val &&& ~~~(1 <<< pin))
  else if cmd = 66 ∨ cmd = 98 then
    -- BXXYY
    some (hexByte arg)
  else none

/-- `doI2C`; every chip answers on the bus. -/
def doI2C (fw : Firmware) (arg : Bytes) : Firmware × List BusWrite :=
  let cmd := arg.getD 0 0
  if cmd = 82 ∨ cmd = 114 then ({ fw with ppe := [] }, [])
  else
    let addr := hexByte arg.tail
    if cmd = 77 ∨ cmd = 109 then
      if fw.ppe.length < maxPpe then ({ fw with ppe := fw.ppe ++ [⟨addr, 0⟩] }, []) else (fw, [])
    else
      match fw.slot addr with
      | none => (fw, [])
      | some s =>
        match chipValue cmd s.val (arg.drop 3) with
        | none => (fw, [])
        | some val => ({ fw with ppe := storeVal addr val fw.ppe }, [⟨addr, val⟩])

/-- The commands of `doCommand` that touch the state of this model. Those for the display, the
relays, the transmitter, the 1-wire bus and debugging leave it alone; `reboot` is left out. -/
def doCommand (fw : Firmware) (inBuffer : Bytes) : Firmware × List BusWrite :=
  if strcasecmpEq inBuffer "report" then ({ fw with report := ⟨true, true, true⟩ }, [])
  else if strcasecmpEq inBuffer "report 1wire" then
    ({ fw with report := { fw.report with onewire := true } }, [])
  else if strcasecmpEq inBuffer "report ppe" then
    ({ fw with report := { fw.report with ppe := true } }, [])
  else if strcasecmpEq inBuffer "report input" then
    ({ fw with report := { fw.report with input := true } }, [])
  else if strcasecmpEq inBuffer "i2c scan" then (fw, [])
  else if strcasecmpEq (inBuffer.takeWhile (· ≠ 32)) "i2c" ∧ 32 ∈ inBuffer then
    doI2C fw (inBuffer.dropWhile (· ≠ 32)).tail
  else (fw, [])

/-- `Serialprint("i2c-ppe %d %d %d\r\n", ppe[i].addr, ppe[i].val, result)`. -/
def ppeLine (addr val result : UInt8) : Bytes :=
  "i2c-ppe " ++ decimal addr.toNat ++ " " ++ decimal val.toNat ++ " " ++ decimal result.toNat

/-- The loop body of `reportI2C`, for a chip that reads `result`. -/
def reportSlot (report : Report) (s : PpeSlot) (result : UInt8) : PpeSlot × List Bytes :=
  if result ≠ s.val ∨ report.ppe then ({ s with val := result }, [ppeLine s.addr s.val result]) else (s, [])

/-- `reportI2C`, with the chips read by address. -/
def reportI2C (fw : Firmware) (chips : UInt8 → UInt8) : Firmware × List Bytes :=
  let polled := fw.ppe.map fun s => reportSlot fw.report s (chips s.addr)
  ({ fw with ppe := polled.map Prod.fst, report := { fw.report with ppe := false } },
    polled.flatMap Prod.snd)

/-! ## What a poll of the inputs does -/

variable (fw : Firmware)

/-- A poll either leaves the reported value alone or prints the new one with the old one behind
it, which is its inverse after a request. -/
theorem printInputs_spec (portd : UInt8) :
    ((printInputs fw portd).1.prevValue = portd) ∧ (printInputs fw portd).1.report.input = false ∧
      ((fw.report.input = false ∧ fw.prevValue = portd ∧ (printInputs fw portd).2 = []) ∨
        (fw.report.input = false ∧ (printInputs fw portd).2 = [inputLine portd fw.prevValue]) ∨
        (fw.report.input = true ∧ (printInputs fw portd).2 = [inputLine portd (portd ^^^ inputMask)])) := by
  cases asked : fw.report.input with
  | true =>
    have inverted : portd ^^^ inputMask ≠ portd := by
      intro same
      have zero : portd ^^^ (portd ^^^ inputMask) = portd ^^^ portd := by rw [same]
      rw [← UInt8.xor_assoc, UInt8.xor_self, UInt8.zero_xor] at zero
      exact absurd zero (by decide)
    simp [printInputs, asked, inverted]
  | false =>
    by_cases same : fw.prevValue = portd
    · simp [printInputs, asked, same]
    · simp [printInputs, asked, same]

theorem reportInputs_spec (pind : UInt8) (millis : Nat) :
    (∃ lasttime, reportInputs fw pind millis = ({ fw with lasttime := lasttime }, [])) ∨
      reportInputs fw pind millis = printInputs { fw with lasttime := millis } (pind &&& inputMask) := by
  by_cases wrapped : millis < fw.lasttime
  · by_cases early : debouncing millis millis = true
    · exact .inl ⟨millis, by simp [reportInputs, wrapped, early]⟩
    · exact .inr (by simp [reportInputs, wrapped, early])
  · by_cases early : debouncing fw.lasttime millis = true
    · exact .inl ⟨fw.lasttime, by simp [reportInputs, wrapped, early]⟩
    · exact .inr (by simp [reportInputs, wrapped, early])

/-- The I2C commands work on the table of chips alone. -/
theorem doI2C_frame (arg : Bytes) : ∃ ppe, (doI2C fw arg).1 = { fw with ppe := ppe } := by
  unfold doI2C
  simp only
  split
  next => exact ⟨[], rfl⟩
  next =>
    split
    next =>
      split
      next => exact ⟨_, rfl⟩
      next => exact ⟨fw.ppe, rfl⟩
    next =>
      split
      next => exact ⟨fw.ppe, rfl⟩
      next =>
        split
        next => exact ⟨fw.ppe, rfl⟩
        next => exact ⟨_, rfl⟩

/-- A command sets requests and works on the chips. -/
theorem doCommand_frame (inBuffer : Bytes) :
    ∃ ppe report, (doCommand fw inBuffer).1 = { fw with ppe := ppe, report := report } := by
  unfold doCommand
  split
  next => exact ⟨fw.ppe, _, rfl⟩
  next =>
  split
  next => exact ⟨fw.ppe, _, rfl⟩
  next =>
  split
  next => exact ⟨fw.ppe, _, rfl⟩
  next =>
  split
  next => exact ⟨fw.ppe, _, rfl⟩
  next =>
  split
  next => exact ⟨fw.ppe, fw.report, rfl⟩
  next =>
  split
  next =>
    obtain ⟨ppe, table⟩ := doI2C_frame fw (inBuffer.dropWhile (· ≠ 32)).tail
    exact ⟨ppe, fw.report, table⟩
  next => exact ⟨fw.ppe, fw.report, rfl⟩

end Hah.Avr
