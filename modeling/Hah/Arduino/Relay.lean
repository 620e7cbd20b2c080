import Hah.C.Numbers
import Hah.Arduino.Parse

/-!
# `BscRelay.cpp`

A relay on a pin of port D. The pin is set once and from then on only toggled, by a write to
`PIND`, whenever the stored state changes. So what the relay reports agrees with the pin as
long as the state takes the values 0 and 1 only.

`bscDecodeState` gives -1 for a word it does not know. `cmd` keeps that in a `byte`, where it
is 255, and the test for -1 never succeeds: an unknown word is a third state, and the relay
is toggled into it. A run is as it should be iff no command that selects the relay carries
such a word (`relay_faithful_iff`).
-/

namespace Hah.Arduino
open C Xap

/-- The table of `bscDecodeState`. -/
def stateTable : List (Bytes × Int) :=
  [("on", 1), ("off", 0), ("true", 1), ("false", 0), ("yes", 1), ("no", 0),
    ("1", 1), ("0", 0), ("toggle", 2)]

/-- `bscDecodeState`; `none` is `NULL`. -/
def bscDecodeState (msg : Option Bytes) : Int :=
  match msg with
  | none => -1
  | some msg => ((stateTable.find? fun entry => strcasecmpEq msg entry.1).map Prod.snd).getD (-1)

/-- The value of an `int` in a `byte`. -/
def toByte (n : Int) : UInt8 := (n % 256).toNat.toUInt8

/-- `atoi` where `int` has 16 bits. -/
def atoi16 (s : Bytes) : Int :=
  let s := s.dropWhile isspace
  let n : Int :=
    match s with
    | [] => 0
    | c :: digits =>
      if c = 45 then -(leadingNumber digits : Int)
      else if c = 43 then leadingNumber digits
      else leadingNumber s
  (n + 32768) % 65536 - 32768

/-- What `sendInfoEvent` sends. -/
structure InfoEvent where
  uid : Bytes
  clazz : Bytes
  source : Bytes
  state : Bytes
  deriving DecidableEq, Repr

/-- `BscRelay`, with port D and the messages sent. -/
structure Relay where
  uid : Bytes
  source : Bytes
  id : UInt8
  pin : Fin 8
  state : UInt8
  portD : BitVec 8
  sent : List InfoEvent
  deriving DecidableEq, Repr

/-- `_BV(pin)`. -/
def bitValue (pin : Fin 8) : BitVec 8 := 1#8 <<< pin.val

/-- `"%02d"`. -/
def twoDigits (n : Nat) : Bytes := if n < 10 then digit 0 :: decimal n else decimal n

/-- The constructor, for a library with that UID and SOURCE and what port D held. -/
def Relay.new (xapUID xapSOURCE : Bytes) (id : UInt8) (pin : Fin 8) (portD : BitVec 8) : Relay :=
  { uid := xapUID.take 6 ++ twoDigits (id % 99).toNat
    source := (xapSOURCE ++ ":relay." ++ decimal (id % 99).toNat).take 29
    id := id % 99
    pin := pin
    state := 0
    -- digitalWrite(pin, HIGH)
    portD := portD ||| bitValue pin
    sent := [] }

def bscEventClass : Bytes := "xAPBSC.event"
def bscInfoClass : Bytes := "xAPBSC.info"
def bscCmdClass : Bytes := "xAPBSC.cmd"
def bscQueryClass : Bytes := "xAPBSC.query"

/-- The state that is reported: `state ? "on" : "off"`. -/
def Relay.reportsOn (r : Relay) : Bool := r.state != 0

def Relay.sendInfoEvent (r : Relay) (clazz : Bytes) : Relay :=
  { r with sent := r.sent ++ [⟨r.uid, clazz, r.source, if r.reportsOn then "on" else "off"⟩] }

def XapClass.filter (x : XapClass) (sectionName k kv : Bytes) : Bool :=
  match x.getValue sectionName k with
  | none => false
  | some value => strcasecmpEq value kv

def outputState : Bytes := "output.state.1"

/-- The new state: `state = istate; PIND = _BV(pin)`, and the event. -/
def Relay.change (r : Relay) (istate : UInt8) : Relay :=
  if r.state ≠ istate then
    { r with state := istate, portD := r.portD ^^^ bitValue r.pin }.sendInfoEvent bscEventClass
  else r

def Relay.cmd (r : Relay) (x : XapClass) : Relay :=
  match x.getValue outputState "state" with
  | none => r
  | some cmdState =>
    let istate := toByte (bscDecodeState (some cmdState))
    if (istate.toNat : Int) = -1 then r
    else
      match x.getValue outputState "id" with
      | none => r
      | some sid =>
        if sid.head? = some 42 ∨ atoi16 sid = r.id.toNat then
          r.change (if istate = 2 then r.state ^^^ 1 else istate)
        else r

/-- The message is of the class `clazz` and addressed to the relay. -/
def Relay.isFor (r : Relay) (x : XapClass) (clazz : Bytes) : Bool :=
  x.filter "xap-header" "class" clazz && x.filter "xap-header" "target" r.source

def Relay.process (r : Relay) (x : XapClass) : Relay :=
  if r.isFor x bscCmdClass then r.cmd x
  else if r.isFor x bscQueryClass then r.sendInfoEvent bscInfoClass
  else r

def Relay.run (r : Relay) (messages : List XapClass) : Relay := messages.foldl Relay.process r

variable {r : Relay} {x : XapClass}

/-! ## What a run should be -/

def Relay.high (r : Relay) : Bool := r.portD.getLsbD r.pin.val

/-- The relay reports on iff its pin is low. -/
def Relay.Agrees (r : Relay) : Prop := r.reportsOn = true ↔ r.high = false

/-- The message is a command for the relay with a state that is not one of the words. -/
def Relay.Unknown (r : Relay) (x : XapClass) : Prop :=
  r.isFor x bscCmdClass = true ∧
    ∃ word, x.getValue outputState "state" = some word ∧ bscDecodeState (some word) = -1

/-- The message changes neither the pin nor what is reported, and nothing is sent. -/
def Relay.Ignores (r : Relay) (x : XapClass) : Prop :=
  (r.process x).high = r.high ∧ (r.process x).reportsOn = r.reportsOn ∧ (r.process x).sent = r.sent

/-- In every state of the run the report agrees with the pin, and unknown words are ignored. -/
structure Faithful (r : Relay) (messages : List XapClass) : Prop where
  agrees : ∀ done, done <+: messages → (r.run done).Agrees
  ignores : ∀ done x, done ++ [x] <+: messages → (r.run done).Unknown x → (r.run done).Ignores x

/-- The command names this relay, or all of them. -/
def Relay.Selected (r : Relay) (x : XapClass) : Prop :=
  ∃ sid, x.getValue outputState "id" = some sid ∧ (sid.head? = some 42 ∨ atoi16 sid = r.id.toNat)

/-! ## One message -/

/-- The values of the decoder. -/
theorem decode_cases (msg : Bytes) :
    bscDecodeState (some msg) = 0 ∨ bscDecodeState (some msg) = 1 ∨ bscDecodeState (some msg) = 2 ∨
      bscDecodeState (some msg) = -1 := by
  have values : ∀ entry ∈ stateTable, entry.2 = 0 ∨ entry.2 = 1 ∨ entry.2 = 2 := by decide
  cases found : stateTable.find? fun entry => strcasecmpEq msg entry.1 with
  | none => simp [bscDecodeState, found]
  | some entry =>
    rcases values entry (List.mem_of_find?_eq_some found) with same | same | same <;>
      simp [bscDecodeState, found, same]

/-- **The test for -1 never succeeds.** -/
theorem byte_not_negative (b : UInt8) : ¬ (b.toNat : Int) = -1 := by
  omega

/-- Toggling turns the pin's level round. -/
theorem toggle_high (portD : BitVec 8) (pin : Fin 8) :
    (portD ^^^ bitValue pin).getLsbD pin.val = !portD.getLsbD pin.val := by
  have bit : (bitValue pin).getLsbD pin.val = true := by
    revert pin
    decide
  rw [BitVec.getLsbD_xor, bit, Bool.xor_true]

/-- The state and the pin of a relay that has only seen known words. -/
def Relay.Sound (r : Relay) : Prop := (r.state = 0 ∧ r.high = true) ∨ (r.state = 1 ∧ r.high = false)

theorem Relay.Sound.agrees (h : r.Sound) : r.Agrees := by
  rcases h with ⟨state, high⟩ | ⟨state, high⟩ <;> simp [Relay.Agrees, Relay.reportsOn, state, high]

structure SameRelay (r t : Relay) : Prop where
  source : t.source = r.source
  id : t.id = r.id
  pin : t.pin = r.pin

/-- A change to one of the two states keeps the relay sound. -/
theorem Relay.Sound.change (h : r.Sound) {istate : UInt8} (two : istate = 0 ∨ istate = 1) :
    (r.change istate).Sound := by
  unfold Relay.change
  split
  next differs =>
    have toggled : ({ r with state := istate, portD := r.portD ^^^ bitValue r.pin }.sendInfoEvent bscEventClass).high =
        !r.high := toggle_high r.portD r.pin
    rcases h with ⟨state, high⟩ | ⟨state, high⟩
    · right
      refine ⟨two.resolve_left fun zero => differs (state.trans zero.symm), ?_⟩
      rw [toggled, high]
      rfl
    · left
      refine ⟨two.resolve_right fun one => differs (state.trans one.symm), ?_⟩
      rw [toggled, high]
      rfl
  next => exact h

theorem cmd_selected (selected : r.Selected x) {word : Bytes}
    (state : x.getValue outputState "state" = some word) :
    r.cmd x = r.change (if toByte (bscDecodeState (some word)) = 2 then r.state ^^^ 1
      else toByte (bscDecodeState (some word))) := by
  obtain ⟨sid, id, names⟩ := selected
  unfold Relay.cmd
  simp only [state, id, if_neg (byte_not_negative _), if_pos names]

/-- A command that does not select the relay, or has no state, is ignored. -/
theorem cmd_other (other : ¬ r.Selected x ∨ x.getValue outputState "state" = none) : r.cmd x = r := by
  unfold Relay.cmd
  cases state : x.getValue outputState "state" with
  | none => rfl
  | some word =>
    have unselected := other.resolve_right (by simp [state])
    cases id : x.getValue outputState "id" with
    | none => rfl
    | some sid => exact if_neg fun names => unselected ⟨sid, id, names⟩

theorem process_same (r : Relay) (x : XapClass) : SameRelay r (r.process x) := by
  have refl : SameRelay r r := ⟨rfl, rfl, rfl⟩
  unfold Relay.process
  split_ifs
  · by_cases selected : r.Selected x
    · cases state : x.getValue outputState "state" with
      | none => rwa [cmd_other (.inr state)]
      | some word =>
        rw [cmd_selected selected state]
        unfold Relay.change
        split_ifs <;> exact ⟨rfl, rfl, rfl⟩
    · rwa [cmd_other (.inl selected)]
  · exact ⟨rfl, rfl, rfl⟩
  · exact refl

/-- **A message without an unknown word for this relay keeps it sound.** -/
theorem Relay.Sound.process (h : r.Sound) (known : ¬ (r.Unknown x ∧ r.Selected x)) : (r.process x).Sound := by
  unfold Relay.process
  split_ifs with command query
  · by_cases selected : r.Selected x
    · cases state : x.getValue outputState "state" with
      | none => rwa [cmd_other (.inr state)]
      | some word =>
        rw [cmd_selected selected state]
        apply h.change
        rcases decode_cases word with value | value | value | value
        · exact .inl (by simp [value, toByte])
        · exact .inr (by simp [value, toByte])
        · have toggle : toByte 2 = 2 := rfl
          rw [value, toggle, if_pos rfl]
          rcases h with ⟨zero, -⟩ | ⟨one, -⟩
          · exact .inr (by rw [zero]; rfl)
          · exact .inl (by rw [one]; rfl)
        · exact absurd ⟨⟨command, word, state, value⟩, selected⟩ known
    · rwa [cmd_other (.inl selected)]
  · exact h
  · exact h

/-- An unknown word for another relay is ignored. -/
theorem ignores_unselected (unknown : r.Unknown x) (other : ¬ r.Selected x) : r.Ignores x := by
  have same : r.process x = r := by
    rw [Relay.process, if_pos unknown.1, cmd_other (.inl other)]
  simp [Relay.Ignores, same]

/-- **An unknown word for this relay toggles it**, and an event is sent. -/
theorem Relay.Sound.unknown (h : r.Sound) (unknown : r.Unknown x) (selected : r.Selected x) : ¬ r.Ignores x := by
  obtain ⟨command, word, state, value⟩ := unknown
  have other : ¬ toByte (-1) = 2 := by decide
  have differs : r.state ≠ toByte (-1) := by
    rcases h with ⟨zero, -⟩ | ⟨one, -⟩
    · rw [zero]
      decide
    · rw [one]
      decide
  have process : r.process x = r.change (toByte (-1)) := by
    rw [Relay.process, if_pos command, cmd_selected selected state, value, if_neg other]
  rintro ⟨high, -, -⟩
  have toggled : (r.change (toByte (-1))).high = !r.high := by
    rw [Relay.change, if_pos differs]
    exact toggle_high r.portD r.pin
  rw [process, toggled] at high
  cases level : r.high <;> simp [level] at high

/-! ## Runs -/

theorem Relay.unknown_iff {t : Relay} (same : SameRelay r t) (x : XapClass) :
    (t.Unknown x ∧ t.Selected x) ↔ (r.Unknown x ∧ r.Selected x) := by
  simp only [Relay.Unknown, Relay.Selected, Relay.isFor, same.source, same.id]

/-- A sound relay stays sound in a run, and the messages of a faithful run are known. -/
theorem Relay.Sound.run {messages : List XapClass} : ∀ {r : Relay}, r.Sound →
    (Faithful r messages ↔ ∀ x ∈ messages, ¬ (r.Unknown x ∧ r.Selected x)) := by
  induction messages with
  | nil =>
    intro r h
    refine ⟨fun _ => by simp, fun _ => ⟨fun done initial => ?_, fun done x initial => ?_⟩⟩
    · rw [List.prefix_nil.1 initial]
      exact h.agrees
    · simp at initial
  | cons y messages ih =>
    intro r h
    have same := process_same r y
    constructor
    · intro faithful
      have known : ¬ (r.Unknown y ∧ r.Selected y) := by
        rintro ⟨unknown, selected⟩
        exact h.unknown unknown selected (faithful.ignores [] y ⟨messages, rfl⟩ unknown)
      have rest : Faithful (r.process y) messages := by
        refine ⟨fun done initial => ?_, fun done x initial => ?_⟩
        · exact faithful.agrees (y :: done) ((List.prefix_cons_inj y).2 initial)
        · exact faithful.ignores (y :: done) x ((List.prefix_cons_inj y).2 initial)
      intro x hx
      rcases List.mem_cons.1 hx with rfl | later
      · exact known
      · have none := (ih (h.process known)).1 rest x later
        rwa [Relay.unknown_iff same] at none
    · intro all
      have known := all y List.mem_cons_self
      have rest := (ih (h.process known)).2 fun x hx => by
        rw [Relay.unknown_iff same]
        exact all x (List.mem_cons_of_mem y hx)
      refine ⟨fun done initial => ?_, fun done x initial unknown => ?_⟩
      · cases done with
        | nil => exact h.agrees
        | cons z done =>
          obtain ⟨rfl, later⟩ := List.cons_prefix_cons.1 initial
          exact rest.agrees done later
      · cases done with
        | nil =>
          obtain ⟨rfl, -⟩ := List.cons_prefix_cons.1 initial
          exact ignores_unselected unknown fun selected => known ⟨unknown, selected⟩
        | cons z done =>
          obtain ⟨rfl, later⟩ := List.cons_prefix_cons.1 initial
          exact rest.ignores done x later unknown

/-- **A relay reports what it does** in a run iff no command that selects it carries an unknown word. -/
theorem relay_faithful_iff (xapUID xapSOURCE : Bytes) (id : UInt8) (pin : Fin 8) (portD : BitVec 8)
    (messages : List XapClass) :
    Faithful (Relay.new xapUID xapSOURCE id pin portD) messages ↔
      ∀ x ∈ messages, ¬ ((Relay.new xapUID xapSOURCE id pin portD).Unknown x ∧
        (Relay.new xapUID xapSOURCE id pin portD).Selected x) := by
  have bit : (bitValue pin).getLsbD pin.val = true := by
    revert pin
    decide
  have start : (Relay.new xapUID xapSOURCE id pin portD).Sound := by
    refine .inl ⟨rfl, ?_⟩
    show (portD ||| bitValue pin).getLsbD pin.val = true
    rw [BitVec.getLsbD_or, bit, Bool.or_true]
  exact start.run

def firstRelay : Relay := Relay.new "FFBEEF00" "dbzoo.ethrelay.unit" 1 2 0

/-- A command with that state for the first relay, as received. -/
def relayCommand (state : Bytes) : XapClass :=
  (XapClass.blank.load (layout
    [⟨"xap-header", [("v", "12"), ("hop", "1"), ("uid", "FF00DE00"),
        ("class", "xAPBSC.cmd"), ("source", "dbzoo.livebox.demo"),
        ("target", "dbzoo.ethrelay.unit:relay.1")]⟩,
      ⟨outputState, [("id", "1"), ("state", state)]⟩])).parseMsg

/-- A misspelt word switches the relay on, and the next `on` switches it off while on is reported. -/
theorem misspelt_toggles :
    (firstRelay.run [relayCommand (ascii "onn")]).state = 255 ∧
      (firstRelay.run [relayCommand (ascii "onn")]).high = false ∧
      (firstRelay.run [relayCommand (ascii "onn")]).sent.map (·.state) = [ascii "on"] ∧
      (firstRelay.run [relayCommand (ascii "onn"), relayCommand (ascii "on")]).reportsOn = true ∧
      (firstRelay.run [relayCommand (ascii "onn"), relayCommand (ascii "on")]).high = true := by
  decide +kernel

end Hah.Arduino
