import Hah.C.Numbers
import Hah.Bsc.Report

/-!
# Calibration of the 1-wire sensors: `infoEvent1wire`

A sensor may have an offset, which is added to its readings. The info callback of the
endpoint adds it to the text of the endpoint and stores the sum there as the new text. It
does so each time it is called: for a reading, but also for every query, info timeout and
further event, and then the text holds the sum of an earlier call already.

Temperatures are exact numbers of tenths.
-/

namespace Hah.Livebox
open C Bsc

/-- `struct tempSensor`, temperatures in tenths. -/
structure TempSensor where
  lastSerialEvent : Nat
  hysteresis : Int
  offset : Int
  label : Option Bytes
  prevValue : Bytes
  deriving DecidableEq, Repr

/-- The endpoint with its text recalibrated, through the buffer of 6 bytes. -/
def recalibrate (r : Reporter TempSensor) : Reporter TempSensor :=
  if r.endpoint.device.offset = 0 then r
  else
    let new := atofTenths r.text + r.endpoint.device.offset
    { r with endpoint := bscSetText r.endpoint ((tenthsText new).take 5) }

/-- What a report leaves in the endpoint: the display text, and the value for the next comparison. -/
def noteReport (r : Reporter TempSensor) : Reporter TempSensor :=
  { r with
    displayText :=
      match r.endpoint.device.label with
      | none => r.displayText
      | some label => some ((label ++ " " ++ r.text).take 63)
    endpoint :=
      { r.endpoint with
        device := { r.endpoint.device with prevValue := r.text.take 5 } } }

def infoEvent1wire : InfoCallback TempSensor := fun clazz r =>
  let sensor := r.endpoint.device
  let new := atofTenths r.text + sensor.offset
  let old := atofTenths sensor.prevValue
  let r := recalibrate r
  if clazz = .info ∨ old + sensor.hysteresis < new ∨ new < old - sensor.hysteresis ∨ r.lastReport = 0 then
    (noteReport r, true)
  else (r, false)

/-- `serin_1wire` for the endpoint of the sensor. -/
def serin1wire (now : Nat) (temperature : Bytes) (r : Reporter TempSensor) :
    Reporter TempSensor × Option Message :=
  let r := { r with endpoint := bscSetText (bscSetState r.endpoint .on) temperature }
  let sent := bscSendEvent infoEvent1wire now r
  ({ sent.1 with
    endpoint :=
      { sent.1.endpoint with
        device := { sent.1.endpoint.device with lastSerialEvent := now } } }, sent.2)

def timeoutCheck1wire (interval now : Nat) (r : Reporter TempSensor) : Reporter TempSensor :=
  if r.endpoint.device.lastSerialEvent + interval < now then
    { r with endpoint := bscSetText (bscSetState r.endpoint .unknown) "?" }
  else r

/-! ## Runs -/

/-- What happens to the endpoint of a sensor, each at a time. -/
inductive SensorEvent where
  | reading (tenths : Int)
  | query
  | infoTimeout
  | report
  | check (interval : Nat)
  deriving DecidableEq, Repr

/-- The endpoint, and the last reading there was. -/
structure Monitor where
  reporter : Reporter TempSensor
  last : Option Int

def Monitor.step (s : Monitor) (now : Nat) : SensorEvent → Monitor × Option Message
  | .reading tenths =>
    let done := serin1wire now (tenthsText tenths) s.reporter
    (⟨done.1, some tenths⟩, done.2)
  | .query =>
    let done := bscSendInfo infoEvent1wire now s.reporter
    (⟨done.1, s.last⟩, done.2)
  | .infoTimeout =>
    let done := bscInfoTimeout infoEvent1wire 120 now s.reporter
    (⟨done.1, s.last⟩, done.2)
  | .report =>
    let done := bscSendEvent infoEvent1wire now s.reporter
    (⟨done.1, s.last⟩, done.2)
  | .check interval => (⟨timeoutCheck1wire interval now s.reporter, s.last⟩, none)

/-- The messages of a run, each with the last reading before it. -/
def Monitor.run (s : Monitor) : List (Nat × SensorEvent) → List (Message × Option Int)
  | [] => []
  | (now, event) :: events =>
    let done := s.step now event
    done.2.toList.map (·, done.1.last) ++ done.1.run events

/-- The endpoint of a sensor when it has been created. -/
def Monitor.start (subaddr : Bytes) (id : UInt8) (address : Address) (sensor : TempSensor) : Monitor where
  reporter :=
    { endpoint :=
        { name := "1wire", subaddr := some subaddr, id := id, io := .input, type := .stream,
          state := initialState .input .stream, text := some "?", device := sensor }
      address := address
      displayText := none
      lastReport := 0 }
  last := none

/-- A message of a known state carries the last reading and the offset. -/
def Calibrated (offset : Int) (sent : Message × Option Int) : Prop :=
  sent.1.state ≠ .unknown → ∃ tenths, sent.2 = some tenths ∧ sent.1.text = tenthsText (tenths + offset)

instance (offset : Int) (sent : Message × Option Int) : Decidable (Calibrated offset sent) :=
  match h : sent.2 with
  | none => decidable_of_iff (sent.1.state = .unknown) (by simp [Calibrated, h])
  | some tenths =>
    decidable_of_iff (sent.1.state ≠ .unknown → sent.1.text = tenthsText (tenths + offset)) (by simp [Calibrated, h])

/-- What a step needs: there is no offset; or a sum that is formed fits its buffer, and nothing but
a reading makes the endpoint of a known state report. -/
def Monitor.Sparing (s : Monitor) (now : Nat) (event : SensorEvent) : Prop :=
  s.reporter.endpoint.device.offset = 0 ∨
    match event with
    | .reading tenths =>
      -999 ≤ tenths + s.reporter.endpoint.device.offset ∧ tenths + s.reporter.endpoint.device.offset ≤ 9999
    | .query | .report => s.reporter.endpoint.state = .unknown
    | .infoTimeout => s.reporter.endpoint.state = .unknown ∨ ¬ infoDue 120 now s.reporter
    | .check _ => True

instance (s : Monitor) (now : Nat) (event : SensorEvent) : Decidable (s.Sparing now event) :=
  match event with
  | .reading _ => inferInstanceAs (Decidable (_ ∨ (_ ∧ _)))
  | .query | .report => inferInstanceAs (Decidable (_ ∨ _))
  | .infoTimeout => inferInstanceAs (Decidable (_ ∨ (_ ∨ ¬ infoDue 120 now s.reporter)))
  | .check _ => inferInstanceAs (Decidable (_ ∨ True))

def Monitor.SparingRun (s : Monitor) : List (Nat × SensorEvent) → Prop
  | [] => True
  | (now, event) :: events => s.Sparing now event ∧ (s.step now event).1.SparingRun events

/-! ## The callback -/

variable {offset : Int} {s : Monitor}

/-- The callback leaves the state and the offset, and the text recalibrated, whether or not a
message follows. -/
theorem infoEvent1wire_spec (clazz : Clazz) (r : Reporter TempSensor) :
    (infoEvent1wire clazz r).1.endpoint.state = r.endpoint.state ∧
      (infoEvent1wire clazz r).1.text = (recalibrate r).text ∧
      (infoEvent1wire clazz r).1.endpoint.device.offset = r.endpoint.device.offset := by
  have kept : (recalibrate r).endpoint.state = r.endpoint.state ∧
      (recalibrate r).endpoint.device.offset = r.endpoint.device.offset := by
    unfold recalibrate
    split <;> exact ⟨rfl, rfl⟩
  unfold infoEvent1wire
  dsimp only
  split <;> exact ⟨kept.1, rfl, kept.2⟩

/-- A report: the endpoint it leaves, and that a message told what is left. -/
theorem report_spec (now : Nat) (clazz : Clazz) (r : Reporter TempSensor) :
    (bscSendInfoEvent infoEvent1wire now clazz r).1.endpoint.state = r.endpoint.state ∧
      (bscSendInfoEvent infoEvent1wire now clazz r).1.text = (recalibrate r).text ∧
      (bscSendInfoEvent infoEvent1wire now clazz r).1.endpoint.device.offset = r.endpoint.device.offset ∧
      ∀ message ∈ (bscSendInfoEvent infoEvent1wire now clazz r).2,
        message.state = r.endpoint.state ∧ message.text = (recalibrate r).text := by
  obtain ⟨state, text, offset⟩ := infoEvent1wire_spec clazz r
  unfold bscSendInfoEvent
  split
  · rename_i after sends
    rw [sends] at state text offset
    obtain ⟨same, told⟩ := bscInfoEvent_spec now clazz after
    have keptText : (bscInfoEvent now clazz after).1.text = after.text := by rw [Reporter.text, same, ← Reporter.text]
    rw [same, keptText]
    refine ⟨state, text, offset, fun message sent => ?_⟩
    obtain ⟨-, toldState, toldText⟩ := told message sent
    exact ⟨toldState.trans state, toldText.trans text⟩
  · rename_i after silent
    rw [silent] at state text offset
    exact ⟨state, text, offset, fun message sent => by cases sent⟩

theorem recalibrate_none {r : Reporter TempSensor} (none : r.endpoint.device.offset = 0) : recalibrate r = r :=
  if_pos none

/-- A text that holds a reading is recalibrated to the sum. -/
theorem recalibrate_reading {r : Reporter TempSensor} (tenths : Int) (text : r.text = tenthsText tenths)
    (fits : r.endpoint.device.offset = 0 ∨
      -999 ≤ tenths + r.endpoint.device.offset ∧ tenths + r.endpoint.device.offset ≤ 9999) :
    (recalibrate r).text = tenthsText (tenths + r.endpoint.device.offset) := by
  by_cases none : r.endpoint.device.offset = 0
  · rw [recalibrate_none none, text, none, Int.add_zero]
  · obtain ⟨low, high⟩ := fits.resolve_left none
    rw [show recalibrate r = _ from if_neg none]
    show (tenthsText (atofTenths r.text + r.endpoint.device.offset)).take 5 = _
    rw [text, atofTenths_tenthsText, List.take_of_length_le (tenthsText_length low high)]

/-- A reading: the state is known, and the text is that of the reading, recalibrated. -/
theorem serin1wire_spec (now : Nat) (tenths : Int) (r : Reporter TempSensor)
    (fits : r.endpoint.device.offset = 0 ∨
      -999 ≤ tenths + r.endpoint.device.offset ∧ tenths + r.endpoint.device.offset ≤ 9999) :
    (serin1wire now (tenthsText tenths) r).1.text = tenthsText (tenths + r.endpoint.device.offset) ∧
      (serin1wire now (tenthsText tenths) r).1.endpoint.device.offset = r.endpoint.device.offset ∧
      ∀ message ∈ (serin1wire now (tenthsText tenths) r).2,
        message.text = tenthsText (tenths + r.endpoint.device.offset) := by
  obtain ⟨-, text, same, told⟩ := report_spec now .event
    { r with endpoint := bscSetText (bscSetState r.endpoint .on) (tenthsText tenths) }
  have sum := recalibrate_reading tenths
    (r := { r with endpoint := bscSetText (bscSetState r.endpoint .on) (tenthsText tenths) }) rfl fits
  have kept : (bscSetText (bscSetState r.endpoint .on) (tenthsText tenths)).device.offset = r.endpoint.device.offset :=
    rfl
  rw [kept] at sum same
  unfold serin1wire bscSendEvent
  dsimp only
  generalize bscSendInfoEvent infoEvent1wire now .event
    { r with endpoint := bscSetText (bscSetState r.endpoint .on) (tenthsText tenths) } = sent at text same told ⊢
  exact ⟨text.trans sum, same, fun message mem => (told message mem).2.trans sum⟩

/-! ## Sparing runs -/

/-- In a known state the text is that of the last reading and the offset. -/
structure Monitor.Inv (offset : Int) (s : Monitor) : Prop where
  configured : s.reporter.endpoint.device.offset = offset
  text : s.reporter.endpoint.state ≠ .unknown →
    ∃ tenths, s.last = some tenths ∧ s.reporter.text = tenthsText (tenths + offset)

/-- A report without a reading, where it changes no text that counts. -/
theorem report_inv (h : s.Inv offset) (now : Nat) (clazz : Clazz)
    (idle : s.reporter.endpoint.device.offset = 0 ∨ s.reporter.endpoint.state = .unknown) :
    Monitor.Inv offset ⟨(bscSendInfoEvent infoEvent1wire now clazz s.reporter).1, s.last⟩ ∧
      ∀ message ∈ (bscSendInfoEvent infoEvent1wire now clazz s.reporter).2,
        Calibrated offset (message, s.last) := by
  obtain ⟨state, text, same, told⟩ := report_spec now clazz s.reporter
  have carried : s.reporter.endpoint.state ≠ .unknown →
      ∃ tenths, s.last = some tenths ∧ (recalibrate s.reporter).text = tenthsText (tenths + offset) := by
    intro known
    rw [recalibrate_none (idle.resolve_right known)]
    exact h.text known
  refine ⟨⟨same.trans h.configured, ?_⟩, ?_⟩
  · intro known
    rw [text]
    apply carried
    rwa [← state]
  · intro message sent known
    obtain ⟨toldState, toldText⟩ := told message sent
    rw [toldText]
    apply carried
    rwa [← toldState]

theorem reading_inv (h : s.Inv offset) (now : Nat) (tenths : Int) (fits : s.Sparing now (.reading tenths)) :
    Monitor.Inv offset ⟨(serin1wire now (tenthsText tenths) s.reporter).1, some tenths⟩ ∧
      ∀ message ∈ (serin1wire now (tenthsText tenths) s.reporter).2, Calibrated offset (message, some tenths) := by
  obtain ⟨text, same, told⟩ := serin1wire_spec now tenths s.reporter fits
  rw [h.configured] at text same told
  exact ⟨⟨same, fun _ => ⟨tenths, rfl, text⟩⟩, fun message sent _ => ⟨tenths, rfl, told message sent⟩⟩

theorem timeoutCheck_inv (h : s.Inv offset) (interval now : Nat) :
    Monitor.Inv offset ⟨timeoutCheck1wire interval now s.reporter, s.last⟩ := by
  unfold timeoutCheck1wire
  split
  · exact ⟨h.configured, fun known => absurd rfl known⟩
  · exact h

/-- An info timeout is a query if it is due, and nothing otherwise. -/
theorem step_infoTimeout (s : Monitor) (now : Nat) :
    s.step now .infoTimeout = if infoDue 120 now s.reporter then s.step now .query else (s, none) := by
  have timed : s.step now .infoTimeout =
      (⟨(bscInfoTimeout infoEvent1wire 120 now s.reporter).1, s.last⟩,
        (bscInfoTimeout infoEvent1wire 120 now s.reporter).2) := rfl
  by_cases due : infoDue 120 now s.reporter
  · have sends : bscInfoTimeout infoEvent1wire 120 now s.reporter =
        bscSendInfoEvent infoEvent1wire now .info s.reporter := if_pos due
    rw [timed, sends, if_pos due]
    rfl
  · have silent : bscInfoTimeout infoEvent1wire 120 now s.reporter = (s.reporter, none) := if_neg due
    rw [timed, silent, if_neg due]

/-- A sparing step keeps the invariant, and its message is calibrated. -/
theorem step_inv (h : s.Inv offset) {now : Nat} {event : SensorEvent} (sparing : s.Sparing now event) :
    (s.step now event).1.Inv offset ∧
      ∀ message ∈ (s.step now event).2, Calibrated offset (message, (s.step now event).1.last) := by
  cases event with
  | reading tenths =>
    exact reading_inv h now tenths sparing
  | query =>
    dsimp only [Monitor.step]
    exact report_inv h now .info sparing
  | report =>
    exact report_inv h now .event sparing
  | check interval => exact ⟨timeoutCheck_inv h interval now, fun message sent => by cases sent⟩
  | infoTimeout =>
    rw [step_infoTimeout]
    split
    · rename_i due
      dsimp only [Monitor.step]
      exact report_inv h now .info (sparing.imp_right fun either => either.resolve_right (not_not_intro due))
    · exact ⟨h, fun message sent => by cases sent⟩

theorem run_calibrated (events : List (Nat × SensorEvent)) (h : s.Inv offset)
    (sparing : s.SparingRun events) : ∀ sent ∈ s.run events, Calibrated offset sent := by
  induction events generalizing s with
  | nil => exact fun sent mem => absurd mem List.not_mem_nil
  | cons head events ih =>
    obtain ⟨now, event⟩ := head
    obtain ⟨here, later⟩ := sparing
    obtain ⟨inv, told⟩ := step_inv h here
    intro sent mem
    rcases List.mem_append.1 mem with first | rest
    · obtain ⟨message, is, rfl⟩ := List.mem_map.1 first
      exact told message (Option.mem_toList.1 is)
    · exact ih inv later sent rest

/-- **Sensors report their calibrated reading in sparing runs.** If there is no offset, or every sum
fits its buffer and no query, event or due info timeout comes while the state is known, every message
of a known state carries the last reading and the offset. -/
theorem sparing_runs_calibrated (subaddr : Bytes) (id : UInt8) (address : Address) (sensor : TempSensor)
    (events : List (Nat × SensorEvent)) (sparing : (Monitor.start subaddr id address sensor).SparingRun events) :
    ∀ sent ∈ (Monitor.start subaddr id address sensor).run events, Calibrated sensor.offset sent := by
  apply run_calibrated events _ sparing
  exact ⟨rfl, fun known => absurd rfl known⟩

def oneDegree : TempSensor :=
  { lastSerialEvent := 0, hysteresis := 0, offset := 10, label := none, prevValue := [] }

def livingRoom : Address where
  uid := "FF00DB80"
  source := "dbzoo.livebox.Controller:1wire.1"
  uid_length := by decide
  source_length := by decide

/-- Two readings, the first of them timed out and queried before the second comes. The answer to the
query has an unknown state. -/
theorem sparing_runs_calibrated_readings :
    ((Monitor.start (ascii "1") 128 livingRoom oneDegree).run
        [(100, .reading 200), (900, .check 300), (901, .query), (1000, .reading (-55))]).map (·.1.text) =
      [ascii "21.0", ascii "1.0", ascii "-4.5"] ∧
    ∀ sent ∈ (Monitor.start (ascii "1") 128 livingRoom oneDegree).run
        [(100, .reading 200), (900, .check 300), (901, .query), (1000, .reading (-55))],
      Calibrated 10 sent := by
  constructor
  · decide +kernel
  · apply sparing_runs_calibrated (ascii "1") 128 livingRoom oneDegree
    exact ⟨by decide +kernel, by decide +kernel, by decide +kernel, by decide +kernel, trivial⟩

/-- A reading of 20.0 degrees is reported as 21.0, and as 22.0 on the query that follows. -/
theorem query_adds_offset_again :
    (Monitor.start "1" 128 livingRoom oneDegree).run [(100, .reading 200), (101, .query)] =
        [(⟨.event, .on, "21.0", []⟩, some 200), (⟨.info, .on, "22.0", []⟩, some 200)] ∧
      ¬ Calibrated 10 (⟨.info, .on, "22.0", []⟩, some 200) := by
  constructor
  · decide +kernel
  · decide +kernel

end Hah.Livebox
