import Hah.CurrentCost.Endpoint
import Hah.Lib.Deadband

/-!
# Hysteresis of the channels: `infoEventChannel`

A channel of the whole house sends an event for a reading that differs from the reading
before it by more than the hysteresis. The comparison is with `previousValue`, which
`updateEndpointValue` replaces for every new reading, and not with what was sent. So a
channel is a gauge in the sense of `Hah.Lib.Deadband`, and it loses track of its last
message when the readings drift.
-/

namespace Hah.CurrentCost
open C Bsc Lib.Deadband List Option

/-- `b` differs from `a` by at most the hysteresis. -/
def within (h a b : Int) : Prop := a - h ≤ b ∧ b ≤ a + h

instance (h a b : Int) : Decidable (within h a b) := inferInstanceAs (Decidable (_ ∧ _))

/-! ## Runs -/

/-- A channel, the last message it sent and whether there was an event. -/
structure Channel where
  reporter : Reporter UserData
  message : Option Message
  announced : Bool

/-- A reading for the channel, or a query or due timeout for its info message. -/
def Channel.step (h : Int) (s : Channel) (input : Nat × Input Int) : Channel :=
  match input.2 with
  | .reading v =>
    let done := updateEndpointValue (infoEventChannel h) input.1 (decimalInt v) s.reporter
    { reporter := done.1, message := done.2.or s.message, announced := s.announced || done.2.isSome }
  | .info =>
    let done := bscSendInfo (infoEventChannel h) input.1 s.reporter
    { reporter := done.1, message := done.2.or s.message, announced := s.announced }

def Channel.start (id : UInt8) (subaddr : Bytes) (hysteresis : Int) (unit : Option Bytes)
    (address : Address) : Channel :=
  { reporter := newBscEndpoint id "ch" (some subaddr) .stream 65 hysteresis unit address
    message := none
    announced := false }

def Channel.run (h : Int) (s : Channel) (inputs : List (Nat × Input Int)) : Channel :=
  inputs.foldl (Channel.step h) s

/-- After each reading, once there was an event, the reading differs by at most the hysteresis from
the value that the last message carries. -/
def Follows (h : Int) (s : Channel) (inputs : List (Nat × Input Int)) : Prop :=
  ∀ before now v after, inputs = before ++ (now, .reading v) :: after →
    (s.run h (before ++ [(now, .reading v)])).announced = true →
      ∃ m, (s.run h (before ++ [(now, .reading v)])).message = some m ∧ ((v - atoi m.text).natAbs : Int) ≤ h

/-- Readings for which the comparison does not overflow. -/
structure Representable (h v : Int) : Prop where
  value : -2147483648 ≤ v ∧ v < 2147483648
  above : -2147483648 ≤ v + h ∧ v + h < 2147483648
  below : -2147483648 ≤ v - h ∧ v - h < 2147483648

/-! ## A channel is a gauge -/

/-- The text of a channel, before its first reading and after one. -/
def readingText : Option Int → Bytes
  | none => "?"
  | some v => decimalInt v

structure Shows (h : Int) (s : Channel) (g : Gauge Int) : Prop where
  analogue : s.reporter.endpoint.device.type ≠ 73
  text : s.reporter.endpoint.text = some (readingText g.cur)
  fits : Representable h (g.cur.getD 0)
  message : s.message.map (fun m => atoi m.text) = g.sent
  announced : s.announced = g.announced

variable {cur : Option Int} {v : Int} {s : Channel} {g : Gauge Int}

theorem atoi_readingText {h : Int} (fits : Representable h (cur.getD 0)) : atoi (readingText cur) = cur.getD 0 := by
  cases cur with
  | none => decide
  | some v => exact atoi_decimalInt fits.value.1 fits.value.2

theorem readingText_length {h : Int} (fits : Representable h (cur.getD 0)) : (readingText cur).length ≤ 11 := by
  cases cur with
  | none => decide
  | some v => exact decimalInt_length fits.value.1 fits.value.2

/-- The text of a reading is that of the reading before it only if they are the same. -/
theorem readingText_inj {h : Int} (fits : Representable h (cur.getD 0))
    (fitsV : Representable h v) (same : readingText cur = decimalInt v) : cur = some v := by
  cases cur with
  | none =>
    -- a number starts with a digit or a sign
    exfalso
    have question : 63 ∈ decimalInt v := by
      rw [← same]
      decide
    have digits : ∀ c ∈ decimal v.natAbs, isdigit c = true := isdigit_decimal
    unfold decimalInt at question
    split at question
    · rcases mem_cons.1 question with minus | digit
      · cases minus
      · cases digits 63 digit
    · cases digits 63 question
  | some w =>
    exact congrArg some (decimalInt_injective fits.value.1 fits.value.2 fitsV.value.1 fitsV.value.2 same)

section Callback

variable {h old new : Int} {clazz : Clazz} (now : Nat) {r : Reporter UserData}

/-- The message that the callback lets pass. -/
theorem sendInfoEvent_fires (oldIs : (r.endpoint.device.previousValue.map atoi).getD 0 = old)
    (newIs : atoi r.text = new) (short : r.text.length ≤ 11)
    (fires : clazz = .info ∨ wrap32 (old + h) < new ∨ new < wrap32 (old - h)) :
    (bscSendInfoEvent (infoEventChannel h) now clazz r).1.endpoint = r.endpoint ∧
      ∃ m, (bscSendInfoEvent (infoEventChannel h) now clazz r).2 = some m ∧ m.text = r.text := by
  subst oldIs newIs
  have passed : infoEventChannel h clazz r =
      ({ r with displayText := some ((decimalInt (atoi r.text) ++ " Watts").take 14) }, true) := if_pos fires
  have display : ((decimalInt (atoi r.text) ++ " Watts").take 14).length ≤ 14 := length_take_le _ _
  unfold bscSendInfoEvent
  rw [passed]
  dsimp only
  rw [bscInfoEvent_sent now clazz (r := { r with displayText := some _ })]
  · exact ⟨rfl, _, rfl, rfl⟩
  · show r.text.length + ((decimalInt (atoi r.text) ++ " Watts").take 14).length ≤ 800
    omega

theorem sendInfoEvent_silent (oldIs : (r.endpoint.device.previousValue.map atoi).getD 0 = old)
    (newIs : atoi r.text = new) (silent : ¬ (clazz = .info ∨ wrap32 (old + h) < new ∨ new < wrap32 (old - h))) :
    bscSendInfoEvent (infoEventChannel h) now clazz r = (r, none) := by
  subst oldIs newIs
  have stopped : infoEventChannel h clazz r = (r, false) := if_neg silent
  unfold bscSendInfoEvent
  rw [stopped]

end Callback

/-- The callback lets an event pass if the reading jumps. -/
theorem fires_iff {h : Int} (fits : Representable h (cur.getD 0)) (v : Int) :
    (Clazz.event = .info ∨ wrap32 (cur.getD 0 + h) < v ∨ v < wrap32 (cur.getD 0 - h)) ↔
      ¬ within h (cur.getD 0) v := by
  rw [wrap32_of_range fits.above.1 fits.above.2, wrap32_of_range fits.below.1 fits.below.2]
  unfold within
  constructor
  · rintro (event | outside)
    · cases event
    · omega
  · intro far
    right
    omega

/-- The channel with a new reading: an event if the reading jumps, and nothing else. -/
theorem newReading {h : Int} {r : Reporter UserData} (text : r.endpoint.text = some (readingText cur))
    (fitsCur : Representable h (cur.getD 0)) (now : Nat) (fits : Representable h v) :
    (bscSendEvent (infoEventChannel h) now (takeValue r (decimalInt v))).1.endpoint =
        (takeValue r (decimalInt v)).endpoint ∧
      ((bscSendEvent (infoEventChannel h) now (takeValue r (decimalInt v))).2.map fun m => atoi m.text) =
        if within h (cur.getD 0) v then none else some v := by
  obtain ⟨newText, previous, -⟩ := takeValue_spec r (decimalInt v)
  have textIs : (takeValue r (decimalInt v)).text = decimalInt v := by rw [Reporter.text, newText, getD_some]
  have new : atoi (takeValue r (decimalInt v)).text = v := by
    rw [textIs]
    exact atoi_decimalInt fits.value.1 fits.value.2
  have old : ((takeValue r (decimalInt v)).endpoint.device.previousValue.map atoi).getD 0 = cur.getD 0 := by
    rw [previous, text, map_some, getD_some, atoi_readingText fitsCur]
  have fires := fires_iff fitsCur v
  by_cases close : within h (cur.getD 0) v
  · rw [bscSendEvent, sendInfoEvent_silent now old new fun passes => fires.1 passes close, if_pos close]
    exact ⟨rfl, rfl⟩
  · have short : (takeValue r (decimalInt v)).text.length ≤ 11 := by
      rw [textIs]
      exact decimalInt_length fits.value.1 fits.value.2
    obtain ⟨same, m, sent, carries⟩ := sendInfoEvent_fires now old new short (fires.2 close)
    rw [bscSendEvent, sent, if_neg close, map_some, carries, new]
    exact ⟨same, rfl⟩

theorem update_same {h : Int} (shown : Shows h s g) (now : Nat) (same : g.cur = some v) :
    updateEndpointValue (infoEventChannel h) now (decimalInt v) s.reporter = (s.reporter, none) := by
  have equal : s.reporter.endpoint.text = some (decimalInt v) := by
    rw [shown.text, same]
    rfl
  exact (if_neg shown.analogue).trans (if_neg (not_not_intro equal))

theorem update_new {h : Int} (shown : Shows h s g) (now : Nat) (fits : Representable h v) (new : g.cur ≠ some v) :
    updateEndpointValue (infoEventChannel h) now (decimalInt v) s.reporter =
      bscSendEvent (infoEventChannel h) now (takeValue s.reporter (decimalInt v)) := by
  have differs : s.reporter.endpoint.text ≠ some (decimalInt v) := by
    rw [shown.text]
    exact fun equal => new (readingText_inj shown.fits fits (some.inj equal))
  exact (if_neg shown.analogue).trans (if_pos differs)

theorem shows_reading {h : Int} (shown : Shows h s g) (now : Nat) (fits : Representable h v) :
    Shows h (s.step h (now, .reading v)) (g.step (within h) 0 (.reading v)) := by
  by_cases same : g.cur = some v
  · rw [Gauge.step_same same]
    simp only [Channel.step, update_same shown now same]
    refine ⟨shown.analogue, shown.text, shown.fits, shown.message, ?_⟩
    rw [isSome_none, Bool.or_false]
    exact shown.announced
  · obtain ⟨newText, -, type⟩ := takeValue_spec s.reporter (decimalInt v)
    obtain ⟨endpoint, carries⟩ := newReading shown.text shown.fits now fits
    rw [Gauge.step_new same, ← carries, ← shown.message, ← shown.announced]
    simp only [Channel.step, update_new shown now fits same]
    refine ⟨?_, ?_, fits, ?_, ?_⟩
    · rw [endpoint, type]
      exact shown.analogue
    · rw [endpoint, newText]
      rfl
    · cases (bscSendEvent (infoEventChannel h) now (takeValue s.reporter (decimalInt v))).2 <;> rfl
    · rw [isSome_map]

theorem shows_info {h : Int} (shown : Shows h s g) (now : Nat) :
    Shows h (s.step h (now, .info)) (g.step (within h) 0 .info) := by
  have textIs : s.reporter.text = readingText g.cur := by rw [Reporter.text, shown.text, getD_some]
  have short : s.reporter.text.length ≤ 11 := by
    rw [textIs]
    exact readingText_length shown.fits
  obtain ⟨endpoint, m, sent, carries⟩ :=
    sendInfoEvent_fires (h := h) now (r := s.reporter) rfl rfl short (Or.inl rfl)
  simp only [Channel.step, bscSendInfo, sent]
  refine ⟨?_, ?_, shown.fits, ?_, shown.announced⟩
  · rw [endpoint]
    exact shown.analogue
  · rw [endpoint]
    exact shown.text
  · rw [some_or, map_some, carries, textIs, atoi_readingText shown.fits]
    rfl

def AllRepresentable (h : Int) (inputs : List (Nat × Input Int)) : Prop :=
  ∀ now v, (now, Input.reading v) ∈ inputs → Representable h v

/-- A run of a channel is a run of the gauge. -/
theorem run_shows {h : Int} (inputs : List (Nat × Input Int)) (shown : Shows h s g) (fits : AllRepresentable h inputs) :
    Shows h (s.run h inputs) ((inputs.map Prod.snd).foldl (Gauge.step (within h) 0) g) := by
  induction inputs generalizing s g with
  | nil => exact shown
  | cons input inputs ih =>
    obtain ⟨now, input⟩ := input
    apply ih
    · cases input with
      | reading v => exact shows_reading shown now (fits now v mem_cons_self)
      | info => exact shows_info shown now
    · exact fun n v mem => fits n v (mem_cons_of_mem _ mem)

theorem within_iff (h a b : Int) : ((b - a).natAbs : Int) ≤ h ↔ within h a b := by
  unfold within
  omega

/-- What a channel says of a reading is what the gauge says. -/
theorem Shows.close_iff {h : Int} (shown : Shows h s g) (v : Int) :
    (∃ m, s.message = some m ∧ ((v - atoi m.text).natAbs : Int) ≤ h) ↔ ∃ x, g.sent = some x ∧ within h x v := by
  rw [← shown.message]
  constructor
  · rintro ⟨m, is, close⟩
    refine ⟨atoi m.text, ?_, (within_iff h _ v).1 close⟩
    rw [is, map_some]
  · rintro ⟨x, sent, close⟩
    obtain ⟨m, is, rfl⟩ := map_eq_some_iff.1 sent
    exact ⟨m, is, (within_iff h _ v).2 close⟩

section Channels

variable (id : UInt8) (subaddr : Bytes) (hysteresis : Int) (unit : Option Bytes) (address : Address)

theorem start_shows {h : Int} (fits : Representable h 0) :
    Shows h (Channel.start id subaddr hysteresis unit address) Gauge.start :=
  ⟨show (65 : UInt8) ≠ 73 by decide, rfl, fits, rfl, rfl⟩

/-- A channel follows its readings if the gauge tracks them. -/
theorem follows_iff_tracks {h : Int} (fitsStart : Representable h 0) {inputs : List (Nat × Input Int)}
    (fits : AllRepresentable h inputs) :
    Follows h (Channel.start id subaddr hysteresis unit address) inputs ↔
      Tracks (within h) 0 (inputs.map Prod.snd) := by
  have start := start_shows id subaddr hysteresis unit address fitsStart
  have state : ∀ before now v after, inputs = before ++ (now, .reading v) :: after →
      Shows h ((Channel.start id subaddr hysteresis unit address).run h (before ++ [(now, .reading v)]))
        (run (within h) 0 (before.map Prod.snd ++ [.reading v])) := by
    intro before now v after split
    have part : before ++ [(now, .reading v)] ⊆ inputs := by
      rw [split, append_cons before _ after]
      exact subset_append_left _ _
    have reached := run_shows _ start fun n w mem => fits n w (part mem)
    rw [map_append] at reached
    exact reached
  constructor
  · intro follows before v after split announced
    obtain ⟨front, back, rfl, rfl, tail⟩ := map_eq_append_iff.1 split
    obtain ⟨⟨now, input⟩, rest, rfl, is, -⟩ := map_eq_cons_iff.1 tail
    obtain rfl : input = .reading v := is
    have shown := state front now v rest rfl
    apply (shown.close_iff v).1
    apply follows front now v rest rfl
    rw [shown.announced]
    exact announced
  · intro tracks before now v after split announced
    have shown := state before now v after split
    apply (shown.close_iff v).2
    apply tracks (before.map Prod.snd) v (after.map Prod.snd)
    · rw [split, map_append]
      rfl
    · rw [← shown.announced]
      exact announced

/-- **A channel follows its readings if and only if they do not drift.** Take a reading that differs
from the one before it by more than the hysteresis, or, after such a one, the reading that is there
when an info message is sent. As long as each further reading differs from its predecessor by at most
the hysteresis and no info message is sent, the readings have to stay within the hysteresis of it. -/
theorem follows_iff_driftFree {h : Int} (fitsStart : Representable h 0) {inputs : List (Nat × Input Int)}
    (fits : AllRepresentable h inputs) :
    Follows h (Channel.start id subaddr hysteresis unit address) inputs ↔
      DriftFree (within h) 0 (inputs.map Prod.snd) := by
  rw [follows_iff_tracks id subaddr hysteresis unit address fitsStart fits]
  apply tracks_iff_driftFree
  intro a b near
  unfold within at near ⊢
  omega

end Channels

def channelAddress : Address where
  uid := "FF00CC01"
  source := "dbzoo.livebox.CurrentCost:ch.1"
  uid_length := by decide
  source_length := by decide

/-- Readings that stay together are followed. -/
theorem follows_close_readings :
    Follows 10 (Channel.start 1 "1" 0 none channelAddress)
      [(1, .reading 100), (2, .reading 108), (3, .info), (4, .reading 104)] := by
  have fits : ∀ v : Int, v ∈ [(100 : Int), 108, 104] → Representable 10 v := by
    intro v mem
    simp only [mem_cons, not_mem_nil, or_false] at mem
    constructor <;> omega
  apply (follows_iff_driftFree 1 "1" 0 none channelAddress ⟨by decide, by decide, by decide⟩ _).2
  · apply driftFree_of_near
    intro a b memA memB
    simp only [map_cons, map_nil, mem_cons, not_mem_nil, or_false, Input.reading.injEq,
      reduceCtorEq, false_or] at memA memB
    unfold within
    omega
  · intro now v mem
    apply fits
    simp only [mem_cons, not_mem_nil, or_false, Prod.mk.injEq, Input.reading.injEq, reduceCtorEq,
      and_false, false_or] at mem ⊢
    omega

/-- Three steps of 5 watts are not reported with a hysteresis of 10: after the last one the reading is
115, and the only message carries 100. -/
theorem drift_not_reported :
    let s := (Channel.start 1 (ascii "1") 0 none channelAddress).run 10
      [(1, .reading 100), (2, .reading 105), (3, .reading 110), (4, .reading 115)]
    s.announced = true ∧ (s.message.map fun m => m.text) = some (ascii "100") ∧
      ¬ Follows 10 (Channel.start 1 (ascii "1") 0 none channelAddress)
        [(1, .reading 100), (2, .reading 105), (3, .reading 110), (4, .reading 115)] := by
  intro s
  have announced : s.announced = true := by decide +kernel
  have message : (s.message.map fun m => m.text) = some (ascii "100") := by decide +kernel
  refine ⟨announced, message, fun follows => ?_⟩
  obtain ⟨m, is, close⟩ := follows [(1, .reading 100), (2, .reading 105), (3, .reading 110)] 4 115 [] rfl announced
  have text : m.text = ascii "100" := by
    rw [show s.message = some m from is, map_some] at message
    exact some.inj message
  rw [text] at close
  exact absurd close (by decide)

end Hah.CurrentCost
