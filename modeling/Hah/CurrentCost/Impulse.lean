import Mathlib.Data.List.Chain
import Hah.CurrentCost.Endpoint

/-!
# Impulse meters

An impulse meter sends the reading of a counter. The endpoint reports how far the counter
went between two readings, and after it has moved, once, that it stands still.

`movements` is what the meter reports, in numbers: the difference to the reading before,
if they differ or if the difference before was not 0. The texts that the daemon keeps hold
these numbers, so `updateEndpointValue` sends exactly the movements.
-/

namespace Hah.CurrentCost
open C Bsc Option

/-! ## Movements -/

/-- The reading moves the counter, or the counter stands still for the first time; `previous` is the
reading before the current one, if that one was reported. -/
def moves (previous : Option Int) (current v : Int) : Prop :=
  v ≠ current ∨ (previous ≠ none ∧ previous ≠ some current)

instance (previous : Option Int) (current v : Int) : Decidable (moves previous current v) :=
  inferInstanceAs (Decidable (_ ∨ (_ ∧ _)))

/-- What is reported for each of the readings after the current one. -/
def movements : Option Int → Int → List Int → List (Option Int)
  | _, _, [] => []
  | previous, current, v :: rest =>
    if moves previous current v then some (v - current) :: movements (some current) v rest
    else none :: movements previous current rest

variable {previous : Option Int} {current v : Int} {r : Reporter UserData}

/-- A reading that is not reported is the current one. -/
theorem eq_of_not_moves (still : ¬ moves previous current v) : v = current := by
  by_contra different
  exact still (Or.inl different)

theorem movements_moves (rest : List Int) (moved : moves previous current v) :
    movements previous current (v :: rest) = some (v - current) :: movements (some current) v rest :=
  if_pos moved

theorem movements_still (rest : List Int) (still : ¬ moves previous current v) :
    movements previous current (v :: rest) = none :: movements previous current rest := if_neg still

def total (reports : List (Option Int)) : Int := (reports.filterMap id).foldr (· + ·) 0

theorem total_cons (d : Int) (rest : List (Option Int)) : total (some d :: rest) = d + total rest := rfl

theorem reported_cons (d : Int) (rest : List (Option Int)) :
    (some d :: rest).filterMap id = d :: rest.filterMap id := rfl

/-- The movements add up to the distance of the counter. -/
theorem movements_sum (previous : Option Int) (current : Int) (readings : List Int) :
    total (movements previous current readings) = readings.getLastD current - current := by
  induction readings generalizing previous current with
  | nil => exact (Int.sub_self current).symm
  | cons v rest ih =>
    rw [List.getLastD_cons]
    by_cases moved : moves previous current v
    · rw [movements_moves rest moved, total_cons, ih]
      omega
    · rw [movements_still rest moved, eq_of_not_moves moved]
      exact ih previous current

/-- A change is reported where it happens. -/
theorem movements_change (previous : Option Int) (current : Int) (readings : List Int) {i : Nat} {a b : Int}
    (before : (current :: readings)[i]? = some a) (after : readings[i]? = some b) (change : a ≠ b) :
    (movements previous current readings)[i]? = some (some (b - a)) := by
  induction readings generalizing previous current i with
  | nil => cases after
  | cons v rest ih =>
    cases i with
    | zero =>
      obtain rfl : current = a := some.inj before
      obtain rfl : v = b := some.inj after
      rw [movements_moves rest (Or.inl change.symm)]
      rfl
    | succ i =>
      by_cases moved : moves previous current v
      · rw [movements_moves rest moved]
        exact ih (some current) v before after
      · rw [movements_still rest moved]
        rw [eq_of_not_moves moved] at before
        exact ih previous current before after

/-- Unless the counter has just moved, the next report is of a movement. -/
theorem movements_head (rest' : previous = none ∨ previous = some current)
    (readings : List Int) : ∀ d ∈ ((movements previous current readings).filterMap id).head?, d ≠ 0 := by
  induction readings with
  | nil => exact fun d mem => absurd mem (by simp [movements])
  | cons v rest ih =>
    by_cases moved : moves previous current v
    · have different : v ≠ current := by
        rcases moved with different | ⟨known, other⟩
        · exact different
        · rcases rest' with unknown | same
          · exact absurd unknown known
          · exact absurd same other
      rw [movements_moves rest moved, reported_cons, List.head?_cons]
      intro d mem
      rw [← some.inj mem]
      omega
    · rw [movements_still rest moved, List.filterMap_cons_none rfl]
      exact ih

/-- A standstill is reported once. -/
theorem movements_chain (previous : Option Int) (current : Int) (readings : List Int) :
    ((movements previous current readings).filterMap id).IsChain fun a b => ¬ (a = 0 ∧ b = 0) := by
  induction readings generalizing previous current with
  | nil => exact .nil
  | cons v rest ih =>
    by_cases moved : moves previous current v
    · rw [movements_moves rest moved, reported_cons]
      refine List.isChain_cons.2 ⟨?_, ih (some current) v⟩
      rintro d mem ⟨zero, zero'⟩
      -- the counter stood still, so the next report is of a movement
      have same : current = v := by omega
      exact movements_head (Or.inr (congrArg some same)) rest d mem zero'
    · rw [movements_still rest moved, List.filterMap_cons_none rfl]
      exact ih previous current

/-! ## The meter -/

/-- What an endpoint sends for each of the readings, which come at times. -/
def meterRun (r : Reporter UserData) : List (Nat × Int) → List (Option Message)
  | [] => []
  | (now, v) :: readings =>
    let done := updateEndpointValue bscInfoEventDefault now (decimalInt v) r
    done.2 :: meterRun done.1 readings

def eventDelta (m : Message) : Option Int := if m.clazz = .event then some (atoi m.text) else none

/-- The deltas of the events, one place for each reading. -/
def deltas (r : Reporter UserData) (readings : List (Nat × Int)) : List (Option Int) :=
  (meterRun r readings).map fun sent => sent.bind eventDelta

def InInt (x : Int) : Prop := -2147483648 ≤ x ∧ x < 2147483648

instance (x : Int) : Decidable (InInt x) := inferInstanceAs (Decidable (_ ∧ _))

structure Holds (r : Reporter UserData) (previous : Option Int) (current : Int) : Prop where
  impulse : r.endpoint.device.type = 73
  text : r.endpoint.text ≠ none
  display : r.displayText = none
  stored : r.endpoint.device.currentValue = some (decimalInt current)
  before : r.endpoint.device.previousValue = previous.map decimalInt
  fitsCurrent : InInt current
  fitsPrevious : ∀ p ∈ previous, InInt p

theorem decimalInt_eq_iff {x y : Int} (hx : InInt x) (hy : InInt y) : decimalInt x = decimalInt y ↔ x = y :=
  ⟨decimalInt_injective hx.1 hx.2 hy.1 hy.2, congrArg decimalInt⟩

/-- The texts move when the numbers do. -/
theorem impulseMoves_iff (h : Holds r previous current) (fits : InInt v) :
    impulseMoves r (decimalInt current) (decimalInt v) ↔ moves previous current v := by
  unfold impulseMoves moves
  rw [h.before, ne_eq (decimalInt v), decimalInt_eq_iff fits h.fitsCurrent]
  constructor
  · rintro (noText | different | ⟨known, other⟩)
    · exact absurd noText h.text
    · exact Or.inl different
    · right
      cases previous with
      | none => exact absurd rfl known
      | some p =>
        refine ⟨some_ne_none p, fun same => other ?_⟩
        rw [same]
        rfl
  · rintro (different | ⟨known, other⟩)
    · exact Or.inr (Or.inl different)
    · right
      right
      cases previous with
      | none => exact absurd rfl known
      | some p =>
        refine ⟨some_ne_none _, fun same => other ?_⟩
        rw [(decimalInt_eq_iff (h.fitsPrevious p rfl) h.fitsCurrent).1 (some.inj same)]

/-- A reported reading: the endpoint holds it, and an event carries the difference. -/
theorem takeImpulse_sends
    (h : Holds r previous current) (fits : InInt v) (difference : InInt (v - current)) (now : Nat) :
    Holds (bscSendEvent bscInfoEventDefault now (takeImpulse r (decimalInt current) (decimalInt v))).1
        (some current) v ∧
      (bscSendEvent bscInfoEventDefault now (takeImpulse r (decimalInt current) (decimalInt v))).2.bind eventDelta =
        some (v - current) := by
  have text : (takeImpulse r (decimalInt current) (decimalInt v)).endpoint.text =
      some ((decimalInt (wrap32 (atoi (decimalInt v) - atoi (decimalInt current)))).take 15) := rfl
  have display : (takeImpulse r (decimalInt current) (decimalInt v)).displayText = none := h.display
  have length := decimalInt_length difference.1 difference.2
  have delta : (takeImpulse r (decimalInt current) (decimalInt v)).text = decimalInt (v - current) := by
    rw [Reporter.text, text, getD_some, atoi_decimalInt fits.1 fits.2,
      atoi_decimalInt h.fitsCurrent.1 h.fitsCurrent.2, wrap32_of_range difference.1 difference.2,
      List.take_of_length_le (by omega)]
  have sent : bscSendEvent bscInfoEventDefault now (takeImpulse r (decimalInt current) (decimalInt v)) =
      bscInfoEvent now .event (takeImpulse r (decimalInt current) (decimalInt v)) := rfl
  rw [sent, bscInfoEvent_sent]
  · refine ⟨⟨h.impulse, ?_, h.display, rfl, rfl, fits, ?_⟩, ?_⟩
    · rw [text]
      exact some_ne_none _
    · intro p mem
      rw [← some.inj mem]
      exact h.fitsCurrent
    · show eventDelta { clazz := .event, state := _, text := (takeImpulse r _ _).text, displayText := _ } = _
      rw [eventDelta, if_pos rfl, delta, atoi_decimalInt difference.1 difference.2]
  · rw [delta, display, getD_none, List.length_nil]
    omega

/-- The endpoint reports the movements. -/
theorem deltas_eq (readings : List (Nat × Int)) (h : Holds r previous current) (fits : ∀ x ∈ readings, InInt x.2)
    (differences : (current :: readings.map Prod.snd).IsChain fun a b => InInt (b - a)) :
    deltas r readings = movements previous current (readings.map Prod.snd) := by
  induction readings generalizing r previous current with
  | nil => rfl
  | cons reading readings ih =>
    obtain ⟨now, v⟩ := reading
    have fitsV := fits (now, v) List.mem_cons_self
    have fitsRest : ∀ x ∈ readings, InInt x.2 := fun x mem => fits x (List.mem_cons_of_mem _ mem)
    obtain ⟨difference, rest⟩ := List.isChain_cons_cons.1 differences
    have updated : updateEndpointValue bscInfoEventDefault now (decimalInt v) r =
        if impulseMoves r (decimalInt current) (decimalInt v) then
          bscSendEvent bscInfoEventDefault now (takeImpulse r (decimalInt current) (decimalInt v))
        else (r, none) := by
      unfold updateEndpointValue
      rw [if_pos h.impulse, h.stored]
    show (updateEndpointValue bscInfoEventDefault now (decimalInt v) r).2.bind eventDelta ::
      deltas (updateEndpointValue bscInfoEventDefault now (decimalInt v) r).1 readings = _
    rw [List.map_cons]
    by_cases moved : moves previous current v
    · rw [updated, if_pos ((impulseMoves_iff h fitsV).2 moved), movements_moves _ moved]
      obtain ⟨holds, carries⟩ := takeImpulse_sends h fitsV difference now
      rw [carries, ih holds fitsRest rest]
    · rw [updated, if_neg fun texts => moved ((impulseMoves_iff h fitsV).1 texts), movements_still _ moved]
      rw [eq_of_not_moves moved] at rest
      rw [ih h fitsRest rest]
      rfl

section Meter

variable (uid : UInt8) (name : Bytes) (subaddr : Option Bytes) (hysteresis : Int)
  (unit : Option Bytes) (address : Address)

def newImpulse : Reporter UserData := newBscEndpoint uid name subaddr .stream 73 hysteresis unit address

theorem deltas_first (now : Nat) {v : Int} (fits : InInt v) (readings : List (Nat × Int)) :
    ∃ r, Holds r none v ∧
      deltas (newImpulse uid name subaddr hysteresis unit address) ((now, v) :: readings) =
        none :: deltas r readings := by
  refine ⟨(updateEndpointValue bscInfoEventDefault now (decimalInt v)
    (newImpulse uid name subaddr hysteresis unit address)).1, ?_, rfl⟩
  exact ⟨rfl, some_ne_none _, rfl, rfl, rfl, fits, fun p mem => by cases mem⟩

/-- **Impulse meters lose nothing.** For readings in the range of `int`, with differences in that
range: the deltas of the events add up to what the counter advanced, each change of the reading is
reported in the event for it, and no two events in a row carry 0. -/
theorem impulses_conserved (now : Nat) (first : Int) (readings : List (Nat × Int)) (fitsFirst : InInt first)
    (fits : ∀ x ∈ readings, InInt x.2)
    (differences : (first :: readings.map Prod.snd).IsChain fun a b => InInt (b - a)) :
    let sent := deltas (newImpulse uid name subaddr hysteresis unit address) ((now, first) :: readings)
    total sent = (readings.map Prod.snd).getLastD first - first ∧
      (∀ i a b, (first :: readings.map Prod.snd)[i]? = some a → (first :: readings.map Prod.snd)[i + 1]? = some b →
        a ≠ b → sent[i + 1]? = some (some (b - a))) ∧
      (sent.filterMap id).IsChain fun a b => ¬ (a = 0 ∧ b = 0) := by
  obtain ⟨r, holds, stored⟩ := deltas_first uid name subaddr hysteresis unit address now fitsFirst readings
  intro sent
  have reports : sent = none :: movements none first (readings.map Prod.snd) := by
    rw [← deltas_eq readings holds fits differences]
    exact stored
  rw [reports]
  refine ⟨movements_sum _ _ _, ?_, movements_chain none first _⟩
  intro i a b before after change
  exact movements_change none first (readings.map Prod.snd) before after change

end Meter

def sensorAddress : Address where
  uid := "FF00CC0A"
  source := "dbzoo.livebox.CurrentCost:sensor.1"
  uid_length := by decide
  source_length := by decide

/-- A counter that starts at 5, waits, advances, stands still and is set back. -/
theorem impulses_conserved_counter :
    let sent := deltas (newImpulse 10 "sensor" (some "1") 0 none sensorAddress)
      [(1, 5), (2, 5), (3, 9), (4, 9), (5, 9), (6, 7)]
    total sent = 7 - 5 ∧ sent[2]? = some (some (9 - 5)) ∧ sent[5]? = some (some (7 - 9)) ∧
      (sent.filterMap id).IsChain fun a b => ¬ (a = 0 ∧ b = 0) := by
  obtain ⟨sum, changes, chain⟩ := impulses_conserved 10 "sensor" (some "1") 0 none sensorAddress 1 5
    [(2, 5), (3, 9), (4, 9), (5, 9), (6, 7)] (by decide) (by decide) (by decide)
  exact ⟨sum, changes 1 5 9 rfl rfl (by decide), changes 4 9 7 rfl rfl (by decide), chain⟩

end Hah.CurrentCost
