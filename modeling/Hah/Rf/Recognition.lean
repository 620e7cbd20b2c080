import Hah.Rf.Sequence
import Hah.Lib.Recogniser

/-!
# Pulse trains: `URFConsumer`

The receiver feeds every duration that the AVR reports to `URFConsumer`, which compares it
with the entry of `durState` it waits for. A context is a matcher of `Hah.Lib.Recogniser`
whose template is `durState` without its last entry and whose start symbol is a lead-in.
When all pulses are shorter than 80% of a lead-in, no lead-in is taken for a pulse, and
the matcher resynchronises on every lead-in.
-/

namespace Hah.Rf
open C

/-! ## The code -/

inductive PctCompare where
  | shorter
  | equal
  | longer
  deriving DecidableEq, Repr

/-- `pctCompare`, with the products by `.8` taken exactly. -/
def pctCompare (newval oldval : Int) : PctCompare :=
  if 10 * newval.natAbs < 8 * oldval.natAbs then .shorter
  else if 10 * oldval.natAbs < 8 * newval.natAbs then .longer
  else .equal

def leadin : Int := 10000

section Consumer

variable {E : Type}

/-- `URFConsumer`: the context it leaves and the value it returns. When it returns 1 it has set
the state of the endpoint to `ctx.state` and sent an event. -/
def URFConsumer (ctx : URFContext E) (durstate : Int) : URFContext E × Bool :=
  if (durstate ≤ -leadin ∧ ctx.curState = 0) ∨
      pctCompare durstate (ctx.durState.getD ctx.curState 0) = .equal then
    if ctx.curState + 1 = ctx.durStateLen - 1 then ({ ctx with curState := 0 }, true)
    else ({ ctx with curState := ctx.curState + 1 }, false)
  else if durstate ≤ -leadin then ({ ctx with curState := 1 }, false)
  else ({ ctx with curState := 0 }, false)

def consume (ctx : URFContext E) (durations : List Int) : URFContext E :=
  durations.foldl (fun ctx d => (URFConsumer ctx d).1) ctx

def returns (ctx : URFContext E) : List Int → List Bool
  | [] => []
  | d :: durations => (URFConsumer ctx d).2 :: returns (URFConsumer ctx d).1 durations

/-! ## A context is a matcher -/

/-- `newval` is within 20% of `oldval` in magnitude. -/
def Within (newval oldval : Int) : Prop :=
  8 * oldval.natAbs ≤ 10 * newval.natAbs ∧ 8 * newval.natAbs ≤ 10 * oldval.natAbs

variable {durState : List Int} {k : Nat} {d : Int}

theorem pctCompare_equal_iff {newval oldval : Int} : pctCompare newval oldval = .equal ↔ Within newval oldval := by
  unfold pctCompare Within
  split
  next shorter => simp only [reduceCtorEq, false_iff]; omega
  next =>
    split
    next longer => simp only [reduceCtorEq, false_iff]; omega
    next => simp only [true_iff]; omega

def isLeadin (d : Int) : Bool := d ≤ -leadin

/-- The duration fits entry `k` of the array. -/
def fitsEntry (durState : List Int) (k : Nat) (d : Int) : Bool :=
  pctCompare d (durState.getD k 0) = .equal

theorem fitsEntry_iff : fitsEntry durState k d = true ↔ Within d (durState.getD k 0) := by
  unfold fitsEntry
  rw [decide_eq_true_iff, pctCompare_equal_iff]

theorem isLeadin_iff : isLeadin d = true ↔ d ≤ -leadin := by
  unfold isLeadin
  rw [decide_eq_true_iff]

theorem hit_iff :
    Recogniser.hit isLeadin (fitsEntry durState) k d = true ↔
      (d ≤ -leadin ∧ k = 0) ∨ pctCompare d (durState.getD k 0) = .equal := by
  simp [Recogniser.hit, isLeadin, fitsEntry]

/-- One call is one step of the matcher. -/
theorem consumer_eq_step (ctx : URFContext E) (d : Int) :
    URFConsumer ctx d =
      ({ ctx with
          curState :=
            (Recogniser.step isLeadin (fitsEntry ctx.durState) (ctx.durStateLen - 1) ctx.curState d).1 },
        (Recogniser.step isLeadin (fitsEntry ctx.durState) (ctx.durStateLen - 1) ctx.curState d).2) := by
  by_cases hits : Recogniser.hit isLeadin (fitsEntry ctx.durState) ctx.curState d = true
  · rw [URFConsumer, if_pos (hit_iff.1 hits), Recogniser.step, if_pos hits]
    by_cases complete : ctx.curState + 1 = ctx.durStateLen - 1
    · rw [if_pos complete, if_pos complete]
    · rw [if_neg complete, if_neg complete]
  · rw [URFConsumer, if_neg (mt hit_iff.2 hits), Recogniser.step, if_neg hits]
    by_cases lead : d ≤ -leadin
    · rw [if_pos lead, if_pos (isLeadin_iff.2 lead)]
    · rw [if_neg lead, if_neg (mt isLeadin_iff.1 lead)]

theorem consume_eq_place (ctx : URFContext E) (durations : List Int) :
    consume ctx durations =
      { ctx with
        curState := Recogniser.place isLeadin (fitsEntry ctx.durState) (ctx.durStateLen - 1) ctx.curState
          durations } := by
  induction durations generalizing ctx with
  | nil => rfl
  | cons d durations ih =>
    rw [consume, List.foldl_cons, consumer_eq_step]
    exact ih _

theorem returns_eq_answers (ctx : URFContext E) (durations : List Int) :
    returns ctx durations =
      Recogniser.answers isLeadin (fitsEntry ctx.durState) (ctx.durStateLen - 1) ctx.curState durations := by
  induction durations generalizing ctx with
  | nil => rfl
  | cons d durations ih =>
    rw [returns, consumer_eq_step, Recogniser.answers, ih]

theorem context_fresh {m : Mem} {e : E} {pattern : Nat} {state : Int} {ctx : URFContext E}
    (built : initURFContext m e pattern state = some ctx) :
    ctx.durStateLen = ctx.durState.length ∧ ctx.curState = 0 := by
  obtain ⟨h, bytes, seq, rfl⟩ := (initURFContext_iff ..).1 built
  exact ⟨seq.durArray_length.symm, rfl⟩

/-- A lead-in is longer than every pulse of less than 80% of it. -/
theorem leadin_apart (lead : d ≤ -leadin)
    (short : (durState.getD k 0).natAbs < 8000) : fitsEntry durState k d = false := by
  rw [← Bool.not_eq_true, fitsEntry_iff, Within]
  unfold leadin at lead
  omega

/-- **Pulse-train recognition.** In a context with frames, all of whose pulses are shorter than
80% of a lead-in: the index stays inside the template; a match was preceded by a start symbol
and the pulses of the template; and such a train behind a lead-in is always recognised, at its
last pulse and not before. -/
theorem pulse_train_recognised {m : Mem} {e : E} {pattern : Nat} {state : Int} {ctx : URFContext E}
    {frames : Nat} (built : initURFContext m e pattern state = some ctx)
    (count : ctx.durStateLen = 2 * (frames + 1)) (filled : 1 ≤ frames)
    (short : ∀ k, 1 ≤ k → k ≤ 2 * frames → (ctx.durState.getD k 0).natAbs < 8000) :
    (∀ received, (consume ctx received).curState < ctx.durStateLen - 1 ∧
      ctx.durStateLen = ctx.durState.length) ∧
    (∀ received d, (URFConsumer (consume ctx received) d).2 = true →
      ∃ before s train, received ++ [d] = before ++ s :: train ∧ train.length = 2 * frames ∧
        (s ≤ -10000 ∨ Within s (ctx.durState.getD 0 0)) ∧
        ∀ k (h : k < train.length), Within (train.get ⟨k, h⟩) (ctx.durState.getD (k + 1) 0)) ∧
    ∀ received s train, s ≤ -10000 → train.length = 2 * frames →
      (∀ k (h : k < train.length), Within (train.get ⟨k, h⟩) (ctx.durState.getD (k + 1) 0)) →
      returns (consume ctx received) (s :: train) = List.replicate (2 * frames) false ++ [true] := by
  obtain ⟨allocated, fresh⟩ := context_fresh built
  have long : 1 < ctx.durStateLen - 1 := by omega
  have bound : 0 < ctx.durStateLen - 1 := by omega
  refine ⟨?_, ?_, ?_⟩
  · intro received
    refine ⟨?_, allocated⟩
    rw [consume_eq_place, fresh]
    exact Recogniser.place_lt long bound received
  · intro received d found
    rw [consume_eq_place, fresh, consumer_eq_step] at found
    obtain ⟨before, w, text, length, fit⟩ :
        Recogniser.Tracks isLeadin (fitsEntry ctx.durState) (ctx.durStateLen - 1) (received ++ [d]) :=
      Recogniser.tracks_of_match found
    cases w with
    | nil =>
      rw [List.length_nil] at length
      omega
    | cons s train =>
      rw [List.length_cons] at length
      refine ⟨before, s, train, text, by omega, ?_, ?_⟩
      · rcases hit_iff.1 (fit 0 (by simp)) with ⟨lead, -⟩ | close
        · exact .inl lead
        · exact .inr (pctCompare_equal_iff.1 close)
      · intro k inside
        rcases hit_iff.1 (fit (k + 1) (by simpa using inside)) with ⟨-, first⟩ | close
        · omega
        · exact pctCompare_equal_iff.1 close
  · intro received s train lead length fit
    rw [consume_eq_place, fresh, returns_eq_answers, ← length]
    apply Recogniser.answers_of_template long (Recogniser.place_lt long bound received)
    · exact isLeadin_iff.2 lead
    · intro k positive inside
      exact leadin_apart lead (short k positive (by omega))
    · omega
    · intro k inside
      exact fitsEntry_iff.2 (fit k inside)

end Consumer

/-- The pulses of the sequence of `genurf.c` are short enough, so its train is recognised. -/
theorem pulse_train_byrson : ∃ ctx, initURFContext byrsonOff () 0 0 = some ctx ∧ ctx.durStateLen = 50 ∧
    ∀ received, (consume ctx received).curState < 49 := by
  have shape : (initURFContext byrsonOff () 0 0).map (fun ctx => ctx.durStateLen) = some 50 := by decide +kernel
  have small : (initURFContext byrsonOff () 0 0).all (fun ctx =>
      decide (∀ k < 48, (ctx.durState.getD (k + 1) 0).natAbs < 8000)) = true := by decide +kernel
  obtain ⟨ctx, built, length⟩ := Option.map_eq_some_iff.1 shape
  rw [built, Option.all_some, decide_eq_true_iff] at small
  have recognised := pulse_train_recognised built (show ctx.durStateLen = 2 * (24 + 1) from length) (by decide)
    (fun k positive inside => by
      obtain ⟨j, rfl⟩ := Nat.exists_eq_add_of_le' positive
      exact small j (by omega))
  refine ⟨ctx, built, length, fun received => ?_⟩
  have bound := (recognised.1 received).1
  rwa [length] at bound

end Hah.Rf
