import Mathlib.Data.List.Induction

/-!
# Reporting with a dead band

A gauge reads values and announces those that jump, that is, are not near the value read
just before. Between jumps it may be asked for its value. This is not the same as
announcing what is far from the last announcement: small steps in one direction are never
announced, and the value drifts away from what was said last.

The theorem here says that drift is the only way: the last message stays near the value
read last if and only if no sequence of small steps after a message leads away from it.
-/

namespace Hah.Lib.Deadband
open List Option

inductive Input (V : Type) where
  | reading (v : V)
  | info
  deriving DecidableEq, Repr

section Drift

variable {V : Type}

def lastReading (inputs : List (Input V)) : Option V :=
  inputs.foldl (fun last input =>
    match input with
    | .reading v => some v
    | .info => last) none

variable {inputs : List (Input V)} {a : V}

theorem lastReading_snoc (inputs : List (Input V)) (v : V) : lastReading (inputs ++ [.reading v]) = some v := by
  simp [lastReading, foldl_append]

theorem lastReading_info (inputs : List (Input V)) : lastReading (inputs ++ [.info]) = lastReading inputs := by
  simp [lastReading, foldl_append]

theorem lastReading_append (front back : List (Input V)) :
    lastReading (front ++ back) = (lastReading back).or (lastReading front) := by
  induction back using List.reverseRecOn with
  | nil => rw [append_nil]; rfl
  | append_singleton back input ih =>
    rw [← append_assoc]
    cases input with
    | reading v =>
      rw [lastReading_snoc, lastReading_snoc]
      rfl
    | info => rw [lastReading_info, lastReading_info, ih]

variable (near : V → V → Prop) (base : V)

/-- The value is not the one before it nor near it; before the first one there is `base`. -/
def Jump (cur : Option V) (v : V) : Prop := cur ≠ some v ∧ ¬ near (cur.getD base) v

def Jumped (inputs : List (Input V)) : Prop :=
  ∃ before v after, inputs = before ++ .reading v :: after ∧ Jump near base (lastReading before) v

/-- The inputs end with a jump to `a`; or, after some jump, with a request while `a` was the value. -/
inductive Heard : List (Input V) → V → Prop where
  | jump (before : List (Input V)) (a : V) (jumps : Jump near base (lastReading before) a) :
      Heard (before ++ [.reading a]) a
  | info (before : List (Input V)) (a : V) (jumped : Jumped near base before) (value : lastReading before = some a) :
      Heard (before ++ [.info]) a

/-- Readings after `a` none of which jumps. -/
def Quiet : V → List (Input V) → Prop
  | _, [] => True
  | a, .reading v :: rest => ¬ Jump near base (some a) v ∧ Quiet v rest
  | _, .info :: _ => False

/-- Readings that follow a message without a jump stay near its value. -/
def DriftFree (inputs : List (Input V)) : Prop :=
  ∀ before stretch after a, inputs = before ++ stretch ++ after → Heard near base before a →
    Quiet near base a stretch → near a ((lastReading stretch).getD a)

variable {near base}

theorem Jumped.snoc (jumped : Jumped near base inputs) (input : Input V) : Jumped near base (inputs ++ [input]) := by
  obtain ⟨before, v, after, rfl, jumps⟩ := jumped
  exact ⟨before, v, after ++ [input], by simp, jumps⟩

theorem Heard.jumped (heard : Heard near base inputs a) : Jumped near base inputs := by
  cases heard with
  | jump before a jumps => exact ⟨before, a, [], rfl, jumps⟩
  | info before a jumped value => exact jumped.snoc _

theorem Heard.lastReading (heard : Heard near base inputs a) : lastReading inputs = some a := by
  cases heard with
  | jump before a jumps => exact lastReading_snoc before a
  | info before a jumped value => rw [lastReading_info, value]

/-- The value behind a stretch. -/
theorem lastReading_stretch {before : List (Input V)} (value : Deadband.lastReading before = some a)
    (stretch : List (Input V)) :
    Deadband.lastReading (before ++ stretch) = some ((Deadband.lastReading stretch).getD a) := by
  rw [lastReading_append, value]
  cases Deadband.lastReading stretch <;> rfl

/-- A stretch goes on as long as the next reading does not jump. -/
theorem Quiet.snoc {stretch : List (Input V)} {v : V} (quiet : Quiet near base a stretch)
    (stays : ¬ Jump near base (some ((Deadband.lastReading stretch).getD a)) v) :
    Quiet near base a (stretch ++ [.reading v]) := by
  induction stretch generalizing a with
  | nil => exact ⟨stays, trivial⟩
  | cons input stretch ih =>
    cases input with
    | info => exact quiet
    | reading w =>
      refine ⟨quiet.1, ih quiet.2 ?_⟩
      have fallback := lastReading_stretch (show Deadband.lastReading [.reading w] = some w from rfl) stretch
      rw [singleton_append] at fallback
      rwa [fallback, getD_some] at stays

/-- A stretch ends with a reading. -/
theorem Quiet.last {stretch : List (Input V)} (quiet : Quiet near base a stretch) (nonempty : stretch ≠ []) :
    ∃ front v, stretch = front ++ [.reading v] := by
  induction stretch generalizing a with
  | nil => exact absurd rfl nonempty
  | cons input stretch ih =>
    cases input with
    | info => exact absurd quiet id
    | reading w =>
      by_cases single : stretch = []
      · exact ⟨[], w, by rw [single]; rfl⟩
      · obtain ⟨front, v, rfl⟩ := ih quiet.2 single
        exact ⟨.reading w :: front, v, rfl⟩

/-- Once there was a jump, the inputs are something heard and a quiet stretch behind it. -/
theorem Jumped.heard (jumped : Jumped near base inputs) :
    ∃ before stretch a, inputs = before ++ stretch ∧ Heard near base before a ∧ Quiet near base a stretch := by
  obtain ⟨front, w, back, rfl, first⟩ := jumped
  induction back using List.reverseRecOn with
  | nil => exact ⟨front ++ [.reading w], [], w, by simp, .jump front w first, trivial⟩
  | append_singleton back input ih =>
    obtain ⟨before, stretch, a, same, heard, quiet⟩ := ih
    have whole : front ++ .reading w :: (back ++ [input]) = (before ++ stretch) ++ [input] := by
      rw [← same]
      simp
    have value := lastReading_stretch heard.lastReading stretch
    rw [whole]
    cases input with
    | info =>
      have jumped : Jumped near base (before ++ stretch) := ⟨front, w, back, same.symm, first⟩
      exact ⟨before ++ stretch ++ [.info], [], _, by simp, .info _ _ jumped value, trivial⟩
    | reading v =>
      by_cases jumps : Jump near base (some ((Deadband.lastReading stretch).getD a)) v
      · exact ⟨before ++ stretch ++ [.reading v], [], v, by simp, .jump _ v (value ▸ jumps), trivial⟩
      · exact ⟨before, stretch ++ [.reading v], a, by simp, heard, quiet.snoc jumps⟩

theorem mem_of_lastReading {v : V} (value : Deadband.lastReading inputs = some v) : .reading v ∈ inputs := by
  induction inputs using List.reverseRecOn with
  | nil => cases value
  | append_singleton before input ih =>
    cases input with
    | reading w =>
      rw [lastReading_snoc] at value
      rw [some.inj value]
      exact mem_append_right _ mem_cons_self
    | info =>
      rw [lastReading_info] at value
      exact mem_append_left _ (ih value)

/-- Readings that are all near each other do not drift. -/
theorem driftFree_of_near
    (all : ∀ a b, .reading a ∈ inputs → .reading b ∈ inputs → near a b) : DriftFree near base inputs := by
  intro before stretch after a split heard _
  have inBefore : .reading a ∈ inputs := by
    rw [split, append_assoc]
    exact mem_append_left _ (mem_of_lastReading heard.lastReading)
  cases value : Deadband.lastReading stretch with
  | none => exact all a a inBefore inBefore
  | some b =>
    have inStretch : .reading b ∈ inputs := by
      rw [split, append_assoc]
      exact mem_append_right _ (mem_append_left _ (mem_of_lastReading value))
    exact all a b inBefore inStretch

end Drift

/-! ## The gauge -/

section Gauge

variable {V : Type} [DecidableEq V] (near : V → V → Prop) [DecidableRel near] (base : V)

instance (cur : Option V) (v : V) : Decidable (Jump near base cur v) := inferInstanceAs (Decidable (_ ∧ _))

/-- The value read last, the value of the last message, and whether a jump was announced. -/
structure Gauge (V : Type) where
  cur : Option V
  sent : Option V
  announced : Bool

def Gauge.step (g : Gauge V) : Input V → Gauge V
  | .reading v =>
    if Jump near base g.cur v then { cur := some v, sent := some v, announced := true }
    else { g with cur := some v }
  | .info => { g with sent := some (g.cur.getD base) }

def Gauge.start : Gauge V := { cur := none, sent := none, announced := false }

def run (inputs : List (Input V)) : Gauge V := inputs.foldl (Gauge.step near base) Gauge.start

/-- After a reading, once a jump was announced, the last message is near the reading. -/
def Tracks (inputs : List (Input V)) : Prop :=
  ∀ before v after, inputs = before ++ .reading v :: after →
    (run near base (before ++ [.reading v])).announced = true →
      ∃ m, (run near base (before ++ [.reading v])).sent = some m ∧ near m v

variable {v : V} {before : List (Input V)}

theorem run_snoc (inputs : List (Input V)) (input : Input V) :
    run near base (inputs ++ [input]) = (run near base inputs).step near base input := by
  simp [run, foldl_append]

theorem run_cur (inputs : List (Input V)) : (run near base inputs).cur = lastReading inputs := by
  induction inputs using List.reverseRecOn with
  | nil => rfl
  | append_singleton before input ih =>
    rw [run_snoc]
    cases input with
    | reading v =>
      rw [lastReading_snoc, Gauge.step]
      split <;> rfl
    | info =>
      rw [lastReading_info, ← ih]
      rfl

variable {near base}

theorem Gauge.step_same {g : Gauge V} (same : g.cur = some v) : g.step near base (.reading v) = g := by
  rw [Gauge.step, if_neg fun jumps => jumps.1 same, ← same]

/-- A new reading is the current one, and sent and announced unless it is near the one before it. -/
theorem Gauge.step_new {g : Gauge V} (new : g.cur ≠ some v) :
    g.step near base (.reading v) =
      { cur := some v
        sent := (if near (g.cur.getD base) v then none else some v).or g.sent
        announced := g.announced || (if near (g.cur.getD base) v then none else some v).isSome } := by
  by_cases close : near (g.cur.getD base) v
  · rw [Gauge.step, if_neg fun jumps => jumps.2 close, if_pos close, none_or, isSome_none,
      Bool.or_false]
  · rw [Gauge.step, if_pos ⟨new, close⟩, if_neg close, some_or, isSome_some, Bool.or_true]

/-- A jump is announced with its value. -/
theorem run_jump (jumps : Jump near base (lastReading before) v) :
    run near base (before ++ [.reading v]) = { cur := some v, sent := some v, announced := true } := by
  rw [run_snoc, Gauge.step, run_cur, if_pos jumps]

theorem run_stays (stays : ¬ Jump near base (lastReading before) v) :
    run near base (before ++ [.reading v]) = { run near base before with cur := some v } := by
  rw [run_snoc, Gauge.step, run_cur, if_neg stays]

theorem run_info (before : List (Input V)) :
    (run near base (before ++ [.info])).sent = some ((lastReading before).getD base) ∧
      (run near base (before ++ [.info])).announced = (run near base before).announced := by
  rw [run_snoc, ← run_cur near base]
  exact ⟨rfl, rfl⟩

/-- What is announced is a jump. -/
theorem announced_iff (inputs : List (Input V)) :
    (run near base inputs).announced = true ↔ Jumped near base inputs := by
  constructor
  · induction inputs using List.reverseRecOn with
    | nil => intro announced; cases announced
    | append_singleton before input ih =>
      cases input with
      | info =>
        rw [(run_info before).2]
        exact fun announced => (ih announced).snoc _
      | reading v =>
        by_cases jumps : Jump near base (lastReading before) v
        · exact fun _ => ⟨before, v, [], rfl, jumps⟩
        · rw [run_stays jumps]
          exact fun announced => (ih announced).snoc _
  · rintro ⟨before, v, after, rfl, jumps⟩
    induction after using List.reverseRecOn with
    | nil => rw [run_jump jumps]
    | append_singleton after input ih =>
      rw [← cons_append, ← append_assoc, run_snoc]
      cases input with
      | info => exact ih
      | reading w =>
        rw [Gauge.step]
        split
        · rfl
        · exact ih

/-- What was heard is the value of the last message. -/
theorem Heard.sent {inputs : List (Input V)} {a : V} (heard : Heard near base inputs a) :
    (run near base inputs).sent = some a := by
  cases heard with
  | jump before a jumps => rw [run_jump jumps]
  | info before a jumped value => rw [(run_info before).1, value, getD_some]

/-- No message follows quiet readings. -/
theorem run_quiet {stretch : List (Input V)} {a : V} (value : lastReading before = some a)
    (quiet : Quiet near base a stretch) : (run near base (before ++ stretch)).sent = (run near base before).sent := by
  induction stretch generalizing before a with
  | nil => rw [append_nil]
  | cons input stretch ih =>
    cases input with
    | info => exact absurd quiet id
    | reading v =>
      obtain ⟨stays, rest⟩ := quiet
      rw [← value] at stays
      have sent := ih (lastReading_snoc before v) rest
      rw [append_assoc, singleton_append, run_stays stays] at sent
      exact sent

/-- **Drift is the only way to lose track.** The band is taken to be the same around every value. -/
theorem tracks_iff_driftFree (uniform : ∀ a b, near a a → near b b) (inputs : List (Input V)) :
    Tracks near base inputs ↔ DriftFree near base inputs := by
  constructor
  · intro tracks before stretch after a split heard quiet
    by_cases empty : stretch = []
    · -- some jump was announced with its own value, so a value is near itself
      subst empty
      obtain ⟨front, v, back, same, jumps⟩ := heard.jumped
      obtain ⟨m, sent, close⟩ := tracks front v (back ++ after) (by rw [split, same]; simp)
        (by rw [run_jump jumps])
      rw [run_jump jumps] at sent
      rw [← some.inj sent] at close
      exact uniform v a close
    · obtain ⟨front, v, rfl⟩ := quiet.last empty
      obtain ⟨m, sent, close⟩ := tracks (before ++ front) v after (by rw [split]; simp)
        ((announced_iff _).2 (by
          obtain ⟨p, w, q, same, jumps⟩ := heard.jumped
          exact ⟨p, w, q ++ front ++ [.reading v], by rw [same]; simp, jumps⟩))
      rw [append_assoc, run_quiet heard.lastReading quiet, heard.sent] at sent
      rw [lastReading_snoc, getD_some, some.inj sent]
      exact close
  · intro driftFree before v after split announced
    obtain ⟨front, stretch, a, same, heard, quiet⟩ := ((announced_iff _).1 announced).heard
    have close := driftFree front stretch after a (by rw [← same, split]; simp) heard quiet
    have value := lastReading_stretch heard.lastReading stretch
    rw [← same, lastReading_snoc] at value
    rw [← some.inj value] at close
    refine ⟨a, ?_, close⟩
    rw [same, run_quiet heard.lastReading quiet, heard.sent]

end Gauge

end Hah.Lib.Deadband
