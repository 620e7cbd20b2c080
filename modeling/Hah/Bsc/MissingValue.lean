import Hah.Bsc.Command
import Hah.Xap.RoundTrip

/-!
# `xaplib2/bsc.c`: commands without a level or text

`bscIncomingCmd` checks that a section has `state` and `id`, and then hands what the section
holds for `level` or `text` to `bscSetLevel` or `bscSetText`, which copy it. Whether the type
of the endpoint asks for a value that is not there is not checked: `none` of `bscIncomingCmd`.
It happens exactly at a section that the loop reaches, that is for this endpoint and that
lacks the value (`command_supplied_iff`).
-/

namespace Hah.Bsc
open C
open Xap (XapFrame xapGetValueF parseMsgF)

def frameValues (frame : XapFrame) : Values := fun section' key => xapGetValueF frame section' (some key)

variable {D : Type}

/-- `state` and `id` are there. -/
def Formed (values : Values) (i : Nat) : Prop :=
  (values (commandSection i) "state").isSome ∧ (values (commandSection i) "id").isSome

def Addresses (values : Values) (e : Endpoint D) (i : Nat) : Prop :=
  ∃ id, values (commandSection i) "id" = some id ∧ e.answersTo id = true

/-- The value that the type of the endpoint asks for is not there. -/
def Lacks (values : Values) (e : Endpoint D) (i : Nat) : Prop :=
  match e.type with
  | .binary => False
  | .level => values (commandSection i) "level" = none
  | .stream => values (commandSection i) "text" = none

variable {e : Endpoint D}

theorem setValue_none_iff {values : Values} {i : Nat} :
    setValue values (commandSection i) e = none ↔ Lacks values e i := by
  unfold setValue Lacks
  cases e.type <;> simp

/-- What a command looks at and no handler changes. -/
structure SameRole (e e' : Endpoint D) : Prop where
  id : e'.id = e.id
  type : e'.type = e.type

theorem SameIdentity.role {e' : Endpoint D} (same : SameIdentity e e') : SameRole e e' := ⟨same.id, same.type⟩

theorem SameRole.trans {e' e'' : Endpoint D} (h : SameRole e e') (h' : SameRole e' e'') : SameRole e e'' :=
  ⟨h'.id.trans h.id, h'.type.trans h.type⟩

section Loop

variable {values : Values} {send : Endpoint D → Endpoint D} {e e' : Endpoint D} {i : Nat} (n : Nat)

/-- Whom a section is for and what it lacks depends on the role of the endpoint alone. -/
theorem SameRole.addresses (same : SameRole e e') (i : Nat) : Addresses values e' i ↔ Addresses values e i := by
  simp only [Addresses, Endpoint.answersTo, same.id]

theorem SameRole.lacks (same : SameRole e e') (i : Nat) : Lacks values e' i ↔ Lacks values e i := by
  simp only [Lacks, same.type]

/-- One section of the loop. -/
theorem commandLoop_succ (e : Endpoint D) (sent : Nat) {state id : Bytes}
    (stateThere : values (commandSection i) "state" = some state)
    (idThere : values (commandSection i) "id" = some id) :
    commandLoop values send (n + 1) i (e, sent) =
      if e.answersTo id then
        (setValue values (commandSection i) (bscSetState e (bscDecodeState (some state)))).bind fun e =>
          commandLoop values send n (i + 1) (send e, sent + 1)
      else commandLoop values send n (i + 1) (e, sent) := by
  rw [commandLoop, stateThere, idThere]
  rfl

theorem commandLoop_unformed (e : Endpoint D) (sent : Nat) (unformed : ¬ Formed values i) :
    commandLoop values send (n + 1) i (e, sent) = some (e, sent) := by
  rw [commandLoop]
  split
  next stateThere idThere => exact absurd ⟨by simp [stateThere], by simp [idThere]⟩ unformed
  next => rfl

/-- Among the `n` sections from `i` on, one that the loop reaches is for this endpoint and lacks
the value. -/
def Starves (values : Values) (e : Endpoint D) (i n : Nat) : Prop :=
  ∃ k, i ≤ k ∧ k < i + n ∧ (∀ j, i ≤ j → j ≤ k → Formed values j) ∧ Addresses values e k ∧ Lacks values e k

theorem SameRole.starves (same : SameRole e e') (i n : Nat) : Starves values e' i n ↔ Starves values e i n := by
  simp only [Starves, same.addresses, same.lacks]

theorem not_starves_unformed (unformed : ¬ Formed values i) : ¬ Starves values e i n := by
  rintro ⟨k, low, -, all, -⟩
  exact unformed (all i (le_refl i) low)

/-- This section, or one behind it. -/
theorem starves_succ_iff (formed : Formed values i) :
    Starves values e i (n + 1) ↔ (Addresses values e i ∧ Lacks values e i) ∨ Starves values e (i + 1) n := by
  constructor
  · rintro ⟨k, low, high, all, lacking⟩
    rcases Nat.eq_or_lt_of_le low with rfl | behind
    · exact .inl lacking
    · exact .inr ⟨k, behind, by omega, fun j above below => all j (by omega) below, lacking⟩
  · rintro (lacking | ⟨k, low, high, all, lacking⟩)
    · refine ⟨i, le_refl i, by omega, fun j above below => ?_, lacking⟩
      obtain rfl : j = i := by omega
      exact formed
    · refine ⟨k, by omega, by omega, fun j above below => ?_, lacking⟩
      rcases Nat.eq_or_lt_of_le above with rfl | behind
      · exact formed
      · exact all j behind below

/-- **Where the loop reads from `NULL`**: at a section it reaches, for its endpoint, that lacks the
value. -/
theorem commandLoop_none_iff (keeps : ∀ e, SameRole e (send e)) (n i : Nat) (e : Endpoint D) (sent : Nat) :
    commandLoop values send n i (e, sent) = none ↔ Starves values e i n := by
  induction n generalizing i e sent with
  | zero => exact ⟨fun h => (Option.some_ne_none _ h).elim, fun ⟨k, low, high, _⟩ => absurd high (by omega)⟩
  | succ n ih =>
    by_cases formed : Formed values i
    · obtain ⟨state, stateThere⟩ := Option.isSome_iff_exists.1 formed.1
      obtain ⟨id, idThere⟩ := Option.isSome_iff_exists.1 formed.2
      have addressed : Addresses values e i ↔ e.answersTo id = true := by
        simp [Addresses, idThere]
      have same := (bscSetState_identity e (bscDecodeState (some state))).role
      rw [commandLoop_succ n e sent stateThere idThere, starves_succ_iff n formed, addressed]
      by_cases answers : e.answersTo id = true
      · rw [if_pos answers]
        cases set : setValue values (commandSection i) (bscSetState e (bscDecodeState (some state))) with
        | none =>
          have lacks := (same.lacks i).1 (setValue_none_iff.1 set)
          exact ⟨fun _ => .inl ⟨answers, lacks⟩, fun _ => rfl⟩
        | some next =>
          have supplied : ¬ Lacks values e i := fun lacks => by
            rw [setValue_none_iff.2 ((same.lacks i).2 lacks)] at set
            exact absurd set (Option.some_ne_none next).symm
          have role := (same.trans (setValue_identity set).role).trans (keeps next)
          rw [Option.bind_some, ih, role.starves]
          exact ⟨.inr, fun h => h.resolve_left fun here => supplied here.2⟩
      · rw [if_neg answers, ih]
        exact ⟨.inr, fun h => h.resolve_left fun here => answers here.1⟩
    · rw [commandLoop_unformed n e sent formed]
      exact ⟨fun h => (Option.some_ne_none _ h).elim, fun starves => absurd starves (not_starves_unformed _ formed)⟩

end Loop

/-- Every section that the loop reaches and that is for this endpoint has the value it asks for. -/
def Supplied (values : Values) (e : Endpoint D) : Prop := ¬ Starves values e 1 98

/-- The loop has come to section `i`, with the endpoint and the count it has there. -/
structure Arrives (values : Values) (send : Endpoint D → Endpoint D) (e : Endpoint D) (i : Nat) (e' : Endpoint D)
    (sent : Nat) : Prop where
  reached : ∀ j, 1 ≤ j → j < i → Formed values j
  before : commandLoop values send (i - 1) 1 (e, 0) = some (e', sent)

/-- No `NULL` is handed on, and a section that has `id` and `state` but lacks the value leaves the
level or text. -/
structure NullSafe (values : Values) (send : Endpoint D → Endpoint D) (e : Endpoint D) : Prop where
  completes : bscIncomingCmd values send e ≠ none
  leaves : ∀ i e' sent, 1 ≤ i → i ≤ 98 → Arrives values send e i e' sent → Formed values i → Lacks values e i →
    ∃ e'' sent'', commandLoop values send 1 i (e', sent) = some (e'', sent'') ∧ e''.text = e'.text

/-- **Commands and missing values**: no `NULL` is handed on, and texts are left alone, iff every
section that is reached and obeyed has its value. -/
theorem command_supplied_iff (frame : XapFrame) (send : Endpoint D → Endpoint D)
    (keeps : ∀ e, SameRole e (send e)) (e : Endpoint D) (output : e.io = .output) :
    NullSafe (frameValues frame) send e ↔ Supplied (frameValues frame) e := by
  have loop : bscIncomingCmd (frameValues frame) send e = commandLoop (frameValues frame) send 98 1 (e, 0) := by
    rw [bscIncomingCmd, output]
    exact if_neg (by decide)
  constructor
  · intro safe starves
    refine safe.completes ?_
    rw [loop]
    exact (commandLoop_none_iff keeps 98 1 e 0).2 starves
  · intro supplied
    refine ⟨fun failed => ?_, fun i e' sent low high arrives formed lacks => ?_⟩
    · rw [loop] at failed
      exact supplied ((commandLoop_none_iff keeps 98 1 e 0).1 failed)
    · -- the section is reached and lacks its value, so it is not for this endpoint
      have all : ∀ j, 1 ≤ j → j ≤ i → Formed (frameValues frame) j := by
        intro j above below
        rcases Nat.eq_or_lt_of_le below with rfl | before
        · exact formed
        · exact arrives.reached j above before
      have same := commandLoop_keeps SameIdentity.role SameRole.trans keeps (i - 1) 1 arrives.before
      obtain ⟨state, stateThere⟩ := Option.isSome_iff_exists.1 formed.1
      obtain ⟨id, idThere⟩ := Option.isSome_iff_exists.1 formed.2
      have other : ¬ e'.answersTo id = true := by
        intro answers
        exact supplied ⟨i, low, by omega, all, (same.addresses i).1 ⟨id, idThere, answers⟩, lacks⟩
      rw [commandLoop_succ 0 e' sent stateThere idThere, if_neg other]
      exact ⟨e', sent, rfl, rfl⟩

def dimmer : Endpoint Unit := ⟨"rgb", some "1", 10, .output, .level, .on, some "50", ()⟩

/-- A command to switch the dimmer off, with further pairs in its section. -/
def dimCommand (more : List (Bytes × Bytes)) : List Xap.Section :=
  [⟨"xap-header", [("class", "xAPBSC.cmd"), ("target", "dbzoo.livebox.Controller:rgb.1")]⟩,
    ⟨ascii "output.state.1", [(ascii "id", ascii "*"), (ascii "state", ascii "off")] ++ more⟩]

/-- The frame of a packet that is scanned as these sections finds what they hold. -/
theorem frameValues_eq (sections : List Xap.Section) (fits : (Xap.layout sections).length ≤ Xap.xapDataLen)
    (read : (Xap.scan (Xap.layout sections)).blocks.map Xap.Block.text = sections) :
    frameValues (parseMsgF (XapFrame.blank.load (Xap.layout sections))) = Xap.lookup sections := by
  have shows := Xap.parse_shows XapFrame.blank fits
  rw [read] at shows
  funext section' key
  exact shows.getValue section' key

/-- With a level the command is obeyed. -/
theorem dimCommand_supplied :
    NullSafe (frameValues (parseMsgF (XapFrame.blank.load
      (Xap.layout (dimCommand [(ascii "level", ascii "20")]))))) id dimmer := by
  have values := frameValues_eq (dimCommand [(ascii "level", ascii "20")]) (by decide +kernel)
    (by decide +kernel)
  have keeps : ∀ e : Endpoint Unit, SameRole e (id e) := fun e => ⟨rfl, rfl⟩
  refine (command_supplied_iff _ id keeps dimmer rfl).2 fun starves => ?_
  rw [values] at starves
  exact absurd ((commandLoop_none_iff keeps 98 1 dimmer 0).2 starves) (by decide +kernel)

/-- **Without a level** the command reads from `NULL`. -/
theorem dimCommand_null :
    ¬ NullSafe (frameValues (parseMsgF (XapFrame.blank.load (Xap.layout (dimCommand []))))) id dimmer := by
  have values := frameValues_eq (dimCommand []) (by decide +kernel) (by decide +kernel)
  have null : bscIncomingCmd (Xap.lookup (dimCommand [])) id dimmer = none := by decide +kernel
  intro safe
  rw [values] at safe
  exact safe.completes null

end Hah.Bsc
