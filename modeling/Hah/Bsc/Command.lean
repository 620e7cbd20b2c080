import Hah.C.Numbers
import Hah.Bsc.Endpoint

/-!
# `xaplib2/bsc.c`: commands

`bscIncomingCmd` walks the sections `output.state.1`, `output.state.2` and so on of an
`xAPBSC.cmd` message up to the first one that is not there, and obeys those that carry the
identifier of its endpoint. What the message holds is a function from sections and keys
(`Values`); what `bscSendCmdEvent` makes of the endpoint is a parameter, because it calls
the handlers of the program that uses the library.
-/

namespace Hah.Bsc
open C

/-- `xapGetValue(section, key)` on the message at hand. -/
abbrev Values := Bytes → Bytes → Option Bytes

variable {D : Type}

/-- `sprintf(section, "output.state.%d", i)`. -/
def commandSection (i : Nat) : Bytes := "output.state." ++ decimal i

/-- `*id == '*' || strcmp(e->id, id) == 0`. -/
def Endpoint.answersTo (e : Endpoint D) (id : Bytes) : Bool := id.head? == some 42 || hex02 e.id == id

/-- The level or text of a section; a value that is not there is copied from `NULL`. -/
def setValue (values : Values) (section' : Bytes) (e : Endpoint D) : Option (Endpoint D) :=
  match e.type with
  | .binary => some e
  | .level => (values section' "level").map (bscSetText e)
  | .stream => (values section' "text").map (bscSetText e)

/-- The loop of `bscIncomingCmd`, `n` sections from `i` on, with the number of calls of
`bscSendCmdEvent` so far. -/
def commandLoop (values : Values) (send : Endpoint D → Endpoint D) :
    Nat → Nat → Endpoint D × Nat → Option (Endpoint D × Nat)
  | 0, _, done => some done
  | n + 1, i, (e, sent) =>
    match values (commandSection i) "state", values (commandSection i) "id" with
    | some state, some id =>
      if e.answersTo id then do
        let e ← setValue values (commandSection i) (bscSetState e (bscDecodeState (some state)))
        commandLoop values send n (i + 1) (send e, sent + 1)
      else commandLoop values send n (i + 1) (e, sent)
    | _, _ => some (e, sent)

/-- `bscIncomingCmd`: the endpoint and the number of events it sends; `none` when it reads from
`NULL`. -/
def bscIncomingCmd (values : Values) (send : Endpoint D → Endpoint D) (e : Endpoint D) :
    Option (Endpoint D × Nat) :=
  if e.io = .input then some (e, 0) else commandLoop values send 98 1 (e, 0)

/-! ## What a command cannot change -/

structure SameIdentity (e e' : Endpoint D) : Prop where
  name : e'.name = e.name
  subaddr : e'.subaddr = e.subaddr
  id : e'.id = e.id
  io : e'.io = e.io
  type : e'.type = e.type
  device : e'.device = e.device

variable {e e' : Endpoint D} {values : Values}

theorem SameIdentity.refl (e : Endpoint D) : SameIdentity e e := ⟨rfl, rfl, rfl, rfl, rfl, rfl⟩

theorem SameIdentity.symm (h : SameIdentity e e') : SameIdentity e' e :=
  ⟨h.name.symm, h.subaddr.symm, h.id.symm, h.io.symm, h.type.symm, h.device.symm⟩

theorem SameIdentity.trans {e'' : Endpoint D} (h : SameIdentity e e') (h' : SameIdentity e' e'') : SameIdentity e e'' :=
  ⟨h'.name.trans h.name, h'.subaddr.trans h.subaddr, h'.id.trans h.id, h'.io.trans h.io, h'.type.trans h.type,
    h'.device.trans h.device⟩

theorem bscSetState_identity (e : Endpoint D) (code : StateCode) : SameIdentity e (bscSetState e code) := by
  rw [bscSetState_eq]
  exact ⟨rfl, rfl, rfl, rfl, rfl, rfl⟩

theorem bscSetText_identity (e : Endpoint D) (text : Bytes) : SameIdentity e (bscSetText e text) :=
  ⟨rfl, rfl, rfl, rfl, rfl, rfl⟩

theorem setValue_identity {section' : Bytes} (set : setValue values section' e = some e') : SameIdentity e e' := by
  unfold setValue at set
  split at set
  · cases set
    exact .refl _
  · obtain ⟨text, -, rfl⟩ := Option.map_eq_some_iff.1 set
    exact bscSetText_identity e text
  · obtain ⟨text, -, rfl⟩ := Option.map_eq_some_iff.1 set
    exact bscSetText_identity e text

/-- What the setters and the handlers keep of an endpoint, the loop keeps. -/
theorem commandLoop_keeps {send : Endpoint D → Endpoint D} {R : Endpoint D → Endpoint D → Prop}
    (identity : ∀ {e e'}, SameIdentity e e' → R e e') (trans : ∀ {e e' e''}, R e e' → R e' e'' → R e e'')
    (keeps : ∀ e, R e (send e)) (n i : Nat) {sent sent' : Nat}
    (ran : commandLoop values send n i (e, sent) = some (e', sent')) : R e e' := by
  induction n generalizing i e sent with
  | zero =>
    cases ran
    exact identity (.refl _)
  | succ n ih =>
    unfold commandLoop at ran
    split at ran
    next state id _ _ =>
      split_ifs at ran
      · obtain ⟨next, set, rest⟩ := Option.bind_eq_some_iff.1 ran
        have first := (bscSetState_identity e (bscDecodeState (some state))).trans (setValue_identity set)
        exact trans (trans (identity first) (keeps next)) (ih (i + 1) rest)
      · exact ih (i + 1) ran
    next =>
      cases ran
      exact identity (.refl _)

/-- **A command does not touch an input** and keeps what identifies an output. -/
theorem bscIncomingCmd_identity {send : Endpoint D → Endpoint D} (keeps : ∀ e, SameIdentity e (send e)) {sent : Nat}
    (ran : bscIncomingCmd values send e = some (e', sent)) : SameIdentity e e' ∧ (e.io = .input → e' = e) := by
  unfold bscIncomingCmd at ran
  split_ifs at ran with input
  · cases ran
    exact ⟨.refl _, fun _ => rfl⟩
  · exact ⟨commandLoop_keeps id SameIdentity.trans keeps 98 1 ran, fun isInput => absurd isInput input⟩

end Hah.Bsc
