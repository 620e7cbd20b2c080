import Hah.Xap.ShortMessage

/-!
# Calendar events: `googleEventCheck` of `xap-googlecal/googlecal.c`

Every minute the cached events are looked through, and an event that is marked `xap` is sent: its
description as a short message, or its title as an alias. An event that is not ready is to be left out,
but the test for it asks for a start in the future *and* an end in the past. No event with a start
before its end passes that test, so that past and future events are sent as well. For a date that cannot
be parsed `internalError` sends a message of its own.

`turn` is one round of the loop. What it sends does not depend on the two time variables that it
inherits from the round before (`turn_sends`).
-/

namespace Hah.GoogleCal
open C Xap List Option

/-! ## The code -/

/-- `gcal_event_t`; the description may be `NULL`. -/
structure GcalEvent where
  start : Bytes
  stop : Bytes
  place : Bytes
  content : Option Bytes
  title : Bytes
  deriving DecidableEq, Repr

/-- `struct gcal_event_array`; without entries the length may be anything. -/
structure EventArray where
  entries : Option (List GcalEvent)
  length : Nat
  length_eq : ∀ list ∈ entries, length = list.length

/-- `svn_parse_date`: the time of a text, and what a failed call leaves in `*result`. -/
structure DateParser where
  time : Bytes → Int → Option Int
  leaves : Bytes → Int → Int → Int

/-- What the locals of a call of `fillShortXap` held before. -/
structure Locals where
  f : XapFrame
  xapBody : Mem
  newMsg : Mem

/-- What a pass depends on besides the events. -/
structure Around where
  uid : Bytes
  source : Bytes
  curtime : Int
  dates : DateParser
  locals : Nat → Locals

/-- The variables that persist between the rounds. -/
structure Times where
  start_time : Int
  stop_time : Int

def gcalEventElement (events : EventArray) (i : Nat) : Option GcalEvent :=
  events.entries.bind fun entries => entries[i]?

/-- `svn_parse_date(text, curtime, &result)`: whether it returns 0, and `result`. -/
def DateParser.svnParseDate (dates : DateParser) (text : Bytes) (curtime result : Int) : Bool × Int :=
  match dates.time text curtime with
  | some t => (true, t)
  | none => (false, dates.leaves text curtime result)

/-- The message of an event without a description. -/
def aliasText (uid source title : Bytes) : Bytes :=
  "xap-header\n\x7b\nv=12\nhop=1\nuid=" ++ uid ++ "\nclass=alias\nsource=" ++ source ++
    "\n\x7d\ncommand\n\x7b\ntext=" ++ title ++ "\n\x7d\n"

/-- `xapmsg`, which may be `NULL`; no outcome where `fillShortXap` has none. -/
def message (a : Around) (i : Nat) (e : GcalEvent) : Option (Option Bytes) :=
  let description := e.content.getD []
  if description ≠ [] then
    fillShortXap a.uid a.source (a.locals i).f (a.locals i).xapBody (a.locals i).newMsg description
  else some (some ((aliasText a.uid a.source e.title).take (xapDataLen - 1)))

/-- `internalError` without the log: what it sends. A header that does not fit, and a text that makes
the size for the last line negative, are printed behind the buffer. -/
def internalError (a : Around) (text : Bytes) : Option (Option Bytes) :=
  let header := "xap-header\n\x7b\nv=12\nhop=1\nuid=" ++ a.uid ++ "\nclass=google.calendar\nsource=" ++
    a.source ++ "\n\x7d\nerror\n\x7b\ntext="
  let len := header.length + text.length
  if xapDataLen ≤ header.length ∨ xapDataLen < len then none
  else if len + 3 < xapDataLen then some (some (header ++ text ++ "\n\x7d\n"))
  else some none

/-- The errors of the two dates. -/
def startError (e : GcalEvent) : Bytes := "Error parsing START date: " ++ e.start

def endError (e : GcalEvent) : Bytes := "Error parsing END date: " ++ e.stop

/-- The body of the loop: the variables, and what is sent. -/
def turn (a : Around) (i : Nat) (v : Times) (e : GcalEvent) : Option (Times × Option Bytes) :=
  let start := a.dates.svnParseDate e.start a.curtime v.start_time
  if start.1 = false then (internalError a (startError e)).map fun sent => (⟨start.2, v.stop_time⟩, sent)
  else
    let stop := a.dates.svnParseDate e.stop a.curtime v.stop_time
    if stop.1 = false then (internalError a (endError e)).map fun sent => (⟨start.2, stop.2⟩, sent)
    else if start.2 > a.curtime ∧ stop.2 < a.curtime then some (⟨start.2, stop.2⟩, none)
    else if strcasecmpEq "xap" e.place = false then some (⟨start.2, stop.2⟩, none)
    else (message a i e).map fun xapmsg => (⟨start.2, stop.2⟩, xapmsg)

/-- The loop with `n` rounds left, from `i`: the messages that are sent. -/
def eventLoop (a : Around) (events : EventArray) : Nat → Nat → Times → Option (List Bytes)
  | 0, _, _ => some []
  | n + 1, i, v =>
    match gcalEventElement events i with
    | none => some []
    | some e =>
      (turn a i v e).bind fun t => (eventLoop a events n (i + 1) t.1).map fun sent => t.2.toList ++ sent

def googleEventCheck (a : Around) (events : EventArray) : Option (List Bytes) :=
  eventLoop a events events.length 0 ⟨0, 0⟩

/-! ## What is wanted -/

def EventArray.list (events : EventArray) : List GcalEvent := events.entries.getD []

/-- Both dates of an event, or the error of the one that cannot be parsed. -/
def dates (a : Around) (e : GcalEvent) : Except Bytes (Int × Int) :=
  match a.dates.time e.start a.curtime, a.dates.time e.stop a.curtime with
  | none, _ => .error (startError e)
  | some _, none => .error (endError e)
  | some start, some stop => .ok (start, stop)

def Active (a : Around) (d : Int × Int) : Prop := d.1 ≤ a.curtime ∧ a.curtime ≤ d.2

instance (a : Around) (d : Int × Int) : Decidable (Active a d) := inferInstanceAs (Decidable (_ ∧ _))

/-- The message of an event that is active and marked `xap`, if it can be built. -/
def wanted (a : Around) (i : Nat) (e : GcalEvent) : Option Bytes :=
  match dates a e with
  | .error _ => none
  | .ok d => if Active a d ∧ strcasecmpEq "xap" e.place then (message a i e).join else none

/-- The messages of a list that begins at index `i`. -/
def wantedFrom (a : Around) : Nat → List GcalEvent → List Bytes
  | _, [] => []
  | i, e :: list => (wanted a i e).toList ++ wantedFrom a (i + 1) list

/-- The message of the event can be built or is `NULL`, and it is `NULL` unless the event is active.
Nothing is asked of an event that is not marked, or that starts after now and ends before. If a date
cannot be parsed, the message about it does not fit. -/
def FiresActive (a : Around) (i : Nat) (e : GcalEvent) : Prop :=
  match dates a e with
  | .error text => internalError a text = some none
  | .ok d => strcasecmpEq "xap" e.place = true → ¬ (d.1 > a.curtime ∧ d.2 < a.curtime) →
    message a i e ≠ none ∧ (Active a d ∨ message a i e = some none)

/-! ## One round -/

/-- What a round sends, whatever the time variables held. -/
def fired (a : Around) (i : Nat) (e : GcalEvent) : Option (Option Bytes) :=
  match dates a e with
  | .error text => internalError a text
  | .ok d =>
    if d.1 > a.curtime ∧ d.2 < a.curtime then some none
    else if strcasecmpEq "xap" e.place then message a i e
    else some none

variable (a : Around)

theorem turn_sends (i : Nat) (v : Times) (e : GcalEvent) : (turn a i v e).map Prod.snd = fired a i e := by
  have sends : ∀ (sent : Option (Option Bytes)) (v : Times), (sent.map (v, ·)).map Prod.snd = sent := by
    intro sent v
    cases sent <;> rfl
  unfold turn fired dates DateParser.svnParseDate
  cases a.dates.time e.start a.curtime with
  | none => exact sends _ _
  | some start =>
    cases a.dates.time e.stop a.curtime with
    | none => exact sends _ _
    | some stop =>
      dsimp only
      by_cases late : start > a.curtime ∧ stop < a.curtime
      · simp only [late, and_self, if_true]
        rfl
      · cases strcasecmpEq "xap" e.place with
        | false =>
          simp only [late, if_false, if_true]
          rfl
        | true =>
          simp only [late, if_false]
          exact sends _ _

/-- **A round is right** exactly if only active events fire. -/
theorem fired_iff (i : Nat) (e : GcalEvent) : fired a i e = some (wanted a i e) ↔ FiresActive a i e := by
  unfold fired wanted FiresActive
  cases dates a e with
  | error text => rfl
  | ok d =>
    dsimp only
    by_cases late : d.1 > a.curtime ∧ d.2 < a.curtime
    · have past : ¬ Active a d := fun active => absurd late.1 (Int.not_lt.2 active.1)
      rw [if_pos late, if_neg fun due => past due.1]
      exact ⟨fun _ _ early => absurd late early, fun _ => rfl⟩
    · rw [if_neg late]
      cases strcasecmpEq "xap" e.place with
      | false => simp
      | true =>
        by_cases active : Active a d
        · cases message a i e <;> simp [late, active]
        · cases message a i e <;> simp only [active, late] <;> simp

/-- What is wanted is also sent. -/
theorem fired_wanted {a : Around} {i : Nat} {e : GcalEvent} {sent : Option Bytes}
    (fires : fired a i e = some sent) : wanted a i e = sent ∨ wanted a i e = none := by
  unfold wanted
  unfold fired at fires
  cases parsed : dates a e with
  | error text => exact .inr rfl
  | ok d =>
    rw [parsed] at fires
    dsimp only at fires ⊢
    split
    next due =>
      have early : ¬ (d.1 > a.curtime ∧ d.2 < a.curtime) := fun late => absurd late.1 (Int.not_lt.2 due.1.1)
      rw [if_neg early, if_pos due.2] at fires
      rw [fires]
      exact .inl rfl
    next => exact .inr rfl

/-! ## The pass -/

/-- What the rounds of a list that begins at index `i` send. -/
def firedFrom (a : Around) : Nat → List GcalEvent → Option (List Bytes)
  | _, [] => some []
  | i, e :: list => (fired a i e).bind fun m => (firedFrom a (i + 1) list).map fun sent => m.toList ++ sent

/-- The loop goes through the events of the array. -/
theorem eventLoop_eq (events : EventArray) (n i : Nat) (v : Times) :
    eventLoop a events n i v = firedFrom a i ((events.list.drop i).take n) := by
  induction n generalizing i v with
  | zero => rfl
  | succ n ih =>
    have element : gcalEventElement events i = events.list[i]? := by
      unfold gcalEventElement EventArray.list
      cases events.entries <;> rfl
    rw [eventLoop, element]
    cases found : events.list[i]? with
    | none =>
      rw [drop_eq_nil_of_le (getElem?_eq_none_iff.1 found)]
      rfl
    | some e =>
      obtain ⟨inside, rfl⟩ := List.getElem?_eq_some_iff.1 found
      rw [drop_eq_getElem_cons inside, take_succ_cons, firedFrom, ← turn_sends a i v]
      dsimp only
      cases turn a i v events.list[i] with
      | none => rfl
      | some t => simp only [bind_some, map_some, ih]

theorem googleEventCheck_eq (events : EventArray) :
    googleEventCheck a events = firedFrom a 0 events.list := by
  have all : events.list.length ≤ events.length := by
    unfold EventArray.list
    cases found : events.entries with
    | none => exact Nat.zero_le _
    | some list => exact Nat.le_of_eq (events.length_eq list found).symm
  rw [googleEventCheck, eventLoop_eq, drop_zero, take_of_length_le all]

/-- What is sent is at least what is wanted. -/
theorem wantedFrom_length {a : Around} {i : Nat} {list : List GcalEvent} {sent : List Bytes}
    (pass : firedFrom a i list = some sent) : (wantedFrom a i list).length ≤ sent.length := by
  induction list generalizing i sent with
  | nil => exact Nat.zero_le _
  | cons e list ih =>
    obtain ⟨m, fires, rest⟩ := bind_eq_some_iff.1 pass
    obtain ⟨sent, goes_on, rfl⟩ := map_eq_some_iff.1 rest
    have more := ih goes_on
    rw [wantedFrom, length_append, length_append]
    rcases fired_wanted fires with same | none
    · rw [same]
      omega
    · rw [none]
      exact Nat.le_trans (Nat.le_of_eq (Nat.zero_add _)) (Nat.le_trans more (Nat.le_add_left _ _))

/-- **A list of events**: the pass sends what is wanted exactly if every event fires only when
active. -/
theorem firedFrom_iff (i : Nat) (list : List GcalEvent) :
    firedFrom a i list = some (wantedFrom a i list) ↔
      ∀ k e, list[k]? = some e → FiresActive a (i + k) e := by
  induction list generalizing i with
  | nil => simp [firedFrom, wantedFrom]
  | cons e list ih =>
    have split : (∀ k e', (e :: list)[k]? = some e' → FiresActive a (i + k) e') ↔
        FiresActive a i e ∧ ∀ k e', list[k]? = some e' → FiresActive a (i + 1 + k) e' := by
      constructor
      · intro all
        refine ⟨all 0 e rfl, fun k e' found => ?_⟩
        have here := all (k + 1) e' found
        rwa [← Nat.add_assoc, Nat.add_right_comm] at here
      · rintro ⟨head, tail⟩ k e' found
        cases k with
        | zero => exact some.inj found ▸ head
        | succ k =>
          have here := tail k e' found
          rwa [Nat.add_right_comm] at here
    rw [split, ← fired_iff, ← ih (i + 1), firedFrom, wantedFrom]
    constructor
    · intro pass
      obtain ⟨m, fires, rest⟩ := bind_eq_some_iff.1 pass
      obtain ⟨sent, goes_on, same⟩ := map_eq_some_iff.1 rest
      rw [fires, goes_on]
      -- a message that is not wanted would make the list too long
      rcases fired_wanted fires with wants | none
      · rw [wants] at same ⊢
        exact ⟨rfl, congrArg some (append_cancel_left same)⟩
      · rw [none] at same ⊢
        have more := wantedFrom_length goes_on
        cases m with
        | none => exact ⟨rfl, congrArg some same⟩
        | some text =>
          have length := congrArg List.length same
          simp only [toList_some, toList_none, length_append, length_cons, length_nil] at length
          omega
    · rintro ⟨fires, goes_on⟩
      rw [fires, goes_on]
      rfl

/-- **Calendar events fire only while active** iff every event that gets past the tests of the code and
has a message is active, no date gives rise to an error message, and no message is built outside of its
buffers. -/
theorem events_fire_active_iff (a : Around) (events : EventArray) :
    googleEventCheck a events = some (wantedFrom a 0 events.list) ↔
      ∀ i e, events.list[i]? = some e → FiresActive a i e := by
  rw [googleEventCheck_eq, firedFrom_iff]
  simp only [Nat.zero_add]

/-- A clock that reads hours. -/
def hours : DateParser where
  time text _ := (text.head?).map fun c => (c.toNat : Int) - 48
  leaves _ _ result := result

def afternoon : Around where
  uid := "FF00DB00"
  source := "dbzoo.livebox.GoogleCal"
  curtime := 3
  dates := hours
  locals _ := ⟨XapFrame.blank, fun _ => 0, fun _ => 0⟩

def pastEvent : EventArray where
  entries := some [⟨"1", "2", "xAP", none, "lights on"⟩]
  length := 1
  length_eq list mem := by
    cases mem
    rfl

/-- It is sent at three. -/
theorem past_event_fires :
    googleEventCheck afternoon pastEvent =
        some [aliasText "FF00DB00" "dbzoo.livebox.GoogleCal" "lights on"] ∧
      wantedFrom afternoon 0 pastEvent.list = [] := by
  constructor <;> decide +kernel

end Hah.GoogleCal
