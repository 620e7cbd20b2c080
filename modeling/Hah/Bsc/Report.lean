import Hah.Bsc.Endpoint

/-!
# `xaplib2/bsc.c`: info and event messages

An endpoint reports itself in an info message, on a query or after a while, and in an
event, when it changes. Before either goes out, the info callback of the endpoint may
change the endpoint and decides whether the message is sent.

A `Reporter` is an endpoint with the fields that reporting uses; the callback is a
parameter of the functions here.
-/

namespace Hah.Bsc
open C

inductive Clazz where
  | info
  | event
  deriving DecidableEq, Repr

/-- `BSC_INFO_CLASS` and `BSC_EVENT_CLASS`. -/
def Clazz.text : Clazz → Bytes
  | .info => "xAPBSC.info"
  | .event => "xAPBSC.event"

/-- `bscIOToString`. -/
def Io.text : Io → Bytes
  | .input => "input"
  | .output => "output"

/-- `bscStateToString`. -/
def BscState.text : BscState → Bytes
  | .off => "off"
  | .on => "on"
  | .unknown => "?"

/-- `uid` and `source` of an endpoint: `xapInit` insists on 8 characters for the first, and `bscFQEN`
builds the second in a buffer of 512 bytes. -/
structure Address where
  uid : Bytes
  source : Bytes
  uid_length : uid.length = 8
  source_length : source.length ≤ 511

/-- An endpoint and the fields of it that reports use; `lastReport` is 0 before the first one. -/
structure Reporter (D : Type) where
  endpoint : Endpoint D
  address : Address
  displayText : Option Bytes
  lastReport : Nat

structure Message where
  clazz : Clazz
  state : BscState
  text : Bytes
  displayText : Bytes
  deriving DecidableEq, Repr

section Report

variable {D : Type}

/-- `e->text`, which is there for a level or a stream. -/
def Reporter.text (r : Reporter D) : Bytes := r.endpoint.text.getD []

def valueLine (r : Reporter D) : Bytes :=
  match r.endpoint.type with
  | .binary => []
  | .level => "level=" ++ r.text ++ "\n"
  | .stream => "text=" ++ r.text ++ "\n"

/-- The line of the display text, if there is one. -/
def displayLine (r : Reporter D) : Bytes :=
  match r.displayText.getD [] with
  | [] => []
  | display => "displaytext=" ++ display ++ "\n"

/-- The text that `bscInfoEvent` prints. -/
def infoEventText (clazz : Clazz) (r : Reporter D) : Bytes :=
  "xap-header\n\x7b\nv=12\nhop=1\nuid=" ++ r.address.uid ++ "\nclass=" ++ clazz.text ++
    "\nsource=" ++ r.address.source ++ "\n\x7d\n" ++ r.endpoint.io.text ++ ".state\n\x7b\nstate=" ++
    r.endpoint.state.text ++ "\n" ++ valueLine r ++ displayLine r ++ "\x7d\n"

/-- `bscInfoEvent`: a text that does not fit `XAP_DATA_LEN` bytes is not sent. -/
def bscInfoEvent (now : Nat) (clazz : Clazz) (r : Reporter D) : Reporter D × Option Message :=
  if 1500 < (infoEventText clazz r).length then (r, none)
  else
    ({ r with lastReport := now },
      some { clazz := clazz, state := r.endpoint.state, text := r.text, displayText := r.displayText.getD [] })

/-- `e->infoEvent`: the endpoint it leaves, and whether to send. -/
abbrev InfoCallback (D : Type) := Clazz → Reporter D → Reporter D × Bool

/-- `bscInfoEventDefault`: always send. -/
def bscInfoEventDefault : InfoCallback D := fun _ r => (r, true)

variable (infoEvent : InfoCallback D)

def bscSendInfoEvent (now : Nat) (clazz : Clazz) (r : Reporter D) : Reporter D × Option Message :=
  match infoEvent clazz r with
  | (r, true) => bscInfoEvent now clazz r
  | (r, false) => (r, none)

def bscSendEvent (now : Nat) (r : Reporter D) : Reporter D × Option Message :=
  bscSendInfoEvent infoEvent now .event r

/-- `bscSendInfo`, which is what `bscIncomingQuery` does. -/
def bscSendInfo (now : Nat) (r : Reporter D) : Reporter D × Option Message :=
  bscSendInfoEvent infoEvent now .info r

/-- An info message is due: there was none, or not for an interval. -/
def infoDue (interval now : Nat) (r : Reporter D) : Prop := r.lastReport = 0 ∨ r.lastReport + interval ≤ now

instance (interval now : Nat) (r : Reporter D) : Decidable (infoDue interval now r) :=
  inferInstanceAs (Decidable (_ ∨ _))

def bscInfoTimeout (interval now : Nat) (r : Reporter D) : Reporter D × Option Message :=
  if infoDue interval now r then bscSendInfo infoEvent now r else (r, none)

/-! ## What is sent -/

/-- A message is about the endpoint that it leaves. -/
theorem bscInfoEvent_spec (now : Nat) (clazz : Clazz) (r : Reporter D) :
    (bscInfoEvent now clazz r).1.endpoint = r.endpoint ∧
      ∀ message ∈ (bscInfoEvent now clazz r).2, message.clazz = clazz ∧ message.state = r.endpoint.state ∧
        message.text = r.text := by
  unfold bscInfoEvent
  split
  · exact ⟨rfl, fun message sent => by cases sent⟩
  · refine ⟨rfl, fun message sent => ?_⟩
    rw [← Option.some.inj sent]
    exact ⟨rfl, rfl, rfl⟩

theorem infoEventText_length (clazz : Clazz) (r : Reporter D) :
    (infoEventText clazz r).length ≤ 700 + r.text.length + (r.displayText.getD []).length := by
  have uid := r.address.uid_length
  have source := r.address.source_length
  have class' : clazz.text.length ≤ 12 := by cases clazz <;> decide
  have io : r.endpoint.io.text.length ≤ 6 := by cases r.endpoint.io <;> decide
  have state : r.endpoint.state.text.length ≤ 3 := by cases r.endpoint.state <;> decide
  have value : (valueLine r).length ≤ 7 + r.text.length := by
    have level : (ascii "level=").length = 6 := by decide
    have stream : (ascii "text=").length = 5 := by decide
    have newline : (ascii "\n").length = 1 := by decide
    unfold valueLine
    split <;> simp only [List.length_append, List.length_nil, level, stream, newline] <;> omega
  have display : (displayLine r).length ≤ 13 + (r.displayText.getD []).length := by
    have key : (ascii "displaytext=").length = 12 := by decide
    have newline : (ascii "\n").length = 1 := by decide
    unfold displayLine
    split <;> simp only [List.length_append, List.length_nil, key, newline] <;> omega
  have lengths : (ascii "xap-header\n\x7b\nv=12\nhop=1\nuid=").length = 28 ∧ (ascii "\nclass=").length = 7 ∧
      (ascii "\nsource=").length = 8 ∧ (ascii "\n\x7d\n").length = 3 ∧ (ascii ".state\n\x7b\nstate=").length = 15 ∧
      (ascii "\n").length = 1 ∧ (ascii "\x7d\n").length = 2 := by decide
  obtain ⟨header, classKey, sourceKey, close, body, newline, final⟩ := lengths
  unfold infoEventText
  simp only [List.length_append, header, classKey, sourceKey, close, body, newline, final]
  omega

/-- A message with short texts is sent. -/
theorem bscInfoEvent_sent (now : Nat) (clazz : Clazz) {r : Reporter D}
    (short : r.text.length + (r.displayText.getD []).length ≤ 800) :
    bscInfoEvent now clazz r =
      ({ r with lastReport := now },
        some { clazz := clazz, state := r.endpoint.state, text := r.text,
               displayText := r.displayText.getD [] }) := by
  have length := infoEventText_length clazz r
  exact if_neg (by omega)

end Report

end Hah.Bsc
