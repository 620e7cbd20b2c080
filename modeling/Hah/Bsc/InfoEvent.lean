import Hah.Bsc.Report
import Hah.C.Append
import Hah.Xap.RoundTrip

/-!
# `xaplib2/bsc.c`: the buffer of `bscInfoEvent`

`Hah.Bsc.Report` says what an endpoint reports; here is how the report gets into its packet.
`bscInfoEvent` prints up to four pieces into a buffer of 1500 bytes, each with what is left
of the buffer, and sends the buffer if the running length ends at 1500 or below.

A length of 1500 loses only the last line end, so every packet that is sent is read back
complete. A closing brace that starts behind the buffer is stored there, so the buffer is
respected exactly up to a length of 1502 (`report_complete_iff`).
-/

namespace Hah.Bsc
open C List
open Xap (Section XapFrame Shows parseMsgF layout)

/-- What `bscInfoEvent` reads: its class and the fields of the endpoint. `text` is `e->level`, which
is a string for a level and a stream. -/
structure InfoFields where
  uid : Bytes
  clazz : Bytes
  source : Bytes
  io : Io
  type : EndpointType
  state : BscState
  text : Bytes
  displayText : Option Bytes
  deriving DecidableEq, Repr

/-- The first piece: the header, the name of the second section and the state. -/
def InfoFields.opening (f : InfoFields) : Bytes :=
  "xap-header\n\x7b\nv=12\nhop=1\nuid=" ++ f.uid ++ "\nclass=" ++ f.clazz ++ "\nsource=" ++ f.source ++
    "\n\x7d\n" ++ f.io.text ++ ".state\n\x7b\nstate=" ++ f.state.text ++ "\n"

def InfoFields.valuePair (f : InfoFields) : Option (Bytes × Bytes) :=
  match f.type with
  | .binary => none
  | .level => some ("level", f.text)
  | .stream => some ("text", f.text)

/-- The display text, if there is one and it is not empty. -/
def InfoFields.displayPair (f : InfoFields) : Option (Bytes × Bytes) :=
  match f.displayText.getD [] with
  | [] => none
  | c :: display => some ("displaytext", c :: display)

/-- The pieces before the closing brace, one for each call of `snprintf`. -/
def InfoFields.pieces (f : InfoFields) : List Bytes :=
  f.opening :: (f.valuePair.toList ++ f.displayPair.toList).map Xap.pairLayout

/-- What a call of `bscInfoEvent` leaves: the memory around its buffer, which starts at 0, the
packet it hands to `xapSend`, and `last_report`. -/
structure InfoOutcome where
  buff : Mem
  sent : Option Bytes
  lastReport : Nat

/-- `bscInfoEvent` at time `now`. -/
def bscInfoEventBuffer (now lastReport : Nat) (f : InfoFields) (buff : Mem) : InfoOutcome :=
  let p := Printing.appendAll ⟨buff, 0⟩ 1500 f.pieces
  let p := p.append 1500 "\x7d\n"
  if 1500 < p.len then { buff := p.mem, sent := none, lastReport := lastReport }
  else { buff := p.mem, sent := some (strAt p.mem 1500 0), lastReport := now }

/-! ## The text -/

def InfoFields.sections (f : InfoFields) : List Section :=
  [⟨"xap-header", [("v", "12"), ("hop", "1"), ("uid", f.uid),
      ("class", f.clazz), ("source", f.source)]⟩,
    ⟨f.io.text ++ ".state", ("state", f.state.text) :: (f.valuePair.toList ++ f.displayPair.toList)⟩]

variable {f : InfoFields}

/-- The pieces spell the layout of the sections. -/
theorem pieces_layout (f : InfoFields) : f.pieces.flatten ++ "\x7d\n" = layout f.sections := by
  have header : "xap-header\n\x7b\nv=12\nhop=1\nuid=" = "xap-header" ++ ("\n\x7b\n" ++
      ("v" ++ ([Xap.equals] ++ ("12" ++ ("\n" ++ ("hop" ++ ([Xap.equals] ++
        ("1" ++ ("\n" ++ ("uid" ++ [Xap.equals])))))))))) := by decide
  have clazz : "\nclass=" = "\n" ++ ("class" ++ [Xap.equals]) := by decide
  have source : "\nsource=" = "\n" ++ ("source" ++ [Xap.equals]) := by decide
  have close : ascii "\n\x7d\n" = "\n" ++ "\x7d\n" := by decide
  have body : ".state\n\x7b\nstate=" =
      ".state" ++ ("\n\x7b\n" ++ ("state" ++ [Xap.equals])) := by decide
  have lines : ∀ pairs : List (Bytes × Bytes),
      (pairs.map Xap.pairLayout).flatten = pairs.flatMap Xap.pairLayout := fun pairs => flatMap_def.symm
  simp only [InfoFields.pieces, InfoFields.opening, InfoFields.sections, layout, Section.layout, Xap.pairLayout,
    header, clazz, source, close, body, lines, flatten_cons, flatMap_cons, flatMap_nil,
    append_nil, append_assoc]

/-- The bytes of a report: what the fixed text, the fields and the lines that are there take. -/
def InfoFields.size (f : InfoFields) : Nat :=
  64 + f.uid.length + f.clazz.length + f.source.length + f.io.text.length + f.state.text.length +
    (match f.type with
    | .binary => 0
    | .level => 7 + f.text.length
    | .stream => 6 + f.text.length) +
    (match f.displayText.getD [] with
    | [] => 0
    | display => 13 + display.length)

theorem pieces_length (f : InfoFields) : f.pieces.flatten.length + 2 = f.size := by
  have lengths : (ascii "xap-header\n\x7b\nv=12\nhop=1\nuid=").length = 28 ∧ (ascii "\nclass=").length = 7 ∧
      (ascii "\nsource=").length = 8 ∧ (ascii "\n\x7d\n").length = 3 ∧ (ascii ".state\n\x7b\nstate=").length = 15 ∧
      (ascii "\n").length = 1 ∧ (ascii "level").length = 5 ∧ (ascii "text").length = 4 ∧
      (ascii "displaytext").length = 11 := by decide
  obtain ⟨header, clazz, source, close, body, newline, level, text, display⟩ := lengths
  have value : ((f.valuePair.toList.map Xap.pairLayout).flatten).length =
      match f.type with
      | .binary => 0
      | .level => 7 + f.text.length
      | .stream => 6 + f.text.length := by
    unfold InfoFields.valuePair
    cases f.type <;> simp [Xap.pairLayout, level, text, newline] <;> omega
  have shown : ((f.displayPair.toList.map Xap.pairLayout).flatten).length =
      match f.displayText.getD [] with
      | [] => 0
      | display => 13 + display.length := by
    unfold InfoFields.displayPair
    cases f.displayText.getD [] with
    | nil => rfl
    | cons c rest => simp [Xap.pairLayout, display, newline]; omega
  simp only [InfoFields.pieces, InfoFields.opening, InfoFields.size, flatten_cons, map_append,
    flatten_append, length_append, header, clazz, source, close, body, newline, value, shown]
  omega

theorem layout_size (f : InfoFields) : (layout f.sections).length = f.size := by
  rw [← pieces_layout, length_append, ← pieces_length]
  rfl

/-- Strings without control characters. -/
structure InfoFields.Printable (f : InfoFields) : Prop where
  uid : ∀ c ∈ f.uid, 32 ≤ c
  clazz : ∀ c ∈ f.clazz, 32 ≤ c
  source : ∀ c ∈ f.source, 32 ≤ c
  text : ∀ c ∈ f.text, 32 ≤ c
  displayText : ∀ c ∈ f.displayText.getD [], 32 ≤ c

theorem valuePair_ok (printable : f.Printable) :
    ∀ p ∈ f.valuePair.toList ++ f.displayPair.toList, Xap.KeyOk p.1 ∧ Xap.ValueOk p.2 := by
  refine forall_mem_append.2 ⟨fun p mem => ?_, fun p mem => ?_⟩
  · unfold InfoFields.valuePair at mem
    cases type : f.type <;> rw [type] at mem
    case binary => simp at mem
    case level =>
      have key : Xap.KeyOk "level" := .of_plain (by decide)
      obtain rfl : p = (ascii "level", f.text) := by simpa using mem
      exact ⟨key, printable.text⟩
    case stream =>
      have key : Xap.KeyOk "text" := .of_plain (by decide)
      obtain rfl : p = (ascii "text", f.text) := by simpa using mem
      exact ⟨key, printable.text⟩
  · have shown := printable.displayText
    unfold InfoFields.displayPair at mem
    cases display : f.displayText.getD [] <;> rw [display] at mem shown
    case nil => simp at mem
    case cons c rest =>
      have key : Xap.KeyOk "displaytext" := .of_plain (by decide)
      obtain rfl : p = (ascii "displaytext", c :: rest) := by simpa using mem
      exact ⟨key, shown⟩

theorem sections_ok (printable : f.Printable) : ∀ s ∈ f.sections, s.Ok := by
  have header : ∀ p ∈ [(ascii "v", ascii "12"), ("hop", "1"), ("uid", f.uid),
      ("class", f.clazz), ("source", f.source)], Xap.KeyOk p.1 ∧ Xap.ValueOk p.2 := by
    simp only [forall_mem_cons, not_mem_nil, false_implies, implies_true, and_true]
    exact ⟨⟨.of_plain (by decide), bytes_of_all (by decide)⟩, ⟨.of_plain (by decide), bytes_of_all (by decide)⟩,
      ⟨.of_plain (by decide), printable.uid⟩, ⟨.of_plain (by decide), printable.clazz⟩,
      ⟨.of_plain (by decide), printable.source⟩⟩
  have name : Xap.NameOk (f.io.text ++ ".state") := by
    cases f.io
    · exact .of_plain (by decide)
    · exact .of_plain (by decide)
  have state : Xap.ValueOk f.state.text := by
    cases f.state
    · exact bytes_of_all (by decide)
    · exact bytes_of_all (by decide)
    · exact bytes_of_all (by decide)
  have first : Xap.NameOk "xap-header" := .of_plain (by decide)
  have key : Xap.KeyOk "state" := .of_plain (by decide)
  refine forall_mem_cons.2 ⟨⟨first, header⟩, forall_mem_cons.2 ⟨⟨name, ?_⟩, by simp⟩⟩
  exact forall_mem_cons.2 ⟨⟨key, state⟩, valuePair_ok printable⟩

theorem sections_room (f : InfoFields) : (f.sections.flatMap Section.elements).length < Xap.xapMsgElements := by
  have value : f.valuePair.toList.length ≤ 1 := Option.length_toList_le
  have display : f.displayPair.toList.length ≤ 1 := Option.length_toList_le
  have limit : Xap.xapMsgElements = 150 := rfl
  simp only [InfoFields.sections, Section.elements, flatMap_cons, flatMap_nil, length_append,
    length_cons, length_map, length_nil, reduceCtorEq, if_false, limit]
  omega

theorem pieces_clean (printable : f.Printable) : ∀ piece ∈ f.pieces, ∀ c ∈ piece, c ≠ 0 := by
  intro piece mem c inside
  apply Xap.layout_clean (sections_ok printable)
  rw [← pieces_layout]
  exact mem_append_left _ (mem_flatten_of_mem mem inside)

/-! ## The buffer -/

/-- The running length at the end. -/
theorem info_len (f : InfoFields) (buff : Mem) :
    ((Printing.appendAll ⟨buff, 0⟩ 1500 f.pieces).append 1500 "\x7d\n").len = f.size := by
  have brace : (ascii "\x7d\n").length = 2 := rfl
  rw [← pieces_length]
  simp only [Printing.append, Printing.appendAll_len, brace, Nat.zero_add]

/-- Up to a length of 1502 the closing brace starts in the buffer or at its end, and the buffer
holds the report as far as it fits. -/
theorem info_holds (printable : f.Printable) (short : f.size ≤ 1502) (buff : Mem) :
    Holds buff 1500 ((Printing.appendAll ⟨buff, 0⟩ 1500 f.pieces).append 1500 "\x7d\n")
      (layout f.sections) := by
  have clean := pieces_clean printable
  have length := pieces_length f
  have brace : ∀ c ∈ ascii "\x7d\n", c ≠ 0 := bytes_of_all (by decide)
  have first : Holds buff 1500 (Printing.append ⟨buff, 0⟩ 1500 f.opening) f.opening :=
    Holds.first buff (clean f.opening mem_cons_self) (by decide)
  have lines : Holds buff 1500 (Printing.appendAll ⟨buff, 0⟩ 1500 f.pieces) f.pieces.flatten := by
    rw [InfoFields.pieces, flatten_cons] at length ⊢
    rw [Printing.appendAll_cons]
    exact first.appendAll (fun piece mem => clean piece (mem_cons_of_mem f.opening mem)) (by omega)
  rw [← pieces_layout]
  exact lines.append brace (by omega)

/-- A packet that says everything: it is the layout of the report, without the last line end at
most, and is parsed as the report. -/
structure Complete (f : InfoFields) (packet : Bytes) : Prop where
  closed : packet = layout f.sections ∨ packet ++ "\n" = layout f.sections
  read : ∀ frame : XapFrame, Shows (parseMsgF (frame.load packet)) f.sections

theorem complete_whole (printable : f.Printable) (short : f.size ≤ 1499) : Complete f (layout f.sections) := by
  refine ⟨.inl rfl, fun frame => ?_⟩
  have fits : (layout f.sections).length ≤ Xap.xapDataLen := by
    rw [layout_size]
    exact Nat.le_trans short (by decide)
  have shows := Xap.parse_shows frame fits
  rwa [Xap.scan_layout (sections_ok printable) (le_of_lt (sections_room f))] at shows

/-- The layout ends with a line end. -/
theorem layout_last (f : InfoFields) : (layout f.sections).dropLast ++ "\n" = layout f.sections := by
  have split : layout f.sections = (f.pieces.flatten ++ "\x7d") ++ "\n" := by
    rw [← pieces_layout, append_assoc]
    rfl
  rw [split]
  exact congrArg (· ++ ascii "\n") dropLast_concat

theorem complete_cut (printable : f.Printable) (full : f.size = 1500) : Complete f (layout f.sections).dropLast := by
  refine ⟨.inr (layout_last f), fun frame => ?_⟩
  have fits : (layout f.sections).dropLast.length ≤ Xap.xapDataLen := by
    rw [length_dropLast, layout_size, full]
    decide
  have shows := Xap.parse_shows frame fits
  rwa [Xap.scan_layout_cut (sections_ok printable) (sections_room f) (layout_last f)] at shows

/-- The report is complete or not sent, and no byte outside of the buffer is written, whatever the
memory held before. -/
structure CompleteOrSilent (now lastReport : Nat) (f : InfoFields) : Prop where
  inside : ∀ (buff : Mem) (j : Nat), 1500 ≤ j → (bscInfoEventBuffer now lastReport f buff).buff j = buff j
  outcome : ∀ buff : Mem,
    (∃ packet, (bscInfoEventBuffer now lastReport f buff).sent = some packet ∧ Complete f packet) ∨
      (bscInfoEventBuffer now lastReport f buff).sent = none ∧
        (bscInfoEventBuffer now lastReport f buff).lastReport = lastReport

/-- What is sent, up to the length where the running length allows it. -/
theorem info_sent (printable : f.Printable) (short : f.size ≤ 1500) (now lastReport : Nat) (buff : Mem) :
    ∃ packet, (bscInfoEventBuffer now lastReport f buff).sent = some packet ∧ Complete f packet := by
  have holds := info_holds printable (Nat.le_trans short (by decide)) buff
  have size := layout_size f
  have string := holds.str.strAt_eq (n := 1500) (by rw [length_take]; omega)
  have sent : (bscInfoEventBuffer now lastReport f buff).sent = some ((layout f.sections).take 1499) := by
    rw [bscInfoEventBuffer, if_neg (by rw [info_len]; omega)]
    exact congrArg some string
  refine ⟨_, sent, ?_⟩
  rcases Nat.lt_or_ge f.size 1500 with below | full
  · rw [take_of_length_le (by omega)]
    exact complete_whole printable (by omega)
  · have cut : (layout f.sections).take 1499 = (layout f.sections).dropLast := by
      rw [dropLast_eq_take, size, show f.size = 1500 by omega]
    rw [cut]
    exact complete_cut printable (by omega)

/-- Behind a length of 1502 the closing brace is stored outside of the buffer. -/
theorem info_behind (long : 1502 < f.size) (now lastReport : Nat) : ¬ CompleteOrSilent now lastReport f := by
  intro complete
  have length := pieces_length f
  have start : (Printing.appendAll ⟨fun _ => 1, 0⟩ 1500 f.pieces).len = f.pieces.flatten.length := by
    rw [Printing.appendAll_len, Nat.zero_add]
  have brace : (ascii "\x7d\n").length = 2 := rfl
  have stored := Printing.append_behind (p := Printing.appendAll ⟨fun _ => 1, 0⟩ 1500 f.pieces)
    (by omega : 1500 < _) (by rw [brace]; decide : (ascii "\x7d\n").length < 2147483648)
  have kept := complete.inside (fun _ => 1) f.size (by omega)
  have same : (bscInfoEventBuffer now lastReport f fun _ => 1).buff =
      ((Printing.appendAll ⟨fun _ => 1, 0⟩ 1500 f.pieces).append 1500 "\x7d\n").mem := by
    rw [bscInfoEventBuffer, if_pos (by rw [info_len]; omega)]
  rw [start, brace, length, ← same, kept] at stored
  exact absurd stored (by decide)

/-- **Reports are complete or not sent**, inside the buffer, iff they take at most 1502 bytes. -/
theorem report_complete_iff (now lastReport : Nat) (f : InfoFields) (printable : f.Printable) :
    CompleteOrSilent now lastReport f ↔ f.size ≤ 1502 := by
  constructor
  · intro complete
    by_contra long
    exact info_behind (by omega) now lastReport complete
  · intro short
    have size := info_len f
    refine ⟨fun buff j behind => ?_, fun buff => ?_⟩
    · have outside := (info_holds printable short buff).outside j behind
      unfold bscInfoEventBuffer
      dsimp only
      split
      · exact outside
      · exact outside
    · rcases Nat.lt_or_ge 1500 f.size with long | fits
      · right
        rw [bscInfoEventBuffer, if_pos (by rw [size]; exact long)]
        exact ⟨rfl, rfl⟩
      · left
        exact info_sent printable fits now lastReport buff

/-- A stream endpoint whose text, as a remote command may set it, has `n` letters. -/
def lcdReport (n : Nat) : InfoFields :=
  { uid := "FF00DB02", clazz := "xAPBSC.event", source := "dbzoo.livebox.Controller:lcd", io := .output,
    type := .stream, state := .on, text := List.replicate n 65, displayText := none }

theorem lcdReport_printable (n : Nat) : (lcdReport n).Printable := by
  have uid : ∀ c ∈ ascii "FF00DB02", 32 ≤ c := bytes_of_all (by decide)
  have clazz : ∀ c ∈ ascii "xAPBSC.event", 32 ≤ c := bytes_of_all (by decide)
  have source : ∀ c ∈ ascii "dbzoo.livebox.Controller:lcd", 32 ≤ c := bytes_of_all (by decide)
  have text : ∀ c ∈ List.replicate n (65 : UInt8), 32 ≤ c := fun c mem => by
    rw [eq_of_mem_replicate mem]
    decide
  exact ⟨uid, clazz, source, text, fun c mem => absurd mem not_mem_nil⟩

theorem lcdReport_size (n : Nat) : (lcdReport n).size = 126 + n := by
  have fixed : (ascii "FF00DB02").length = 8 ∧ (ascii "xAPBSC.event").length = 12 ∧
      (ascii "dbzoo.livebox.Controller:lcd").length = 28 ∧ (ascii "output").length = 6 ∧ (ascii "on").length = 2 := by
    decide
  obtain ⟨uid, clazz, source, io, state⟩ := fixed
  simp only [InfoFields.size, lcdReport, Io.text, BscState.text, Option.getD_none, length_replicate, uid, clazz,
    source, io, state]
  omega

/-- At 1500 bytes the last line end is lost, and nothing else. -/
theorem report_complete_full : (lcdReport 1374).size = 1500 ∧ CompleteOrSilent 1 0 (lcdReport 1374) := by
  have size := lcdReport_size 1374
  exact ⟨size, (report_complete_iff 1 0 _ (lcdReport_printable 1374)).2 (by omega)⟩

/-- A text of 1390 letters, 1516 bytes in all. -/
theorem report_overrun : (lcdReport 1390).Printable ∧ ¬ CompleteOrSilent 1 0 (lcdReport 1390) := by
  have size := lcdReport_size 1390
  exact ⟨lcdReport_printable 1390, info_behind (by omega) 1 0⟩

/-! ## The report of `Hah.Bsc.Report` -/

section Refinement

variable {D : Type}

/-- What `bscInfoEvent` reads of an endpoint. -/
def Reporter.fields (clazz : Clazz) (r : Reporter D) : InfoFields :=
  { uid := r.address.uid, clazz := clazz.text, source := r.address.source, io := r.endpoint.io, type := r.endpoint.type,
    state := r.endpoint.state, text := r.text, displayText := r.displayText }

theorem fields_layout (clazz : Clazz) (r : Reporter D) : layout (r.fields clazz).sections = infoEventText clazz r := by
  have value : ((r.fields clazz).valuePair.toList.map Xap.pairLayout).flatten = valueLine r := by
    simp only [InfoFields.valuePair, Reporter.fields, valueLine]
    have level : "level=" = "level" ++ [Xap.equals] := by decide
    have text : "text=" = "text" ++ [Xap.equals] := by decide
    cases r.endpoint.type <;> simp [Xap.pairLayout, level, text]
  have display : ((r.fields clazz).displayPair.toList.map Xap.pairLayout).flatten = displayLine r := by
    simp only [InfoFields.displayPair, Reporter.fields, displayLine]
    have key : "displaytext=" = "displaytext" ++ [Xap.equals] := by decide
    cases r.displayText.getD [] <;> simp [Xap.pairLayout, key]
  rw [← pieces_layout, InfoFields.pieces, flatten_cons, map_append, flatten_append, value, display]
  simp only [InfoFields.opening, Reporter.fields, infoEventText, append_assoc]

/-- **`bscInfoEvent` is refined by the printing into its buffer**: the same reports are sent and
stamped. -/
theorem bscInfoEvent_refines (now : Nat) (clazz : Clazz) (r : Reporter D) (buff : Mem) :
    (bscInfoEventBuffer now r.lastReport (r.fields clazz) buff).sent.isSome = (bscInfoEvent now clazz r).2.isSome ∧
      (bscInfoEventBuffer now r.lastReport (r.fields clazz) buff).lastReport =
        (bscInfoEvent now clazz r).1.lastReport := by
  have length : (infoEventText clazz r).length = (r.fields clazz).size := by
    rw [← fields_layout, layout_size]
  unfold bscInfoEventBuffer bscInfoEvent
  dsimp only
  rw [info_len, length]
  split
  · exact ⟨rfl, rfl⟩
  · exact ⟨rfl, rfl⟩

end Refinement

end Hah.Bsc
