import Hah.C.Append
import Hah.Xap.Capacity

/-!
# Short messages

`fillShortXap` parses a message whose header may lack fields, prints the sections outside of
the header again and sets a full header before them. The frame it parses into and its two
buffers are locals. Where a store leaves one of them the model has no outcome.

What the result shows when it is parsed is `expansion`: the full header, and the sections
that are not headers. With room for it in the buffers, that is what comes out as long as the
short message itself stays inside the element table (`short_message_iff`).
-/

namespace Hah.Xap
open C List Option

def xapHeader : Bytes := "xap-header"

/-- `f.len = strlcpy(f.dataPacket, text, XAP_DATA_LEN)`: the length is that of the source. -/
def XapFrame.strlcpy (frame : XapFrame) (text : Bytes) : XapFrame :=
  { frame.load (text.take (xapDataLen - 1)) with len := text.length }

variable {s uid source cls : Bytes} (frame : XapFrame)

theorem XapFrame.strlcpy_short {text : Bytes} (short : text.length ≤ 1499) :
    frame.strlcpy text = frame.load text := by
  have whole : text.take (xapDataLen - 1) = text := take_of_length_le short
  rw [XapFrame.strlcpy, whole]
  rfl

/-- `parseMsgF`, with no outcome when an element is stored outside of the table. -/
def parseInside (frame : XapFrame) : Option XapFrame :=
  if ∀ j ∈ parseStores frame, j < xapMsgElements then some (parseMsgF frame) else none

/-- The first print of `fillShortXap`. -/
def headerText (uid cls source : Bytes) : Bytes :=
  "xap-header\n\x7b\nv=12\nhop=1\nuid=" ++ uid ++ "\nclass=" ++ cls ++ "\nsource=" ++ source ++
    "\n"

def targetText (target : Bytes) : Bytes := "target=" ++ target ++ "\n"

/-- The three prints into `newMsg`, and its copy. -/
def printMessage (newMsg : Mem) (header : Bytes) (target : Option Bytes) (xapBody : Bytes) :
    Option Bytes := do
  let p ← (Printing.append ⟨newMsg, 0⟩ xapDataLen header).inside xapDataLen
  let p ← match target with
    | none => some p
    | some target => (p.append xapDataLen (targetText target)).inside xapDataLen
  return strAt (p.append xapDataLen ("\x7d\n" ++ xapBody)).mem xapDataLen 0

/-- `fillShortXap`: a copy of the message, or `NULL` without a class. `uid` and `source` are
those of the program; `f`, `xapBody` and `newMsg` are what the locals held before. -/
def fillShortXap (uid source : Bytes) (f : XapFrame) (xapBody newMsg : Mem) (shortMsg : Bytes) :
    Option (Option Bytes) := do
  let f ← parseInside (f.strlcpy shortMsg)
  let target := xapGetValueF f xapHeader (some "target")
  match xapGetValueF f xapHeader (some "class") with
  | none => return none
  | some cls =>
    let (xapBody, len) := parsedMsgToRawWithoutSectionF f xapBody xapDataLen (some xapHeader)
    if xapDataLen ≤ len then none
    else (printMessage newMsg (headerText uid cls source) target (strAt xapBody xapDataLen 0)).map some

/-! ## What it is for -/

def sectionsOf (s : Bytes) : List Section := (scan s).blocks.map Block.text

def headerValue (s key : Bytes) : Option Bytes := lookup (sectionsOf s) xapHeader key

def fullHeader (uid source cls : Bytes) (target : Option Bytes) : Section where
  name := xapHeader
  pairs := [(ascii "v", ascii "12"), ("hop", "1"), ("uid", uid), ("class", cls),
    ("source", source)] ++ target.toList.map fun t => (ascii "target", t)

/-- The message that `s` with the class `cls` stands for. -/
def expansion (uid source s cls : Bytes) : List Section :=
  fullHeader uid source cls (headerValue s "target") :: keptSections (some xapHeader) (sectionsOf s)

/-- The expanded text fits a packet and its elements fit the table. -/
structure Expandable (uid source s cls : Bytes) : Prop where
  text : (layout (expansion uid source s cls)).length ≤ 1499
  elements : ((expansion uid source s cls).flatMap Section.elements).length ≤ xapMsgElements

/-- The result is `NULL` without a class, and otherwise a text that parses to the expansion. -/
structure Filled (s uid source : Bytes) (result : Option (Option Bytes)) : Prop where
  null : headerValue s "class" = none → result = some none
  text : ∀ cls, headerValue s "class" = some cls → ∃ text, result = some (some text) ∧
    ∀ g : XapFrame, ∃ shown, parseInside (g.load text) = some shown ∧ Shows shown (expansion uid source s cls)

/-! ## The text that is printed -/

theorem parseInside_fits {d : Bytes} (fit : FitsTable d) (short : d.length ≤ xapDataLen) :
    parseInside (frame.load d) = some (parseMsgF (frame.load d)) :=
  if_pos (fit.within frame short).stores

theorem parseInside_unfit {d : Bytes} (unfit : ¬ FitsTable d)
    (short : d.length ≤ xapDataLen) : parseInside (frame.load d) = none :=
  if_neg fun inside => unfit (.of_stores inside short)

theorem lookup_ok {sections : List Section} (ok : ∀ s ∈ sections, s.Ok) {name key value : Bytes}
    (found : lookup sections name key = some value) : ValueOk value := by
  obtain ⟨p, first, rfl⟩ := map_eq_some_iff.1 found
  obtain ⟨s, hs, hp⟩ := mem_flatMap.1 (mem_of_find?_eq_some first)
  obtain ⟨q, hq, rfl⟩ := mem_map.1 hp
  exact ((ok s hs).pairs q hq).2

theorem sectionsOf_ok (clean : ∀ c ∈ s, c ≠ 0) : ∀ t ∈ sectionsOf s, t.Ok := by
  intro t ht
  obtain ⟨b, hb, rfl⟩ := mem_map.1 ht
  exact scan_ok clean b hb

theorem fullHeader_ok {target : Option Bytes} (uidOk : ValueOk uid) (sourceOk : ValueOk source)
    (clsOk : ValueOk cls) (targetOk : ∀ t ∈ target, ValueOk t) : (fullHeader uid source cls target).Ok := by
  have name : NameOk xapHeader := .of_plain (by decide)
  have v : KeyOk "v" := .of_plain (by decide)
  have hop : KeyOk "hop" := .of_plain (by decide)
  have uidKey : KeyOk "uid" := .of_plain (by decide)
  have clsKey : KeyOk "class" := .of_plain (by decide)
  have sourceKey : KeyOk "source" := .of_plain (by decide)
  have targetKey : KeyOk "target" := .of_plain (by decide)
  refine ⟨name, fun p hp => ?_⟩
  simp only [fullHeader, cons_append, nil_append, mem_cons, List.mem_map, mem_toList] at hp
  rcases hp with rfl | rfl | rfl | rfl | rfl | ⟨t, ht, rfl⟩
  · exact ⟨v, bytes_of_all (by decide)⟩
  · exact ⟨hop, bytes_of_all (by decide)⟩
  · exact ⟨uidKey, uidOk⟩
  · exact ⟨clsKey, clsOk⟩
  · exact ⟨sourceKey, sourceOk⟩
  · exact ⟨targetKey, targetOk t ht⟩

theorem expansion_ok (clean : ∀ c ∈ s, c ≠ 0) (uidOk : ValueOk uid) (sourceOk : ValueOk source)
    (found : headerValue s "class" = some cls) : ∀ t ∈ expansion uid source s cls, t.Ok := by
  have ok := sectionsOf_ok clean
  intro t ht
  rcases mem_cons.1 ht with rfl | ht
  · exact fullHeader_ok uidOk sourceOk (lookup_ok ok found) fun target ht => lookup_ok ok ht
  · exact ok t (mem_of_mem_filter ht)

/-- The pieces that are printed make up the layout of the expansion. -/
theorem expansion_layout (uid source s cls : Bytes) :
    layout (expansion uid source s cls) =
      headerText uid cls source ++
        (headerValue s "target").toList.flatMap targetText ++
        ("\x7d\n" ++ layout (keptSections (some xapHeader) (sectionsOf s))) := by
  have opening : ascii "xap-header\n\x7b\nv=12\nhop=1\nuid=" =
      xapHeader ++ "\n\x7b\n" ++ (pairLayout ("v", "12") ++ (pairLayout ("hop", "1") ++
        ("uid" ++ [equals]))) := by decide
  have second : ascii "\nclass=" = "\n" ++ ("class" ++ [equals]) := by decide
  have third : ascii "\nsource=" = "\n" ++ ("source" ++ [equals]) := by decide
  have last : ascii "target=" = "target" ++ [equals] := by decide
  cases target : headerValue s "target" with
  | none => simp [expansion, target, layout, fullHeader, Section.layout, headerText, opening, second, third, pairLayout]
  | some t =>
    simp [expansion, target, layout, fullHeader, Section.layout, headerText, opening, second, third, last, pairLayout,
      targetText]

/-- The three pieces, when there is room for them. -/
theorem printMessage_text (newMsg : Mem) {header body : Bytes} (target : Option Bytes)
    (clean : ∀ c ∈ header ++ target.toList.flatMap targetText ++ ("\x7d\n" ++ body), c ≠ 0)
    (room : (header ++ target.toList.flatMap targetText ++ ("\x7d\n" ++ body)).length ≤ 1499) :
    printMessage newMsg header target body =
      some (header ++ target.toList.flatMap targetText ++ ("\x7d\n" ++ body)) := by
  have size : xapDataLen = 1500 := rfl
  have ends := room
  simp only [length_append] at ends
  have first : Holds newMsg xapDataLen (Printing.append ⟨newMsg, 0⟩ xapDataLen header) header :=
    Holds.first newMsg (fun c hc => clean c (by simp [hc])) (by decide)
  have firstInside := first.inside (by omega)
  have cleanBody : ∀ c ∈ ascii "\x7d\n" ++ body, c ≠ 0 := fun c hc => clean c (mem_append_right _ hc)
  unfold printMessage
  rw [firstInside]
  cases target with
  | none =>
    have last := first.append cleanBody (by omega)
    have whole := last.whole (by simp only [length_append]; omega)
    simpa using whole
  | some target =>
    have cleanTarget : ∀ c ∈ targetText target, c ≠ 0 := fun c hc => clean c (by simp [hc])
    have second := first.append cleanTarget (by omega)
    simp only [toList_some, flatMap_cons, flatMap_nil, append_nil] at ends ⊢
    have secondInside := second.inside (by simp only [length_append]; omega)
    have last := second.append cleanBody (by simp only [length_append]; omega)
    have whole := last.whole (by simp only [length_append]; omega)
    simp only [bind_eq_bind, bind_some, secondInside, whole]
    rfl

/-- **The result** of a short message that is parsed inside the table, when there is room for its
expansion: the text of the expansion. -/
theorem fillShortXap_text (f : XapFrame) (xapBody newMsg : Mem)
    (short : s.length ≤ 1499) (fit : FitsTable s) (found : headerValue s "class" = some cls)
    (ok : ∀ t ∈ expansion uid source s cls, t.Ok) (room : (layout (expansion uid source s cls)).length ≤ 1499) :
    fillShortXap uid source f xapBody newMsg s = some (some (layout (expansion uid source s cls))) := by
  have fits : s.length ≤ xapDataLen := Nat.le_trans short (by decide)
  have shows := parse_shows f fits
  have clsIs := (shows.getValue _ _).trans found
  have targetIs : xapGetValueF (parseMsgF (f.load s)) xapHeader (some "target") =
      headerValue s "target" := shows.getValue _ _
  obtain ⟨length, str⟩ := parse_raw_without f fits xapBody xapDataLen (some xapHeader)
  have clean := layout_clean ok
  rw [expansion_layout uid source s cls] at room clean ⊢
  have below : (layout (keptSections (some xapHeader) (sectionsOf s))).length < xapDataLen := by
    have size : xapDataLen = 1500 := rfl
    simp only [length_append] at room
    omega
  have bodyIs := (str below).strAt_eq (le_of_lt below)
  unfold fillShortXap
  rw [f.strlcpy_short short, parseInside_fits f fit fits]
  simp only [bind_eq_bind, bind_some, clsIs, targetIs]
  rw [if_neg (by rw [length]; exact Nat.not_le.2 below), bodyIs]
  exact congrArg (Option.map some) (printMessage_text newMsg _ clean room)

/-- Without a class there is no result. -/
theorem fillShortXap_null (uid source : Bytes) (f : XapFrame) (xapBody newMsg : Mem)
    (short : s.length ≤ 1499) (fit : FitsTable s) (absent : headerValue s "class" = none) :
    fillShortXap uid source f xapBody newMsg s = some none := by
  have fits : s.length ≤ xapDataLen := Nat.le_trans short (by decide)
  have clsIs : xapGetValueF (parseMsgF (f.load s)) xapHeader (some "class") = none :=
    ((parse_shows f fits).getValue _ _).trans absent
  unfold fillShortXap
  rw [f.strlcpy_short short, parseInside_fits f fit fits]
  simp only [bind_eq_bind, bind_some, clsIs]
  rfl

/-- A message that leaves the table has no outcome. -/
theorem fillShortXap_unfit (uid source : Bytes) (f : XapFrame) (xapBody newMsg : Mem)
    (short : s.length ≤ 1499) (unfit : ¬ FitsTable s) : fillShortXap uid source f xapBody newMsg s = none := by
  unfold fillShortXap
  rw [f.strlcpy_short short, parseInside_unfit f unfit (Nat.le_trans short (by decide))]
  rfl

/-- An outcome is needed in any case. -/
theorem not_filled_none (s uid source : Bytes) : ¬ Filled s uid source none := by
  intro filled
  cases found : headerValue s "class" with
  | none => simpa using filled.null found
  | some cls =>
    obtain ⟨text, result, -⟩ := filled.text cls found
    simp at result

/-- The expanded text shows its sections again. -/
theorem expansion_shown {sections : List Section} (ok : ∀ t ∈ sections, t.Ok) (text : (layout sections).length ≤ 1499)
    (elements : (sections.flatMap Section.elements).length ≤ xapMsgElements) (g : XapFrame) :
    ∃ shown, parseInside (g.load (layout sections)) = some shown ∧ Shows shown sections := by
  have fits : (layout sections).length ≤ xapDataLen := Nat.le_trans text (by decide)
  have shows := parse_shows g fits
  rw [scan_layout ok elements] at shows
  exact ⟨_, parseInside_fits g (.of_layout ok elements) fits, shows⟩

/-- **`fillShortXap`**: with room for the expansion, the result is as it should be iff the short
message is parsed inside the element table. -/
theorem short_message_iff (uid source s : Bytes) (f : XapFrame) (xapBody newMsg : Mem)
    (short : s.length ≤ 1499) (clean : ∀ c ∈ s, c ≠ 0)
    (own : ∀ cls, headerValue s "class" = some cls → ValueOk uid ∧ ValueOk source)
    (room : ∀ cls, headerValue s "class" = some cls → Expandable uid source s cls) :
    Filled s uid source (fillShortXap uid source f xapBody newMsg s) ↔ FitsTable s := by
  constructor
  · intro filled
    by_contra unfit
    rw [fillShortXap_unfit uid source f xapBody newMsg short unfit] at filled
    exact not_filled_none s uid source filled
  · intro fit
    refine ⟨fun absent => ?_, fun cls found => ?_⟩
    · exact fillShortXap_null uid source f xapBody newMsg short fit absent
    · obtain ⟨text, elements⟩ := room cls found
      have ok := expansion_ok clean (own cls found).1 (own cls found).2 found
      exact ⟨_, fillShortXap_text f xapBody newMsg short fit found ok text, expansion_shown ok text elements⟩

/-- The short message of the library's own test. -/
def lampEvent : Bytes :=
  "xap-header\n\x7b\nclass=xAPBSC.event\ntarget=ACME.Lighting.apartment:BedsideLamp\n\x7d\n" ++
    "input.state\n\x7b\nState=ON\nLevel=64/255\n\x7d\n"

theorem short_message_lamp :
    Filled lampEvent "FF00DE00" "dbzoo.livebox.demo"
      (fillShortXap "FF00DE00" "dbzoo.livebox.demo" XapFrame.blank (fun _ => 0) (fun _ => 0)
        lampEvent) := by
  have short : lampEvent.length ≤ 150 := by decide +kernel
  have cls : headerValue lampEvent "class" = some (ascii "xAPBSC.event") := by decide +kernel
  have own : ValueOk "FF00DE00" ∧ ValueOk "dbzoo.livebox.demo" :=
    ⟨bytes_of_all (by decide), bytes_of_all (by decide)⟩
  have room : ∀ c, headerValue lampEvent "class" = some c →
      Expandable "FF00DE00" "dbzoo.livebox.demo" lampEvent c := by
    intro c found
    rw [some.inj (found.symm.trans cls)]
    exact ⟨by decide +kernel, by decide +kernel⟩
  exact (short_message_iff "FF00DE00" "dbzoo.livebox.demo" lampEvent XapFrame.blank (fun _ => 0)
    (fun _ => 0) (by omega) (by decide +kernel) (fun _ _ => own) room).2 (.of_short short)

/-- A header with a class, ten empty headers and 141 empty sections. -/
def crowdedHeaders : Bytes :=
  "xap-header\x7bclass=a\n\x7d" ++ (List.replicate 10 (ascii "xap-header\x7b\x7d")).flatten ++
    (List.replicate 141 (ascii "a\x7b\x7d")).flatten

/-- A short message of 563 bytes whose expansion has 146 elements is not filled. -/
theorem crowdedHeaders_not_filled :
    crowdedHeaders.length = 563 ∧ headerValue crowdedHeaders "class" = some (ascii "a") ∧
      Expandable "FF00DE00" "dbzoo.livebox.demo" crowdedHeaders "a" ∧
      ¬ Filled crowdedHeaders "FF00DE00" "dbzoo.livebox.demo"
        (fillShortXap "FF00DE00" "dbzoo.livebox.demo" XapFrame.blank (fun _ => 0) (fun _ => 0)
          crowdedHeaders) := by
  have length : crowdedHeaders.length = 563 := by decide +kernel
  refine ⟨length, by decide +kernel, ⟨by decide +kernel, by decide +kernel⟩, ?_⟩
  rw [fillShortXap_unfit _ _ _ _ _ (by omega) (by decide +kernel)]
  exact not_filled_none _ _ _

end Hah.Xap
