import Mathlib.Data.List.Pairwise
import Hah.Xap.Lower
import Hah.Xap.Raw

/-!
# What `xapLowerMessageF` changes

On a parsed frame the loop lowers names and keys, and some values, each through a pointer of its
own. Seen from the memory it was given, the loop is at any time at `lowered m0 fields`, the memory
with the bytes of some fields in lower case, whatever the order. The fields of a packet lie apart
(`scan_fields`), so that a value which is not among them is as it was.

An empty section has no key, and two comparisons of the loop do not look for that: the run is
undefined for an empty `xap-header` section, and for any empty section behind a BSC class.
-/

namespace Hah.Xap
open C List Option

/-! ## What is asked for -/

abbrev Strings := Option Bytes × Option Bytes × Option Bytes

def inHeader (s : Strings) : Bool := s.1.any (strcasecmpEq · "xap-header")

def keyIs (key : Bytes) (s : Strings) : Bool := s.2.1.any (strcasecmpEq · key)

/-- The class is one of the three BSC ones. -/
def namesBsc (s : Strings) : Bool :=
  inHeader s && keyIs "class" s &&
    s.2.2.any fun value => strcasecmpEq value "xAPBSC.cmd" || strcasecmpEq value "xAPBSC.info" ||
      strcasecmpEq value "xAPBSC.event"

/-- The value is to be lowered; `bsc` says that a BSC class stands before. -/
def lowersValue (bsc : Bool) (s : Strings) : Bool :=
  inHeader s && (keyIs "source" s || keyIs "target" s || keyIs "class" s) ||
    bsc && keyIs "state" s

/-- A key that is `NULL` is compared. -/
def comparesNull (bsc : Bool) (s : Strings) : Bool := s.2.1.isNone && (inHeader s || bsc)

/-- A BSC class stands before element `i`. -/
def XapFrame.bscBefore (frame : XapFrame) (i : Nat) : Bool := (List.range i).any fun j => namesBsc (frame.strings j)

/-- Names and keys are in lower case, and those values that are to be. -/
structure LowersRight (frame g : XapFrame) : Prop where
  count : g.parsedMsgCount = frame.parsedMsgCount
  names : ∀ i < frame.parsedMsgCount, (g.strings i).1 = (frame.strings i).1.map (List.map tolower)
  keys : ∀ i < frame.parsedMsgCount, (g.strings i).2.1 = (frame.strings i).2.1.map (List.map tolower)
  values : ∀ i < frame.parsedMsgCount, (g.strings i).2.2 =
    if lowersValue (frame.bscBefore i) (frame.strings i) then (frame.strings i).2.2.map (List.map tolower)
    else (frame.strings i).2.2

/-! ## Memory with lowered fields -/

def Field.covers (f : Field) (j : Nat) : Bool := f.start ≤ j && j < f.stop

/-- `m` with the bytes of some fields in lower case. -/
def lowered (m : Mem) (fields : List Field) : Mem := fun j =>
  if fields.any (·.covers j) then tolower (m j) else m j

def XapFrame.withLowered (frame : XapFrame) (fields : List Field) : XapFrame :=
  { frame with dataPacket := lowered frame.dataPacket fields }

theorem Field.covers_iff {f : Field} {j : Nat} : f.covers j = true ↔ f.start ≤ j ∧ j < f.stop := by
  simp [Field.covers]

theorem tolower_eq_zero {c : UInt8} : tolower c = 0 ↔ c = 0 := tolower_eq_iff (by decide)

theorem lowered_eq_zero (m : Mem) (fields : List Field) (j : Nat) : lowered m fields j = 0 ↔ m j = 0 := by
  unfold lowered
  split
  · exact tolower_eq_zero
  · rfl

theorem xapLowerString_eq {m : Mem} {p n room : Nat} (text : ∀ j, p ≤ j → j < p + n → m j ≠ 0) (nul : m (p + n) = 0)
    (fits : n < room) : xapLowerString m room p = fun j => if p ≤ j ∧ j < p + n then tolower (m j) else m j := by
  induction n generalizing m p room with
  | zero =>
    obtain ⟨room, rfl⟩ := Nat.exists_eq_add_of_lt fits
    rw [Nat.zero_add, xapLowerString, if_pos (show m p = 0 from nul)]
    funext j
    rw [if_neg (by omega)]
  | succ n ih =>
    obtain ⟨room, rfl⟩ : ∃ r, room = r + 1 := ⟨room - 1, by omega⟩
    rw [xapLowerString, if_neg (text p (Nat.le_refl p) (by omega)), ih]
    · funext j
      by_cases here : j = p
      · rw [here, if_neg (by omega), store_same, if_pos (by omega)]
      · rw [store_other here]
        by_cases inside : p + 1 ≤ j ∧ j < p + 1 + n
        · rw [if_pos inside, if_pos (by omega)]
        · rw [if_neg inside, if_neg (by omega)]
    · intro j low high
      rw [store_other (by omega)]
      exact text j (by omega) (by omega)
    · rw [store_other (by omega), Nat.add_assoc, Nat.add_comm 1 n]
      exact nul
    · omega

section Memory

variable {m : Mem} {f : Field} {fields : List Field}

section

variable (h : CStr m f.start f.text)
include h

theorem cstr_byte_ne {j : Nat} (low : f.start ≤ j) (high : j < f.stop) : m j ≠ 0 := by
  have inside : j - f.start < f.text.length := by
    unfold Field.stop at high
    omega
  have byte := h.bytes (j - f.start) inside
  rw [show f.start + (j - f.start) = j by omega] at byte
  rw [byte]
  exact h.clean _ (getElem_mem inside)

theorem lower_field {room : Nat} (fits : f.text.length < room) :
    xapLowerString (lowered m fields) room f.start = lowered m (fields ++ [f]) := by
  have nul : lowered m fields (f.start + f.text.length) = 0 := (lowered_eq_zero ..).2 h.nul
  rw [xapLowerString_eq (fun j low high zero => cstr_byte_ne h low high ((lowered_eq_zero ..).1 zero)) nul fits]
  funext j
  have covers : (fields ++ [f]).any (·.covers j) = (fields.any (·.covers j) || f.covers j) := by
    rw [any_append]
    simp
  by_cases here : f.start ≤ j ∧ j < f.start + f.text.length
  · have covered := Field.covers_iff.2 here
    rw [if_pos here, lowered, lowered, covers, covered, Bool.or_true, if_pos rfl]
    split
    · exact tolower_tolower _
    · rfl
  · have uncovered := Bool.eq_false_iff.2 fun covered => here (Field.covers_iff.1 covered)
    rw [if_neg here, lowered, lowered, covers, uncovered, Bool.or_false]

/-- A field that has been lowered. -/
theorem cstr_lowered_mem (mem : f ∈ fields) :
    CStr (lowered m fields) f.start (f.text.map tolower) := by
  refine ⟨fun j inside => ?_, ?_, fun c mem => ?_⟩
  · rw [length_map] at inside
    have covered := Field.covers_iff.2 ⟨Nat.le_add_right _ _, Nat.add_lt_add_left inside _⟩
    rw [lowered, if_pos (any_eq_true.2 ⟨f, mem, covered⟩), h.bytes j inside, getElem_map]
  · rw [length_map, lowered_eq_zero]
    exact h.nul
  · obtain ⟨b, inside, rfl⟩ := mem_map.1 mem
    exact fun zero => h.clean b inside (tolower_eq_zero.1 zero)

theorem cstr_lowered_apart (apart : ∀ g ∈ fields, f.stop < g.start ∨ g.stop < f.start) :
    CStr (lowered m fields) f.start f.text := by
  refine h.keep (fun j low high => ?_) ((lowered_eq_zero ..).2 h.nul)
  have uncovered : fields.any (·.covers j) = false := by
    rw [List.any_eq_false]
    intro g mem covered
    have inside := Field.covers_iff.1 covered
    have stop : f.stop = f.start + f.text.length := rfl
    rcases apart g mem with behind | before
    · omega
    · omega
  rw [lowered, uncovered, if_neg Bool.false_ne_true]

end

end Memory

/-! ## One element -/

def Element.strings (e : Element) : Strings := elementStrings (elementText e)

/-- The fields that the loop lowers for an element. -/
def touched (bsc : Bool) (e : Element) : List Field :=
  e.1 :: e.2.elim [] fun p => p.1 :: if lowersValue bsc e.strings then [p.2] else []

/-- The loop's state, with some fields lowered. -/
def lowerAt (frame : XapFrame) (fields : List Field) (current : Option Nat) (bsc : Bool) : LowerState :=
  ⟨frame.withLowered fields, current, bsc⟩

section Element

variable {frame : XapFrame} {mark : Nat} {fields : List Field} {current : Option Nat} {bsc : Bool} {f : Field}
  (fields current bsc) in
theorem lowerAt_lower (settled : Settled frame.dataPacket mark f) (fits : mark ≤ xapDataLen) :
    (lowerAt frame fields current bsc).lower (some f.start) = lowerAt frame (fields ++ [f]) current bsc := by
  have below := settled.below
  have stored : xapLowerString (lowered frame.dataPacket fields) (xapDataLen + 1 - f.start) f.start =
      lowered frame.dataPacket (fields ++ [f]) := lower_field settled.str (by omega)
  exact congrArg (fun m => (⟨{ frame with dataPacket := m }, current, bsc⟩ : LowerState)) stored

variable (current bsc) in
theorem lowerAt_str (settled : Settled frame.dataPacket mark f) (fits : mark ≤ xapDataLen) (mem : f ∈ fields) :
    (lowerAt frame fields current bsc).frame.str f.start = f.text.map tolower := by
  have below := settled.below
  exact (cstr_lowered_mem settled.str mem).strAt_eq (by rw [length_map]; omega)

variable (current bsc) in
theorem lowerAt_strcmpEq (settled : Settled frame.dataPacket mark f) (fits : mark ≤ xapDataLen) (mem : f ∈ fields)
    {word : Bytes} (lower : word.map tolower = word) :
    (lowerAt frame fields current bsc).frame.strcmpEq word (some f.start) = some (strcasecmpEq f.text word) := by
  rw [XapFrame.strcmpEq, map_some, lowerAt_str current bsc settled fits mem, strcasecmpEq, lower]

/-- A field that is there already. -/
theorem lowered_again {m : Mem} {fields : List Field} {f g : Field} (mem : g ∈ fields) (start : g.start = f.start)
    (str : CStr m g.start g.text) (str' : CStr m f.start f.text) : lowered m (fields ++ [f]) = lowered m fields := by
  have same : g.text = f.text := by
    rw [start] at str
    have room := Nat.le_max_left g.text.length f.text.length
    have room' := Nat.le_max_right g.text.length f.text.length
    exact (str.strAt_eq room).symm.trans (str'.strAt_eq room')
  funext j
  have covers : (fields ++ [f]).any (·.covers j) = fields.any (·.covers j) := by
    rw [any_append, any_cons, any_nil, Bool.or_false]
    cases covered : f.covers j with
    | false => rw [Bool.or_false]
    | true =>
      have covered' : g.covers j = true := by
        obtain ⟨low, high⟩ := Field.covers_iff.1 covered
        rw [Field.stop, ← start, ← same] at high
        exact Field.covers_iff.2 ⟨start ▸ low, high⟩
      rw [any_eq_true.2 ⟨g, mem, covered'⟩, Bool.or_true]
  rw [lowered, lowered, covers]

/-- The section that is current has been lowered. -/
def Entered (frame : XapFrame) (fields : List Field) (current : Option Nat) : Prop :=
  ∀ p, current = some p → ∃ g ∈ fields, g.start = p ∧ CStr frame.dataPacket g.start g.text

theorem lowerAt_enter (entered : Entered frame fields current) {e : Element} (at_ : ElementAt frame.dataPacket mark e)
    (fits : mark ≤ xapDataLen) :
    (lowerAt frame fields current bsc).enter (elementPtrs e) = lowerAt frame (fields ++ [e.1]) (some e.1.start) bsc := by
  by_cases same : current = some e.1.start
  · obtain ⟨g, mem, start, str⟩ := entered _ same
    have stays : ¬ (current = none ∨ current ≠ some e.1.start) := by
      rw [same]
      simp
    change (if current = none ∨ current ≠ some e.1.start then _ else _) = _
    rw [if_neg stays, lowerAt, lowerAt, XapFrame.withLowered, XapFrame.withLowered,
      lowered_again mem start str at_.name.str, same]
  · change (if current = none ∨ current ≠ some e.1.start then _ else _) = _
    rw [if_pos (Or.inr same)]
    have lower := lowerAt_lower fields current bsc at_.name fits
    change { (lowerAt frame fields current bsc).lower (some e.1.start) with currentSection := some e.1.start } = _
    rw [lower]
    rfl

/-- The `state` value of an element with a key. -/
theorem lowerAt_lowerState {name key value : Field} (keyAt : Settled frame.dataPacket mark key)
    (valueAt : Settled frame.dataPacket mark value) (fits : mark ≤ xapDataLen) (mem : key ∈ fields) :
    (lowerAt frame fields current bsc).lowerState (elementPtrs (name, some (key, value))) =
      some (lowerAt frame (if bsc && strcasecmpEq key.text "state" then fields ++ [value] else fields) current bsc) := by
  change (if bsc = true then _ else _) = _
  cases bsc with
  | false => rfl
  | true =>
    have compared := lowerAt_strcmpEq current true keyAt fits mem (show (ascii "state").map tolower = "state" by decide)
    rw [if_pos rfl]
    change (XapFrame.strcmpEq _ _ (some key.start)).bind _ = _
    rw [compared, bind_some, Bool.true_and]
    cases strcasecmpEq key.text "state" with
    | true => exact congrArg some (lowerAt_lower fields current true valueAt fits)
    | false => rfl

/-- The classes, without case. -/
theorem bscClass_lower (value : Bytes) :
    bscClass (value.map tolower) = (strcasecmpEq value "xAPBSC.cmd" || strcasecmpEq value "xAPBSC.info" ||
      strcasecmpEq value "xAPBSC.event") := by
  unfold bscClass strcasecmpEq
  rw [show (ascii "xAPBSC.cmd").map tolower = "xapbsc.cmd" by decide,
    show (ascii "xAPBSC.info").map tolower = "xapbsc.info" by decide,
    show (ascii "xAPBSC.event").map tolower = "xapbsc.event" by decide,
    Bool.or_comm (value.map tolower == "xapbsc.info")]

/-- The key is one of the three whose values are lowered in the header. -/
def headerKey (key : Bytes) : Bool :=
  strcasecmpEq key "source" || strcasecmpEq key "target" || strcasecmpEq key "class"

/-- An element of the header with a key. -/
theorem lowerAt_lowerHeader {name key value : Field} (keyAt : Settled frame.dataPacket mark key)
    (valueAt : Settled frame.dataPacket mark value) (fits : mark ≤ xapDataLen) (mem : key ∈ fields) :
    (lowerAt frame fields current bsc).lowerHeader (elementPtrs (name, some (key, value))) =
      some (lowerAt frame (if headerKey key.text then fields ++ [value] else fields) current
        (bsc || strcasecmpEq key.text "class" && bscClass (value.text.map tolower))) := by
  have isSource := lowerAt_strcmpEq current bsc keyAt fits mem (show (ascii "source").map tolower = "source" by decide)
  have isTarget := lowerAt_strcmpEq current bsc keyAt fits mem (show (ascii "target").map tolower = "target" by decide)
  have isClass := lowerAt_strcmpEq current bsc keyAt fits mem (show (ascii "class").map tolower = "class" by decide)
  have lower := lowerAt_lower fields current bsc valueAt fits
  have read := lowerAt_str current bsc valueAt fits (mem_append_right fields (mem_singleton.2 rfl))
  unfold LowerState.lowerHeader headerKey
  change (XapFrame.strcmpEq _ _ (some key.start)).bind _ = _
  rw [isSource, bind_some]
  change (XapFrame.strcmpEq _ _ (some key.start)).bind _ = _
  rw [isTarget, bind_some]
  change (XapFrame.strcmpEq _ _ (some key.start)).bind _ = _
  rw [isClass, bind_some]
  cases class_ : strcasecmpEq key.text "class" with
  | true =>
    rw [Bool.or_true, if_pos rfl, if_pos rfl, if_pos rfl, Bool.true_and]
    change some { (lowerAt frame fields current bsc).lower (some value.start) with
      bscLowerStateValue := ((lowerAt frame fields current bsc).lower (some value.start)).bscLowerStateValue ||
        bscClass (((lowerAt frame fields current bsc).lower (some value.start)).frame.str value.start) } = _
    rw [lower, read]
    rfl
  | false =>
    rw [Bool.or_false, Bool.false_and, Bool.or_false]
    split
    · exact congrArg some lower
    · rfl

/-- The loop body, once the section is entered. -/
theorem lowerElement_eq (entered : Entered frame fields current) {i : Nat} {e : Element}
    (slot : frame.parsedMsg i = elementPtrs e) (at_ : ElementAt frame.dataPacket mark e) (fits : mark ≤ xapDataLen) :
    lowerElement (lowerAt frame fields current bsc) i =
      (((lowerAt frame (fields ++ [e.1]) (some e.1.start) bsc).lower (elementPtrs e).keyPtr).lowerState
        (elementPtrs e)).bind fun s => (s.frame.strcmpEq "xap-header" s.currentSection).bind fun header =>
          if header then s.lowerHeader (elementPtrs e) else some s := by
  rw [← lowerAt_enter entered at_ fits, ← slot]
  rfl

/-- An element without a key: the loop is undefined if it compares it. -/
theorem lowerElement_empty (entered : Entered frame fields current) {i : Nat} {name : Field}
    (slot : frame.parsedMsg i = elementPtrs (name, none)) (at_ : ElementAt frame.dataPacket mark (name, none))
    (fits : mark ≤ xapDataLen) :
    lowerElement (lowerAt frame fields current bsc) i =
      if strcasecmpEq name.text "xap-header" || bsc then none
      else some (lowerAt frame (fields ++ [name]) (some name.start) bsc) := by
  have mem : name ∈ fields ++ [name] := mem_append_right fields (mem_singleton.2 rfl)
  have header := lowerAt_strcmpEq (some name.start) bsc at_.name fits mem
    (show (ascii "xap-header").map tolower = "xap-header" by decide)
  rw [lowerElement_eq entered slot at_ fits]
  cases bsc with
  | true =>
    rw [Bool.or_true, if_pos rfl]
    rfl
  | false =>
    have quiet : ((lowerAt frame (fields ++ [name]) (some name.start) false).lower none).lowerState
        (elementPtrs (name, none)) = some (lowerAt frame (fields ++ [name]) (some name.start) false) := rfl
    change (LowerState.lowerState (LowerState.lower _ none) _).bind _ = _
    rw [quiet, bind_some, Bool.or_false]
    change (XapFrame.strcmpEq _ _ (some name.start)).bind _ = _
    rw [header, bind_some]
    cases strcasecmpEq name.text "xap-header" with
    | true => rfl
    | false => rfl

/-- A key is not `state` and one of the header's at once. -/
theorem headerKey_of_state {key : Bytes} (state : strcasecmpEq key "state" = true) :
    headerKey key = false := by
  have lower := strcasecmpEq_iff.1 state
  simp only [headerKey, strcasecmpEq, lower]
  decide

theorem touched_pair (bsc : Bool) (name key value : Field) :
    touched bsc (name, some (key, value)) = [name, key] ++
      if strcasecmpEq name.text "xap-header" && headerKey key.text || bsc && strcasecmpEq key.text "state"
      then [value] else [] :=
  rfl

/-- An element with a key. -/
theorem lowerElement_pair (entered : Entered frame fields current) {i : Nat} {name key value : Field}
    (slot : frame.parsedMsg i = elementPtrs (name, some (key, value)))
    (at_ : ElementAt frame.dataPacket mark (name, some (key, value))) (fits : mark ≤ xapDataLen) :
    lowerElement (lowerAt frame fields current bsc) i =
      some (lowerAt frame (fields ++ touched bsc (name, some (key, value))) (some name.start)
        (bsc || namesBsc (Element.strings (name, some (key, value))))) := by
  obtain ⟨keyAt, valueAt⟩ := at_.pair _ rfl
  -- the fields lowered before the header is asked for
  obtain ⟨after, same, memName, memKey⟩ : ∃ after,
      (if bsc && strcasecmpEq key.text "state" then fields ++ [name] ++ [key] ++ [value]
        else fields ++ [name] ++ [key]) = after ∧ name ∈ after ∧ key ∈ after := by
    refine ⟨_, rfl, ?_, ?_⟩
    · split <;> simp
    · split <;> simp
  have header := lowerAt_strcmpEq (some name.start) bsc at_.name fits memName
    (show (ascii "xap-header").map tolower = "xap-header" by decide)
  have bscName : namesBsc (Element.strings (name, some (key, value))) =
      (strcasecmpEq name.text "xap-header" &&
        (strcasecmpEq key.text "class" && bscClass (value.text.map tolower))) := by
    rw [bscClass_lower, ← Bool.and_assoc]
    rfl
  rw [lowerElement_eq entered slot at_ fits]
  change (LowerState.lowerState (LowerState.lower _ (some key.start)) _).bind _ = _
  rw [lowerAt_lower _ _ _ keyAt fits,
    lowerAt_lowerState keyAt valueAt fits (mem_append_right _ (mem_singleton.2 rfl)), bind_some, same]
  change (XapFrame.strcmpEq _ _ (some name.start)).bind _ = _
  rw [header, bind_some, bscName, touched_pair]
  cases inside : strcasecmpEq name.text "xap-header" with
  | false =>
    rw [if_neg Bool.false_ne_true, Bool.false_and, Bool.false_and, Bool.or_false, Bool.false_or, ← same]
    split <;> simp
  | true =>
    rw [if_pos rfl, lowerAt_lowerHeader keyAt valueAt fits memKey, Bool.true_and, Bool.true_and, ← same]
    cases state : bsc && strcasecmpEq key.text "state" with
    | true =>
      rw [headerKey_of_state (Bool.and_eq_true_iff.1 state).2]
      simp
    | false =>
      rw [Bool.or_false]
      split <;> simp

/-! ## The loop -/

/-- Each element, and whether a BSC class stands before it. -/
def flagged (bsc : Bool) (es : List Element) : List (Bool × Element) :=
  es.mapIdx fun i e => (bsc || (es.take i).any fun e => namesBsc e.strings, e)

/-- The fields that the loop lowers, if it compares no `NULL`. -/
def touchedFrom (bsc : Bool) (es : List Element) : Option (List Field) :=
  if (flagged bsc es).any fun x => comparesNull x.1 x.2.strings then none
  else some ((flagged bsc es).flatMap fun x => touched x.1 x.2)

theorem flagged_cons (bsc : Bool) (e : Element) (es : List Element) :
    flagged bsc (e :: es) = (bsc, e) :: flagged (bsc || namesBsc e.strings) es := by
  simp [flagged, mapIdx_cons, Bool.or_assoc]

theorem touchedFrom_cons (bsc : Bool) (e : Element) (es : List Element) : touchedFrom bsc (e :: es) =
    if comparesNull bsc e.strings then none else (touchedFrom (bsc || namesBsc e.strings) es).map (touched bsc e ++ ·) := by
  rw [touchedFrom, touchedFrom, flagged_cons, any_cons, flatMap_cons]
  cases comparesNull bsc e.strings with
  | true => rfl
  | false =>
    rw [Bool.false_or, if_neg Bool.false_ne_true]
    split <;> rfl

/-- One turn of the loop. -/
theorem lowerElement_touched (entered : Entered frame fields current) {i : Nat} {e : Element}
    (slot : frame.parsedMsg i = elementPtrs e) (at_ : ElementAt frame.dataPacket mark e) (fits : mark ≤ xapDataLen) :
    lowerElement (lowerAt frame fields current bsc) i =
      if comparesNull bsc e.strings then none
      else some (lowerAt frame (fields ++ touched bsc e) (some e.1.start) (bsc || namesBsc e.strings)) := by
  obtain ⟨name, pair⟩ := e
  cases pair with
  | none =>
    rw [lowerElement_empty entered slot at_ fits]
    have quiet : namesBsc (Element.strings (name, none)) = false := by
      simp [namesBsc, Element.strings, elementStrings, elementText, keyIs]
    rw [quiet, Bool.or_false]
    rfl
  | some pair =>
    obtain ⟨key, value⟩ := pair
    rw [lowerElement_pair entered slot at_ fits]
    exact (if_neg Bool.false_ne_true).symm

variable (bsc) in
/-- The loop over the rest of the elements. -/
theorem lowerElements_touched (entered : Entered frame fields current) (fits : mark ≤ xapDataLen) (es : List Element)
    (k : Nat) (slots : ∀ j (hj : j < es.length), frame.parsedMsg (k + j) = elementPtrs es[j])
    (at_ : ∀ e ∈ es, ElementAt frame.dataPacket mark e) :
    ((List.range' k es.length).foldlM lowerElement (lowerAt frame fields current bsc)).map LowerState.frame =
      (touchedFrom bsc es).map fun more => frame.withLowered (fields ++ more) := by
  induction es generalizing fields current bsc k with
  | nil =>
    refine congrArg (some ∘ frame.withLowered) ?_
    exact (append_nil fields).symm
  | cons e es ih =>
    have here := at_ e mem_cons_self
    have slot : frame.parsedMsg k = elementPtrs e := slots 0 (Nat.zero_lt_succ _)
    rw [length_cons, range'_succ, foldlM_cons, lowerElement_touched entered slot here fits, touchedFrom_cons]
    by_cases null : comparesNull bsc e.strings = true
    · rw [if_pos null, if_pos null]
      rfl
    · rw [if_neg null, if_neg null]
      have entered' : Entered frame (fields ++ touched bsc e) (some e.1.start) := by
        intro p same
        refine ⟨e.1, mem_append_right _ mem_cons_self, some.inj same, here.name.str⟩
      have later := ih (bsc || namesBsc e.strings) entered' (k + 1)
        (fun j hj => by rw [Nat.add_assoc, Nat.add_comm 1 j]; exact slots (j + 1) (Nat.succ_lt_succ hj))
        fun e' mem => at_ e' (mem_cons_of_mem _ mem)
      rw [bind_eq_bind, bind_some, later, Option.map_map]
      simp only [Function.comp_def, append_assoc]

end Element

/-- No `NULL` is compared exactly if none of the elements asks for it. -/
theorem touchedFrom_isSome_iff (bsc : Bool) (es : List Element) :
    (touchedFrom bsc es).isSome = true ↔
      ∀ i (hi : i < es.length), comparesNull (bsc || (es.take i).any fun e => namesBsc e.strings) es[i].strings = false := by
  have none_compared : (touchedFrom bsc es).isSome = !(flagged bsc es).any fun x => comparesNull x.1 x.2.strings := by
    unfold touchedFrom
    split <;> simp_all
  rw [none_compared, Bool.not_eq_true', List.any_eq_false]
  constructor
  · intro all i hi
    exact Bool.eq_false_iff.2 (all _ (mem_mapIdx.2 ⟨i, hi, rfl⟩))
  · intro all x mem
    obtain ⟨i, hi, rfl⟩ := mem_mapIdx.1 mem
    exact Bool.eq_false_iff.1 (all i hi)

/-- The fields that are lowered are those of the elements. -/
theorem mem_touchedFrom {bsc : Bool} {es : List Element} {fields : List Field} (run : touchedFrom bsc es = some fields)
    (f : Field) :
    f ∈ fields ↔ ∃ i, ∃ hi : i < es.length, f ∈ touched (bsc || (es.take i).any fun e => namesBsc e.strings) es[i] := by
  rw [touchedFrom] at run
  obtain ⟨-, result⟩ := ite_none_left_eq_some.1 run
  obtain rfl := some.inj result
  rw [mem_flatMap]
  constructor
  · rintro ⟨x, mem, part⟩
    obtain ⟨i, hi, rfl⟩ := mem_mapIdx.1 mem
    exact ⟨i, hi, part⟩
  · rintro ⟨i, hi, part⟩
    exact ⟨_, mem_mapIdx.2 ⟨i, hi, rfl⟩, part⟩

/-! ## The frame of a packet -/

/-- The fields of a list of sections, and their elements. -/
theorem mem_fields {blocks : List Block} {e : Element} (mem : e ∈ blocks.flatMap Block.elements) :
    (Role.name, e.1) ∈ blocks.flatMap Block.fields ∧
      ∀ p, e.2 = some p → (Role.key, p.1) ∈ blocks.flatMap Block.fields ∧ (Role.value, p.2) ∈ blocks.flatMap Block.fields := by
  obtain ⟨b, inside, mem⟩ := mem_flatMap.1 mem
  have lift : ∀ f ∈ b.fields, f ∈ blocks.flatMap Block.fields := fun f part => mem_flatMap.2 ⟨b, inside, part⟩
  unfold Block.elements at mem
  split at mem
  · obtain rfl := mem_singleton.1 mem
    exact ⟨lift _ mem_cons_self, fun p absent => absurd absent (by simp)⟩
  · obtain ⟨p, pair, rfl⟩ := mem_map.1 mem
    refine ⟨lift _ mem_cons_self, fun q same => ?_⟩
    cases same
    refine ⟨lift _ (mem_cons_of_mem _ ?_), lift _ (mem_cons_of_mem _ ?_)⟩
    · exact mem_flatMap.2 ⟨p, pair, by simp⟩
    · exact mem_flatMap.2 ⟨p, pair, by simp⟩

def valueOf : Role × Field → Option Field
  | (.value, f) => some f
  | _ => none

theorem valueOf_eq_some {f : Role × Field} {g : Field} (value : valueOf f = some g) : f.2 = g := by
  obtain ⟨role, f⟩ := f
  cases role with
  | value => exact some.inj value
  | name => exact absurd value (by simp [valueOf])
  | key => exact absurd value (by simp [valueOf])

theorem values_elements (b : Block) :
    b.elements.filterMap (fun e => e.2.map Prod.snd) = b.fields.filterMap valueOf := by
  have pairs : ∀ l : List (Field × Field),
      (l.map fun p => (b.name, some p)).filterMap (fun e : Element => e.2.map Prod.snd) =
        (l.flatMap fun p => [(Role.key, p.1), (Role.value, p.2)]).filterMap valueOf := by
    intro l
    induction l with
    | nil => rfl
    | cons p l ih =>
      rw [map_cons, flatMap_cons, filterMap_append, ← ih]
      rfl
  unfold Block.elements Block.fields
  split
  · rename_i empty
    rw [empty]
    rfl
  · exact pairs b.pairs

section Packet

variable {blocks : List Block} (apart : (blocks.flatMap Block.fields).Pairwise fun f g => f.2.stop < g.2.start)
include apart

/-- Fields that are not the same lie apart. -/
theorem fields_apart {f g : Role × Field} (memF : f ∈ blocks.flatMap Block.fields)
    (memG : g ∈ blocks.flatMap Block.fields) (different : f ≠ g) : f.2.stop < g.2.start ∨ g.2.stop < f.2.start := by
  have either : (blocks.flatMap Block.fields).Pairwise fun f g => f.2.stop < g.2.start ∨ g.2.stop < f.2.start :=
    apart.imp Or.inl
  have symmetric : Std.Symm fun f g : Role × Field => f.2.stop < g.2.start ∨ g.2.stop < f.2.start :=
    ⟨fun _ _ h => h.symm⟩
  exact either.forall memF memG different

/-- The values of different elements lie apart. -/
theorem values_apart : (blocks.flatMap Block.elements).Pairwise fun e e' =>
    ∀ p, e.2 = some p → ∀ p', e'.2 = some p' → p.2.stop < p'.2.start := by
  have values : (blocks.flatMap Block.elements).filterMap (fun e => e.2.map Prod.snd) =
      (blocks.flatMap Block.fields).filterMap valueOf := by
    rw [filterMap_flatMap, filterMap_flatMap]
    exact flatMap_congr fun b _ => values_elements b
  have order : ((blocks.flatMap Block.fields).filterMap valueOf).Pairwise fun f g => f.stop < g.start := by
    refine pairwise_filterMap.2 (apart.imp fun before f isF g isG => ?_)
    rwa [← valueOf_eq_some isF, ← valueOf_eq_some isG]
  rw [← values, pairwise_filterMap] at order
  refine order.imp fun before (p : Field × Field) isP (p' : Field × Field) isP' => before p.2 ?_ p'.2 ?_
  · rw [isP, map_some]
  · rw [isP', map_some]

/-- A value that is not to be lowered lies apart from all fields that are. -/
theorem value_apart {bsc : Bool} {fields : List Field}
    (run : touchedFrom bsc (blocks.flatMap Block.elements) = some fields) {i : Nat}
    (hi : i < (blocks.flatMap Block.elements).length) {p : Field × Field}
    (pair : (blocks.flatMap Block.elements)[i].2 = some p)
    (kept : lowersValue (bsc || ((blocks.flatMap Block.elements).take i).any fun e => namesBsc e.strings)
      (blocks.flatMap Block.elements)[i].strings = false) :
    ∀ g ∈ fields, p.2.stop < g.start ∨ g.stop < p.2.start := by
  have here := (mem_fields (getElem_mem hi)).2 p pair
  intro g mem
  obtain ⟨j, hj, part⟩ := (mem_touchedFrom run g).1 mem
  have there := mem_fields (getElem_mem hj)
  rcases mem_cons.1 part with rfl | part
  · exact fields_apart apart here.2 there.1 (by simp)
  · cases other : (blocks.flatMap Block.elements)[j].2 with
    | none =>
      rw [other] at part
      exact absurd part not_mem_nil
    | some q =>
      rw [other, elim_some] at part
      rcases mem_cons.1 part with rfl | part
      · exact fields_apart apart here.2 (there.2 q other).1 (by simp)
      · split at part
        · rename_i lowers
          obtain rfl := mem_singleton.1 part
          -- the values of two elements lie apart, and this one is not lowered
          have order := pairwise_iff_getElem.1 (values_apart apart)
          rcases Nat.lt_trichotomy i j with before | same | behind
          · exact Or.inl (order i j hi hj before p pair q other)
          · subst same
            exact absurd (lowers.symm.trans kept) (by decide)
          · exact Or.inr (order j i hj hi behind q other p pair)
        · exact absurd part not_mem_nil

end Packet

/-- The strings of a frame that records some elements. -/
theorem Recorded.bscBefore_eq {m0 : Mem} {len pos mark : Nat} {es : List Element} {fr : XapFrame}
    (h : Recorded m0 len pos mark es fr) (fits : mark ≤ xapDataLen) {i : Nat} (hi : i ≤ es.length) :
    fr.bscBefore i = (es.take i).any fun e => namesBsc e.strings := by
  have texts : (List.range i).map (fun j => namesBsc (fr.strings j)) = (es.take i).map fun e => namesBsc e.strings := by
    apply ext_getElem
    · simp [hi]
    · intro j hj hj'
      have inside : j < es.length := by
        rw [length_map, length_range] at hj
        omega
      simp only [getElem_map, getElem_range, getElem_take]
      rw [h.strings_eq fits j inside]
      rfl
  have same := congrArg (fun l : List Bool => l.any id) texts
  simp only [List.any_map] at same
  exact same

/-- The loop on the frame of a packet, in terms of the scan. -/
theorem xapLowerMessageF_eq (frame : XapFrame) {d : Bytes} (fits : d.length ≤ xapDataLen) :
    xapLowerMessageF (parseMsgF (frame.load d)) =
      (touchedFrom false (scan d).elements).map (parseMsgF (frame.load d)).withLowered := by
  have recorded := parse_recorded frame fits
  have start : lowerAt (parseMsgF (frame.load d)) [] none false = ⟨parseMsgF (frame.load d), none, false⟩ := rfl
  have entered : Entered (parseMsgF (frame.load d)) [] none := fun p absent => absurd absent (by simp)
  have run := lowerElements_touched false entered fits (scan d).elements 0
    (fun j hj => by rw [Nat.zero_add]; exact recorded.slots j hj) recorded.strings
  rw [map_eq_bind] at run
  rw [xapLowerMessageF, recorded.count, range_eq_range', ← start]
  exact run

section Left

variable {m0 : Mem} {len pos mark : Nat} {es : List Element} {fr : XapFrame} {fields : List Field} {i : Nat}
  (h : Recorded m0 len pos mark es fr) (fits : mark ≤ xapDataLen) (hi : i < es.length)
include h fits

omit h in
theorem withLowered_str {f : Field} (settled : Settled fr.dataPacket mark f) (mem : f ∈ fields) :
    (fr.withLowered fields).str f.start = f.text.map tolower := by
  have below := settled.below
  exact (cstr_lowered_mem settled.str mem).strAt_eq (by rw [length_map]; omega)

/-- The name of an element, once it is lowered. -/
theorem withLowered_name (mem : es[i].1 ∈ fields) :
    ((fr.withLowered fields).strings i).1 = (fr.strings i).1.map (List.map tolower) := by
  rw [h.strings_eq fits i hi]
  change Option.map (fr.withLowered fields).str (fr.parsedMsg i).sectionPtr = _
  rw [h.slots i hi]
  exact congrArg some (withLowered_str fits (h.strings _ (getElem_mem hi)).name mem)

/-- The key of an element, once it is lowered. -/
theorem withLowered_key (mem : ∀ p, es[i].2 = some p → p.1 ∈ fields) :
    ((fr.withLowered fields).strings i).2.1 = (fr.strings i).2.1.map (List.map tolower) := by
  rw [h.strings_eq fits i hi]
  change Option.map (fr.withLowered fields).str (fr.parsedMsg i).keyPtr = _
  rw [h.slots i hi]
  simp only [elementPtrs, elementStrings, elementText]
  cases pair : es[i].2 with
  | none => rfl
  | some p => exact congrArg some (withLowered_str fits ((h.strings _ (getElem_mem hi)).pair p pair).1 (mem p pair))

/-- The value of an element, when the loop leaves `edit` of its text. -/
theorem withLowered_value {edit : Bytes → Bytes}
    (left : ∀ p, es[i].2 = some p → (fr.withLowered fields).str p.2.start = edit p.2.text) :
    ((fr.withLowered fields).strings i).2.2 = (fr.strings i).2.2.map edit := by
  rw [h.strings_eq fits i hi]
  change Option.map (fr.withLowered fields).str (fr.parsedMsg i).valuePtr = _
  rw [h.slots i hi]
  simp only [elementPtrs, elementStrings, elementText]
  cases pair : es[i].2 with
  | none => rfl
  | some p => exact congrArg some (left p pair)

end Left

/-- The frame that is left has everything as it should be. -/
theorem lowersRight_of_touched (frame : XapFrame) {d : Bytes} (fits : d.length ≤ xapDataLen) {fields : List Field}
    (run : touchedFrom false (scan d).elements = some fields) :
    LowersRight (parseMsgF (frame.load d)) ((parseMsgF (frame.load d)).withLowered fields) := by
  have h := parse_recorded frame fits
  have touches := mem_touchedFrom run
  refine ⟨rfl, fun i hi => ?_, fun i hi => ?_, fun i hi => ?_⟩
  · rw [h.count] at hi
    exact withLowered_name h fits hi ((touches _).2 ⟨i, hi, mem_cons_self⟩)
  · rw [h.count] at hi
    refine withLowered_key h fits hi fun p pair => (touches _).2 ⟨i, hi, mem_cons_of_mem _ ?_⟩
    rw [pair, elim_some]
    exact mem_cons_self
  · rw [h.count] at hi
    have before := h.bscBefore_eq fits (Nat.le_of_lt hi)
    have strings : (parseMsgF (frame.load d)).strings i = (scan d).elements[i].strings := h.strings_eq fits i hi
    split
    · rename_i lowers
      rw [before, strings] at lowers
      refine withLowered_value h fits hi fun p pair => ?_
      refine withLowered_str fits ((h.strings _ (getElem_mem hi)).pair p pair).2 ((touches _).2 ⟨i, hi, ?_⟩)
      refine mem_cons_of_mem _ ?_
      rw [pair, elim_some, Bool.false_or, if_pos lowers]
      exact mem_cons_of_mem _ (mem_singleton.2 rfl)
    · rename_i keeps
      rw [before, strings] at keeps
      refine Eq.trans (withLowered_value h fits hi fun p pair => ?_) (congrFun map_id _)
      have settled := ((h.strings _ (getElem_mem hi)).pair p pair).2
      have below := settled.below
      have apart := value_apart (scan_fields d) run hi pair (by rw [Bool.false_or]; exact Bool.eq_false_iff.2 keeps)
      exact (cstr_lowered_apart settled.str apart).strAt_eq (by omega)

/-- **`xapLowerMessageF` lowers what its comment says exactly if no empty section makes it compare a
`NULL` key**: one that is an `xap-header`, or any behind a BSC class. -/
theorem lower_effect_iff (frame : XapFrame) (d : Bytes) (fits : d.length ≤ 1500) :
    (∃ g, xapLowerMessageF (parseMsgF (frame.load d)) = some g ∧ LowersRight (parseMsgF (frame.load d)) g) ↔
      ∀ i < (parseMsgF (frame.load d)).parsedMsgCount,
        comparesNull ((parseMsgF (frame.load d)).bscBefore i) ((parseMsgF (frame.load d)).strings i) = false := by
  have h := parse_recorded frame fits
  have compared : (touchedFrom false (scan d).elements).isSome = true ↔
      ∀ i < (parseMsgF (frame.load d)).parsedMsgCount,
        comparesNull ((parseMsgF (frame.load d)).bscBefore i) ((parseMsgF (frame.load d)).strings i) = false := by
    rw [touchedFrom_isSome_iff, h.count]
    refine forall_congr' fun i => forall_congr' fun hi => ?_
    rw [h.bscBefore_eq fits (Nat.le_of_lt hi), h.strings_eq fits i hi, Bool.false_or]
    rfl
  rw [← compared, xapLowerMessageF_eq frame fits]
  cases run : touchedFrom false (scan d).elements with
  | none =>
    refine iff_of_false ?_ Bool.false_ne_true
    rintro ⟨g, absent, -⟩
    exact absurd absent (by simp)
  | some fields => exact iff_of_true ⟨_, rfl, lowersRight_of_touched frame fits run⟩ rfl

def outputEvent : Bytes :=
  "xAP-Header\n\x7b\nSource=Dbzoo.Livebox.Test:Lamp\nClass=xAPBSC.event\n\x7d\n" ++
    "Output.State\n\x7b\nState=ON\nText=Switched ON\n\x7d\n"

theorem lower_effect_output :
    outputEvent.length ≤ 1500 ∧ ∃ g, xapLowerMessageF (parseMsgF (XapFrame.blank.load outputEvent)) = some g ∧
      LowersRight (parseMsgF (XapFrame.blank.load outputEvent)) g :=
  ⟨by decide, (lower_effect_iff .blank outputEvent (by decide)).2 (by decide +kernel)⟩

/-- An empty header, and an empty section behind a BSC class. -/
theorem lower_compares_null :
    (xapLowerMessageF (parseMsgF (XapFrame.blank.load "xap-header\x7b\x7d"))).isNone = true ∧
      (xapLowerMessageF (parseMsgF (XapFrame.blank.load
        "xap-header\n\x7b\nclass=xAPBSC.cmd\n\x7d\noutput.state\n\x7b\n\x7d\n"))).isNone = true := by
  decide +kernel

end Hah.Xap
