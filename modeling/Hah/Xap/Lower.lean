import Hah.Xap.Filter

/-!
# Lowercasing a frame in place

`xapLowerMessageF` rewrites section names, keys and some values of a parsed frame to
lower case. The strings it reaches depend on what it has already rewritten, but every
store replaces a byte by its own lower case. So the frame it leaves is a `CaseVariant`
of the one it was given, and all that `xapCompareFilters` asks of a frame is the same
for all case variants.
-/

namespace Hah.Xap
open C List Option

/-! ## The code -/

/-- `xapLowerString(&m[p])`; `room` is what is left of the buffer behind `p`. -/
def xapLowerString (m : Mem) : Nat → Nat → Mem
  | 0, _ => m
  | room + 1, p => if m p = 0 then m else xapLowerString (store m p (tolower (m p))) room (p + 1)

/-- `xapLowerString` on a string of the frame; it returns at once on `NULL`. -/
def XapFrame.lowerString (frame : XapFrame) : Option Nat → XapFrame
  | none => frame
  | some p => { frame with dataPacket := xapLowerString frame.dataPacket (xapDataLen + 1 - p) p }

/-- `strcmp(text, p) == 0`; on `NULL` there is no answer. -/
def XapFrame.strcmpEq (frame : XapFrame) (text : Bytes) (p : Option Nat) : Option Bool :=
  p.map fun p => frame.str p == text

/-- The locals of `xapLowerMessageF` and the frame it edits. -/
structure LowerState where
  frame : XapFrame
  currentSection : Option Nat
  bscLowerStateValue : Bool

def LowerState.lower (s : LowerState) (p : Option Nat) : LowerState :=
  { s with frame := s.frame.lowerString p }

def LowerState.enter (s : LowerState) (e : ParsedMsgElement) : LowerState :=
  if s.currentSection = none ∨ s.currentSection ≠ e.sectionPtr then
    { s.lower e.sectionPtr with currentSection := e.sectionPtr }
  else s

/-- The value of a `state` key, once the class of the message is a BSC one. -/
def LowerState.lowerState (s : LowerState) (e : ParsedMsgElement) : Option LowerState :=
  if s.bscLowerStateValue then do
    let isState ← s.frame.strcmpEq "state" e.keyPtr
    return if isState then s.lower e.valuePtr else s
  else some s

/-- The classes whose `state` values are lowered. -/
def bscClass (value : Bytes) : Bool :=
  value == "xapbsc.info" || value == "xapbsc.cmd" || value == "xapbsc.event"

/-- A key of the `xap-header` section. -/
def LowerState.lowerHeader (s : LowerState) (e : ParsedMsgElement) : Option LowerState := do
  let isSource ← s.frame.strcmpEq "source" e.keyPtr
  let isTarget ← s.frame.strcmpEq "target" e.keyPtr
  let isClass ← s.frame.strcmpEq "class" e.keyPtr
  if isSource || isTarget || isClass then
    let s := s.lower e.valuePtr
    if isClass then
      let value ← e.valuePtr
      return { s with bscLowerStateValue := s.bscLowerStateValue || bscClass (s.frame.str value) }
    else return s
  else return s

/-- The loop body of `xapLowerMessageF` for element `i`. -/
def lowerElement (s : LowerState) (i : Nat) : Option LowerState := do
  let e := s.frame.parsedMsg i
  let s ← ((s.enter e).lower e.keyPtr).lowerState e
  let inHeader ← s.frame.strcmpEq "xap-header" s.currentSection
  if inHeader then s.lowerHeader e else return s

/-- `xapLowerMessageF`: the frame it leaves, `none` when it hands `NULL` to `strcmp`. That is
so for an empty section: it has no key, and every key of `xap-header`, and of all that
follows a BSC class, is compared. -/
def xapLowerMessageF (frame : XapFrame) : Option XapFrame := do
  let s ← (List.range frame.parsedMsgCount).foldlM lowerElement ⟨frame, none, false⟩
  return s.frame

/-! ## What lowercasing keeps -/

/-- The same elements at the same places, over bytes that are equal without case. -/
structure CaseVariant (frame g : XapFrame) : Prop where
  len : g.len = frame.len
  count : g.parsedMsgCount = frame.parsedMsgCount
  elements : g.parsedMsg = frame.parsedMsg
  bytes : ∀ j, tolower (g.dataPacket j) = tolower (frame.dataPacket j)

variable {g : XapFrame} {s t : LowerState}

theorem CaseVariant.refl (frame : XapFrame) : CaseVariant frame frame := ⟨rfl, rfl, rfl, fun _ => rfl⟩

theorem CaseVariant.trans {f h : XapFrame} (first : CaseVariant f g) (second : CaseVariant g h) : CaseVariant f h :=
  ⟨second.len.trans first.len, second.count.trans first.count, second.elements.trans first.elements,
    fun j => (second.bytes j).trans (first.bytes j)⟩

theorem lowerString_bytes (m : Mem) (room p j : Nat) : tolower (xapLowerString m room p j) = tolower (m j) := by
  induction room generalizing m p with
  | zero => rfl
  | succ room ih =>
    by_cases nul : m p = 0
    · simp only [xapLowerString, if_pos nul]
    · simp only [xapLowerString, if_neg nul]
      rw [ih]
      by_cases here : j = p
      · rw [here, store_same, tolower_tolower]
      · rw [store_other here]

theorem CaseVariant.lowerString {frame : XapFrame} (h : CaseVariant frame g) (p : Option Nat) :
    CaseVariant frame (g.lowerString p) := by
  cases p with
  | none => exact h
  | some p => exact h.trans ⟨rfl, rfl, rfl, lowerString_bytes _ _ _⟩

theorem LowerState.enter_caseVariant {frame : XapFrame} (h : CaseVariant frame s.frame)
    (e : ParsedMsgElement) : CaseVariant frame (s.enter e).frame := by
  unfold LowerState.enter
  split
  next => exact h.lowerString e.sectionPtr
  next => exact h

theorem LowerState.lowerState_caseVariant {frame : XapFrame} (h : CaseVariant frame s.frame) {e : ParsedMsgElement}
    (done : s.lowerState e = some t) : CaseVariant frame t.frame := by
  unfold LowerState.lowerState at done
  split at done
  next =>
    obtain ⟨isState, -, result⟩ := bind_eq_some_iff.1 done
    cases result
    cases isState with
    | true => exact h.lowerString e.valuePtr
    | false => exact h
  next =>
    cases done
    exact h

theorem LowerState.lowerHeader_caseVariant {frame : XapFrame} (h : CaseVariant frame s.frame) {e : ParsedMsgElement}
    (done : s.lowerHeader e = some t) : CaseVariant frame t.frame := by
  obtain ⟨isSource, -, done⟩ := bind_eq_some_iff.1 done
  obtain ⟨isTarget, -, done⟩ := bind_eq_some_iff.1 done
  obtain ⟨isClass, -, done⟩ := bind_eq_some_iff.1 done
  have lowered := h.lowerString e.valuePtr
  split at done
  next =>
    split at done
    next =>
      obtain ⟨value, -, result⟩ := bind_eq_some_iff.1 done
      cases result
      exact lowered
    next =>
      cases done
      exact lowered
  next =>
    cases done
    exact h

/-- One turn of the loop leaves a case variant. -/
theorem lowerElement_caseVariant {frame : XapFrame} (h : CaseVariant frame s.frame)
    {i : Nat} (done : lowerElement s i = some t) : CaseVariant frame t.frame := by
  obtain ⟨u, inside, done⟩ := bind_eq_some_iff.1 done
  obtain ⟨inHeader, -, done⟩ := bind_eq_some_iff.1 done
  have entered := (LowerState.enter_caseVariant h (s.frame.parsedMsg i)).lowerString
    (s.frame.parsedMsg i).keyPtr
  have body := LowerState.lowerState_caseVariant entered inside
  cases inHeader with
  | true => exact LowerState.lowerHeader_caseVariant body done
  | false =>
    cases done
    exact body

theorem lowerElements_caseVariant {frame : XapFrame} (is : List Nat) (h : CaseVariant frame s.frame)
    (done : is.foldlM lowerElement s = some t) : CaseVariant frame t.frame := by
  induction is generalizing s with
  | nil =>
    cases done
    exact h
  | cons i is ih =>
    rw [foldlM_cons] at done
    obtain ⟨u, first, rest⟩ := bind_eq_some_iff.1 done
    exact ih (lowerElement_caseVariant h first) rest

/-- **The frame that `xapLowerMessageF` leaves is a case variant of its argument.** -/
theorem lowerMessage_caseVariant {frame lowered : XapFrame} (done : xapLowerMessageF frame = some lowered) :
    CaseVariant frame lowered := by
  obtain ⟨s, run, result⟩ := bind_eq_some_iff.1 done
  cases result
  exact lowerElements_caseVariant _ (.refl frame) run

/-! ## Lookups and patterns without case -/

theorem CaseVariant.str {frame : XapFrame} (h : CaseVariant frame g) (p : Nat) :
    (g.str p).map tolower = (frame.str p).map tolower :=
  strAt_lower h.bytes _ p

def lowerStrings (e : Option Bytes × Option Bytes × Option Bytes) :
    Option Bytes × Option Bytes × Option Bytes :=
  (e.1.map (List.map tolower), e.2.1.map (List.map tolower), e.2.2.map (List.map tolower))

theorem CaseVariant.strings {frame : XapFrame} (h : CaseVariant frame g) (i : Nat) :
    lowerStrings (g.strings i) = lowerStrings (frame.strings i) := by
  have same : (List.map tolower ∘ g.str) = (List.map tolower ∘ frame.str) := funext h.str
  simp only [lowerStrings, XapFrame.strings, h.elements, Option.map_map, same]

theorem map_tolower_map (s : Bytes) : (s.map tolower).map tolower = s.map tolower := by
  rw [List.map_map]
  exact map_congr_left fun c _ => tolower_tolower c

theorem strcasecmpEq_lower (a b : Bytes) : strcasecmpEq a (b.map tolower) = strcasecmpEq a b := by
  rw [Bool.eq_iff_iff, strcasecmpEq_iff, strcasecmpEq_iff, map_tolower_map]

theorem strcasecmpEq_congr {a a' : Bytes} (same : a'.map tolower = a.map tolower) (b : Bytes) :
    strcasecmpEq a' b = strcasecmpEq a b := by
  rw [Bool.eq_iff_iff, strcasecmpEq_iff, strcasecmpEq_iff, same]

/-- Whether an element is the one looked for does not depend on its case. -/
theorem elementMatches_lower (sectionName : Bytes) (key : Option Bytes)
    (e : Option Bytes × Option Bytes × Option Bytes) :
    elementMatches sectionName key (lowerStrings e) = elementMatches sectionName key e := by
  obtain ⟨name, k, value⟩ := e
  have sameName : strcasecmpEq sectionName ((name.map (List.map tolower)).getD []) =
      strcasecmpEq sectionName (name.getD []) := by
    cases name with
    | none => rfl
    | some name => exact strcasecmpEq_lower sectionName name
  simp only [elementMatches, lowerStrings, sameName]
  cases key <;> cases k <;> simp [strcasecmpEq_lower]

/-- A lookup finds the same element in a case variant. -/
theorem CaseVariant.getValue {frame : XapFrame} (h : CaseVariant frame g) (sectionName : Bytes)
    (key : Option Bytes) :
    (xapGetValueF g sectionName key).map (List.map tolower) =
      (xapGetValueF frame sectionName key).map (List.map tolower) := by
  have blind : elementMatches sectionName key ∘ lowerStrings = elementMatches sectionName key :=
    funext fun e => elementMatches_lower sectionName key e
  have found (es : List (Option Bytes × Option Bytes × Option Bytes)) :
      (es.find? (elementMatches sectionName key)).map lowerStrings =
        (es.map lowerStrings).find? (elementMatches sectionName key) := by
    rw [find?_map, blind]
  have sameList : ((List.range g.parsedMsgCount).map g.strings).map lowerStrings =
      ((List.range frame.parsedMsgCount).map frame.strings).map lowerStrings := by
    rw [h.count, List.map_map, List.map_map]
    exact map_congr_left fun i _ => h.strings i
  have sameFound := (found _).trans ((congrArg _ sameList).trans (found _).symm)
  unfold xapGetValueF
  cases inG : ((List.range g.parsedMsgCount).map g.strings).find? (elementMatches sectionName key) with
  | none =>
    rw [inG] at sameFound
    rw [map_eq_none_iff.1 sameFound.symm]
  | some e =>
    rw [inG] at sameFound
    obtain ⟨e', inFrame, same⟩ := map_eq_some_iff.1 sameFound.symm
    have values : e'.2.2.map (List.map tolower) = e.2.2.map (List.map tolower) :=
      congrArg (fun s => s.2.2) same
    have absent : e.2.2 = none ↔ e'.2.2 = none := by
      rw [← map_eq_none_iff (f := List.map tolower), ← values, map_eq_none_iff]
    simp only [inFrame, absent]
    split
    next => rfl
    next => exact values.symm

theorem tolower_wild {f : UInt8} (isWild : wild f = true) : tolower f = f := by
  revert isWild
  exact byte_cases (by decide +kernel) f

theorem wild_tolower (f : UInt8) : wild (tolower f) = wild f := by
  exact byte_cases (by decide +kernel) f

theorem stops_tolower (f c : UInt8) : stops f (tolower c) = stops f c := by
  rw [Bool.eq_iff_iff]
  simp only [stops, Bool.or_eq_true, Bool.and_eq_true, beq_iff_eq]
  rw [tolower_eq_iff (by decide), tolower_eq_iff (by decide)]

theorem atStop_lower (f : UInt8) (s : Bytes) : atStop f (s.map tolower) = atStop f s := by
  cases s with
  | nil => rfl
  | cons c s => simp [atStop, stops_tolower]

/-- The loop gives one answer for all case variants of pattern and address. The induction is
on a bound of the pattern, since a turn on a wildcard takes two bytes of it. -/
theorem loop_lower (n : Nat) : ∀ {p : Bytes} (a : Bytes), p.length ≤ n →
    wildcardLoop (p.map tolower) (a.map tolower) = wildcardLoop p a := by
  induction n with
  | zero =>
    intro p a short
    obtain rfl : p = [] := by simpa using short
    simp [loop_nil]
  | succ n ih =>
    intro p a short
    cases p with
    | nil => exact ih a (Nat.zero_le n)
    | cons f p =>
    have shortRest : p.length ≤ n := by simpa using short
    cases a with
    | nil => simp [loop_stuck]
    | cons c a =>
    cases isWild : wild f with
    | false =>
      rw [Bool.eq_iff_iff, map_cons, map_cons, loop_literal (by rw [wild_tolower, isWild]),
        loop_literal isWild, tolower_tolower, tolower_tolower, ih a shortRest]
    | true =>
      obtain ⟨run, tail, text, inside, ends⟩ := exists_run f (c :: a)
      have nonempty : run ++ tail ≠ [] := by simp [← text]
      have inside' : ∀ c ∈ run.map tolower, stops f c = false := by
        intro c mem
        obtain ⟨d, memRun, rfl⟩ := mem_map.1 mem
        rw [stops_tolower]
        exact inside d memRun
      rw [text, map_cons, map_append, tolower_wild isWild,
        loop_wild isWild nonempty inside ends,
        loop_wild isWild (by simpa using nonempty) inside' (by rw [atStop_lower, ends]),
        ← map_tail, ← map_tail]
      apply ih
      exact Nat.le_trans (by simp) shortRest

theorem filterAddr_lower (p a : Bytes) :
    xapFilterAddrSubaddress (some (p.map tolower)) (a.map tolower) = xapFilterAddrSubaddress (some p) a := by
  cases p with
  | nil => rfl
  | cons f p =>
    rw [filterAddr_eq_loop (by simp), filterAddr_eq_loop (by simp)]
    exact loop_lower _ a (Nat.le_refl _)

theorem filterAddr_congr {p p' a a' : Bytes} (sameP : p'.map tolower = p.map tolower)
    (sameA : a'.map tolower = a.map tolower) :
    xapFilterAddrSubaddress (some p') a' = xapFilterAddrSubaddress (some p) a := by
  rw [← filterAddr_lower p', ← filterAddr_lower p, sameP, sameA]

/-! ## Filters -/

/-- A filter answers the same for a case variant, on each of its branches. -/
theorem CaseVariant.compareFilter {frame : XapFrame} (h : CaseVariant frame g) (f : XapFilter) :
    compareFilter g f = compareFilter frame f := by
  have same := h.getValue f.sectionName (some f.key)
  unfold Xap.compareFilter
  cases inG : xapGetValueF g f.sectionName (some f.key) with
  | none =>
    rw [inG] at same
    rw [map_eq_none_iff.1 same.symm]
  | some value =>
    rw [inG] at same
    obtain ⟨value', inFrame, sameText⟩ := map_eq_some_iff.1 same.symm
    simp only [inFrame, filterAddr_congr sameText.symm rfl, filterAddr_congr rfl sameText.symm,
      strcasecmpEq_congr sameText.symm, isNone_some, isSome_some]

theorem CaseVariant.compareFilters {frame : XapFrame} (h : CaseVariant frame g) (chain : List XapFilter) :
    xapCompareFilters g chain = xapCompareFilters frame chain := by
  rw [Bool.eq_iff_iff, compareFilters_iff, compareFilters_iff]
  simp only [h.compareFilter]

/-- A chain asks for all of its filters, in whatever order. -/
theorem compareFilters_perm (frame : XapFrame) {chain chain' : List XapFilter} (same : chain.Perm chain') :
    xapCompareFilters frame chain = xapCompareFilters frame chain' := by
  rw [Bool.eq_iff_iff, compareFilters_iff, compareFilters_iff]
  simp only [same.mem_iff]

/-! ## Dispatch -/

/-- `xAPFilterCallback`: the chain a frame has to pass and the `user_data` of the callback. -/
structure Registration (A : Type) where
  userData : A
  chain : List XapFilter
  deriving DecidableEq, Repr

section Dispatch

variable {A S : Type} (frame : S → XapFrame) (callback : A → S → Option S)

/-- `filterDispatch`: every callback whose filters all match is called, and sees the frame as the
callbacks before it left it. A callback that is undefined ends the walk. -/
def filterDispatch : List (Registration A) → S → Option S
  | [], s => some s
  | cb :: filterList, s =>
    if xapCompareFilters (frame s) cb.chain then
      (callback cb.userData s).bind (filterDispatch filterList)
    else filterDispatch filterList s

def matching (filterList : List (Registration A)) (f : XapFrame) : List A :=
  (filterList.filter fun cb => xapCompareFilters f cb.chain).map Registration.userData

theorem mem_matching {filterList : List (Registration A)} {f : XapFrame} {a : A} :
    a ∈ matching filterList f ↔ ∃ cb ∈ filterList, cb.userData = a ∧ xapCompareFilters f cb.chain = true := by
  simp only [matching, List.mem_map, mem_filter]
  constructor
  · rintro ⟨cb, ⟨mem, lets⟩, who⟩
    exact ⟨cb, mem, who, lets⟩
  · rintro ⟨cb, mem, who, lets⟩
    exact ⟨cb, ⟨mem, lets⟩, who⟩

/-- The callbacks one after the other, without a look at the filters. -/
def callAll : List A → S → Option S
  | [], s => some s
  | a :: called, s => (callback a s).bind (callAll called)

variable {frame callback}

/-- **A pass is the calls of the callbacks whose filters match the frame it started with**, with or
without an outcome, provided that callbacks only change the case of the frame. -/
theorem filterDispatch_eq_callAll {base : XapFrame} (Inv : S → Prop)
    (variant : ∀ s, Inv s → CaseVariant base (frame s)) (keeps : ∀ a s t, Inv s → callback a s = some t → Inv t)
    (filterList : List (Registration A)) {s : S} (start : Inv s) :
    filterDispatch frame callback filterList s = callAll callback (matching filterList base) s := by
  induction filterList generalizing s with
  | nil => rfl
  | cons cb filterList ih =>
    have same := (variant s start).compareFilters cb.chain
    by_cases lets : xapCompareFilters base cb.chain = true
    · have served : Xap.matching (cb :: filterList) base = cb.userData :: Xap.matching filterList base := by
        simp [Xap.matching, lets]
      rw [filterDispatch, if_pos (same.trans lets), served, callAll]
      cases calls : callback cb.userData s with
      | none => rfl
      | some t => exact ih (keeps _ _ _ start calls)
    · have served : Xap.matching (cb :: filterList) base = Xap.matching filterList base := by
        simp [Xap.matching, lets]
      rw [filterDispatch, if_neg (fun h => lets (same.symm.trans h)), served]
      exact ih start

/-- **A pass calls the callbacks whose filters match the frame it started with**, provided that
callbacks only change the case of the frame. `called` is the record of calls. -/
theorem filterDispatch_calls {base : XapFrame} {called : S → List A} {Inv : S → Prop}
    (variant : ∀ s, Inv s → CaseVariant base (frame s))
    (call : ∀ a s, Inv s → ∃ t, callback a s = some t ∧ Inv t ∧ called t = called s ++ [a])
    (filterList : List (Registration A)) {s : S} (start : Inv s) :
    ∃ t, filterDispatch frame callback filterList s = some t ∧ Inv t ∧
      called t = called s ++ matching filterList base := by
  have keeps : ∀ a s t, Inv s → callback a s = some t → Inv t := by
    intro a s t inv calls
    obtain ⟨t', calls', inv', -⟩ := call a s inv
    rwa [← Option.some.inj (calls'.symm.trans calls)]
  rw [filterDispatch_eq_callAll Inv variant keeps filterList start]
  generalize Xap.matching filterList base = served
  induction served generalizing s with
  | nil => exact ⟨s, rfl, start, (append_nil _).symm⟩
  | cons a served ih =>
    obtain ⟨t, calls, inv, record⟩ := call a s start
    obtain ⟨u, rest, invEnd, recordEnd⟩ := ih inv
    refine ⟨u, ?_, invEnd, ?_⟩
    · rw [callAll, calls]
      exact rest
    · rw [recordEnd, record, append_assoc]
      rfl

end Dispatch

end Hah.Xap
