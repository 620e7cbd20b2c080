import Mathlib.Logic.Function.Basic
import Hah.Lua.Filter
import Hah.Lua.FilterChain

/-!
# Callbacks that remove themselves: `handlePacket` and the timers of `process` in `xap/init.lua`

A packet is offered to the filters, and the timers that have expired are dispatched, with the
`foreach` of a Penlight list, which counts up to the length that the list had at its start. A
callback may destroy its own filter or delete its own timer, and with it take it out of the list
that is being walked. The filter behind it then gets no packet, and the last index finds `nil`: the
function for filters calls a method of it, which is an error, the one for timers tests it first.

The filters of a packet share its frame. A filter that matches and has no callback calls the class's
method of that name with the frame for its object, and so takes two sections out of the frame that the
filters behind it are asked about.

`callbacks_iff` says which lists are walked as they should be. The tables of filters and timers are
known by numbers; a list has each of them once, since only a constructor appends to it.
-/

namespace Hah.Lua
open C Lib.Foreach List Function

/-- What a callback does about its own filter or timer. -/
inductive Own where
  | keeps
  | removes
  deriving DecidableEq, Repr

/-! ## Filters -/

abbrev Sections := Table (Table Bytes)

/-- What the class `Frame` has under a name in lower case: a function, itself, or its name. -/
inductive ClassMember where
  | method
  | itself
  | name
  deriving DecidableEq

def classMember (name : Bytes) : Option ClassMember :=
  if name ∈ ["_init", "__tostring", "catch", "is_a", "class_of", "cast"].map ascii then some .method
  else if name ∈ ["_class", "__index"].map ascii then some .itself
  else if name = "_name" then some .name
  else none

/-- The functions for strings. -/
def stringMembers : List Bytes :=
  ["byte", "char", "dump", "find", "format", "gfind", "gmatch", "gsub", "len", "lower", "match", "rep", "reverse",
    "sub", "upper"].map ascii

/-- A value that is not `nil`: a text, or something without a method `lower`. -/
inductive Value where
  | text (t : Bytes)
  | other
  deriving DecidableEq

/-- `Frame:getValue`; `none` for an error. A name that the packet has no section for is looked up in the
class. -/
def Sections.getValue (f : Sections) (sectionName : Bytes) (key : Option Bytes) : Option (Option Value) :=
  match Table.index f (lower sectionName), classMember (lower sectionName), key with
  | none, none, _ => some none
  | _, _, none => some (some (.text "xap_filter_any"))
  | some t, _, some key => some ((Table.index t (lower key)).map .text)
  -- a field of a function
  | none, some .method, some _ => none
  | none, some .itself, some key =>
    some ((classMember (lower key)).map fun m => if m = .name then .text "Frame" else .other)
  | none, some .name, some key => some (if lower key ∈ stringMembers then some .other else none)

/-- One key of `Filter:ismatch`; `none` for an error. -/
def FilterKey.test (fk : FilterKey) (f : Sections) : Option Bool := do
  let value ← f.getValue fk.sectionName fk.key
  if fk.value = "xap_filter_absent" then return value.isNone
  else if fk.value = "xap_filter_any" then return value.isSome
  else
    match value with
    | none => return false
    | some .other => none
    | some (.text value) =>
      let value := lower value
      if fk.sectionName = "xap-header" ∧
          (fk.key = "target" ∨ fk.key = "source" ∨ fk.key = "class") then
        if fk.key = "target" then filterAddrSubaddress (some value) fk.value
        else filterAddrSubaddress (some fk.value) value
      else return value == fk.value

/-- The loop of `Filter:ismatch`, which ends at the first key that does not match. -/
def chainMatches (f : Sections) : List FilterKey → Option Bool
  | [] => some true
  | fk :: filterChain => (fk.test f).bind fun isMatch => if isMatch then chainMatches f filterChain else some false

/-- A `Filter` with its callback. Without one, `self.callback` is the method of that name, and there is no
`userdata`. -/
structure OwnFilter where
  filterChain : Option (List FilterKey)
  callback : Option Own

/-- `Filter:ismatch`; `pairs(nil)` is an error. -/
def OwnFilter.ismatch (filter : OwnFilter) (f : Sections) : Option Bool :=
  filter.filterChain.bind (chainMatches f)

/-- The filters, their list, the frame of the packet at hand, and those that it was offered to. -/
structure Filters where
  tables : Nat → OwnFilter
  filterList : List Nat
  once : filterList.Nodup
  frame : Sections
  offered : List Nat

/-- `Filter:destroy`; the length of `nil` is an error. -/
def Filters.destroy (s : Filters) (self : Nat) : Option Filters :=
  (s.tables self).filterChain.map fun _ =>
    { s with
      tables := update s.tables self ⟨none, none⟩
      filterList := s.filterList.erase self
      once := s.once.erase self }

/-- The method `Filter:callback` with the frame for `self` and `nil` for its arguments. -/
def Sections.callback (f : Sections) : Sections :=
  f.filter fun p => p.1 ≠ "callback" ∧ p.1 ≠ "userdata"

def Filters.dispatch (self : Nat) (s : Filters) : Option Filters :=
  let s := { s with offered := s.offered ++ [self] }
  ((s.tables self).ismatch s.frame).bind fun isMatch =>
    if isMatch then
      match (s.tables self).callback with
      | none => some { s with frame := s.frame.callback }
      | some .keeps => some s
      | some .removes => s.destroy self
    else some s

/-- The function that `handlePacket` gives to `foreach`. -/
def offer (_ : Nat) : Option Nat → Filters → Option Filters
  -- a method of `nil`
  | none, _ => none
  | some self, s => s.dispatch self

/-- `handlePacket` with a packet that was received; `none` for an error. -/
def handlePacket (dgram : Bytes) (s : Filters) : Option Filters :=
  let s := { s with offered := [] }
  if 0 < s.filterList.length then
    foreach Filters.filterList offer s.filterList.length 0 { s with frame := frame dgram }
  else some s

/-! ## Timers -/

structure OwnTimer where
  interval : Int
  ttl : Int
  isalive : Bool
  callback : Own

/-- The timers, their list, and those that were dispatched in the pass at hand. -/
structure Timers where
  tables : Nat → OwnTimer
  timerList : List Nat
  once : timerList.Nodup
  dispatched : List Nat

def OwnTimer.due (t : OwnTimer) (now : Int) : Bool := t.ttl ≤ now && t.isalive

def Timers.delete (s : Timers) (self : Nat) : Timers :=
  { s with timerList := s.timerList.erase self, once := s.once.erase self }

/-- `Timer:dispatch`; `clock` is `os.time()` when a timer is reset. -/
def Timers.dispatch (clock : Nat → Int) (self : Nat) (s : Timers) : Timers :=
  let t := s.tables self
  let s := { s with
    tables := update s.tables self { t with ttl := clock self + t.interval }
    dispatched := s.dispatched ++ [self] }
  if t.callback = .removes then s.delete self else s

/-- The function that `process` gives to `foreach`. -/
def expire (now : Int) (clock : Nat → Int) (_ : Nat) : Option Nat → Timers → Option Timers
  | none, s => some s
  | some self, s => if (s.tables self).due now then some (s.dispatch clock self) else some s

/-- The timeout dispatcher of `process`. -/
def timerPass (now : Int) (clock : Nat → Int) (s : Timers) : Option Timers :=
  foreach Timers.timerList (expire now clock) s.timerList.length 0 { s with dispatched := [] }

/-! ## What is wanted -/

/-- The packet raises no error and is offered once to every filter that was listed. -/
def OffersAll (dgram : Bytes) (s : Filters) : Prop :=
  ∃ s', handlePacket dgram s = some s' ∧ ∀ x ∈ s.filterList, s'.offered.count x = 1

/-- Every timer that was alive and expired is dispatched once. -/
def DispatchesAll (now : Int) (clock : Nat → Int) (s : Timers) : Prop :=
  ∃ s', timerPass now clock s = some s' ∧ ∀ x ∈ s.timerList, (s.tables x).due now = true → s'.dispatched.count x = 1

/-- A filter that destroys itself when it is asked about a frame. -/
def OwnFilter.removesItself (filter : OwnFilter) (f : Sections) : Bool :=
  filter.ismatch f == some true && filter.callback == some .removes

/-- The frame behind a filter. -/
def OwnFilter.leaves (filter : OwnFilter) (f : Sections) : Sections :=
  if filter.ismatch f = some true ∧ filter.callback = none then f.callback else f

/-- The frame that a packet's frame has become behind some filters. -/
def frameBehind (tables : Nat → OwnFilter) (f : Sections) (filters : List Nat) : Sections :=
  filters.foldl (fun f x => (tables x).leaves f) f

/-- A filter is asked about the frame that reaches it without an error, and stays if another one follows. -/
def Served (tables : Nat → OwnFilter) (f : Sections) (before : List Nat) (x : Nat) (after : List Nat) : Prop :=
  ((tables x).ismatch (frameBehind tables f before)).isSome = true ∧
    (after ≠ [] → (tables x).removesItself (frameBehind tables f before) = false)

/-- A timer that the pass makes delete itself. -/
def OwnTimer.removesItself (t : OwnTimer) (now : Int) : Bool := t.due now && t.callback == .removes

/-! ## A turn -/

variable {rest : List Nat} {x : Nat}

/-- An item of a list without repetitions is erased where it stands. -/
theorem erase_here {kept : List Nat} (once : (kept ++ x :: rest).Nodup) :
    (kept ++ x :: rest).erase x = kept ++ rest := by
  have before : x ∉ kept := fun mem => (nodup_append.1 once).2.2 x mem x mem_cons_self rfl
  rw [erase_append_right _ before, erase_cons_head]

/-- The tables of items that were not yet visited are those of the start. -/
def FreshTables {T : Type} (start : Nat → T) (rest : List Nat) (tables : Nat → T) : Prop :=
  rest.Nodup ∧ ∀ x ∈ rest, tables x = start x

theorem FreshTables.skip {T : Type} {start tables : Nat → T}
    (fresh : FreshTables start (x :: rest) tables) : FreshTables start rest tables :=
  ⟨(nodup_cons.1 fresh.1).2, fun y mem => fresh.2 y (mem_cons_of_mem x mem)⟩

theorem FreshTables.keep {T : Type} {start tables tables' : Nat → T} (fresh : FreshTables start (x :: rest) tables)
    (same : ∀ y ≠ x, tables' y = tables y) : FreshTables start rest tables' := by
  refine ⟨fresh.skip.1, fun y mem => ?_⟩
  rw [same y fun eq => (nodup_cons.1 fresh.1).1 (eq ▸ mem)]
  exact fresh.skip.2 y mem

/-- What a dispatch does about its own filter and the frame, and that it leaves the other filters alone. -/
theorem Filters.dispatch_spec {s : Filters} (fine : (s.tables x).ismatch s.frame ≠ none) :
    ∃ s', s.dispatch x = some s' ∧ s'.offered = s.offered ++ [x] ∧ s'.frame = (s.tables x).leaves s.frame ∧
      s'.filterList = (if (s.tables x).removesItself s.frame then s.filterList.erase x else s.filterList) ∧
      ∀ y ≠ x, s'.tables y = s.tables y := by
  obtain ⟨isMatch, found⟩ := Option.ne_none_iff_exists'.1 fine
  obtain ⟨chain, live, -⟩ := Option.bind_eq_some_iff.1 found
  unfold Filters.dispatch OwnFilter.removesItself OwnFilter.leaves
  dsimp only
  rw [found, Option.bind_some]
  cases isMatch with
  | false => exact ⟨_, rfl, rfl, rfl, rfl, fun _ _ => rfl⟩
  | true =>
    rw [if_pos rfl]
    rcases called : (s.tables x).callback with _ | _ | _
    · exact ⟨_, rfl, rfl, rfl, rfl, fun _ _ => rfl⟩
    · exact ⟨_, rfl, rfl, rfl, rfl, fun _ _ => rfl⟩
    · dsimp only [Filters.destroy]
      rw [live]
      exact ⟨_, rfl, rfl, rfl, rfl, fun y other => update_of_ne other _ _⟩

theorem Timers.dispatch_spec (clock : Nat → Int) (s : Timers) (x : Nat) :
    (s.dispatch clock x).dispatched = s.dispatched ++ [x] ∧
      (s.dispatch clock x).timerList = (if (s.tables x).callback = .removes then s.timerList.erase x else s.timerList) ∧
      ∀ y ≠ x, (s.dispatch clock x).tables y = s.tables y := by
  unfold Timers.dispatch
  dsimp only
  split
  · exact ⟨rfl, rfl, fun y other => update_of_ne other _ _⟩
  · exact ⟨rfl, rfl, fun y other => update_of_ne other _ _⟩

/-! ## The walks -/

theorem offer_shrinks {i : Nat} {s s' : Filters} (step : offer i (some x) s = some s') :
    s'.filterList.length ≤ s.filterList.length := by
  have fine : (s.tables x).ismatch s.frame ≠ none := by
    intro nothing
    rw [offer, Filters.dispatch, nothing] at step
    cases step
  obtain ⟨s₁, run, -, -, filterList, -⟩ := Filters.dispatch_spec fine
  obtain rfl := Option.some.inj (run.symm.trans step)
  rw [filterList]
  split
  · exact length_erase_le
  · exact Nat.le_refl _

/-- Every place of a list is its first or one of the rest. -/
theorem forall_places {P : List Nat → Nat → List Nat → Prop} :
    (∀ before y after, x :: rest = before ++ y :: after → P before y after) ↔
      P [] x rest ∧ ∀ before y after, rest = before ++ y :: after → P (x :: before) y after := by
  constructor
  · exact fun all => ⟨all [] x rest rfl, fun before y after split => all (x :: before) y after (split ▸ rfl)⟩
  · rintro ⟨first, later⟩ (_ | ⟨z, before⟩) y after split
    · cases split
      exact first
    · cases split
      exact later before y after rfl

/-- **The walk over the filters**: the frame is offered to all of them, or one is not served and the walk
fails. -/
theorem offer_walk (start : Nat → OwnFilter) (kept : List Nat) {s : Filters} (here : s.filterList = kept ++ rest)
    (fresh : FreshTables start rest s.tables) :
    ((∀ before x after, rest = before ++ x :: after → Served start s.frame before x after) →
      ∃ s', foreach Filters.filterList offer rest.length kept.length s = some s' ∧ s'.offered = s.offered ++ rest) ∧
    ((¬ ∀ before x after, rest = before ++ x :: after → Served start s.frame before x after) →
      foreach Filters.filterList offer rest.length kept.length s = none) := by
  induction rest generalizing kept s with
  | nil =>
    refine ⟨fun _ => ⟨s, rfl, (append_nil _).symm⟩, fun unserved => absurd ?_ unserved⟩
    exact fun before x after split => by cases before <;> cases split
  | cons x rest ih =>
    rw [length_cons, foreach_turn here, forall_places]
    have table := fresh.2 x mem_cons_self
    by_cases fine : (s.tables x).ismatch s.frame = none
    · have fails : offer kept.length (some x) s = none := by
        rw [offer, Filters.dispatch, fine]
        rfl
      rw [fails]
      refine ⟨fun served => absurd served.1.1 ?_, fun _ => rfl⟩
      rw [← table, show frameBehind start s.frame [] = s.frame from rfl, fine]
      decide
    obtain ⟨s₁, run, offered, frame', filterList, same⟩ := Filters.dispatch_spec fine
    rw [show offer kept.length (some x) s = some s₁ from run, Option.bind_some]
    rw [table] at filterList frame'
    by_cases goes : rest ≠ [] ∧ (start x).removesItself s.frame = true
    · -- the list is one item short from here on
      rw [if_pos goes.2, here, erase_here (here ▸ s.once)] at filterList
      refine ⟨fun served => absurd goes.2 (Bool.eq_false_iff.1 (served.1.2 goes.1)), fun _ => ?_⟩
      refine foreach_short (fun _ _ => rfl) offer_shrinks ?_ fun empty => goes.1 (length_eq_zero_iff.1 empty)
      rw [filterList, length_append]
      omega
    have first : Served start s.frame [] x rest := by
      refine ⟨Option.isSome_iff_ne_none.2 (table ▸ fine), fun more => ?_⟩
      exact Bool.eq_false_iff.2 fun removed => goes ⟨more, removed⟩
    have behind : ∀ before y after, Served start s.frame (x :: before) y after ↔ Served start s₁.frame before y after := by
      intro before y after
      rw [frame']
      rfl
    rw [and_iff_right first]
    simp only [behind]
    by_cases empty : rest = []
    · subst empty
      exact ⟨fun _ => ⟨s₁, rfl, offered⟩, fun unserved => absurd (fun before y after split => by
        cases before <;> cases split) unserved⟩
    rw [if_neg fun removed => goes ⟨empty, removed⟩, here] at filterList
    obtain ⟨through, stuck⟩ := ih (kept ++ [x]) (filterList.trans (by simp)) (fresh.keep same)
    rw [length_append, length_singleton, offered, append_assoc] at through
    rw [length_append, length_singleton] at stuck
    exact ⟨through, stuck⟩

/-- One turn of the walk over the timers. -/
theorem expire_visits (now : Int) (clock : Nat → Int) (start : Nat → OwnTimer) :
    Visits Timers.timerList (expire now clock) (fun x => (start x).removesItself now)
      Timers.dispatched (fun x => (start x).due now) (fun rest s => FreshTables start rest s.tables) where
  nil _ _ := rfl
  turn {kept rest x s} here fresh := by
    have table := fresh.2 x mem_cons_self
    have once := s.once
    obtain ⟨dispatched, timerList, same⟩ := s.dispatch_spec clock x
    unfold expire OwnTimer.removesItself
    dsimp only
    rw [table]
    cases due : (start x).due now with
    | true =>
      refine ⟨_, if_pos rfl, ?_, dispatched, fresh.keep same⟩
      rw [timerList, table, here, Bool.true_and]
      by_cases goes : (start x).callback = .removes
      · rw [if_pos goes, goes]
        exact erase_here (here ▸ once)
      · rw [if_neg goes, if_neg (by simpa using goes)]
    | false => exact ⟨s, if_neg (by decide), here, (append_nil _).symm, fresh.skip⟩
  skips fresh := fresh.skip

/-- To have each of some items once is to have them all, in a list without repetitions. -/
theorem count_once {l : List Nat} (once : l.Nodup) (x : Nat) : l.count x = 1 ↔ x ∈ l :=
  ⟨fun one => count_pos_iff.1 (by omega), fun mem => count_eq_one_of_mem once mem⟩

/-- **A packet** is offered to all filters exactly if every one is served. -/
theorem offersAll_iff (dgram : Bytes) (s : Filters) :
    OffersAll dgram s ↔ ∀ before x after, s.filterList = before ++ x :: after →
      Served s.tables (frame dgram) before x after := by
  unfold OffersAll handlePacket
  dsimp only
  by_cases empty : s.filterList = []
  · refine iff_of_true ⟨_, if_neg (by rw [empty]; decide), fun x mem => ?_⟩ fun before x after split => ?_
    · exact absurd (empty ▸ mem) not_mem_nil
    · exact absurd (empty.symm.trans split) (by simp)
  rw [if_pos (length_pos_of_ne_nil empty)]
  have walk := offer_walk s.tables [] (s := { s with frame := frame dgram, offered := [] }) rfl ⟨s.once, fun _ _ => rfl⟩
  constructor
  · rintro ⟨s', run, -⟩
    by_contra unserved
    rw [show foreach _ _ _ 0 _ = none from walk.2 unserved] at run
    cases run
  · intro served
    obtain ⟨s', run, offered⟩ := walk.1 served
    refine ⟨s', run, fun x mem => ?_⟩
    rw [offered, nil_append]
    exact (count_once s.once x).2 mem

/-- **The timers** that are due are all dispatched exactly if none of them stands right behind one
that deletes itself. -/
theorem dispatchesAll_iff (now : Int) (clock : Nat → Int) (s : Timers) :
    DispatchesAll now clock s ↔
      s.timerList.IsChain fun x y => (s.tables x).removesItself now = true → ¬ (s.tables y).due now = true := by
  obtain ⟨s', run, -, dispatched⟩ := foreach_walk (expire_visits now clock s.tables) (n := s.timerList.length) []
    (s := { s with dispatched := [] }) rfl ⟨s.once, fun _ _ => rfl⟩ (Nat.le_refl _)
  have concerns : ∀ x, (s.tables x).removesItself now = true → (s.tables x).due now = true :=
    fun x removed => (Bool.and_eq_true_iff.1 removed).1
  rw [nil_append] at dispatched
  have counted : ∀ x, (s.tables x).due now = true →
      (s'.dispatched.count x = 1 ↔ x ∈ seen (fun x => (s.tables x).removesItself now) s.timerList) := by
    intro x due
    rw [dispatched, count_once ((s.once.sublist (seen_sublist _)).filter _), mem_filter, and_iff_left due]
  rw [← mem_seen_iff s.once concerns]
  constructor
  · rintro ⟨other, same, all⟩
    obtain rfl := Option.some.inj (run.symm.trans same)
    exact fun x mem due => (counted x due).1 (all x mem due)
  · intro all
    exact ⟨s', run, fun x mem due => (counted x due).2 (all x mem due)⟩

/-- **Callbacks that remove themselves disturb those behind them.** For every list of filters and
every packet: no error is raised and the packet is offered once to every filter that was listed, if
and only if the test of no filter fails on the frame that reaches it, and no filter that matches
destroys itself, the last one excepted. For every list of timers: the timers that were alive and
expired are dispatched once each, if and only if none of them stands right behind one that deletes
itself. -/
theorem callbacks_iff (dgram : Bytes) (filters : Filters) (now : Int) (clock : Nat → Int) (timers : Timers) :
    (OffersAll dgram filters ↔ ∀ before x after, filters.filterList = before ++ x :: after →
      Served filters.tables (frame dgram) before x after) ∧
    (DispatchesAll now clock timers ↔ timers.timerList.IsChain fun x y =>
      (timers.tables x).removesItself now = true → ¬ (timers.tables y).due now = true) :=
  ⟨offersAll_iff dgram filters, dispatchesAll_iff now clock timers⟩

/-- Two filters for every packet, and two timers that have expired; the first of them removes itself. -/
theorem callback_removed_first :
    (∃ filters : Filters, filters.filterList = [0, 1] ∧ (handlePacket [] filters).isNone = true ∧
      ¬ OffersAll [] filters) ∧
    ∃ timers : Timers, timers.timerList = [0, 1] ∧ (∀ x, (timers.tables x).due 5 = true) ∧
      ((timerPass 5 (fun _ => 5) timers).map Timers.dispatched = some [0]) ∧ ¬ DispatchesAll 5 (fun _ => 5) timers := by
  constructor
  · let filters : Filters := ⟨fun x => ⟨some [], some (if x = 0 then .removes else .keeps)⟩, [0, 1], by decide, [], []⟩
    refine ⟨filters, rfl, rfl, ?_⟩
    rintro ⟨s', run, -⟩
    cases run
  · let timers : Timers := ⟨fun x => ⟨60, 0, true, if x = 0 then .removes else .keeps⟩, [0, 1], by decide, []⟩
    have pass : (timerPass 5 (fun _ => 5) timers).map Timers.dispatched = some [0] := rfl
    refine ⟨timers, rfl, fun x => rfl, pass, ?_⟩
    rintro ⟨s', run, all⟩
    rw [run] at pass
    have missed := all 1 (by decide) rfl
    rw [show s'.dispatched = [0] from Option.some.inj pass] at missed
    exact absurd missed (by decide)

end Hah.Lua
