import Hah.Lua.Command

/-!
# The life of a Lua endpoint: `Endpoint` in `xap/bsc.lua`, `Filter` and `Timer` in `xap/init.lua`

A constructor registers a filter for queries, on an output a filter for commands before it,
and a timer; the destructors it records are closures over `f` and `t`. Those are not local
to the constructor but globals of the module, so a destructor destroys whatever filter
and timer were created last, by whichever endpoint. A filter that is destroyed twice raises
an error at `#self.filterChain`, and what a failing `destroy` did before stays done.

Tables are numbered in the order of their creation. `Session` adds to the state what each
constructor registered, so that a destroy can be held against it: `destroy_clean_iff` says
exactly when it removes its own entries and nothing else.
-/

namespace Hah.Lua
open C Bsc List

/-! ## The model -/

/-- A `FilterKey`; the key may be `nil`. -/
structure FilterKey where
  sectionName : Bytes
  key : Option Bytes
  value : Bytes
  deriving DecidableEq, Repr

/-- What the filters of an endpoint call. -/
inductive Handler where
  | incomingCmd
  | sendInfo
  deriving DecidableEq, Repr

/-- A `Filter`; `none` is `nil`, and the user data is the number of an endpoint. -/
structure FilterTable where
  filterChain : Option (List FilterKey)
  callback : Option Handler
  userdata : Option Nat
  deriving DecidableEq, Repr

/-- A `Timer` that calls `sendInfo`. -/
structure TimerTable where
  interval : Nat
  isalive : Bool
  userdata : Nat
  deriving DecidableEq, Repr

/-- The closures in `_dtors`: `function() f:destroy() end` and `function() t:delete() end`. -/
inductive Dtor where
  | destroyFilter
  | deleteTimer
  deriving DecidableEq, Repr

structure EndpointTable where
  source : Bytes
  fields : LuaEndpoint
  timeout : Nat
  dtors : List Dtor
  deriving DecidableEq, Repr

/-- The tables, the lists and the module's variables. An endpoint whose fields were all removed
is `none`. -/
structure World where
  filters : List FilterTable
  timers : List TimerTable
  endpoints : List (Option EndpointTable)
  filterList : List Nat
  timerList : List Nat
  f : Option Nat
  t : Option Nat
  id : Nat
  defaultUid : Bytes
  deriving DecidableEq, Repr

/-- What a program passes to `bsc.Endpoint`, with the address already built. -/
structure EndpointArgs where
  source : Bytes
  direction : Io
  type : EndpointType
  timeout : Option Nat
  id : Option Nat
  uid : Option Bytes
  deriving DecidableEq, Repr

inductive LuaError where
  /-- `#self.filterChain` of a destroyed filter -/
  | lengthOfNil
  /-- a method of a variable that is not set -/
  | indexOfNil
  /-- `pairs(self._dtors)` of a destroyed endpoint -/
  | pairsOfNil
  deriving DecidableEq, Repr

def FilterTable.add (filter : FilterTable) (sectionName : Bytes) (key : Option Bytes) (value : Bytes) : FilterTable :=
  { filter with filterChain := filter.filterChain.map (· ++ [⟨sectionName, key, lower value⟩]) }

/-- The filter of an endpoint for a class of messages. -/
def endpointFilter (clazz source : Bytes) (callback : Handler) (userdata : Nat) : FilterTable :=
  { ((FilterTable.mk (some []) none none).add "xap-header" "class" clazz).add "xap-header"
      "target" source with
    callback := some callback
    userdata := some userdata }

/-- `f = xap.Filter()` and what the constructor sets in it. -/
def World.newFilter (w : World) (filter : FilterTable) : World :=
  { w with
    filters := w.filters ++ [filter]
    filterList := w.filterList ++ [w.filters.length]
    f := some w.filters.length }

/-- `t = xap.Timer(..)` and `t:start()`. -/
def World.newTimer (w : World) (interval userdata : Nat) : World :=
  { w with
    timers := w.timers ++ [⟨interval, true, userdata⟩]
    timerList := w.timerList ++ [w.timers.length]
    t := some w.timers.length }

def rjust (s : Bytes) (width : Nat) (ch : UInt8) : Bytes := List.replicate (width - s.length) ch ++ s

/-- The counter `id` and the endpoint's `uid`. -/
def World.newUid (w : World) (args : EndpointArgs) : Nat × Bytes :=
  match args.uid with
  | some uid => (w.id, uid)
  | none =>
    let id := args.id.getD (w.id + 1)
    (id, w.defaultUid.take (w.defaultUid.length - 2) ++ rjust (decimal id) 2 48)

def initialState (direction : Io) (type : EndpointType) : BscState :=
  match direction with
  | .input => .unknown
  | .output => if type = .binary then .off else .on

def dtorsOf (direction : Io) : List Dtor :=
  (if direction = .output then [.destroyFilter] else []) ++ [.destroyFilter, .deleteTimer]

def World.newFilters (w : World) (args : EndpointArgs) : World :=
  let commands :=
    if args.direction = .output then
      w.newFilter (endpointFilter "xAPBSC.cmd" args.source .incomingCmd w.endpoints.length)
    else w
  commands.newFilter (endpointFilter "xAPBSC.query" args.source .sendInfo w.endpoints.length)

/-- `Endpoint:_init`. -/
def World.create (w : World) (args : EndpointArgs) : World :=
  let timeout := args.timeout.getD 120
  let registered := (w.newFilters args).newTimer timeout w.endpoints.length
  let (id, uid) := w.newUid args
  { registered with
    id := id
    endpoints := w.endpoints ++ [some
      { source := args.source
        fields :=
          { uid := uid
            direction := args.direction
            type := args.type
            state := initialState args.direction args.type
            text := if args.type = .binary then none else some "?" }
        timeout := timeout
        dtors := dtorsOf args.direction }] }

def World.filterDestroy (w : World) (filter : Nat) : World × Option LuaError :=
  if (w.filters[filter]?.bind FilterTable.filterChain).isSome then
    ({ w with
      filters := w.filters.set filter ⟨none, none, none⟩
      filterList := w.filterList.erase filter }, none)
  else (w, some .lengthOfNil)

def World.timerDelete (w : World) (timer : Nat) : World × Option LuaError :=
  ({ w with timerList := w.timerList.erase timer }, none)

/-- A destructor, with the values that the variables have when it is called. -/
def World.call (w : World) : Dtor → World × Option LuaError
  | .destroyFilter =>
    match w.f with
    | some f => w.filterDestroy f
    | none => (w, some .indexOfNil)
  | .deleteTimer =>
    match w.t with
    | some t => w.timerDelete t
    | none => (w, some .indexOfNil)

/-- The loop over `_dtors`. -/
def World.callAll : World → List Dtor → World × Option LuaError
  | w, [] => (w, none)
  | w, dtor :: dtors =>
    match w.call dtor with
    | (w', none) => w'.callAll dtors
    | (w', some error) => (w', some error)

/-- `Endpoint:destroy`, with the error that it raises. -/
def World.destroy (w : World) (k : Nat) : World × Option LuaError :=
  match w.endpoints[k]? with
  | some (some e) =>
    match w.callAll e.dtors with
    | (w', none) => ({ w' with endpoints := w'.endpoints.set k none }, none)
    | (w', some error) => (w', some error)
  | _ => (w, some .pairsOfNil)

/-! ## Sessions -/

inductive Event where
  | create (args : EndpointArgs)
  | destroy (k : Nat)
  deriving DecidableEq, Repr

structure Registered where
  filters : List Nat
  timers : List Nat
  deriving DecidableEq, Repr

/-- A state, and what each constructor registered. -/
structure Session where
  world : World
  made : List Registered
  deriving DecidableEq, Repr

def Session.step (s : Session) : Event → Session
  | .create args =>
    { world := s.world.create args
      made := s.made ++ [⟨(s.world.create args).filterList.drop s.world.filterList.length,
        (s.world.create args).timerList.drop s.world.timerList.length⟩] }
  | .destroy k => { s with world := (s.world.destroy k).1 }

def Session.run (s : Session) (events : List Event) : Session := events.foldl Session.step s

def creations (events : List Event) : Nat :=
  events.countP fun
    | .create _ => true
    | .destroy _ => false

/-- Only endpoints that exist are destroyed, and each at most once. -/
def OnceEach (events : List Event) : Prop :=
  ∀ before k after, events = before ++ .destroy k :: after → k < creations before ∧ .destroy k ∉ before

/-- **A clean destroy** raises no error and removes from the lists what the constructor of the
endpoint put there, nothing else. -/
structure CleanDestroy (s : Session) (k : Nat) (own : Registered) : Prop where
  made : s.made[k]? = some own
  listed : (∀ x ∈ own.filters, x ∈ s.world.filterList) ∧ ∀ x ∈ own.timers, x ∈ s.world.timerList
  silent : (s.world.destroy k).2 = none
  filters : (s.world.destroy k).1.filterList = s.world.filterList.filter (· ∉ own.filters)
  timers : (s.world.destroy k).1.timerList = s.world.timerList.filter (· ∉ own.timers)

/-- A library that has no endpoints yet; the program may have registered filters and timers. -/
structure World.Unused (w : World) : Prop where
  endpoints : w.endpoints = []
  filters : ∀ x ∈ w.filterList, x < w.filters.length
  timers : ∀ x ∈ w.timerList, x < w.timers.length

def World.start (w : World) : Session := ⟨w, []⟩

/-! ## What a destructor leaves alone -/

/-- The chain of a filter; `none` when it is destroyed. -/
def World.chain (w : World) (x : Nat) : Option (List FilterKey) := w.filters[x]?.bind FilterTable.filterChain

structure Kept (w w' : World) : Prop where
  f : w'.f = w.f
  t : w'.t = w.t
  endpoints : w'.endpoints = w.endpoints
  length : w'.filters.length = w.filters.length
  timers : w'.timers = w.timers
  filterList : w'.filterList ⊆ w.filterList
  timerList : w'.timerList ⊆ w.timerList
  destroyed : ∀ x, w.chain x = none → w'.chain x = none

variable {q k : Nat} {s : Session} {events : List Event}

theorem Kept.refl (w : World) : Kept w w := ⟨rfl, rfl, rfl, rfl, rfl, fun _ => id, fun _ => id, fun _ => id⟩

theorem Kept.trans {w w' w'' : World} (h : Kept w w') (h' : Kept w' w'') : Kept w w'' where
  f := h'.f.trans h.f
  t := h'.t.trans h.t
  endpoints := h'.endpoints.trans h.endpoints
  length := h'.length.trans h.length
  timers := h'.timers.trans h.timers
  filterList := fun _ mem => h.filterList (h'.filterList mem)
  timerList := fun _ mem => h.timerList (h'.timerList mem)
  destroyed := fun x gone => h'.destroyed x (h.destroyed x gone)

theorem filterDestroy_kept (w : World) (filter : Nat) :
    Kept w (w.filterDestroy filter).1 ∧ (w.filterDestroy filter).1.chain filter = none := by
  unfold World.filterDestroy
  split_ifs with present
  · have gone : ∀ x, w.chain x = none ∨ x = filter → (w.filters.set filter ⟨none, none, none⟩)[x]?.bind
        FilterTable.filterChain = none := by
      intro x cases
      rw [getElem?_set]
      split_ifs with same
      · rfl
      · rfl
      · exact cases.resolve_right fun h => same h.symm
    refine ⟨⟨rfl, rfl, rfl, length_set, rfl, erase_subset, fun _ => id, ?_⟩, ?_⟩
    · exact fun x absent => gone x (.inl absent)
    · exact gone filter (.inr rfl)
  · exact ⟨.refl w, Option.not_isSome_iff_eq_none.1 present⟩

theorem call_kept (w : World) (dtor : Dtor) : Kept w (w.call dtor).1 := by
  unfold World.call
  cases dtor with
  | destroyFilter =>
    cases w.f with
    | none => exact .refl w
    | some f => exact (filterDestroy_kept w f).1
  | deleteTimer =>
    cases w.t with
    | none => exact .refl w
    | some t => exact ⟨rfl, rfl, rfl, rfl, rfl, fun _ => id, erase_subset, fun _ => id⟩

theorem callAll_kept (w : World) (dtors : List Dtor) : Kept w (w.callAll dtors).1 := by
  induction dtors generalizing w with
  | nil => exact .refl w
  | cons dtor dtors ih =>
    have first := call_kept w dtor
    unfold World.callAll
    split
    next w' called =>
      rw [called] at first
      exact first.trans (ih w')
    next w' error called =>
      rw [called] at first
      exact first

/-- Destructors of an endpoint begin with a filter's, so the filter in `f` is gone afterwards. -/
theorem callAll_gone {w : World} (set : w.f = some q) (direction : Io) :
    (w.callAll (dtorsOf direction)).1.chain q = none := by
  have head : ∃ rest, dtorsOf direction = .destroyFilter :: rest := by
    cases direction <;> exact ⟨_, rfl⟩
  obtain ⟨rest, shape⟩ := head
  have first : (w.call .destroyFilter).1.chain q = none := by
    unfold World.call
    rw [set]
    exact (filterDestroy_kept w q).2
  rw [shape, World.callAll]
  split
  next w' called =>
    rw [called] at first
    exact (callAll_kept w' rest).destroyed q first
  next w' error called =>
    rw [called] at first
    exact first

/-- A destroyed filter in `f` fails every destroy. -/
theorem callAll_fails {w : World} (set : w.f = some q) (gone : w.chain q = none) (direction : Io) :
    (w.callAll (dtorsOf direction)).2 = some .lengthOfNil := by
  have first : w.call .destroyFilter = (w, some .lengthOfNil) := by
    unfold World.call World.filterDestroy
    rw [set]
    dsimp only
    rw [if_neg]
    rw [show w.filters[q]?.bind FilterTable.filterChain = none from gone]
    decide
  cases direction <;> (unfold dtorsOf; simp [World.callAll, first])

/-- The destructors of an output destroy one filter twice. -/
theorem callAll_output (w : World) : (w.callAll (dtorsOf .output)).2 ≠ none := by
  change (w.callAll (.destroyFilter :: dtorsOf .input)).2 ≠ none
  rw [World.callAll]
  split
  next w' called =>
    cases set : w.f with
    | none =>
      rw [World.call, set] at called
      cases called
    | some q =>
      rw [World.call, set] at called
      have kept := filterDestroy_kept w q
      rw [show w.filterDestroy q = (w', none) from called] at kept
      rw [callAll_fails (kept.1.f.trans set) kept.2]
      exact Option.some_ne_none _
  next w' error called => exact Option.some_ne_none _

/-- The destructors of an input take the filter in `f` and the timer in `t` off the lists. -/
theorem callAll_input {w : World} {tm : Nat} (set : w.f = some q) (setT : w.t = some tm)
    (present : (w.chain q).isSome = true) :
    w.callAll (dtorsOf .input) =
      ({ w with
        filters := w.filters.set q ⟨none, none, none⟩
        filterList := w.filterList.erase q
        timerList := w.timerList.erase tm }, none) := by
  have first : w.call .destroyFilter =
      ({ w with
        filters := w.filters.set q ⟨none, none, none⟩
        filterList := w.filterList.erase q }, none) := by
    unfold World.call World.filterDestroy
    rw [set]
    exact if_pos present
  change w.callAll [.destroyFilter, .deleteTimer] = _
  rw [World.callAll, first]
  dsimp only
  rw [World.callAll, World.call]
  dsimp only
  rw [setT]
  rfl

/-- What a destroy changes: at most the endpoint itself is emptied besides what its destructors do. -/
theorem destroy_live {w : World} {e : EndpointTable} (live : w.endpoints[k]? = some (some e)) :
    (w.destroy k).2 = (w.callAll e.dtors).2 ∧
      ∃ endpoints, (w.destroy k).1 = { (w.callAll e.dtors).1 with endpoints := endpoints } ∧
        (endpoints = w.endpoints ∨ endpoints = w.endpoints.set k none) := by
  have kept := callAll_kept w e.dtors
  unfold World.destroy
  rw [live]
  dsimp only
  split
  next w' called =>
    rw [called] at kept ⊢
    exact ⟨rfl, _, rfl, .inr (by rw [kept.endpoints])⟩
  next w' error called =>
    rw [called] at kept ⊢
    exact ⟨rfl, _, rfl, .inl kept.endpoints⟩

theorem destroy_dead {w : World} (dead : ∀ e, w.endpoints[k]? ≠ some (some e)) :
    w.destroy k = (w, some .pairsOfNil) := by
  unfold World.destroy
  split
  next e live => exact absurd live (dead e)
  next => rfl

/-- A destroy keeps what destructors keep, and empties no other endpoint. -/
theorem destroy_kept (w : World) (k : Nat) :
    ∃ w' endpoints, Kept w w' ∧ (w.destroy k).1 = { w' with endpoints := endpoints } ∧
      (endpoints = w.endpoints ∨ endpoints = w.endpoints.set k none) := by
  by_cases live : ∃ e, w.endpoints[k]? = some (some e)
  · obtain ⟨e, live⟩ := live
    obtain ⟨-, endpoints, result, which⟩ := destroy_live live
    exact ⟨_, endpoints, callAll_kept w e.dtors, result, which⟩
  · exact ⟨w, w.endpoints, .refl w, congrArg Prod.fst (destroy_dead fun e there => live ⟨e, there⟩), .inl rfl⟩

/-! ## What a constructor registers -/

def World.commandFilters (w : World) (args : EndpointArgs) : List Nat :=
  if args.direction = .output then [w.filters.length] else []

def World.queryFilter (w : World) (args : EndpointArgs) : Nat := w.filters.length + (w.commandFilters args).length

section Create

variable (w : World) (args : EndpointArgs)

theorem create_filterList :
    (w.create args).filterList = w.filterList ++ w.commandFilters args ++ [w.queryFilter args] := by
  unfold World.create World.newFilters World.queryFilter World.commandFilters
  by_cases output : args.direction = .output
  · simp [output, World.newFilter, World.newTimer]
  · simp [output, World.newFilter, World.newTimer]

theorem create_filters :
    (w.create args).f = some (w.queryFilter args) ∧ ((w.create args).chain (w.queryFilter args)).isSome = true ∧
      (w.create args).filters.length = w.queryFilter args + 1 := by
  unfold World.create World.newFilters World.queryFilter World.commandFilters
  by_cases output : args.direction = .output
  · simp [output, World.newFilter, World.newTimer, World.chain, endpointFilter, FilterTable.add]
  · simp [output, World.newFilter, World.newTimer, World.chain, endpointFilter, FilterTable.add]

theorem create_timers :
    (w.create args).timerList = w.timerList ++ [w.timers.length] ∧ (w.create args).t = some w.timers.length ∧
      (w.create args).timers.length = w.timers.length + 1 := by
  unfold World.create World.newFilters
  by_cases output : args.direction = .output
  · simp [output, World.newFilter, World.newTimer]
  · simp [output, World.newFilter, World.newTimer]

theorem create_endpoints :
    ∃ e : EndpointTable, (w.create args).endpoints = w.endpoints ++ [some e] ∧ e.fields.direction = args.direction ∧
      e.dtors = dtorsOf args.direction :=
  ⟨_, rfl, rfl, rfl⟩

variable {w}

/-- An endpoint behind a creation is an old one or the one created. -/
theorem create_endpoint_cases {k : Nat} {e : EndpointTable} (there : (w.create args).endpoints[k]? = some (some e)) :
    w.endpoints[k]? = some (some e) ∨
      k = w.endpoints.length ∧ e.fields.direction = args.direction ∧ e.dtors = dtorsOf args.direction := by
  obtain ⟨created, endpoints, fields⟩ := create_endpoints w args
  rw [endpoints] at there
  rcases Nat.lt_or_ge k w.endpoints.length with old | new
  · rw [getElem?_append_left old] at there
    exact .inl there
  · have bound := (List.getElem?_eq_some_iff.1 there).1
    rw [length_append, length_singleton] at bound
    obtain rfl : k = w.endpoints.length := by omega
    rw [getElem?_concat_length] at there
    cases there
    exact .inr ⟨rfl, fields⟩

/-- The numbers of the new filters. -/
theorem created_lt {x : Nat} (mem : x ∈ w.commandFilters args ++ [w.queryFilter args]) :
    x < w.queryFilter args + 1 := by
  unfold World.queryFilter World.commandFilters at *
  split_ifs at mem ⊢
  · simp only [mem_append, mem_singleton, length_singleton] at mem ⊢
    omega
  · simp only [nil_append, mem_singleton] at mem
    omega

theorem queryFilter_fresh (bound : ∀ x ∈ w.filterList, x < w.filters.length) :
    w.queryFilter args ∉ w.filterList ++ w.commandFilters args := by
  have commands : w.queryFilter args ∉ w.commandFilters args := by
    unfold World.queryFilter World.commandFilters
    split_ifs
    · simp
    · exact not_mem_nil
  intro mem
  rcases mem_append.1 mem with old | command
  · have below := bound _ old
    unfold World.queryFilter at below
    omega
  · exact commands command

/-- The lists without the last filter and the last timer. -/
theorem create_erase (bound : ∀ x ∈ w.filterList, x < w.filters.length)
    (timers : ∀ x ∈ w.timerList, x < w.timers.length) :
    (w.create args).filterList.erase (w.queryFilter args) = w.filterList ++ w.commandFilters args ∧
      (w.create args).timerList.erase w.timers.length = w.timerList := by
  have fresh : w.timers.length ∉ w.timerList := fun mem => Nat.lt_irrefl _ (timers _ mem)
  rw [create_filterList, (create_timers w args).1, erase_append_right _ (queryFilter_fresh args bound),
    erase_append_right _ fresh, erase_cons_head, erase_cons_head, append_nil, append_nil]
  exact ⟨rfl, rfl⟩

end Create

/-! ## Runs -/

theorem run_concat (s : Session) (events : List Event) (event : Event) :
    s.run (events ++ [event]) = (s.run events).step event := by
  unfold Session.run
  rw [foldl_append]
  rfl

theorem creations_create (events : List Event) (args : EndpointArgs) :
    creations (events ++ [.create args]) = creations events + 1 := by
  unfold creations
  rw [countP_append]
  rfl

theorem creations_destroy (events : List Event) (k : Nat) : creations (events ++ [.destroy k]) = creations events := by
  unfold creations
  rw [countP_append]
  rfl

structure Sound (s : Session) (events : List Event) : Prop where
  filters : ∀ x ∈ s.world.filterList, x < s.world.filters.length
  timers : ∀ x ∈ s.world.timerList, x < s.world.timers.length
  made : ∀ own ∈ s.made, ∀ x ∈ own.filters, x < s.world.filters.length
  counts : s.made.length = creations events ∧ s.world.endpoints.length = creations events
  dtors : ∀ (k : Nat) (e : EndpointTable), s.world.endpoints[k]? = some (some e) →
    e.dtors = dtorsOf e.fields.direction
  live : ∀ k, k < creations events → .destroy k ∉ events → ∃ e, s.world.endpoints[k]? = some (some e)
  created : 0 < creations events → ∃ q, s.world.f = some q

theorem step_create (s : Session) (args : EndpointArgs) :
    s.step (.create args) = ⟨s.world.create args, s.made ++
      [⟨s.world.commandFilters args ++ [s.world.queryFilter args], [s.world.timers.length]⟩]⟩ := by
  rw [Session.step, create_filterList, (create_timers s.world args).1, append_assoc, drop_left,
    drop_left]

theorem Sound.create (h : Sound s events) (args : EndpointArgs) :
    Sound (s.step (.create args)) (events ++ [.create args]) := by
  obtain ⟨setF, -, length⟩ := create_filters s.world args
  obtain ⟨timerList, -, timersLength⟩ := create_timers s.world args
  obtain ⟨e, endpoints, -⟩ := create_endpoints s.world args
  have grows : s.world.filters.length ≤ s.world.queryFilter args := Nat.le_add_right _ _
  rw [step_create]
  constructor
  · intro x mem
    rw [create_filterList, append_assoc] at mem
    rw [length]
    rcases mem_append.1 mem with old | new
    · exact Nat.lt_succ_of_lt (Nat.lt_of_lt_of_le (h.filters x old) grows)
    · exact created_lt args new
  · intro x mem
    rw [timerList] at mem
    rw [timersLength]
    rcases mem_append.1 mem with old | new
    · exact Nat.lt_succ_of_lt (h.timers x old)
    · exact Nat.lt_succ_of_le (Nat.le_of_eq (mem_singleton.1 new))
  · intro own mem x inside
    rw [length]
    rcases mem_append.1 mem with old | new
    · exact Nat.lt_succ_of_lt (Nat.lt_of_lt_of_le (h.made own old x inside) grows)
    · obtain rfl := mem_singleton.1 new
      exact created_lt args inside
  · rw [creations_create]
    rw [endpoints, length_append, length_append, h.counts.1, h.counts.2]
    exact ⟨rfl, rfl⟩
  · intro k e' there
    rcases create_endpoint_cases args there with old | ⟨-, direction, dtors⟩
    · exact h.dtors k e' old
    · rw [dtors, direction]
  · intro k below absent
    rw [endpoints]
    rw [creations_create] at below
    rcases Nat.lt_or_ge k (creations events) with old | new
    · obtain ⟨e', there⟩ := h.live k old fun mem => absent (mem_append_left _ mem)
      exact ⟨e', by rw [getElem?_append_left (by rw [h.counts.2]; exact old), there]⟩
    · obtain rfl : k = s.world.endpoints.length := by rw [h.counts.2]; omega
      exact ⟨e, getElem?_concat_length⟩
  · exact fun _ => ⟨_, setF⟩

theorem Sound.destroy (h : Sound s events) (k : Nat) : Sound (s.step (.destroy k)) (events ++ [.destroy k]) := by
  obtain ⟨w', endpoints, kept, result, which⟩ := destroy_kept s.world k
  have world : (s.step (.destroy k)).world = { w' with endpoints := endpoints } := result
  have others : ∀ j, j ≠ k → endpoints[j]? = s.world.endpoints[j]? := by
    rcases which with rfl | rfl
    · exact fun _ _ => rfl
    · exact fun j other => getElem?_set_ne other.symm
  constructor
  · rw [world]
    exact fun x mem => kept.length ▸ h.filters x (kept.filterList mem)
  · rw [world]
    exact fun x mem => kept.timers ▸ h.timers x (kept.timerList mem)
  · rw [world]
    exact fun own mem x inside => kept.length ▸ h.made own mem x inside
  · rw [world, creations_destroy]
    refine ⟨h.counts.1, ?_⟩
    rcases which with rfl | rfl
    · exact h.counts.2
    · exact length_set.trans h.counts.2
  · rw [world]
    intro j e there
    rcases which with rfl | rfl
    · exact h.dtors j e there
    · have there : (s.world.endpoints.set k none)[j]? = some (some e) := there
      rw [getElem?_set] at there
      split_ifs at there
      · cases there
      · exact h.dtors j e there
  · rw [world, creations_destroy]
    intro j below absent
    have other : j ≠ k := fun same => absent (mem_append_right _ (by rw [same]; exact mem_singleton_self _))
    obtain ⟨e, there⟩ := h.live j below fun mem => absent (mem_append_left _ mem)
    exact ⟨e, (others j other).trans there⟩
  · rw [world, creations_destroy]
    intro some
    obtain ⟨q, set⟩ := h.created some
    exact ⟨q, kept.f.trans set⟩

theorem run_sound {w : World} (unused : w.Unused) (events : List Event) : Sound (w.start.run events) events := by
  induction events using List.reverseRecOn with
  | nil =>
    refine ⟨unused.filters, unused.timers, ?_, ⟨rfl, ?_⟩, ?_, ?_, ?_⟩
    · exact fun own mem => absurd mem not_mem_nil
    · exact congrArg List.length unused.endpoints
    · intro k e there
      change w.endpoints[k]? = _ at there
      rw [unused.endpoints] at there
      cases there
    · exact fun k below => absurd below (Nat.not_lt_zero k)
    · exact fun below => absurd below (Nat.not_lt_zero 0)
  | append_singleton events event ih =>
    rw [run_concat]
    cases event with
    | create args => exact ih.create args
    | destroy k => exact ih.destroy k

/-- Behind the destroy of an endpoint that is alive, the filter in `f` is gone. -/
theorem destroy_spends (h : Sound s events) (below : k < creations events)
    (absent : .destroy k ∉ events) : ∃ q, (s.step (.destroy k)).world.f = some q ∧
      (s.step (.destroy k)).world.chain q = none := by
  obtain ⟨q, set⟩ := h.created (Nat.zero_lt_of_lt below)
  obtain ⟨e, live⟩ := h.live k below absent
  obtain ⟨-, endpoints, result, -⟩ := destroy_live live
  have world : (s.step (.destroy k)).world = { (s.world.callAll e.dtors).1 with endpoints := endpoints } := result
  rw [world]
  refine ⟨q, (callAll_kept s.world e.dtors).f.trans set, ?_⟩
  rw [h.dtors k e live]
  exact callAll_gone set e.fields.direction

theorem destroy_spent (h : Sound s events) (set : s.world.f = some q)
    (gone : s.world.chain q = none) (k : Nat) : (s.world.destroy k).2 ≠ none := by
  by_cases live : ∃ e, s.world.endpoints[k]? = some (some e)
  · obtain ⟨e, live⟩ := live
    rw [(destroy_live live).1, h.dtors k e live, callAll_fails set gone]
    exact Option.some_ne_none _
  · rw [destroy_dead fun e there => live ⟨e, there⟩]
    exact Option.some_ne_none _

/-- A destroy that raises no error is the destroy of an input, and it takes the filter in `f`
and the timer in `t` off the lists. -/
theorem destroy_silent (h : Sound s events) {tm : Nat} (set : s.world.f = some q) (setT : s.world.t = some tm)
    (present : (s.world.chain q).isSome = true) (silent : (s.world.destroy k).2 = none) :
    ∃ e, s.world.endpoints[k]? = some (some e) ∧ e.fields.direction = .input ∧
      (s.world.destroy k).1.filterList = s.world.filterList.erase q := by
  by_cases live : ∃ e, s.world.endpoints[k]? = some (some e)
  · obtain ⟨e, live⟩ := live
    obtain ⟨outcome, endpoints, result, -⟩ := destroy_live live
    rw [h.dtors k e live] at outcome result
    cases direction : e.fields.direction with
    | input =>
      rw [direction, callAll_input set setT present] at result
      exact ⟨e, live, direction, by rw [result]⟩
    | output =>
      rw [silent, direction] at outcome
      exact absurd outcome.symm (callAll_output s.world)
  · rw [destroy_dead fun e there => live ⟨e, there⟩] at silent
    exact absurd silent (Option.some_ne_none _)

/-- A clean destroy behind a creation is that of the endpoint just created. -/
theorem clean_behind_create (h : Sound s events) {args : EndpointArgs} {own : Registered}
    (clean : CleanDestroy (s.step (.create args)) k own) : args.direction = .input ∧ k = creations events := by
  obtain ⟨set, present, -⟩ := create_filters s.world args
  obtain ⟨e, live, input, filterList⟩ :=
    destroy_silent (h.create args) set (create_timers s.world args).2.1 present clean.silent
  have erased := filterList.trans (create_erase args h.filters h.timers).1
  -- The filter taken off the list is that of the last constructor, so it is one of the endpoint's own.
  have owned : s.world.queryFilter args ∈ own.filters := by
    by_contra foreign
    have stays : s.world.queryFilter args ∈ (s.step (.create args)).world.filterList.filter (· ∉ own.filters) := by
      refine mem_filter.2 ⟨?_, decide_eq_true foreign⟩
      change _ ∈ (s.world.create args).filterList
      rw [create_filterList]
      exact mem_append_right _ (mem_singleton_self _)
    rw [← clean.filters, erased] at stays
    exact queryFilter_fresh args h.filters stays
  have young : ¬ k < s.made.length := by
    intro old
    have made := clean.made
    rw [step_create, getElem?_append_left old] at made
    have below := h.made own (mem_of_getElem? made) _ owned
    exact absurd below (Nat.not_lt.2 (Nat.le_add_right _ _))
  rcases create_endpoint_cases args live with old | ⟨last, direction, -⟩
  · have bound := (List.getElem?_eq_some_iff.1 old).1
    rw [h.counts.2, ← h.counts.1] at bound
    exact absurd bound young
  · exact ⟨direction.symm.trans input, last.trans h.counts.2⟩

theorem filter_own {l : List Nat} {x : Nat} (fresh : x ∉ l) : (l ++ [x]).filter (· ∉ [x]) = l := by
  have others : l.filter (· ∉ [x]) = l := by
    refine filter_eq_self.2 fun y mem => decide_eq_true fun same => ?_
    rw [mem_singleton.1 same] at mem
    exact fresh mem
  rw [filter_append, others]
  simp

/-- The destroy of an input that was just created is clean. -/
theorem create_destroy_clean (h : Sound s events) {args : EndpointArgs} (input : args.direction = .input) :
    ∃ own, CleanDestroy (s.step (.create args)) (creations events) own := by
  obtain ⟨set, present, -⟩ := create_filters s.world args
  obtain ⟨timerList, setT, -⟩ := create_timers s.world args
  obtain ⟨created, endpoints, direction, dtors⟩ := create_endpoints s.world args
  obtain ⟨filtersErased, timersErased⟩ := create_erase args h.filters h.timers
  have noCommands : s.world.commandFilters args = [] := if_neg (by rw [input]; decide)
  have filterList := create_filterList s.world args
  rw [noCommands, append_nil] at filterList filtersErased
  have fresh := queryFilter_fresh args h.filters
  rw [noCommands, append_nil] at fresh
  have live : (s.world.create args).endpoints[creations events]? = some (some created) := by
    rw [endpoints, ← h.counts.2, getElem?_concat_length]
  obtain ⟨outcome, rest, result, -⟩ := destroy_live live
  rw [dtors, input, callAll_input set setT present] at outcome result
  refine ⟨⟨[s.world.queryFilter args], [s.world.timers.length]⟩, ?_, ?_, outcome, ?_, ?_⟩
  · rw [step_create, noCommands, nil_append, ← h.counts.1]
    exact getElem?_concat_length
  · rw [step_create]
    rw [filterList, timerList]
    exact ⟨fun x mem => mem_append_right _ mem, fun x mem => mem_append_right _ mem⟩
  · change ((s.world.create args).destroy (creations events)).1.filterList = (s.world.create args).filterList.filter _
    rw [result]
    refine filtersErased.trans ?_
    rw [filterList, filter_own fresh]
  · change ((s.world.create args).destroy (creations events)).1.timerList = (s.world.create args).timerList.filter _
    rw [result]
    refine timersErased.trans ?_
    rw [timerList, filter_own fun mem => Nat.lt_irrefl _ (h.timers _ mem)]

/-- **A destroy is clean** exactly when it is the destroy of an input and comes directly behind the
creation of that input. -/
theorem destroy_clean_iff {w : World} (unused : w.Unused) {events after : List Event} {k : Nat}
    (once : OnceEach (events ++ .destroy k :: after)) :
    (∃ own, CleanDestroy (w.start.run events) k own) ↔
      ∃ before args, events = before ++ [.create args] ∧ args.direction = .input ∧ k = creations before := by
  constructor
  · rintro ⟨own, clean⟩
    rcases eq_nil_or_concat' events with rfl | ⟨before, last, rfl⟩
    · exact absurd clean.made (by simp [World.start, Session.run])
    · have sound := run_sound unused before
      have soundNow := run_sound unused (before ++ [last])
      cases last with
      | create args =>
        rw [run_concat] at clean
        exact ⟨before, args, rfl, clean_behind_create sound clean⟩
      | destroy j =>
        obtain ⟨below, absent⟩ := once before j (.destroy k :: after) (by rw [append_assoc]; rfl)
        obtain ⟨q, set, gone⟩ := destroy_spends sound below absent
        rw [← run_concat] at set gone
        exact absurd clean.silent (destroy_spent soundNow set gone k)
  · rintro ⟨before, args, rfl, input, rfl⟩
    rw [run_concat]
    exact create_destroy_clean (run_sound unused before) input

/-! ## Three sessions -/

theorem onceEach_nil : OnceEach [] := by
  intro before k after equal
  cases before <;> cases equal

theorem OnceEach.concat (h : OnceEach events) {event : Event}
    (fine : ∀ k, event = .destroy k → k < creations events ∧ .destroy k ∉ events) : OnceEach (events ++ [event]) := by
  intro before k after equal
  rcases eq_nil_or_concat' after with rfl | ⟨middle, last, rfl⟩
  · obtain ⟨rfl, same⟩ := append_inj' equal rfl
    exact fine k (singleton_inj.1 same)
  · rw [← cons_append, ← append_assoc] at equal
    obtain ⟨rfl, -⟩ := append_inj' equal rfl
    exact h before k middle rfl

/-- The library after `xap.init`: the timer of the heartbeat is registered. -/
def initialised : World := ⟨[], [⟨60, true, 0⟩], [], [], [0], none, none, 0, "FF00DC00"⟩

theorem initialised_unused : initialised.Unused := ⟨rfl, by decide, by decide⟩

def sampleArgs (direction : Io) : EndpointArgs := ⟨"dbzoo.livebox.test:e", direction, .binary, none, none, none⟩

def twoEndpoints (first second : Io) : List Event := [.create (sampleArgs first), .create (sampleArgs second)]

theorem onceEach_two (first second : Io) (below : k < 2) : OnceEach (twoEndpoints first second ++ [.destroy k]) := by
  refine OnceEach.concat (OnceEach.concat (OnceEach.concat onceEach_nil ?_) ?_) ?_
  · exact fun _ isDestroy => nomatch isDestroy
  · exact fun _ isDestroy => nomatch isDestroy
  · intro j same
    cases same
    exact ⟨below, by simp⟩

theorem destroy_clean_last : ∃ own, CleanDestroy (initialised.start.run (twoEndpoints .output .input)) 1 own :=
  (destroy_clean_iff initialised_unused (onceEach_two .output .input (by decide))).2
    ⟨[.create (sampleArgs .output)], sampleArgs .input, rfl, rfl, rfl⟩

/-- The error of a destroy behind two creations, and the lists it leaves. -/
def destroyOutcome (first second : Io) (k : Nat) : Option LuaError × List Nat × List Nat :=
  let r := (initialised.start.run (twoEndpoints first second)).world.destroy k
  (r.2, r.1.filterList, r.1.timerList)

/-- The first of two inputs destroys the filter and the timer of the second; an output that was
just created destroys its second filter twice, and its first filter and its timer stay. -/
theorem destroy_interferes :
    (OnceEach (twoEndpoints .input .input ++ [.destroy 0]) ∧
      (initialised.start.run (twoEndpoints .input .input)).made = [⟨[0], [1]⟩, ⟨[1], [2]⟩] ∧
      (initialised.start.run (twoEndpoints .input .input)).world.filterList = [0, 1] ∧
      (initialised.start.run (twoEndpoints .input .input)).world.timerList = [0, 1, 2] ∧
      destroyOutcome .input .input 0 = (none, [0], [0, 1])) ∧
    (OnceEach (twoEndpoints .input .output ++ [.destroy 1]) ∧
      (initialised.start.run (twoEndpoints .input .output)).made = [⟨[0], [1]⟩, ⟨[1, 2], [2]⟩] ∧
      (initialised.start.run (twoEndpoints .input .output)).world.filterList = [0, 1, 2] ∧
      (initialised.start.run (twoEndpoints .input .output)).world.timerList = [0, 1, 2] ∧
      destroyOutcome .input .output 1 = (some .lengthOfNil, [0, 1], [0, 1, 2])) :=
  ⟨⟨onceEach_two .input .input (by decide), by decide, by decide, by decide, by decide⟩,
    ⟨onceEach_two .input .output (by decide), by decide, by decide, by decide, by decide⟩⟩

end Hah.Lua
