import Hah.Lua.Nodule

/-!
# The reaper: `Nodule:process`, `Nodule:expire` and `grimreaper` in `xap/jeenode.lua`

`Nodule:process` takes the readings of a node, and a timer lets `grimreaper` look every ten seconds
which nodules have been silent for longer than their `ttl`. Both announce only what they change: an
expired nodule is not looked at again, and a reading is compared with the value that the endpoint
has, which after an expiry is the unknown one.

A value that is put into an endpoint is announced in the same breath (`Nodule.announce`), so that the
last announcement of an endpoint shows what it has, whatever the order of readings and ticks. The
values are Lua strings and numbers; of the numbers nothing is assumed, not even that one equals itself.
-/

namespace Hah.Lua.Reaper
open C Bsc List Option

/-! ## The model -/

/-- What a nodule does with numbers. -/
class Number (F : Type) where
  eq : F → F → Bool
  lt : F → F → Bool
  sub : F → F → F
  zero : F
  one : F
  tostring : F → Bytes

/-- A Lua value that is a string or a number. -/
inductive Value (F : Type) where
  | string (s : Bytes)
  | number (x : F)
  deriving DecidableEq, Repr

/-- The fields of an endpoint that are read here. -/
structure Endpoint (F : Type) where
  uid : Bytes
  source : Bytes
  direction : Io
  type : EndpointType
  state : BscState
  text : Option (Value F)
  displaytext : Option Bytes
  deriving DecidableEq, Repr

/-- What a subclass passes to `Nodule:add`, with the uid that the constructor fills in. -/
structure Spec where
  key : Bytes
  uid : Bytes
  direction : Io
  type : EndpointType
  displaytext : Option Bytes
  deriving DecidableEq, Repr

/-- A nodule. `endpoints` is `cfg.endpoints`, `self` has the endpoints that were created; what was
announced is kept with the name of the endpoint. -/
structure Nodule (F : Type) where
  ttl : Option F
  base : Bytes
  endpoints : AList fun _ : Bytes => EpValue
  self : AList fun _ : Bytes => Endpoint F
  lastProcessed : F
  isalive : Bool
  sent : List (Bytes × Announcement)

section Model

variable {F : Type} [Number F]

/-- `==`. -/
def Value.same : Value F → Value F → Bool
  | .string s, .string t => s == t
  | .number x, .number y => Number.eq x y
  | _, _ => false

/-- What `..` makes of a value. -/
def Value.tostring : Value F → Bytes
  | .string s => s
  | .number x => Number.tostring x

/-- `decodeState`; `stateMap` has two numbers among its keys. -/
def Value.decodeState : Value F → StateCode
  | .string s => Lua.decodeState s
  | .number x => if Number.eq x Number.one then .on else if Number.eq x Number.zero then .off else .unknown

def Spec.endpoint (spec : Spec) (source : Bytes) : Endpoint F where
  uid := spec.uid
  source := source
  direction := spec.direction
  type := spec.type
  state := Lua.initialState spec.direction spec.type
  text := if spec.type = .binary then none else some (.string "?")
  displaytext := spec.displaytext

/-- `infoEventInternal`. -/
def Endpoint.message (e : Endpoint F) (clazz : InfoClass) : Announcement where
  uid := e.uid
  clazz := clazz
  source := e.source
  direction := e.direction
  state := e.state
  text := if e.type = .binary then none else e.text.map Value.tostring
  displaytext := e.displaytext

def Endpoint.setText (e : Endpoint F) (text : Value F) : Endpoint F := { e with state := .on, text := some text }

def Endpoint.setState (e : Endpoint F) (state : StateCode) : Endpoint F := { e with state := nextState e.state state }

/-- What `process` makes of an endpoint for a reading; `none` if that is not another value. -/
def Endpoint.accept (e : Endpoint F) (v : Value F) : Option (Endpoint F) :=
  match e.type with
  | .stream => if e.text.any fun text => text.same v then none else some (e.setText v)
  | .binary => if sameState e.state v.decodeState then none else some (e.setState v.decodeState)
  | .level => none

/-- What `expire` makes of an endpoint. -/
def Endpoint.expired (e : Endpoint F) : Endpoint F :=
  { e with
    state := .unknown
    text := if e.type ≠ .binary then some (.string "?") else e.text }

/-- The fields of an endpoint are assigned and it sends a message about itself, as its callback says
by default. -/
def Nodule.announce (n : Nodule F) (name : Bytes) (e : Endpoint F) (clazz : InfoClass) : Nodule F :=
  { n with
    self := n.self.insert name e
    sent := n.sent ++ [(name, e.message clazz)] }

def Nodule.build (ttl : Option F) (base : Bytes) (endpoints : AList fun _ : Bytes => EpValue) (now : F) :
    Nodule F where
  ttl := ttl
  base := base
  endpoints := endpoints
  self := ∅
  lastProcessed := now
  isalive := true
  sent := []

def Nodule.add (n : Nodule F) (spec : Spec) : Nodule F :=
  match n.endpoints.lookup spec.key with
  | none => n
  | some value =>
    match sourceOf n.base spec.key value with
    | none => { n with endpoints := n.endpoints.erase spec.key }
    | some source => n.announce spec.key (spec.endpoint source) .info

/-- `build` of a subclass, which adds its endpoints. -/
def Nodule.start (ttl : Option F) (base : Bytes) (endpoints : AList fun _ : Bytes => EpValue) (now : F)
    (specs : List Spec) : Nodule F :=
  specs.foldl Nodule.add (Nodule.build ttl base endpoints now)

/-- A turn of the loop in `Nodule:process`. -/
def Nodule.processEntry (n : Nodule F) (entry : Bytes × Value F) : Nodule F :=
  match n.self.lookup entry.1 with
  | none => n
  | some e =>
    match e.accept entry.2 with
    | none => n
    | some e' => n.announce entry.1 e' .event

/-- `Nodule:process` of readings in the order of `pairs`. -/
def Nodule.process (n : Nodule F) (now : F) (m : List (Bytes × Value F)) : Nodule F :=
  m.foldl Nodule.processEntry { n with lastProcessed := now, isalive := true }

/-- The loop of `Nodule:expire`; `none` where its assertion fails. -/
def Nodule.expireLoop (n : Nodule F) : List Bytes → Option (Nodule F)
  | [] => some n
  | name :: names =>
    match n.self.lookup name with
    | none => none
    | some e => Nodule.expireLoop (if e.direction = .input then n.announce name e.expired .event else n) names

def Nodule.expire (n : Nodule F) : Option (Nodule F) :=
  Nodule.expireLoop { n with isalive := false } n.endpoints.keys

/-- What `grimreaper` does about a nodule. -/
def Nodule.reap (n : Nodule F) (now : F) : Option (Nodule F) :=
  match n.ttl with
  | none => some n
  | some ttl => if n.isalive ∧ Number.lt ttl (Number.sub now n.lastProcessed) then n.expire else some n

/-- `grimreaper` at the time `now`. -/
def grimreaper (now : F) : List (Nodule F) → Option (List (Nodule F))
  | [] => some []
  | v :: config => do
    let v ← v.reap now
    let config ← grimreaper now config
    return v :: config

/-- What happens to the nodules of a configuration: the one at `i` gets readings, or the timer runs. -/
inductive Step (F : Type) where
  | process (i : Nat) (now : F) (m : List (Bytes × Value F))
  | tick (now : F)

def step (config : List (Nodule F)) : Step F → Option (List (Nodule F))
  | .process i now m => some (config.modify i fun n => n.process now m)
  | .tick now => grimreaper now config

def run (config : List (Nodule F)) : List (Step F) → Option (List (Nodule F))
  | [] => some config
  | s :: steps => (step config s).bind fun config => run config steps

/-! ## What is wanted -/

def lastAnnouncement (sent : List (Bytes × Announcement)) (name : Bytes) : Option Announcement :=
  ((sent.filter fun a => a.1 = name).getLast?).map Prod.snd

/-- The last announcement of every endpoint shows its state and its text. -/
def Tracks (n : Nodule F) : Prop :=
  ∀ name e, n.self.lookup name = some e →
    ∃ a, lastAnnouncement n.sent name = some a ∧ a.state = e.state ∧ a.text = e.text.map Value.tostring

def Built (n : Nodule F) : Prop := ∃ ttl base endpoints now specs, n = Nodule.start ttl base endpoints now specs

/-- If the nodule can be reaped, its configured names all have input endpoints. -/
def Ready (n : Nodule F) : Prop :=
  n.ttl.isSome → ∀ name ∈ n.endpoints.keys, (n.self.lookup name).map Endpoint.direction = some .input

/-- When the nodule at `i` had its last readings, or was built. -/
def heard (i : Nat) : F → List (Step F) → F
  | last, [] => last
  | last, .process j now _ :: steps => heard i (if j = i then now else last) steps
  | last, .tick _ :: steps => heard i last steps

def Unknown (a : Announcement) : Prop := a.state = .unknown ∧ ∀ text, a.text = some text → text = "?"

/-- A tick, when the nodule at `i` is alive and has been silent since `last` for longer than its `ttl`,
announces all its configured endpoints as unknown. -/
def Expires (config : List (Nodule F)) (i : Nat) (last : F) : Prop :=
  ∀ n ttl now, config[i]? = some n → n.ttl = some ttl → n.isalive = true →
    Number.lt ttl (Number.sub now last) = true →
    ∃ config' n' new, step config (.tick now) = some config' ∧ config'[i]? = some n' ∧ n'.sent = n.sent ++ new ∧
      new.map Prod.fst = n.endpoints.keys ∧ ∀ a ∈ new, Unknown a.2

/-- A step that has no readings for the nodule at `i`. -/
def Step.Without (i : Nat) : Step F → Prop
  | .process j _ _ => j ≠ i
  | .tick _ => True

/-- Until the nodule at `i` has readings again, every endpoint of it is announced once at most. -/
def OnceUntilProcessed (config : List (Nodule F)) (i : Nat) : Prop :=
  ∀ n steps, config[i]? = some n → (∀ s ∈ steps, s.Without i) →
    ∃ config' n' new, run config steps = some config' ∧ config'[i]? = some n' ∧ n'.sent = n.sent ++ new ∧
      (new.map Prod.fst).Nodup

end Model

/-! ## An announcement -/

section Announcing

variable {F : Type} [Number F] {n n' n'' : Nodule F} {e e' : Endpoint F} {name : Bytes}

/-- A binary endpoint has no text. -/
def Endpoint.Plain (e : Endpoint F) : Prop := e.type = .binary → e.text = none

theorem message_text (plain : e.Plain) (clazz : InfoClass) : (e.message clazz).text = e.text.map Value.tostring := by
  unfold Endpoint.message
  split
  next binary =>
    rw [plain binary]
    rfl
  next => rfl

/-- What holds of all endpoints after an announcement: it holds of the one announced, and of the others. -/
theorem announce_forall {P : Bytes → Endpoint F → Prop} (own : P name e)
    (others : ∀ d e', d ≠ name → n.self.lookup d = some e' → P d e') (clazz : InfoClass) :
    ∀ d e', (n.announce name e clazz).self.lookup d = some e' → P d e' := by
  intro d e' found
  by_cases same : d = name
  · subst same
    obtain rfl : e = e' := some.inj ((AList.lookup_insert n.self).symm.trans found)
    exact own
  · exact others d e' same ((AList.lookup_insert_ne same).symm.trans found)

/-- An announcement that keeps the direction of its endpoint keeps all directions. -/
theorem announce_direction (found : n.self.lookup name = some e) (kept : e'.direction = e.direction) (clazz : InfoClass)
    (d : Bytes) :
    ((n.announce name e' clazz).self.lookup d).map Endpoint.direction = (n.self.lookup d).map Endpoint.direction := by
  by_cases same : d = name
  · rw [same, Nodule.announce, AList.lookup_insert, found, map_some, map_some, kept]
  · rw [Nodule.announce, AList.lookup_insert_ne same]

theorem announce_tracks (tracks : Tracks n) (plain : e.Plain) (clazz : InfoClass) :
    Tracks (n.announce name e clazz) := by
  refine announce_forall ?_ (fun d e' other before => ?_) clazz
  · exact ⟨_, by simp [lastAnnouncement, Nodule.announce], rfl, message_text plain clazz⟩
  · obtain ⟨a, last, state, text⟩ := tracks d e' before
    refine ⟨a, ?_, state, text⟩
    rw [← last]
    simp [lastAnnouncement, Nodule.announce, Ne.symm other]

/-! ## What a nodule keeps -/

structure Inv (n : Nodule F) : Prop where
  tracks : Tracks n
  plain : ∀ name e, n.self.lookup name = some e → e.Plain
  ready : Ready n

/-- What an update leaves of an endpoint. -/
structure Keeps (e e' : Endpoint F) : Prop where
  direction : e'.direction = e.direction
  plain : e.Plain → e'.Plain

theorem accept_keeps {v : Value F} (accepted : e.accept v = some e') : Keeps e e' := by
  unfold Endpoint.accept at accepted
  split at accepted
  next stream =>
    split at accepted
    · cases accepted
    · cases accepted
      exact ⟨rfl, fun _ binary => absurd (stream.symm.trans binary) (by decide)⟩
  next =>
    split at accepted
    · cases accepted
    · cases accepted
      exact ⟨rfl, fun plain => plain⟩
  next => cases accepted

omit [Number F] in
theorem expired_keeps (e : Endpoint F) : Keeps e e.expired :=
  ⟨rfl, fun plain binary => (if_neg (not_not.2 binary)).trans (plain binary)⟩

/-- `n'` comes from `n` by announcements of endpoints with other values. -/
inductive Talks (n : Nodule F) : Nodule F → Prop where
  | refl : Talks n n
  | announce {n' : Nodule F} {name : Bytes} {e e' : Endpoint F} (before : Talks n n')
      (found : n'.self.lookup name = some e) (keeps : Keeps e e') : Talks n (n'.announce name e' .event)

theorem Talks.trans (first : Talks n n') (second : Talks n' n'') : Talks n n'' := by
  induction second with
  | refl => exact first
  | announce _ found keeps ih => exact .announce ih found keeps

/-- Announcements leave the clocks alone. -/
theorem Talks.clocks (talks : Talks n n') : n'.lastProcessed = n.lastProcessed ∧ n'.isalive = n.isalive := by
  induction talks with
  | refl => exact ⟨rfl, rfl⟩
  | announce _ _ _ ih => exact ih

theorem Inv.announce (inv : Inv n) (found : n.self.lookup name = some e) (keeps : Keeps e e') :
    Inv (n.announce name e' .event) := by
  have plain := keeps.plain (inv.plain name e found)
  refine ⟨announce_tracks inv.tracks plain .event, ?_, fun reapable d configured => ?_⟩
  · exact announce_forall plain (fun d e'' _ => inv.plain d e'') .event
  · rw [announce_direction found keeps.direction]
    exact inv.ready reapable d configured

/-- **Announcements keep the invariant.** -/
theorem Talks.inv (talks : Talks n n') (inv : Inv n) : Inv n' := by
  induction talks with
  | refl => exact inv
  | announce _ found keeps ih => exact ih.announce found keeps

/-! ## The operations -/

theorem processEntry_talks (n : Nodule F) (entry : Bytes × Value F) : Talks n (n.processEntry entry) := by
  unfold Nodule.processEntry
  split
  next => exact .refl
  next e found =>
    split
    next => exact .refl
    next e' accepted => exact .announce .refl found (accept_keeps accepted)

/-- **`process`** announces what the readings change, and the nodule is alive. -/
theorem process_talks (n : Nodule F) (now : F) (m : List (Bytes × Value F)) :
    Talks { n with lastProcessed := now, isalive := true } (n.process now m) := by
  have loop : ∀ (m : List (Bytes × Value F)) (n : Nodule F), Talks n (m.foldl Nodule.processEntry n) := by
    intro m
    induction m with
    | nil => exact fun n => .refl
    | cons entry m ih => exact fun n => (processEntry_talks n entry).trans (ih (n.processEntry entry))
  exact loop m _

theorem expired_unknown (e : Endpoint F) (plain : e.Plain) : Unknown (e.expired.message .event) := by
  refine ⟨rfl, fun text shown => ?_⟩
  by_cases binary : e.type = .binary
  · have none_shown : (e.expired.message .event).text = none := if_pos binary
    rw [none_shown] at shown
    cases shown
  · have question : (e.expired.message .event).text = some (ascii "?") := by
      rw [message_text ((expired_keeps e).plain plain)]
      exact congrArg (Option.map Value.tostring) (if_pos binary)
    exact some.inj (shown.symm.trans question)

/-- The loop of `expire` over names that all have input endpoints announces each of them as unknown. -/
theorem expireLoop_spec {names : List Bytes} (inv : Inv n)
    (inputs : ∀ name ∈ names, (n.self.lookup name).map Endpoint.direction = some .input) :
    ∃ n' new, n.expireLoop names = some n' ∧ Talks n n' ∧ n'.sent = n.sent ++ new ∧ new.map Prod.fst = names ∧
      ∀ a ∈ new, Unknown a.2 := by
  induction names generalizing n with
  | nil => exact ⟨n, [], rfl, .refl, (append_nil _).symm, rfl, forall_mem_nil _⟩
  | cons name names ih =>
    obtain ⟨first, more⟩ := forall_mem_cons.1 inputs
    obtain ⟨e, found, input⟩ := map_eq_some_iff.1 first
    have talks : Talks n (n.announce name e.expired .event) := .announce .refl found (expired_keeps e)
    have still : ∀ d ∈ names,
        ((n.announce name e.expired .event).self.lookup d).map Endpoint.direction = some .input := by
      intro d mem
      rw [announce_direction found (expired_keeps e).direction]
      exact more d mem
    obtain ⟨n', new, ran, talks', sent, named, unknown⟩ := ih (talks.inv inv) still
    refine ⟨n', (name, e.expired.message .event) :: new, ?_, talks.trans talks', ?_, ?_, ?_⟩
    · rw [Nodule.expireLoop, found]
      dsimp only
      rw [if_pos input, ran]
    · rw [sent, Nodule.announce, append_assoc, singleton_append]
    · rw [map_cons, named]
    · exact forall_mem_cons.2 ⟨expired_unknown e (inv.plain name e found), unknown⟩

theorem Inv.dead (inv : Inv n) : Inv { n with isalive := false } := ⟨inv.tracks, inv.plain, inv.ready⟩

/-- **`expire`** announces all configured endpoints as unknown, and the nodule is dead. -/
theorem expire_spec (inv : Inv n) (reapable : n.ttl.isSome) :
    ∃ n' new, n.expire = some n' ∧ Talks { n with isalive := false } n' ∧ n'.sent = n.sent ++ new ∧
      new.map Prod.fst = n.endpoints.keys ∧ ∀ a ∈ new, Unknown a.2 :=
  expireLoop_spec inv.dead (inv.ready reapable)

/-- What the reaper may do to a nodule. -/
inductive Reaped (n : Nodule F) (now : F) : Nodule F → Prop where
  | left (spared : ∀ ttl, n.ttl = some ttl → n.isalive = true → ¬ Number.lt ttl (Number.sub now n.lastProcessed)) :
      Reaped n now n
  | expired {n' : Nodule F} {new : List (Bytes × Announcement)} (alive : n.isalive = true)
      (talks : Talks { n with isalive := false } n') (sent : n'.sent = n.sent ++ new)
      (named : new.map Prod.fst = n.endpoints.keys) (unknown : ∀ a ∈ new, Unknown a.2) : Reaped n now n'

theorem reap_spec (inv : Inv n) (now : F) : ∃ n', n.reap now = some n' ∧ Reaped n now n' := by
  unfold Nodule.reap
  cases reapable : n.ttl with
  | none => exact ⟨n, rfl, .left fun ttl given => by cases reapable.symm.trans given⟩
  | some ttl =>
    by_cases late : n.isalive ∧ Number.lt ttl (Number.sub now n.lastProcessed)
    · obtain ⟨n', new, ran, talks, sent, named, unknown⟩ := expire_spec inv (by rw [reapable]; rfl)
      exact ⟨n', (if_pos late).trans ran, .expired late.1 talks sent named unknown⟩
    · refine ⟨n, if_neg late, .left fun ttl' given alive expired => late ⟨alive, ?_⟩⟩
      cases reapable.symm.trans given
      exact expired

theorem Reaped.inv {now : F} (reaped : Reaped n now n') (inv : Inv n) : Inv n' := by
  cases reaped with
  | left => exact inv
  | expired _ talks => exact talks.inv inv.dead

theorem Reaped.lastProcessed {now : F} (reaped : Reaped n now n') : n'.lastProcessed = n.lastProcessed := by
  cases reaped with
  | left => rfl
  | expired _ talks => exact talks.clocks.1

theorem Inv.process (inv : Inv n) (now : F) (m : List (Bytes × Value F)) : Inv (n.process now m) :=
  (process_talks n now m).inv ⟨inv.tracks, inv.plain, inv.ready⟩

end Announcing

/-! ## Runs of a configuration -/

section Runs

variable {F : Type} [Number F] {config config' : List (Nodule F)} {n n' : Nodule F} {i : Nat} {steps : List (Step F)}

/-- What a step may do to the nodule at `i`. -/
inductive Moved (i : Nat) (n : Nodule F) : Step F → Nodule F → Prop where
  | own (now : F) (m : List (Bytes × Value F)) : Moved i n (.process i now m) (n.process now m)
  | other {j : Nat} (apart : j ≠ i) (now : F) (m : List (Bytes × Value F)) : Moved i n (.process j now m) n
  | tick {now : F} {n' : Nodule F} (reaped : Reaped n now n') : Moved i n (.tick now) n'

theorem grimreaper_spec (inv : ∀ n ∈ config, Inv n) (now : F) :
    ∃ config', grimreaper now config = some config' ∧ List.Forall₂ (fun n n' => Reaped n now n') config config' := by
  induction config with
  | nil => exact ⟨[], rfl, .nil⟩
  | cons v config ih =>
    obtain ⟨first, more⟩ := forall_mem_cons.1 inv
    obtain ⟨v', ran, reaped⟩ := reap_spec first now
    obtain ⟨config', rest, others⟩ := ih more
    refine ⟨v' :: config', ?_, .cons reaped others⟩
    rw [grimreaper, ran, rest]
    rfl

theorem moved_of_reaped {now : F} (reaped : List.Forall₂ (fun n n' => Reaped n now n') config config')
    (there : config[i]? = some n) : ∃ n', config'[i]? = some n' ∧ Reaped n now n' := by
  induction reaped generalizing i with
  | nil => cases there
  | cons first _ ih =>
    cases i with
    | zero =>
      cases there
      exact ⟨_, rfl, first⟩
    | succ i => exact ih there

/-- **A step** happens, and does to every nodule what it may. -/
theorem step_spec (inv : ∀ n ∈ config, Inv n) (s : Step F) :
    ∃ config', step config s = some config' ∧ config'.length = config.length ∧
      ∀ i n, config[i]? = some n → ∃ n', config'[i]? = some n' ∧ Moved i n s n' := by
  cases s with
  | process j now m =>
    refine ⟨_, rfl, length_modify _ _ _, fun i n there => ?_⟩
    rw [getElem?_modify, there]
    by_cases own : j = i
    · subst own
      exact ⟨n.process now m, congrArg some (if_pos rfl), .own now m⟩
    · exact ⟨n, congrArg some (if_neg own), .other own now m⟩
  | tick now =>
    obtain ⟨config', ran, reaped⟩ := grimreaper_spec inv now
    refine ⟨config', ran, reaped.length_eq.symm, fun i n there => ?_⟩
    obtain ⟨n', after, moved⟩ := moved_of_reaped reaped there
    exact ⟨n', after, .tick moved⟩

theorem Moved.inv {s : Step F} (moved : Moved i n s n') (inv : Inv n) : Inv n' := by
  cases moved with
  | own now m => exact inv.process now m
  | other => exact inv
  | tick reaped => exact reaped.inv inv

/-- What a run may do to the nodule at `i`. -/
inductive Moves (i : Nat) : Nodule F → List (Step F) → Nodule F → Prop where
  | nil (n : Nodule F) : Moves i n [] n
  | cons {s : Step F} {steps : List (Step F)} {n mid n' : Nodule F} (first : Moved i n s mid)
      (rest : Moves i mid steps n') : Moves i n (s :: steps) n'

theorem inv_of_moved (inv : ∀ n ∈ config, Inv n) {s : Step F} (long : config'.length = config.length)
    (moved : ∀ i n, config[i]? = some n → ∃ n', config'[i]? = some n' ∧ Moved i n s n') : ∀ n ∈ config', Inv n := by
  intro n' mem
  obtain ⟨i, bound, rfl⟩ := getElem_of_mem mem
  have there : config[i]? = some config[i] := getElem?_eq_getElem (long ▸ bound)
  obtain ⟨n', after, moved⟩ := moved i _ there
  obtain rfl : config'[i] = n' := some.inj ((getElem?_eq_getElem bound).symm.trans after)
  exact moved.inv (inv _ (getElem_mem _))

/-- **A run** is not stopped, and does to every nodule what its steps may. -/
theorem run_spec (inv : ∀ n ∈ config, Inv n) (steps : List (Step F)) :
    ∃ config', run config steps = some config' ∧ (∀ n ∈ config', Inv n) ∧
      ∀ i n, config[i]? = some n → ∃ n', config'[i]? = some n' ∧ Moves i n steps n' := by
  induction steps generalizing config with
  | nil => exact ⟨config, rfl, inv, fun i n there => ⟨n, there, .nil n⟩⟩
  | cons s steps ih =>
    obtain ⟨mid, ran, long, moved⟩ := step_spec inv s
    obtain ⟨config', rest, invs, moves⟩ := ih (inv_of_moved inv long moved)
    refine ⟨config', ?_, invs, fun i n there => ?_⟩
    · rw [run, ran]
      exact rest
    · obtain ⟨n₁, between, first⟩ := moved i n there
      obtain ⟨n', after, others⟩ := moves i n₁ between
      exact ⟨n', after, .cons first others⟩

/-- `lastProcessed` is when the nodule was heard of. -/
theorem Moves.lastProcessed (moves : Moves i n steps n') : n'.lastProcessed = heard i n.lastProcessed steps := by
  induction moves with
  | nil => rfl
  | cons first _ ih =>
    rw [ih]
    cases first with
    | own now m => rw [heard, if_pos rfl, (process_talks _ now m).clocks.1]
    | other apart => rw [heard, if_neg apart]
    | tick reaped => rw [heard, reaped.lastProcessed]

/-- A dead nodule is left alone until it has readings. -/
theorem Moves.dead (moves : Moves i n steps n') (dead : n.isalive = false) (quiet : ∀ s ∈ steps, s.Without i) :
    n' = n := by
  induction moves with
  | nil => rfl
  | cons first _ ih =>
    obtain ⟨here, later⟩ := forall_mem_cons.1 quiet
    cases first with
    | own => exact absurd rfl here
    | other => exact ih dead later
    | tick reaped =>
      cases reaped with
      | left => exact ih dead later
      | expired alive => exact absurd (dead.symm.trans alive) Bool.false_ne_true

/-- **Between two readings** the nodule expires once at most, and announces every endpoint once then. -/
theorem Moves.once (moves : Moves i n steps n') (quiet : ∀ s ∈ steps, s.Without i) :
    ∃ new, n'.sent = n.sent ++ new ∧ (new.map Prod.fst).Nodup := by
  induction moves with
  | nil => exact ⟨[], (append_nil _).symm, nodup_nil⟩
  | cons first rest ih =>
    obtain ⟨here, later⟩ := forall_mem_cons.1 quiet
    cases first with
    | own => exact absurd rfl here
    | other => exact ih later
    | tick reaped =>
      cases reaped with
      | left => exact ih later
      | expired _ talks sent named =>
        rw [rest.dead talks.clocks.2 later]
        exact ⟨_, sent, named ▸ AList.keys_nodup _⟩

/-! ## The start -/

theorem add_kept (n : Nodule F) (spec : Spec) (tracks : Tracks n)
    (plain : ∀ name e, n.self.lookup name = some e → e.Plain) :
    Tracks (n.add spec) ∧ ∀ name e, (n.add spec).self.lookup name = some e → e.Plain := by
  unfold Nodule.add
  split
  next => exact ⟨tracks, plain⟩
  next =>
    split
    next => exact ⟨tracks, plain⟩
    next source _ =>
      have own_plain : (spec.endpoint source : Endpoint F).Plain := fun binary => if_pos binary
      exact ⟨announce_tracks tracks own_plain .info, announce_forall own_plain (fun d e _ => plain d e) .info⟩

theorem Built.inv (built : Built n) (ready : Ready n) : Inv n := by
  obtain ⟨ttl, base, endpoints, now, specs, rfl⟩ := built
  have adds : ∀ (specs : List Spec) (n : Nodule F), Tracks n → (∀ name e, n.self.lookup name = some e → e.Plain) →
      Tracks (specs.foldl Nodule.add n) ∧ ∀ name e, (specs.foldl Nodule.add n).self.lookup name = some e → e.Plain := by
    intro specs
    induction specs with
    | nil => exact fun n tracks plain => ⟨tracks, plain⟩
    | cons spec specs ih =>
      intro n tracks plain
      obtain ⟨tracks, plain⟩ := add_kept n spec tracks plain
      exact ih (n.add spec) tracks plain
  have fresh : ∀ name e, (Nodule.build ttl base endpoints now).self.lookup name ≠ some e := by
    intro name e found
    cases found
  obtain ⟨tracks, plain⟩ := adds specs (Nodule.build ttl base endpoints now)
    (fun name e found => absurd found (fresh name e)) fun name e found => absurd found (fresh name e)
  exact ⟨tracks, plain, ready⟩

/-! ## The announcements of a run -/

theorem expires_of_inv (inv : ∀ n ∈ config, Inv n) {last : F}
    (heard_last : ∀ n, config[i]? = some n → n.lastProcessed = last) : Expires config i last := by
  intro n ttl now there reapable alive silent
  obtain ⟨config', ran, -, moved⟩ := step_spec inv (.tick now)
  obtain ⟨n', after, moved⟩ := moved i n there
  cases moved with
  | tick reaped =>
    cases reaped with
    | left spared => exact absurd (heard_last n there ▸ silent) (spared ttl reapable alive)
    | expired _ _ sent named unknown => exact ⟨config', n', _, ran, after, sent, named, unknown⟩

/-- **Announcements track the state.** Whatever readings the nodules of a configuration get and
whenever the reaper runs, no step fails; afterwards the last announcement of every endpoint shows its state
and text, a tick that finds a nodule alive but silent for longer than its `ttl` announces all its configured
endpoints as unknown, and until it has readings again every endpoint is announced once at most. -/
theorem announcements_track (built : ∀ n ∈ config, Built n) (ready : ∀ n ∈ config, Ready n) (steps : List (Step F)) :
    ∃ config', run config steps = some config' ∧
      ∀ i n, config[i]? = some n → ∃ n', config'[i]? = some n' ∧ Tracks n' ∧
        Expires config' i (heard i n.lastProcessed steps) ∧ OnceUntilProcessed config' i := by
  obtain ⟨config', ran, inv, moves⟩ := run_spec (fun n mem => (built n mem).inv (ready n mem)) steps
  refine ⟨config', ran, fun i n there => ?_⟩
  obtain ⟨n', after, moved⟩ := moves i n there
  refine ⟨n', after, (inv n' (mem_of_getElem? after)).tracks, ?_, ?_⟩
  · refine expires_of_inv inv fun n₁ here => ?_
    obtain rfl : n' = n₁ := some.inj (after.symm.trans here)
    exact moved.lastProcessed
  · intro n₁ more here quiet
    obtain ⟨config'', ran', -, moves'⟩ := run_spec inv more
    obtain ⟨n'', after', moved'⟩ := moves' i n₁ here
    obtain ⟨new, sent, once⟩ := moved'.once quiet
    exact ⟨config'', n'', new, ran', after', sent, once⟩

end Runs

instance : Number Int where
  eq := fun x y => x == y
  lt := fun x y => x < y
  sub := fun x y => x - y
  zero := 0
  one := 1
  tostring := decimalInt

/-- A room node with a temperature and a battery, reaped after ten minutes. -/
def room : Nodule Int :=
  Nodule.start (some 600) "dbzoo.livebox.jeenode:room"
    ((∅ : AList _).insert (ascii "temp") .one |>.insert (ascii "lobat") .one) 0
    [⟨"temp", "FF00DB01", .input, .stream, none⟩, ⟨"lobat", "FF00DB02", .input, .binary, none⟩]

/-- The temperature, a silence of more than ten minutes, and the same temperature again. -/
def sameAgain : List (Step Int) :=
  [.process 0 5 [("temp", .number 20)], .tick 700, .process 0 710 [("temp", .number 20)]]

/-- The states and texts that a nodule has announced of its temperature. -/
def temperatures (n : Nodule Int) : List (BscState × Option Bytes) :=
  (n.sent.filter fun a => a.1 = ascii "temp").map fun a => (a.2.state, a.2.text)

/-- The same temperature, after the node has been silent for too long, is announced again. -/
theorem announcements_track_room :
    ∃ config n, run [room] sameAgain = some config ∧ config[0]? = some n ∧ Tracks n ∧
      temperatures n =
        [(.unknown, some (ascii "?")), (.on, some (ascii "20")), (.unknown, some (ascii "?")), (.on, some (ascii "20"))] := by
  have built : ∀ n ∈ [room], Built n := forall_mem_singleton.2 ⟨_, _, _, _, _, rfl⟩
  have ready : ∀ n ∈ [room], Ready n := forall_mem_singleton.2 (by unfold Ready; decide)
  obtain ⟨config, ran, each⟩ := announcements_track built ready sameAgain
  obtain ⟨n, after, tracks, -⟩ := each 0 room rfl
  refine ⟨config, n, ran, after, tracks, ?_⟩
  have shown : ((run [room] sameAgain).bind fun config => config[0]?).map temperatures =
      some [(.unknown, some (ascii "?")), (.on, some (ascii "20")), (.unknown, some (ascii "?")),
        (.on, some (ascii "20"))] := by
    decide +kernel
  rw [ran, bind_some, after, map_some] at shown
  exact some.inj shown

end Hah.Lua.Reaper
