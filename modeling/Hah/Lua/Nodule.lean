import Mathlib.Data.List.AList
import Mathlib.Logic.Function.Basic
import Hah.Lua.Endpoint

/-!
# Nodules: `Nodule` in `xap/jeenode.lua`

A nodule keeps endpoints under names of its own. Two of its tables describe them: `cfg.endpoints`
has the configuration, and the nodule itself refers to the table of every endpoint that was
created. `Nodule:add` creates an endpoint, `Nodule:process` sets its value and sends an event if
that is another.

What is sent is kept in the order of sending, so that it can be said what a nodule announced last.
A nodule is generic in the fields that a kind of node adds to the tables of its endpoints.
-/

namespace Hah.Lua
open C Bsc

/-! ## The model -/

/-- The classes of the messages that an endpoint sends about itself. -/
inductive InfoClass where
  | info
  | event
  deriving DecidableEq, Repr

/-- What `infoEventInternal` puts into a message. -/
structure Announcement where
  uid : Bytes
  clazz : InfoClass
  source : Bytes
  direction : Io
  state : BscState
  text : Option Bytes
  displaytext : Option Bytes
  deriving DecidableEq, Repr

def infoEventInternal (e : EndpointTable) (displaytext : Option Bytes) (clazz : InfoClass) :
    Announcement where
  uid := e.fields.uid
  clazz := clazz
  source := e.source
  direction := e.fields.direction
  state := e.fields.state
  text := if e.fields.type = .binary then none else e.fields.text
  displaytext := displaytext

/-- A value of `cfg.endpoints`: not wanted, wanted under its key, or a name of its own. -/
inductive EpValue where
  | zero
  | one
  | name (s : Bytes)
  deriving DecidableEq, Repr

/-- A nodule. The endpoints are known by the numbers of their tables; `displaytext` and `extra`
are fields of those tables. -/
structure Nodule (X : Type) where
  world : World
  self : AList fun _ : Bytes => Nat
  base : Bytes
  endpoints : AList fun _ : Bytes => EpValue
  displaytext : Nat → Option Bytes
  extra : Nat → X
  sent : List Announcement

section Model

variable {X : Type}

/-- The table of an endpoint; `none` is one without fields. -/
def Nodule.table (n : Nodule X) (k : Nat) : Option (Option EndpointTable) := n.world.endpoints[k]?

/-- `sendInfoEvent` of an endpoint with the callback that every endpoint has by default. -/
def Nodule.send (n : Nodule X) (k : Nat) (e : EndpointTable) (clazz : InfoClass) : Nodule X :=
  { n with sent := n.sent ++ [infoEventInternal e (n.displaytext k) clazz] }

def Nodule.put (n : Nodule X) (k : Nat) (e : EndpointTable) : Nodule X :=
  { n with world := { n.world with endpoints := n.world.endpoints.set k (some e) } }

/-- The address of an endpoint, unless it is not wanted. -/
def sourceOf (base key : Bytes) : EpValue → Option Bytes
  | .zero => none
  | .one => some (base ++ "." ++ key)
  | .name s => some (base ++ "." ++ s)

/-- `self[e.key] = bsc.Endpoint(e)`; the constructor ends with an info message. -/
def Nodule.create (n : Nodule X) (key : Bytes) (args : EndpointArgs) (displaytext : Option Bytes)
    (extra : X) : Nodule X :=
  let k := n.world.endpoints.length
  let created : Nodule X :=
    { n with
      world := n.world.create args
      self := n.self.insert key k
      displaytext := Function.update n.displaytext k displaytext
      extra := Function.update n.extra k extra }
  match created.table k with
  | some (some e) => created.send k e .info
  | _ => created

/-- `Nodule:add`, with the address of the nodule already built. -/
def Nodule.add (n : Nodule X) (key : Bytes) (direction : Io) (type : EndpointType)
    (displaytext : Option Bytes) (extra : X) : Nodule X :=
  match n.endpoints.lookup key with
  | none => n
  | some value =>
    match sourceOf n.base key value with
    | none => { n with endpoints := n.endpoints.erase key }
    | some source => n.create key ⟨source, direction, type, none, none, none⟩ displaytext extra

/-- `e.state == state`; no endpoint is in the state `toggle`. -/
def sameState (s : BscState) : StateCode → Bool
  | .off => s = .off
  | .on => s = .on
  | .unknown => s = .unknown
  | .toggle => false

/-- `Nodule:process` of one name and value. -/
def Nodule.process (n : Nodule X) (name value : Bytes) : Nodule X :=
  match n.self.lookup name with
  | none => n
  | some k =>
    match n.table k with
    | some (some e) =>
      match e.fields.type with
      | .stream =>
        let e' := { e with fields := { e.fields with state := .on, text := some value } }
        if e.fields.text = some value then n else (n.put k e').send k e' .event
      | .binary =>
        let e' := { e with fields := e.fields.setState (decodeState value) }
        if sameState e.fields.state (decodeState value) then n else (n.put k e').send k e' .event
      | .level => n
    -- a table without fields has no type
    | _ => n

end Model

/-- The state that was announced last for a display text. -/
def lastAnnounced (sent : List Announcement) (text : Bytes) : Option BscState :=
  ((sent.filter fun a => a.displaytext = some text).getLast?).map Announcement.state

/-! ## What an operation leaves alone -/

section Frame

variable {X : Type} {n n' n'' : Nodule X} {key : Bytes}

/-- Everything about the endpoints under other names is the same. -/
structure Apart (n n' : Nodule X) (key : Bytes) : Prop where
  self : ∀ d, d ≠ key → n'.self.lookup d = n.self.lookup d
  tables : ∀ d k, d ≠ key → n.self.lookup d = some k →
    n'.table k = n.table k ∧ n'.displaytext k = n.displaytext k ∧ n'.extra k = n.extra k
  listed : ∀ d, d ≠ key → (d ∈ n'.endpoints ↔ d ∈ n.endpoints)
  announced : ∀ d, d ≠ key → lastAnnounced n'.sent d = lastAnnounced n.sent d

variable {k : Nat} {a : Announcement} {text d : Bytes} {self : AList fun _ : Bytes => Nat} {j : Nat}

theorem Apart.refl (n : Nodule X) (key : Bytes) : Apart n n key :=
  ⟨fun _ _ => rfl, fun _ _ _ _ => ⟨rfl, rfl, rfl⟩, fun _ _ => Iff.rfl, fun _ _ => rfl⟩

theorem Apart.trans (first : Apart n n' key) (second : Apart n' n'' key) : Apart n n'' key where
  self d other := (second.self d other).trans (first.self d other)
  tables d k other here := by
    obtain ⟨table, text, extra⟩ := first.tables d k other here
    obtain ⟨table', text', extra'⟩ := second.tables d k other ((first.self d other).trans here)
    exact ⟨table'.trans table, text'.trans text, extra'.trans extra⟩
  listed d other := (second.listed d other).trans (first.listed d other)
  announced d other := (second.announced d other).trans (first.announced d other)

/-- The endpoints are distinct, and their tables were created. -/
structure Distinct (n : Nodule X) : Prop where
  apart : ∀ d d' k, n.self.lookup d = some k → n.self.lookup d' = some k → d = d'
  created : ∀ d k, n.self.lookup d = some k → k < n.world.endpoints.length

theorem lastAnnounced_own (sent : List Announcement)
    (own : a.displaytext = some text) : lastAnnounced (sent ++ [a]) text = some a.state := by
  simp [lastAnnounced, List.filter_append, own]

theorem lastAnnounced_other (sent : List Announcement)
    (other : a.displaytext ≠ some text) : lastAnnounced (sent ++ [a]) text = lastAnnounced sent text := by
  simp [lastAnnounced, List.filter_append, other]

theorem put_table (created : k < n.world.endpoints.length) (e : EndpointTable) :
    (n.put k e).table k = some (some e) := by
  rw [Nodule.table, Nodule.put, List.getElem?_set_self created]

theorem put_apart (distinct : Distinct n) (own : n.self.lookup key = some k) (e : EndpointTable) :
    Apart n (n.put k e) key := by
  refine ⟨fun _ _ => rfl, fun d j other here => ⟨?_, rfl, rfl⟩, fun _ _ => Iff.rfl, fun _ _ => rfl⟩
  refine List.getElem?_set_ne fun same => other ?_
  exact distinct.apart d key j here (same ▸ own)

theorem put_distinct (distinct : Distinct n) (k : Nat) (e : EndpointTable) : Distinct (n.put k e) := by
  refine ⟨distinct.apart, fun d j here => ?_⟩
  rw [Nodule.put, List.length_set]
  exact distinct.created d j here

theorem send_apart (label : n.displaytext k = some key) (e : EndpointTable) (clazz : InfoClass) :
    Apart n (n.send k e clazz) key := by
  refine ⟨fun _ _ => rfl, fun _ _ _ _ => ⟨rfl, rfl, rfl⟩, fun _ _ => Iff.rfl, fun d other => ?_⟩
  refine lastAnnounced_other n.sent fun same => other ?_
  exact Option.some.inj (same.symm.trans label)

/-- **A created endpoint**: the nodule refers to its table, which is new, and it is announced. -/
structure Created (n n' : Nodule X) (key : Bytes) (args : EndpointArgs) (extra : X) (e : EndpointTable) :
    Prop where
  world : n'.world = n.world.create args
  self : n'.self.lookup key = some n.world.endpoints.length
  table : n'.table n.world.endpoints.length = some (some e)
  type : e.fields.type = args.type
  state : e.fields.state = initialState args.direction args.type
  dtors : e.dtors = dtorsOf args.direction
  label : n'.displaytext n.world.endpoints.length = some key
  extra : n'.extra n.world.endpoints.length = extra
  listed : n'.endpoints = n.endpoints
  announced : lastAnnounced n'.sent key = some e.fields.state
  apart : Apart n n' key
  distinct : Distinct n'

/-- A name for a table that is newer than all. -/
theorem lookup_insert_inj (apart : ∀ d d' j, self.lookup d = some j → self.lookup d' = some j → d = d')
    (older : ∀ d j, self.lookup d = some j → j < k) (key : Bytes) {d' : Bytes}
    (here : (self.insert key k).lookup d = some j) (there : (self.insert key k).lookup d' = some j) : d = d' := by
  by_cases first : d = key
  · subst first
    by_cases second : d' = d
    · exact second.symm
    · rw [AList.lookup_insert] at here
      rw [AList.lookup_insert_ne second] at there
      exact absurd (older d' j there) (by rw [← Option.some.inj here]; exact Nat.lt_irrefl k)
  · rw [AList.lookup_insert_ne first] at here
    by_cases second : d' = key
    · subst second
      rw [AList.lookup_insert] at there
      exact absurd (older d j here) (by rw [← Option.some.inj there]; exact Nat.lt_irrefl k)
    · rw [AList.lookup_insert_ne second] at there
      exact apart d d' j here there

theorem lookup_insert_lt (older : ∀ d j, self.lookup d = some j → j < k) (key : Bytes)
    (here : (self.insert key k).lookup d = some j) : j < k + 1 := by
  by_cases same : d = key
  · subst same
    rw [AList.lookup_insert] at here
    rw [← Option.some.inj here]
    exact Nat.lt_succ_self k
  · rw [AList.lookup_insert_ne same] at here
    exact Nat.lt_succ_of_lt (older d j here)

theorem create_created (distinct : Distinct n) (key : Bytes) (args : EndpointArgs) (extra : X) :
    ∃ e, Created n (n.create key args (some key) extra) key args extra e := by
  obtain ⟨e, made, same⟩ : ∃ e : EndpointTable, (n.world.create args).endpoints = n.world.endpoints ++ [some e] ∧
      e.fields.type = args.type ∧ e.fields.state = initialState args.direction args.type ∧
        e.dtors = dtorsOf args.direction := ⟨_, rfl, rfl, rfl, rfl⟩
  have table : (n.world.create args).endpoints[n.world.endpoints.length]? = some (some e) := by
    rw [made, List.getElem?_concat_length]
  have result : n.create key args (some key) extra =
      { n with
        world := n.world.create args
        self := n.self.insert key n.world.endpoints.length
        displaytext := Function.update n.displaytext n.world.endpoints.length (some key)
        extra := Function.update n.extra n.world.endpoints.length extra
        sent := n.sent ++ [infoEventInternal e (some key) .info] } := by
    unfold Nodule.create Nodule.table
    dsimp only
    rw [table]
    dsimp only
    rw [Nodule.send]
    dsimp only
    rw [Function.update_self]
  refine ⟨e, ?_⟩
  rw [result]
  refine ⟨rfl, AList.lookup_insert _, table, same.1, same.2.1, same.2.2, Function.update_self ..,
    Function.update_self .., rfl, lastAnnounced_own _ rfl, ⟨?_, ?_, fun _ _ => Iff.rfl, ?_⟩, ⟨?_, ?_⟩⟩
  · exact fun d other => AList.lookup_insert_ne other
  · -- the tables of the other endpoints are older
    intro d k other here
    have old := distinct.created d k here
    refine ⟨?_, Function.update_of_ne (Nat.ne_of_lt old) .., Function.update_of_ne (Nat.ne_of_lt old) ..⟩
    change (n.world.create args).endpoints[k]? = n.world.endpoints[k]?
    rw [made, List.getElem?_append_left old]
  · exact fun d other => lastAnnounced_other n.sent fun same => other (Option.some.inj same).symm
  · exact fun d d' k here there => lookup_insert_inj distinct.apart distinct.created key here there
  · intro d k here
    rw [made, List.length_append, List.length_singleton]
    exact lookup_insert_lt distinct.created key here

def EndpointTable.withState (e : EndpointTable) (s : BscState) : EndpointTable :=
  { e with fields := { e.fields with state := s } }

/-- A binary endpoint that is told to be on sends an event unless it was. -/
theorem process_on {e : EndpointTable} (own : n.self.lookup key = some k)
    (table : n.table k = some (some e)) (binary : e.fields.type = .binary) :
    n.process key "on" =
      if e.fields.state = .on then n else (n.put k (e.withState .on)).send k (e.withState .on) .event := by
  have decoded : decodeState "on" = .on := by decide
  unfold Nodule.process
  rw [own]
  dsimp only
  rw [table]
  dsimp only
  rw [binary, decoded]
  by_cases on : e.fields.state = .on
  · rw [if_pos on]
    exact if_pos (decide_eq_true on)
  · rw [if_neg on]
    exact if_neg fun same => on (of_decide_eq_true same)

theorem put_send (e : EndpointTable) (distinct : Distinct n) (own : n.self.lookup key = some k)
    (label : n.displaytext k = some key) (clazz : InfoClass) :
    Apart n ((n.put k e).send k e clazz) key ∧ Distinct ((n.put k e).send k e clazz) ∧
      ((n.put k e).send k e clazz).table k = some (some e) ∧
      lastAnnounced ((n.put k e).send k e clazz).sent key = some e.fields.state := by
  have step : Apart (n.put k e) ((n.put k e).send k e clazz) key := @send_apart X (n.put k e) key k label e clazz
  have same := put_distinct distinct k e
  refine ⟨(put_apart distinct own e).trans step, ⟨same.apart, same.created⟩, ?_, ?_⟩
  · exact put_table (distinct.created key k own) e
  · exact lastAnnounced_own n.sent label

end Frame

end Hah.Lua
