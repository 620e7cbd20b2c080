import Hah.Rf.Hex
import Hah.Lua.Nodule

/-!
# Presence of Bluetooth devices: `BlueNode` in `xap/bluenode.lua`

A sighting of a device sets its endpoint on, and creates the endpoint if there is none; every ten
seconds the reaper sets those off that were not seen for longer than their time to live. An
endpoint that a sighting created is destroyed with that, and taken out of `cfg.endpoints`. The
node itself still refers to its table, which is empty now: when the device comes back it has an
endpoint, so none is created, and that endpoint has no type, so nothing is announced.

A destroyed endpoint besides destroys the filter in `f` and not its own, so that the next one to be
destroyed raises an error (`Hah.Lua.Endpoint`); the program ends with an error in the reaper.

What a node shows of one device is a small state machine (`Shows`), and what happens to one device
leaves the others alone. A sighting is followed here, runs in `Hah.Lua.Presence`.
-/

namespace Hah.Lua
open C Bsc

/-! ## The model -/

/-- The fields that a node adds to the table of an endpoint; `nil` is `none` or `false`. -/
structure BlueFields where
  lastSeen : Option Int
  isAlive : Bool
  ttl : Option Int
  isRemovable : Bool
  deriving DecidableEq, Repr

def BlueFields.empty : BlueFields := ⟨none, false, none, false⟩

abbrev BlueNode := Nodule BlueFields

/-- An order in which `pairs` may enumerate the keys of a table. -/
structure Enumeration where
  order : List Bytes → List Bytes
  all : ∀ keys, (order keys).Perm keys

/-- The configuration of a node. The keys are device addresses, so none of them is the name of a
field of the node. -/
structure BlueConfig where
  base : Bytes
  ttl : Option Int
  endpoints : AList fun _ : Bytes => EpValue
  addresses : ∀ device ∈ endpoints, 58 ∈ device

inductive NodeError where
  /-- a field of `self[key]` where there is none -/
  | indexOfNil
  /-- `now - device.lastSeen > device.ttl` with a field that is not set -/
  | arithmeticOnNil
  /-- `e.infoEventCB` of an empty table -/
  | callOfNil
  | destroy (error : LuaError)
  deriving DecidableEq, Repr

/-- `string.format("%x:%x:%x", ..)` -/
def deviceKey (nap uap lap : Nat) : Bytes :=
  let hex := fun n => Rf.hexDigits (n + 1) n
  hex nap ++ ":" ++ hex uap ++ ":" ++ hex lap

/-- The endpoint of a configured device; `clock` is the time at which it is created. -/
def BlueNode.addConfigured (cfg : BlueConfig) (clock : Bytes → Int) (n : BlueNode) (device : Bytes) :
    BlueNode :=
  n.add device .input .binary (some device) ⟨some (clock device), false, some (cfg.ttl.getD 35), false⟩

def BlueNode.build (w : World) (cfg : BlueConfig) (pairs : Enumeration) (clock : Bytes → Int) : BlueNode :=
  (pairs.order cfg.endpoints.keys).foldl (BlueNode.addConfigured cfg clock)
    ⟨w, ∅, cfg.base, cfg.endpoints, fun _ => none, fun _ => .empty, []⟩

/-- `device:gsub(':','.')` -/
def dotted (device : Bytes) : Bytes := (gsub ":" "." device).getD []

/-- `e.lastSeen = os.time()` and `e.isAlive = true`. -/
def BlueNode.mark (n : BlueNode) (now : Int) (k : Nat) : BlueNode :=
  { n with extra := Function.update n.extra k { n.extra k with lastSeen := some now, isAlive := true } }

/-- The endpoint of a device that is sighted, created if there is none. -/
def BlueNode.find (n : BlueNode) (now : Int) (device : Bytes) : BlueNode :=
  match n.self.lookup device with
  | none =>
    Nodule.add { n with endpoints := n.endpoints.insert device (.name (dotted device)) } device .input .binary
      (some device) ⟨some now, true, some 35, true⟩
  | some k => n.mark now k

/-- `BlueNode:process` of a device. -/
def BlueNode.process (n : BlueNode) (now : Int) (device : Bytes) : BlueNode :=
  Nodule.process (n.find now device) device "on"

/-- `device.isAlive and now - device.lastSeen > device.ttl`; `none` is an error. -/
def BlueFields.overdue (b : BlueFields) (now : Int) : Option Bool :=
  if b.isAlive then
    match b.lastSeen, b.ttl with
    | some lastSeen, some ttl => some (now - lastSeen > ttl)
    | _, _ => none
  else some false

def BlueNode.remove (n : BlueNode) (key : Bytes) (k : Nat) : BlueNode × Option NodeError :=
  match n.world.destroy k with
  | (w, none) =>
    ({ n with
      world := w
      endpoints := n.endpoints.erase key
      displaytext := Function.update n.displaytext k none
      extra := Function.update n.extra k .empty }, none)
  | (w, some error) => ({ n with world := w, endpoints := n.endpoints.erase key }, some (.destroy error))

/-- What the reaper does with an endpoint that is overdue. -/
def BlueNode.expire (n : BlueNode) (key : Bytes) (k : Nat) : BlueNode × Option NodeError :=
  match n.table k with
  | some (some e) =>
    let e' := { e with fields := e.fields.setState .off }
    let announced := (n.put k e').send k e' .event
    let off := { announced with extra := Function.update n.extra k { n.extra k with isAlive := false } }
    if (n.extra k).isRemovable then BlueNode.remove off key k else (off, none)
  | _ => (n, some .callOfNil)

def BlueNode.reap (n : BlueNode) (now : Int) (key : Bytes) : BlueNode × Option NodeError :=
  match n.self.lookup key with
  | none => (n, some .indexOfNil)
  | some k =>
    match (n.extra k).overdue now with
    | none => (n, some .arithmeticOnNil)
    | some false => (n, none)
    | some true => n.expire key k

def BlueNode.reaper (n : BlueNode) (now : Int) : List Bytes → BlueNode × Option NodeError
  | [] => (n, none)
  | key :: keys =>
    match n.reap now key with
    | (n', none) => BlueNode.reaper n' now keys
    | (n', some error) => (n', some error)

inductive Happening where
  | sighting (now : Int) (nap uap lap : Nat)
  | tick (now : Int) (pairs : Enumeration)

def BlueNode.step (n : BlueNode) : Happening → BlueNode × Option NodeError
  | .sighting now nap uap lap => (n.process now (deviceKey nap uap lap), none)
  | .tick now pairs => n.reaper now (pairs.order n.endpoints.keys)

/-- A run, up to the error that ends it. -/
def BlueNode.run (n : BlueNode) : List Happening → BlueNode × Option NodeError
  | [] => (n, none)
  | h :: hs =>
    match n.step h with
    | (n', none) => BlueNode.run n' hs
    | (n', some error) => (n', some error)

/-! ## What a node is for -/

def BlueConfig.configured (cfg : BlueConfig) (device : Bytes) : Bool :=
  match cfg.endpoints.lookup device with
  | none | some .zero => false
  | some _ => true

def BlueConfig.ttlOf (cfg : BlueConfig) (device : Bytes) : Int :=
  if cfg.configured device then cfg.ttl.getD 35 else 35

def lastSighting (events : List Happening) (device : Bytes) : Option Int :=
  (events.filterMap fun h =>
    match h with
    | .sighting now nap uap lap => if deviceKey nap uap lap = device then some now else none
    | .tick _ _ => none).getLast?

/-- The device has a live endpoint that is on, and it was announced so. -/
structure ShownOn (n : BlueNode) (device : Bytes) : Prop where
  endpoint : ∃ k e, n.self.lookup device = some k ∧ n.table k = some (some e) ∧ (n.extra k).isAlive = true ∧
    e.fields.state = .on
  announced : lastAnnounced n.sent device = some .on

/-- The devices that were out of sight for too long were announced off. -/
def ShownOff (cfg : BlueConfig) (seen : Bytes → Option Int) (now : Int) (n : BlueNode) : Prop :=
  ∀ device last, seen device = some last → now - last > cfg.ttlOf device →
    lastAnnounced n.sent device = some .off

/-- **Presence** behind a sighting or a pass of the reaper. -/
structure PresenceAt (cfg : BlueConfig) (before : List Happening) (h : Happening)
    (r : BlueNode × Option NodeError) : Prop where
  silent : r.2 = none
  sighted : ∀ now nap uap lap, h = .sighting now nap uap lap → ShownOn r.1 (deviceKey nap uap lap)
  reaped : ∀ now pairs, h = .tick now pairs → ShownOff cfg (lastSighting before) now r.1

def BlueNode.removes (n : BlueNode) (now : Int) (key : Bytes) : Bool :=
  (n.self.lookup key).any fun k => (n.extra k).overdue now == some true && (n.extra k).isRemovable

/-- The number of endpoints that can be destroyed without an error before another is created: one,
if the filter in `f` is not destroyed. -/
def World.spare (w : World) : Nat := if (w.f.bind w.chain).isSome then 1 else 0

/-- No device comes back after its endpoint was destroyed, and no more endpoints are removed in a
pass than can be destroyed. -/
structure Uneventful (n : BlueNode) (h : Happening) : Prop where
  returns : ∀ now nap uap lap, h = .sighting now nap uap lap → ∀ k, n.self.lookup (deviceKey nap uap lap) = some k →
    n.table k ≠ some none
  removals : ∀ now pairs, h = .tick now pairs → (n.endpoints.keys.filter (n.removes now)).length ≤ n.world.spare

/-! ## One device -/

/-- A device has a live endpoint, and what it was announced as last is its state. -/
structure HasEndpoint (cfg : BlueConfig) (n : BlueNode) (d : Bytes) (k : Nat) (e : EndpointTable) : Prop where
  self : n.self.lookup d = some k
  table : n.table k = some (some e)
  type : e.fields.type = .binary
  dtors : e.dtors = dtorsOf .input
  listed : d ∈ n.endpoints
  label : n.displaytext k = some d
  ttl : (n.extra k).ttl = some (cfg.ttlOf d)
  announced : lastAnnounced n.sent d = some e.fields.state

/-- What a node shows of a device that was sighted last at some time, or never. -/
inductive Shows (cfg : BlueConfig) (n : BlueNode) (d : Bytes) : Option Int → Prop
  | absent (self : n.self.lookup d = none) (unlisted : d ∉ n.endpoints) (dynamic : cfg.ttlOf d = 35) :
      Shows cfg n d none
  | waiting {k : Nat} {e : EndpointTable} (has : HasEndpoint cfg n d k e) (asleep : (n.extra k).isAlive = false)
      (state : e.fields.state = .unknown) : Shows cfg n d none
  | present {k : Nat} {e : EndpointTable} {t : Int} (has : HasEndpoint cfg n d k e)
      (awake : (n.extra k).isAlive = true) (seen : (n.extra k).lastSeen = some t) (state : e.fields.state = .on) :
      Shows cfg n d (some t)
  | away {k : Nat} {e : EndpointTable} {t : Int} (has : HasEndpoint cfg n d k e)
      (asleep : (n.extra k).isAlive = false) (state : e.fields.state = .off) : Shows cfg n d (some t)
  | removed {k : Nat} {t : Int} (self : n.self.lookup d = some k) (empty : n.table k = some none)
      (unlisted : d ∉ n.endpoints) (announced : lastAnnounced n.sent d = some .off) : Shows cfg n d (some t)

section Device

variable {cfg : BlueConfig} {n n' : BlueNode} {d key : Bytes} {k : Nat} {e : EndpointTable}

theorem HasEndpoint.frame (has : HasEndpoint cfg n d k e) (apart : Apart n n' key) (other : d ≠ key) :
    HasEndpoint cfg n' d k e := by
  obtain ⟨table, label, extra⟩ := apart.tables d k other has.self
  exact ⟨(apart.self d other).trans has.self, table.trans has.table, has.type, has.dtors,
    (apart.listed d other).2 has.listed, label.trans has.label, extra ▸ has.ttl,
    (apart.announced d other).trans has.announced⟩

/-- An operation on one device does not touch what is shown of another. -/
theorem Shows.frame {seen : Option Int} (shows : Shows cfg n d seen) (apart : Apart n n' key) (other : d ≠ key) :
    Shows cfg n' d seen := by
  cases shows with
  | absent self unlisted dynamic =>
    exact .absent ((apart.self d other).trans self) (fun mem => unlisted ((apart.listed d other).1 mem)) dynamic
  | waiting has asleep state =>
    obtain ⟨-, -, extra⟩ := apart.tables d _ other has.self
    exact .waiting (has.frame apart other) (extra ▸ asleep) state
  | present has awake last state =>
    obtain ⟨-, -, extra⟩ := apart.tables d _ other has.self
    exact .present (has.frame apart other) (extra ▸ awake) (extra ▸ last) state
  | away has asleep state =>
    obtain ⟨-, -, extra⟩ := apart.tables d _ other has.self
    exact .away (has.frame apart other) (extra ▸ asleep) state
  | removed self empty unlisted announced =>
    obtain ⟨table, -, -⟩ := apart.tables d _ other self
    exact .removed ((apart.self d other).trans self) (table.trans empty)
      (fun mem => unlisted ((apart.listed d other).1 mem)) ((apart.announced d other).trans announced)

/-- An assignment to fields of the node's own in the table of a device. -/
theorem extra_apart (distinct : Distinct n) (own : n.self.lookup key = some k) (b : BlueFields) :
    Apart n { n with extra := Function.update n.extra k b } key := by
  refine ⟨fun _ _ => rfl, fun d j other here => ⟨rfl, rfl, Function.update_of_ne ?_ ..⟩, fun _ _ => Iff.rfl,
    fun _ _ => rfl⟩
  rintro rfl
  exact other (distinct.apart d key j here own)

/-- A device whose endpoint is awake is turned on. -/
theorem process_shows {now : Int} (distinct : Distinct n) (has : HasEndpoint cfg n d k e)
    (awake : (n.extra k).isAlive = true) (last : (n.extra k).lastSeen = some now) :
    Apart n (Nodule.process n d "on") d ∧ Distinct (Nodule.process n d "on") ∧
      (Nodule.process n d "on").world.t = n.world.t ∧
      Shows cfg (Nodule.process n d "on") d (some now) ∧ ShownOn (Nodule.process n d "on") d := by
  rw [process_on has.self has.table has.type]
  split_ifs with on
  · exact ⟨.refl n d, distinct, rfl, .present has awake last on, ⟨k, e, has.self, has.table, awake, on⟩,
      has.announced.trans (congrArg some on)⟩
  · obtain ⟨apart, distinct', table, announced⟩ := put_send (e.withState .on) distinct has.self has.label .event
    refine ⟨apart, distinct', rfl, ?_, ⟨k, _, has.self, table, awake, rfl⟩, announced⟩
    refine @Shows.present cfg _ d k (e.withState .on) now ?_ awake last rfl
    exact ⟨has.self, table, has.type, has.dtors, has.listed, has.label, has.ttl, announced⟩

/-- The device has an endpoint that is awake and was seen just now. -/
structure Ready (cfg : BlueConfig) (n : BlueNode) (d : Bytes) (now : Int) : Prop where
  distinct : Distinct n
  endpoint : ∃ k e, HasEndpoint cfg n d k e ∧ (n.extra k).isAlive = true ∧ (n.extra k).lastSeen = some now
  timer : n.world.t ≠ none

/-- A device without an endpoint gets one. -/
theorem find_new (distinct : Distinct n) (self : n.self.lookup d = none) (dynamic : cfg.ttlOf d = 35) (now : Int) :
    Apart n (n.find now d) d ∧ Ready cfg (n.find now d) d now := by
  let listed : BlueNode := { n with endpoints := n.endpoints.insert d (.name (dotted d)) }
  have first : Apart n listed d := by
    refine ⟨fun _ _ => rfl, fun _ _ _ _ => ⟨rfl, rfl, rfl⟩, fun d' other => ?_, fun _ _ => rfl⟩
    rw [AList.mem_insert]
    exact or_iff_right other
  let args : EndpointArgs := ⟨n.base ++ "." ++ dotted d, .input, .binary, none, none, none⟩
  have result : n.find now d = listed.create d args (some d) ⟨some now, true, some 35, true⟩ := by
    unfold BlueNode.find Nodule.add
    rw [self]
    rw [AList.lookup_insert]
    rfl
  have known : Distinct listed := ⟨distinct.apart, distinct.created⟩
  obtain ⟨e, made⟩ := create_created known d args ⟨some now, true, some 35, true⟩
  rw [← result] at made
  refine ⟨first.trans made.apart, made.distinct, ⟨n.world.endpoints.length, e, ?_, ?_, ?_⟩, ?_⟩
  · refine ⟨made.self, made.table, made.type, made.dtors, ?_, made.label, ?_, made.announced⟩
    · rw [made.listed]
      exact (AList.mem_insert _).2 (.inl rfl)
    · rw [made.extra, dynamic]
  · rw [made.extra]
  · rw [made.extra]
  · rw [made.world, (create_timers _ args).2.1]
    exact Option.some_ne_none _

theorem mark_extra (n : BlueNode) (now : Int) (k : Nat) :
    (n.mark now k).extra k = { n.extra k with lastSeen := some now, isAlive := true } := Function.update_self ..

theorem find_known (distinct : Distinct n) (has : HasEndpoint cfg n d k e) (timer : n.world.t ≠ none) (now : Int) :
    Apart n (n.find now d) d ∧ Ready cfg (n.find now d) d now := by
  have result : n.find now d = n.mark now k := by
    unfold BlueNode.find
    rw [has.self]
  rw [result]
  refine ⟨extra_apart distinct has.self _, ⟨distinct.apart, distinct.created⟩, ⟨k, e, ?_, ?_, ?_⟩, timer⟩
  · refine ⟨has.self, has.table, has.type, has.dtors, has.listed, has.label, ?_, has.announced⟩
    rw [mark_extra]
    exact has.ttl
  · rw [mark_extra]
  · rw [mark_extra]

/-- The endpoint of a device whose table is empty has no type, so nothing is set or sent. -/
theorem process_empty (self : n.self.lookup d = some k) (empty : n.table k = some none) (now : Int) :
    n.process now d = n.mark now k := by
  have found : n.find now d = n.mark now k := by
    unfold BlueNode.find
    rw [self]
  have self' : (n.mark now k).self.lookup d = some k := self
  have empty' : (n.mark now k).table k = some none := empty
  unfold BlueNode.process Nodule.process
  rw [found, self']
  dsimp only
  rw [empty']

/-- **A device that comes back** after its endpoint was destroyed is not shown. -/
theorem return_unshown (self : n.self.lookup d = some k) (empty : n.table k = some none) (now : Int) :
    ¬ ShownOn (n.process now d) d := by
  rw [process_empty self empty]
  rintro ⟨⟨k', e, self', full, -⟩, -⟩
  obtain rfl : k = k' := Option.some.inj (self.symm.trans self')
  have same : n.table k = some (some e) := full
  rw [empty] at same
  cases same

end Device

/-! ## Sightings -/

/-- What holds of a node in every run, with the last sightings. -/
structure Invariant (cfg : BlueConfig) (n : BlueNode) (seen : Bytes → Option Int) : Prop where
  distinct : Distinct n
  shows : ∀ d, Shows cfg n d (seen d)
  timer : ∀ d k, n.self.lookup d = some k → n.world.t ≠ none

section Steps

variable {cfg : BlueConfig} {n n' : BlueNode} {seen : Bytes → Option Int} {d : Bytes} {now : Int}

theorem Invariant.find (inv : Invariant cfg n seen) (kept : ∀ k, n.self.lookup d = some k → n.table k ≠ some none)
    (now : Int) : Apart n (n.find now d) d ∧ Ready cfg (n.find now d) d now := by
  have shows := inv.shows d
  generalize seen d = last at shows
  cases shows with
  | absent self _ dynamic => exact find_new inv.distinct self dynamic now
  | waiting has _ _ => exact find_known inv.distinct has (inv.timer d _ has.self) now
  | present has _ _ _ => exact find_known inv.distinct has (inv.timer d _ has.self) now
  | away has _ _ => exact find_known inv.distinct has (inv.timer d _ has.self) now
  | removed self empty _ _ => exact absurd empty (kept _ self)

/-- **A sighting** keeps the invariant, and the device is shown. -/
theorem Invariant.process (inv : Invariant cfg n seen)
    (kept : ∀ k, n.self.lookup d = some k → n.table k ≠ some none) (now : Int) :
    Invariant cfg (BlueNode.process n now d) (Function.update seen d (some now)) ∧
      ShownOn (BlueNode.process n now d) d := by
  obtain ⟨found, ready⟩ := inv.find kept now
  obtain ⟨k, e, has, awake, last⟩ := ready.endpoint
  obtain ⟨turned, distinct, timer, shows, shown⟩ := process_shows ready.distinct has awake last
  refine ⟨⟨distinct, fun d' => ?_, fun _ _ _ => ?_⟩, shown⟩
  · by_cases same : d' = d
    · subst same
      rw [Function.update_self]
      exact shows
    · rw [Function.update_of_ne same]
      exact (inv.shows d').frame (found.trans turned) same
  · change (Nodule.process (n.find now d) d "on").world.t ≠ none
    rw [timer]
    exact ready.timer

end Steps

end Hah.Lua
