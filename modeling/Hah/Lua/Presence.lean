import Hah.Lua.BlueNode

/-!
# Presence over runs: the reaper of `xap/bluenode.lua`

One turn of the reaper is about one device and leaves the others alone (`Invariant.reap`). It
raises an error if it removes an endpoint when the filter in `f` is destroyed already, and it
destroys that filter otherwise; so a pass can remove one endpoint at most, and none before another
is created (`Invariant.reaper`).

`presence_iff` says when presence is kept: a sighted device is on and announced so, and after every
pass of the reaper the devices out of sight are announced off, in exactly those runs in which no
device comes back after it was removed and no removal meets a filter that is destroyed.
-/

namespace Hah.Lua
open C Bsc List Option

section Steps

variable {cfg : BlueConfig} {n n' : BlueNode} {seen : Bytes → Option Int} {d : Bytes} {now : Int}

/-! ## The reaper -/

variable {k : Nat} {e : EndpointTable} {last : Int} {keys : List Bytes}

theorem destroy_input {w : World} (live : w.endpoints[k]? = some (some e))
    (dtors : e.dtors = dtorsOf .input) (spare : w.spare = 1) (timer : w.t ≠ none) :
    (w.destroy k).2 = none ∧ (w.destroy k).1.endpoints = w.endpoints.set k none ∧ (w.destroy k).1.t = w.t ∧
      (w.destroy k).1.spare = 0 := by
  obtain ⟨tm, setT⟩ := ne_none_iff_exists'.1 timer
  have alive : (w.f.bind w.chain).isSome = true := by
    unfold World.spare at spare
    split_ifs at spare with alive
    exact alive
  cases set : w.f with
  | none =>
    rw [set] at alive
    cases alive
  | some q =>
    rw [set] at alive
    have gone := callAll_gone set .input
    have called := callAll_input set setT alive
    unfold World.destroy
    rw [live]
    dsimp only
    rw [called] at gone
    rw [dtors, called]
    refine ⟨rfl, rfl, rfl, if_neg ?_⟩
    rw [set]
    exact not_isSome_iff_eq_none.2 gone

/-- A destroy that does not raises an error. -/
theorem destroy_spent_input {w : World} (live : w.endpoints[k]? = some (some e))
    (dtors : e.dtors = dtorsOf .input) (spare : w.spare = 0) : (w.destroy k).2 ≠ none := by
  rw [(destroy_live live).1, dtors]
  have spent : w.f.bind w.chain = none := by
    unfold World.spare at spare
    split_ifs at spare with alive
    exact not_isSome_iff_eq_none.1 alive
  cases set : w.f with
  | none => simp [dtorsOf, World.callAll, World.call, set]
  | some q =>
    rw [set] at spent
    rw [callAll_fails set spent]
    exact some_ne_none _

/-- What the reaper owes a device. -/
def Settled (cfg : BlueConfig) (seen : Bytes → Option Int) (now : Int) (n : BlueNode) (d : Bytes) :
    Prop :=
  ∀ last, seen d = some last → now - last > cfg.ttlOf d → lastAnnounced n.sent d = some .off

/-- What one turn of the reaper does with a device. -/
structure Reaped (cfg : BlueConfig) (seen : Bytes → Option Int) (now : Int) (n n' : BlueNode)
    (d : Bytes) : Prop where
  apart : Apart n n' d
  invariant : Invariant cfg n' seen
  settled : Settled cfg seen now n' d
  spare : n'.world.spare = if n.removes now d then 0 else n.world.spare

theorem Reaped.same (inv : Invariant cfg n seen) (stays : n.removes now d = false)
    (settled : Settled cfg seen now n d) : Reaped cfg seen now n n d := by
  refine ⟨.refl n d, inv, settled, ?_⟩
  rw [stays]
  rfl

theorem Reaped.of (inv : Invariant cfg n seen) (apart : Apart n n' d) (distinct : Distinct n')
    (timer : n'.world.t = n.world.t) (self : n.self.lookup d = some k) (shows : Shows cfg n' d (seen d))
    (off : lastAnnounced n'.sent d = some .off)
    (spare : n'.world.spare = if n.removes now d then 0 else n.world.spare) : Reaped cfg seen now n n' d := by
  refine ⟨apart, ⟨distinct, fun d' => ?_, fun _ _ _ => ?_⟩, fun _ _ _ => off, spare⟩
  · by_cases same : d' = d
    · rw [same]
      exact shows
    · exact (inv.shows d').frame apart same
  · rw [timer]
    exact inv.timer d k self

/-- The state of a node that has set a device off. -/
def BlueNode.setOff (n : BlueNode) (k : Nat) (e : EndpointTable) : BlueNode :=
  { (n.put k (e.withState .off)).send k (e.withState .off) .event with
    extra := Function.update n.extra k { n.extra k with isAlive := false } }

theorem setOff_has (distinct : Distinct n) (has : HasEndpoint cfg n d k e) :
    Apart n (n.setOff k e) d ∧ Distinct (n.setOff k e) ∧ HasEndpoint cfg (n.setOff k e) d k (e.withState .off) ∧
      ((n.setOff k e).extra k).isAlive = false := by
  obtain ⟨apart, distinct', table, announced⟩ := put_send (e.withState .off) distinct has.self has.label .event
  have asleep : (n.setOff k e).extra k = { n.extra k with isAlive := false } := Function.update_self ..
  refine ⟨apart.trans (extra_apart distinct' has.self _), ⟨distinct'.apart, distinct'.created⟩, ?_, by rw [asleep]⟩
  exact ⟨has.self, table, has.type, has.dtors, has.listed, has.label, by rw [asleep]; exact has.ttl, announced⟩

/-- An endpoint that stays is away. -/
theorem Invariant.expire_kept (inv : Invariant cfg n seen) (has : HasEndpoint cfg n d k e)
    (sighted : seen d = some last) (stays : n.removes now d = false) : Reaped cfg seen now n (n.setOff k e) d := by
  obtain ⟨apart, distinct, has', asleep⟩ := setOff_has inv.distinct has
  refine .of inv apart distinct rfl has.self ?_ has'.announced ?_
  · rw [sighted]
    exact .away has' asleep rfl
  · rw [stays]
    rfl

theorem remove_apart {w : World} (distinct : Distinct n) (self : n.self.lookup d = some k)
    (destroyed : n.world.destroy k = (w, none)) (endpoints : w.endpoints = n.world.endpoints.set k none) :
    ∃ n', n.remove d k = (n', none) ∧ Apart n n' d ∧ Distinct n' ∧ n'.world = w ∧ n'.sent = n.sent ∧
      n'.self.lookup d = some k ∧ n'.table k = some none ∧ d ∉ n'.endpoints := by
  have result : n.remove d k =
      ({ n with
        world := w
        endpoints := n.endpoints.erase d
        displaytext := Function.update n.displaytext k none
        extra := Function.update n.extra k .empty }, none) := by
    unfold BlueNode.remove
    rw [destroyed]
  refine ⟨_, result, ⟨fun _ _ => rfl, fun d' j other here => ?_, fun d' other => ?_, fun _ _ => rfl⟩,
    ⟨distinct.apart, fun d' j here => ?_⟩, rfl, rfl, self, ?_, ?_⟩
  · have apart : j ≠ k := fun same => other (distinct.apart d' d j here (same ▸ self))
    refine ⟨?_, Function.update_of_ne apart .., Function.update_of_ne apart ..⟩
    change w.endpoints[j]? = _
    rw [endpoints, getElem?_set_ne apart.symm]
    rfl
  · rw [AList.mem_erase]
    exact and_iff_right other
  · dsimp only
    rw [endpoints, length_set]
    exact distinct.created d' j here
  · change w.endpoints[k]? = _
    rw [endpoints, getElem?_set_self (distinct.created d k self)]
  · dsimp only
    rw [AList.mem_erase]
    exact fun mem => mem.1 rfl

/-- An endpoint that is destroyed is removed. -/
theorem Invariant.expire_removed (inv : Invariant cfg n seen) (has : HasEndpoint cfg n d k e)
    (sighted : seen d = some last) (removes : n.removes now d = true) (spare : n.world.spare = 1) :
    ∃ n', (n.setOff k e).remove d k = (n', none) ∧ Reaped cfg seen now n n' d := by
  obtain ⟨apart, distinct, has', -⟩ := setOff_has inv.distinct has
  have timer := inv.timer d k has.self
  obtain ⟨silent, endpoints, sameTimer, spent⟩ := destroy_input has'.table has'.dtors spare timer
  obtain ⟨n', result, apart', distinct', world, sent, self, empty, unlisted⟩ :=
    remove_apart distinct has'.self (Prod.ext rfl silent) endpoints
  have off : lastAnnounced n'.sent d = some .off := by
    rw [sent]
    exact has'.announced
  refine ⟨n', result, .of inv (apart.trans apart') distinct' ?_ has.self ?_ off ?_⟩
  · rw [world]
    exact sameTimer
  · rw [sighted]
    exact .removed self empty unlisted off
  · rw [world, removes]
    exact spent

/-- When a device with an endpoint is removed. -/
theorem removes_eq (self : n.self.lookup d = some k) :
    n.removes now d = ((n.extra k).overdue now == some true && (n.extra k).isRemovable) := by
  rw [BlueNode.removes, self, any_some]

theorem overdue_asleep {b : BlueFields} (asleep : b.isAlive = false) : b.overdue now = some false := by
  unfold BlueFields.overdue
  rw [asleep]
  rfl

theorem overdue_awake {b : BlueFields} {ttl : Int} (awake : b.isAlive = true) (seenAt : b.lastSeen = some last)
    (lives : b.ttl = some ttl) (now : Int) : b.overdue now = some (decide (now - last > ttl)) := by
  unfold BlueFields.overdue
  rw [awake, seenAt, lives]
  rfl

theorem Invariant.reap_passes (inv : Invariant cfg n seen) (self : n.self.lookup d = some k)
    (early : (n.extra k).overdue now = some false) (settled : Settled cfg seen now n d) :
    ∃ n', n.reap now d = (n', none) ∧ Reaped cfg seen now n n' d := by
  refine ⟨n, ?_, .same inv ?_ settled⟩
  · unfold BlueNode.reap
    rw [self]
    dsimp only
    rw [early]
  · rw [removes_eq self, early]
    rfl

theorem reap_overdue (has : HasEndpoint cfg n d k e) (late : (n.extra k).overdue now = some true) :
    n.reap now d = if n.removes now d then (n.setOff k e).remove d k else (n.setOff k e, none) := by
  rw [removes_eq has.self, late]
  unfold BlueNode.reap
  rw [has.self]
  dsimp only
  rw [late]
  dsimp only [BlueNode.expire]
  rw [has.table]
  rfl

/-- **One turn of the reaper** raises no error if its destroy does not, and leaves a device that is
overdue announced off. -/
theorem Invariant.reap (inv : Invariant cfg n seen) (listed : d ∈ n.endpoints)
    (spare : n.removes now d = true → n.world.spare = 1) :
    ∃ n', n.reap now d = (n', none) ∧ Reaped cfg seen now n n' d := by
  have shows := inv.shows d
  cases last : seen d with
  | none =>
    rw [last] at shows
    have nothing : Settled cfg seen now n d := fun t some => by rw [last] at some; cases some
    cases shows with
    | absent self unlisted _ => exact absurd listed unlisted
    | waiting has asleep _ => exact inv.reap_passes has.self (overdue_asleep asleep) nothing
  | some t =>
    rw [last] at shows
    cases shows with
    | @present k e _ has awake seenAt _ =>
      have due := overdue_awake awake seenAt has.ttl now
      by_cases late : now - t > cfg.ttlOf d
      · rw [decide_eq_true late] at due
        rw [reap_overdue has due]
        cases removes : n.removes now d with
        | true => exact inv.expire_removed has last removes (spare removes)
        | false => exact ⟨_, rfl, inv.expire_kept has last removes⟩
      · rw [decide_eq_false late] at due
        refine inv.reap_passes has.self due fun t' same late' => absurd late' ?_
        rw [last] at same
        rwa [← some.inj same]
    | away has asleep off =>
      exact inv.reap_passes has.self (overdue_asleep asleep) fun _ _ _ => has.announced.trans (congrArg some off)
    | removed _ _ unlisted _ => exact absurd listed unlisted

/-- A turn that removes a device raises an error if the filter in `f` is destroyed. -/
theorem Invariant.reap_fails (inv : Invariant cfg n seen) (listed : d ∈ n.endpoints)
    (removes : n.removes now d = true) (spare : n.world.spare = 0) : (n.reap now d).2 ≠ none := by
  have fails : ∀ {k e}, HasEndpoint cfg n d k e → (n.reap now d).2 ≠ none := by
    intro k e has
    have late : (n.extra k).overdue now = some true := by
      rw [removes_eq has.self, Bool.and_eq_true, beq_iff_eq] at removes
      exact removes.1
    obtain ⟨-, -, has', -⟩ := setOff_has inv.distinct has
    have error := destroy_spent_input has'.table has'.dtors spare
    rw [reap_overdue has late, removes]
    change ((n.setOff k e).remove d k).2 ≠ none
    unfold BlueNode.remove
    split
    next w destroyed => exact absurd (congrArg Prod.snd destroyed) error
    next w failed destroyed => exact some_ne_none _
  have shows := inv.shows d
  generalize seen d = last at shows
  cases shows with
  | absent _ unlisted _ => exact absurd listed unlisted
  | waiting has _ _ => exact fails has
  | present has _ _ _ => exact fails has
  | away has _ _ => exact fails has
  | removed _ _ unlisted _ => exact absurd listed unlisted

theorem removes_apart {key : Bytes} (apart : Apart n n' key) (other : d ≠ key) :
    n'.removes now d = n.removes now d := by
  unfold BlueNode.removes
  rw [apart.self d other]
  cases here : n.self.lookup d with
  | none => rfl
  | some k => rw [any_some, any_some, (apart.tables d k other here).2.2]

/-- The devices behind the one that was reaped. -/
theorem Reaped.behind (reaped : Reaped cfg seen now n n' d) (fresh : d ∉ keys)
    (listed : ∀ d' ∈ keys, d' ∈ n.endpoints) :
    (∀ d' ∈ keys, d' ∈ n'.endpoints) ∧ keys.filter (n'.removes now) = keys.filter (n.removes now) := by
  have other : ∀ d' ∈ keys, d' ≠ d := fun d' mem same => fresh (same ▸ mem)
  constructor
  · exact fun d' mem => (reaped.apart.listed d' (other d' mem)).2 (listed d' mem)
  · exact filter_congr fun d' mem => removes_apart reaped.apart (other d' mem)

theorem spare_le (w : World) : w.spare ≤ 1 := by
  unfold World.spare
  split_ifs
  · exact Nat.le_refl 1
  · exact Nat.zero_le 1

/-- **The loop of the reaper.** Every turn leaves enough for the ones behind it: a device that is
removed is the only one, and any other turn does not touch the filter in `f`. -/
theorem Invariant.reaper (inv : Invariant cfg n seen) (now : Int) (once : keys.Nodup) (listed : ∀ d ∈ keys, d ∈ n.endpoints) :
    if (keys.filter (n.removes now)).length ≤ n.world.spare then
      ∃ n', n.reaper now keys = (n', none) ∧ Invariant cfg n' seen ∧ (∀ d ∈ keys, Settled cfg seen now n' d) ∧
        ∀ d, d ∉ keys → lastAnnounced n'.sent d = lastAnnounced n.sent d
    else (n.reaper now keys).2 ≠ none := by
  induction keys generalizing n with
  | nil => exact (if_pos (Nat.zero_le _)).mpr ⟨n, rfl, inv, fun _ none => (nomatch none), fun _ _ => rfl⟩
  | cons key keys ih =>
    obtain ⟨fresh, once⟩ := nodup_cons.1 once
    obtain ⟨first, later⟩ := forall_mem_cons.1 listed
    rw [BlueNode.reaper]
    by_cases fails : n.removes now key = true ∧ n.world.spare = 0
    · have error := inv.reap_fails first fails.1 fails.2
      rw [filter_cons_of_pos fails.1, length_cons, fails.2, if_neg (Nat.not_succ_le_zero _)]
      split
      next n₁ turn => exact absurd (congrArg Prod.snd turn) error
      next => exact some_ne_none _
    · have spare : n.removes now key = true → n.world.spare = 1 := by
        intro removes
        have some : n.world.spare ≠ 0 := fun none => fails ⟨removes, none⟩
        have atMost := spare_le n.world
        omega
      obtain ⟨n₁, turn, reaped⟩ := inv.reap first spare
      obtain ⟨listed', same⟩ := reaped.behind fresh later
      have left : (keys.filter (n₁.removes now)).length ≤ n₁.world.spare ↔
          ((key :: keys).filter (n.removes now)).length ≤ n.world.spare := by
        rw [same, reaped.spare]
        cases removes : n.removes now key with
        | true =>
          rw [filter_cons_of_pos removes, length_cons, spare removes]
          exact Nat.succ_le_succ_iff.symm
        | false =>
          rw [filter_cons_of_neg (by rw [removes]; exact Bool.false_ne_true)]
          rfl
      have rest := ih reaped.invariant once listed'
      simp only [left] at rest
      rw [turn]
      split_ifs at rest ⊢
      · obtain ⟨n', ran, invariant, settled, unchanged⟩ := rest
        refine ⟨n', ran, invariant, forall_mem_cons.2 ⟨fun last seenAt due => ?_, settled⟩, fun d away => ?_⟩
        · exact (unchanged key fresh).trans (reaped.settled last seenAt due)
        · rw [mem_cons, not_or] at away
          exact (unchanged d away.2).trans (reaped.apart.announced d away.1)
      · exact rest

/-- **A pass of the reaper** keeps the invariant, and leaves no device announced on that is overdue;
it ends in an error if it has more to remove than the filter in `f` allows. -/
theorem Invariant.tick (inv : Invariant cfg n seen) (now : Int) (pairs : Enumeration) :
    if (n.endpoints.keys.filter (n.removes now)).length ≤ n.world.spare then
      ∃ n', n.reaper now (pairs.order n.endpoints.keys) = (n', none) ∧ Invariant cfg n' seen ∧ ShownOff cfg seen now n'
    else (n.reaper now (pairs.order n.endpoints.keys)).2 ≠ none := by
  have all := pairs.all n.endpoints.keys
  have pass := inv.reaper now (all.nodup_iff.2 n.endpoints.keys_nodup)
    fun d mem => AList.mem_keys.2 (all.mem_iff.1 mem)
  rw [(all.filter _).length_eq] at pass
  split_ifs at pass ⊢
  on_goal 2 => exact pass
  obtain ⟨n', pass, invariant, settled, unchanged⟩ := pass
  refine ⟨n', pass, invariant, fun d last seenAt due => ?_⟩
  by_cases listed : d ∈ n.endpoints
  · exact settled d (all.mem_iff.2 (AList.mem_keys.1 listed)) last seenAt due
  · -- the only sighted device without a configuration is one that was removed
    rw [unchanged d fun mem => listed (AList.mem_keys.2 (all.mem_iff.1 mem))]
    have shows := inv.shows d
    rw [seenAt] at shows
    cases shows with
    | present has _ _ _ => exact absurd has.listed listed
    | away has _ _ => exact absurd has.listed listed
    | removed _ _ _ announced => exact announced

/-! ## Runs -/

theorem ttlOf_given {value : EpValue} (given : cfg.endpoints.lookup d = some value) (wanted : value ≠ .zero) :
    cfg.ttlOf d = cfg.ttl.getD 35 := by
  unfold BlueConfig.ttlOf BlueConfig.configured
  rw [given]
  cases value with
  | zero => exact absurd rfl wanted
  | one => rfl
  | name s => rfl

theorem ttlOf_other (other : cfg.endpoints.lookup d = none ∨ cfg.endpoints.lookup d = some .zero) :
    cfg.ttlOf d = 35 := by
  unfold BlueConfig.ttlOf BlueConfig.configured
  rcases other with none | zero
  · rw [none]
    rfl
  · rw [zero]
    rfl

/-- What `build` does with one of the configured devices. -/
structure Configures (cfg : BlueConfig) (n n' : BlueNode) (d : Bytes) : Prop where
  apart : Apart n n' d
  distinct : Distinct n'
  shows : Shows cfg n' d none
  values : ∀ d', d' ≠ d → n'.endpoints.lookup d' = n.endpoints.lookup d'
  timer : ∀ d' k, n'.self.lookup d' = some k → n'.world.t ≠ none

/-- A device that is not wanted has no endpoint, and is not listed any more. -/
theorem addConfigured_zero (distinct : Distinct n) (timer : ∀ d' k, n.self.lookup d' = some k → n.world.t ≠ none)
    (self : n.self.lookup d = none) (value : n.endpoints.lookup d = some .zero)
    (given : cfg.endpoints.lookup d = some .zero) (clock : Bytes → Int) :
    Configures cfg n (n.addConfigured cfg clock d) d := by
  have result : n.addConfigured cfg clock d = { n with endpoints := n.endpoints.erase d } := by
    unfold BlueNode.addConfigured Nodule.add
    rw [value]
    rfl
  rw [result]
  refine ⟨⟨fun _ _ => rfl, fun _ _ _ _ => ⟨rfl, rfl, rfl⟩, fun d' other => ?_, fun _ _ => rfl⟩,
    ⟨distinct.apart, distinct.created⟩, .absent self ?_ (ttlOf_other (.inr given)),
    fun d' other => AList.lookup_erase_ne other, timer⟩
  · rw [AList.mem_erase]
    exact and_iff_right other
  · rw [AList.mem_erase]
    exact fun mem => mem.1 rfl

/-- Any other waits for its first sighting. -/
theorem addConfigured_wanted (distinct : Distinct n) {v : EpValue} (value : n.endpoints.lookup d = some v)
    (given : cfg.endpoints.lookup d = some v) (wanted : v ≠ .zero) (clock : Bytes → Int) :
    Configures cfg n (n.addConfigured cfg clock d) d := by
  obtain ⟨source, built⟩ : ∃ source, sourceOf n.base d v = some source := by
    cases v with
    | zero => exact absurd rfl wanted
    | one => exact ⟨_, rfl⟩
    | name s => exact ⟨_, rfl⟩
  have result : n.addConfigured cfg clock d = n.create d ⟨source, .input, .binary, none, none, none⟩ (some d)
      ⟨some (clock d), false, some (cfg.ttl.getD 35), false⟩ := by
    unfold BlueNode.addConfigured Nodule.add
    rw [value]
    dsimp only
    rw [built]
  obtain ⟨e, made⟩ := create_created distinct d ⟨source, .input, .binary, none, none, none⟩
    (⟨some (clock d), false, some (cfg.ttl.getD 35), false⟩ : BlueFields)
  rw [← result] at made
  have has : HasEndpoint cfg (n.addConfigured cfg clock d) d n.world.endpoints.length e := by
    refine ⟨made.self, made.table, made.type, made.dtors, ?_, made.label, ?_, made.announced⟩
    · rw [made.listed]
      exact AList.lookup_isSome.1 (by rw [value]; rfl)
    · rw [made.extra, ttlOf_given given wanted]
  refine ⟨made.apart, made.distinct, .waiting has (by rw [made.extra]) made.state, fun d' _ => by rw [made.listed],
    fun _ _ _ => ?_⟩
  rw [made.world, (create_timers _ _).2.1]
  exact some_ne_none _

/-- The devices in `keys` have no endpoint yet; any other has the one that it was configured with. -/
structure Building (cfg : BlueConfig) (n : BlueNode) (keys : List Bytes) : Prop where
  distinct : Distinct n
  left : ∀ d ∈ keys, n.self.lookup d = none ∧ d ∈ cfg.endpoints ∧ n.endpoints.lookup d = cfg.endpoints.lookup d
  done : ∀ d, d ∉ keys → Shows cfg n d none
  timer : ∀ d k, n.self.lookup d = some k → n.world.t ≠ none

theorem Building.add (building : Building cfg n (d :: keys)) (fresh : d ∉ keys)
    (clock : Bytes → Int) : Building cfg (n.addConfigured cfg clock d) keys := by
  obtain ⟨self, listed, value⟩ := building.left d mem_cons_self
  obtain ⟨v, given⟩ := isSome_iff_exists.1 (AList.lookup_isSome.2 listed)
  rw [given] at value
  have configures : Configures cfg n (n.addConfigured cfg clock d) d := by
    by_cases wanted : v = .zero
    · subst wanted
      exact addConfigured_zero building.distinct building.timer self value given clock
    · exact addConfigured_wanted building.distinct value given wanted clock
  refine ⟨configures.distinct, fun d' mem => ?_, fun d' away => ?_, configures.timer⟩
  · have other : d' ≠ d := fun same => fresh (same ▸ mem)
    obtain ⟨self', listed', value'⟩ := building.left d' (mem_cons_of_mem d mem)
    exact ⟨(configures.apart.self d' other).trans self', listed', (configures.values d' other).trans value'⟩
  · by_cases same : d' = d
    · rw [same]
      exact configures.shows
    · refine (building.done d' fun mem => ?_).frame configures.apart same
      exact (mem_cons.1 mem).elim same away

theorem Building.all (building : Building cfg n keys) (once : keys.Nodup)
    (clock : Bytes → Int) : Building cfg (keys.foldl (BlueNode.addConfigured cfg clock) n) [] := by
  induction keys generalizing n with
  | nil => exact building
  | cons d keys ih =>
    obtain ⟨fresh, once⟩ := nodup_cons.1 once
    exact ih (building.add fresh clock) once

/-- A node that was built has seen nothing. -/
theorem build_invariant (w : World) (cfg : BlueConfig) (pairs : Enumeration) (clock : Bytes → Int) :
    Invariant cfg (BlueNode.build w cfg pairs clock) fun _ => none := by
  have all := pairs.all cfg.endpoints.keys
  have start : Building cfg ⟨w, ∅, cfg.base, cfg.endpoints, fun _ => none, fun _ => .empty, []⟩
      (pairs.order cfg.endpoints.keys) := by
    refine ⟨⟨?_, ?_⟩, fun d mem => ⟨rfl, AList.mem_keys.2 (all.mem_iff.1 mem), rfl⟩, fun d away => ?_, ?_⟩
    · exact fun d _ k here => nomatch here
    · exact fun d k here => nomatch here
    · have unlisted : d ∉ cfg.endpoints := fun mem => away (all.mem_iff.2 (AList.mem_keys.1 mem))
      exact .absent rfl unlisted (ttlOf_other (.inl (AList.lookup_eq_none.2 unlisted)))
    · exact fun d k here => nomatch here
  have built := start.all (all.nodup_iff.2 cfg.endpoints.keys_nodup) clock
  exact ⟨built.distinct, fun d => built.done d not_mem_nil, built.timer⟩

end Steps

/-! ## Runs -/

theorem run_happening (n : BlueNode) (events : List Happening) (h : Happening) (silent : (n.run events).2 = none) :
    n.run (events ++ [h]) = (n.run events).1.step h := by
  induction events generalizing n with
  | nil =>
    change n.run [h] = n.step h
    rw [BlueNode.run]
    cases n.step h with
    | mk n' error => cases error <;> rfl
  | cons first events ih =>
    rw [cons_append, BlueNode.run]
    rw [BlueNode.run] at silent ⊢
    cases stepped : n.step first with
    | mk n' error =>
      rw [stepped] at silent
      cases error with
      | none => exact ih n' silent
      | some error => cases silent

theorem lastSighting_sighting (events : List Happening) (now : Int) (nap uap lap : Nat) :
    lastSighting (events ++ [.sighting now nap uap lap]) =
      Function.update (lastSighting events) (deviceKey nap uap lap) (some now) := by
  funext d
  unfold lastSighting
  rw [filterMap_append]
  by_cases same : d = deviceKey nap uap lap
  · subst same
    simp
  · rw [Function.update_of_ne same]
    simp [Ne.symm same]

theorem lastSighting_tick (events : List Happening) (now : Int) (pairs : Enumeration) :
    lastSighting (events ++ [.tick now pairs]) = lastSighting events := by
  funext d
  unfold lastSighting
  rw [filterMap_append]
  simp

/-- Every step of the run meets its condition in the state before it. -/
def UneventfulRun (n : BlueNode) (events : List Happening) : Prop :=
  ∀ before h after, events = before ++ h :: after → Uneventful (n.run before).1 h

/-- **One step** of a run. -/
theorem Invariant.step {cfg : BlueConfig} {n : BlueNode} {events : List Happening}
    (inv : Invariant cfg n (lastSighting events)) {h : Happening} (uneventful : Uneventful n h) :
    Invariant cfg (n.step h).1 (lastSighting (events ++ [h])) ∧ PresenceAt cfg events h (n.step h) := by
  cases h with
  | sighting now nap uap lap =>
    obtain ⟨invariant, shown⟩ := inv.process (uneventful.returns now nap uap lap rfl) now
    rw [lastSighting_sighting]
    refine ⟨invariant, rfl, fun _ _ _ _ same => ?_, fun _ _ same => nomatch same⟩
    cases same
    exact shown
  | tick now pairs =>
    have pass := inv.tick now pairs
    rw [if_pos (uneventful.removals now pairs rfl)] at pass
    obtain ⟨n', pass, invariant, off⟩ := pass
    rw [lastSighting_tick, BlueNode.step, pass]
    refine ⟨invariant, rfl, fun _ _ _ _ same => (nomatch same), fun _ _ same => ?_⟩
    cases same
    exact off

/-- A step that does not meet its condition fails. -/
theorem Invariant.step_fails {cfg : BlueConfig} {n : BlueNode} {events : List Happening}
    (inv : Invariant cfg n (lastSighting events)) {h : Happening} (presence : PresenceAt cfg events h (n.step h)) :
    Uneventful n h := by
  constructor
  · rintro now nap uap lap rfl k self empty
    exact return_unshown self empty now (presence.sighted now nap uap lap rfl)
  · rintro now pairs rfl
    by_contra many
    have pass := inv.tick now pairs
    rw [if_neg many] at pass
    exact pass presence.silent

section Built

variable (w : World) (cfg : BlueConfig) (pairs : Enumeration) (clock : Bytes → Int) {events : List Happening}

/-- The invariant holds behind every run. -/
theorem run_invariant (uneventful : UneventfulRun (BlueNode.build w cfg pairs clock) events) :
    ((BlueNode.build w cfg pairs clock).run events).2 = none ∧
      Invariant cfg ((BlueNode.build w cfg pairs clock).run events).1 (lastSighting events) := by
  induction events using List.reverseRecOn with
  | nil => exact ⟨rfl, build_invariant w cfg pairs clock⟩
  | append_singleton events h ih =>
    obtain ⟨silent, inv⟩ := ih fun before h' after split => uneventful before h' (after ++ [h]) (by simp [split])
    obtain ⟨invariant, presence⟩ := inv.step (uneventful events h [] rfl)
    rw [run_happening _ events h silent]
    exact ⟨presence.silent, invariant⟩

/-- A run that meets its conditions up to some step. -/
theorem UneventfulRun.before {n : BlueNode} {before after : List Happening} {h : Happening}
    (uneventful : UneventfulRun n events) (split : events = before ++ h :: after) : UneventfulRun n before := by
  intro first h' rest inside
  exact uneventful first h' (rest ++ h :: after) (by rw [split, inside, append_assoc]; rfl)

/-- If presence holds behind every step, every step met its condition. -/
theorem uneventful_of_presence
    (presence : ∀ before h after, events = before ++ h :: after →
      PresenceAt cfg before h ((BlueNode.build w cfg pairs clock).run (before ++ [h]))) :
    UneventfulRun (BlueNode.build w cfg pairs clock) events := by
  induction events using List.reverseRecOn with
  | nil =>
    intro before h after split
    exact absurd split.symm (append_ne_nil_of_right_ne_nil before (cons_ne_nil h after))
  | append_singleton events last ih =>
    have earlier :=
      ih fun before h after split => presence before h (after ++ [last]) (by rw [split, append_assoc]; rfl)
    obtain ⟨silent, inv⟩ := run_invariant w cfg pairs clock earlier
    have here := presence events last [] rfl
    rw [run_happening _ events last silent] at here
    intro before h after split
    rcases eq_nil_or_concat' after with rfl | ⟨middle, last', rfl⟩
    · obtain ⟨rfl, same⟩ := append_inj' split rfl
      obtain rfl := singleton_inj.1 same
      exact inv.step_fails here
    · rw [← cons_append, ← append_assoc] at split
      obtain ⟨rfl, -⟩ := append_inj' split rfl
      exact earlier before h middle rfl

/-- **Presence.** Behind every step of a run a device that was just sighted is on and announced so,
and the reaper leaves every device that is out of sight for longer than its time to live announced
off, if and only if no device comes back after its endpoint was destroyed and no pass of the reaper
removes more endpoints than the filter in `f` allows. -/
theorem presence_iff (events : List Happening) :
    (∀ before h after, events = before ++ h :: after →
      PresenceAt cfg before h ((BlueNode.build w cfg pairs clock).run (before ++ [h]))) ↔
      UneventfulRun (BlueNode.build w cfg pairs clock) events := by
  refine ⟨uneventful_of_presence w cfg pairs clock, fun uneventful before h after split => ?_⟩
  obtain ⟨silent, inv⟩ := run_invariant w cfg pairs clock (uneventful.before split)
  rw [run_happening _ before h silent]
  exact (inv.step (uneventful before h after split)).2

end Built

/-! ## Two runs -/

/-- `BlueNode{instance="bluetooth:presence"}`: the devices are discovered. -/
def discovering : BlueConfig := ⟨"dbzoo.livebox.bluetooth:presence", none, ∅, fun _ mem => nomatch mem⟩

def asListed : Enumeration := ⟨fun keys => keys, fun _ => .refl _⟩

def discoveringNode : BlueNode := BlueNode.build initialised discovering asListed fun _ => 0

def seenAndGone : List Happening := [.sighting 0 0x1d 0xfe 0x720479, .tick 40 asListed]

def twoSeen : List Happening := [.sighting 0 0x1d 0xfe 0x720479, .sighting 1 0x12 0x37 0xe90912]

/-- The device comes back and is still announced off. And when both of two devices expire, the
destroy of the second raises an error. -/
theorem returning_device_unannounced :
    ¬ PresenceAt discovering seenAndGone (.sighting 50 0x1d 0xfe 0x720479)
        (discoveringNode.run (seenAndGone ++ [.sighting 50 0x1d 0xfe 0x720479])) ∧
      ¬ PresenceAt discovering twoSeen (.tick 40 asListed)
        (discoveringNode.run (twoSeen ++ [.tick 40 asListed])) := by
  have off : lastAnnounced (discoveringNode.run (seenAndGone ++ [.sighting 50 0x1d 0xfe 0x720479])).1.sent
      (deviceKey 0x1d 0xfe 0x720479) = some .off := by decide +kernel
  have error : (discoveringNode.run (twoSeen ++ [.tick 40 asListed])).2 = some (.destroy .lengthOfNil) := by
    decide +kernel
  constructor
  · intro presence
    have on := (presence.sighted 50 0x1d 0xfe 0x720479 rfl).announced
    rw [off] at on
    cases on
  · intro presence
    have silent := presence.silent
    rw [error] at silent
    cases silent

end Hah.Lua
