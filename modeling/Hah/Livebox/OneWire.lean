import Hah.Lib.Registry
import Hah.Livebox.Ini

/-!
# 1-wire sensors: `resetOneWireEndpoints`

A reset deletes the endpoints of the sensors with everything registered for them, reads
the settings file again and creates the endpoints anew. The deletion is spread over
three functions: the reset removes one timeout of an endpoint, `bscDelEndpoint` one more
and all its filters, and `xapDelTimeoutActionByFunc` the timeout that asks for reports.

The registrations of an endpoint are an account in the sense of `Hah.Lib.Registry`. An
account never holds more than two timeouts, so the two removals empty it, and no
registration outlives its endpoint.
-/

namespace Hah.Livebox
open C Bsc Lib List Function

/-! ## Deleting and loading -/

/-- `strcmp(e->name, "1wire") == 0`. -/
def isOneWire (e : Endpoint Handle) : Bool := e.name == "1wire"

/-- `xapFindTimeoutByUserData` and `xapDelTimeoutAction` of what it finds. -/
def Daemon.delTimeoutOf (s : Daemon) (addr : Nat) : Daemon :=
  { s with timeoutList := s.timeoutList.eraseP fun c => c.userData == some addr }

/-- `xapDelFilterActionForUserData`. -/
def Daemon.delFiltersOf (s : Daemon) (addr : Nat) : Daemon :=
  { s with filterList := s.filterList.filter fun f => !(f.userData == some addr) }

def bscDelEndpoint (s : Daemon) (e : Endpoint Handle) : Daemon :=
  (s.delFiltersOf (addrOf e)).delTimeoutOf (addrOf e)

/-- `LL_DELETE(endpointList, e)`. -/
def Daemon.unlink (s : Daemon) (e : Endpoint Handle) : Daemon :=
  { s with endpointList := s.endpointList.eraseP fun x => addrOf x == addrOf e }

def dropSensor (s : Daemon) (e : Endpoint Handle) : Daemon :=
  if isOneWire e then bscDelEndpoint ((s.unlink e).delTimeoutOf (addrOf e)) e else s

def isReport (c : TimeoutCallback) : Bool := c.callback == .timeoutReport1wire

/-- `xapDelTimeoutActionByFunc(&timeoutReport1wire)`, which returns after the first one. -/
def Daemon.delReport (s : Daemon) : Daemon := { s with timeoutList := s.timeoutList.eraseP isReport }

/-- The settings and the firmware version that a reset finds. -/
structure Load where
  ini : Ini
  major : Int

def resetOneWireEndpoints (m : Allocator) (s : Daemon) (load : Load) : Daemon :=
  addOneWireIniEndpoints m load.ini load.major .immediate (s.endpointList.foldl dropSensor s).delReport

/-! ## What is due to an endpoint -/

def FilterAction.ofEndpoint : FilterAction → Bool
  | .bscIncomingCmd | .bscIncomingQuery => true
  | .rfXmit | .rfXmitPacked => false

def TimeoutAction.ofEndpoint : TimeoutAction → Bool
  | .bscInfoTimeout | .timeoutCheck1wire => true
  | .heartbeatHandler | .timeoutReport1wire => false

def filtersOf (e : Endpoint Handle) : List FilterCallback :=
  ⟨.bscIncomingQuery, some (addrOf e)⟩ ::
    if e.io = .output then [⟨.bscIncomingCmd, some (addrOf e)⟩] else []

/-- The timeout for the info message of an endpoint. -/
def infoOf (e : Endpoint Handle) : List TimeoutCallback := [⟨.bscInfoTimeout, 120, some (addrOf e)⟩]

/-- The timeout that watches a sensor, with the timeout setting `t`. -/
def checkOf (t : Int) (e : Endpoint Handle) : List TimeoutCallback :=
  if isOneWire e ∧ 0 < t then [⟨.timeoutCheck1wire, wrap32 (t * 60), some (addrOf e)⟩] else []

/-- What a load in this mode registers in the list of filters. -/
def dueFilters (mode : LoadMode) (e : Endpoint Handle) : List FilterCallback :=
  if mode = .immediate then filtersOf e else []

/-- What a load in this mode registers in the list of timeouts. -/
def dueTimeouts (mode : LoadMode) (t : Int) (e : Endpoint Handle) : List TimeoutCallback :=
  if mode = .immediate then infoOf e ++ checkOf t e else checkOf t e

def others (s : Daemon) : List (Endpoint Handle) := s.endpointList.filter fun e => !isOneWire e

def reports (s : Daemon) : Nat := s.timeoutList.countP isReport

/-- Both lists are in order: endpoints have addresses of their own, each has what is due to it, and
only callbacks of endpoints have user data. -/
structure Ledger (filters : Endpoint Handle → List FilterCallback)
    (timeouts : Endpoint Handle → List TimeoutCallback) (s : Daemon) : Prop where
  distinct : (s.endpointList.map addrOf).Nodup
  filters : Accounts addrOf FilterCallback.userData s.endpointList filters s.filterList
  timeouts : Accounts addrOf TimeoutCallback.userData s.endpointList timeouts s.timeoutList
  filterKinds : ∀ f ∈ s.filterList, f.callback.ofEndpoint = f.userData.isSome
  timeoutKinds : ∀ c ∈ s.timeoutList, c.callback.ofEndpoint = c.userData.isSome
  alive : s.died = false

/-! ## Registering -/

variable {e : Endpoint Handle} {c : TimeoutCallback}

/-- The filters of an endpoint are its own and are those of an endpoint. -/
theorem mem_filtersOf {f : FilterCallback} (mem : f ∈ filtersOf e) :
    f.userData = some (addrOf e) ∧ f.callback.ofEndpoint = true := by
  rcases mem_cons.1 mem with rfl | cmd
  · exact ⟨rfl, rfl⟩
  · split at cmd
    · rw [mem_singleton.1 cmd]
      exact ⟨rfl, rfl⟩
    · cases cmd

theorem mem_infoOf (mem : c ∈ infoOf e) : c.userData = some (addrOf e) ∧ c.callback.ofEndpoint = true := by
  rw [mem_singleton.1 mem]
  exact ⟨rfl, rfl⟩

theorem mem_checkOf {t : Int} (mem : c ∈ checkOf t e) :
    c.userData = some (addrOf e) ∧ c.callback.ofEndpoint = true := by
  unfold checkOf at mem
  split at mem
  · rw [mem_singleton.1 mem]
    exact ⟨rfl, rfl⟩
  · cases mem

theorem mem_dueTimeouts {mode : LoadMode} {t : Int}
    (mem : c ∈ dueTimeouts mode t e) : c.userData = some (addrOf e) ∧ c.callback.ofEndpoint = true := by
  unfold dueTimeouts at mem
  split at mem
  · rcases mem_append.1 mem with info | check
    · exact mem_infoOf info
    · exact mem_checkOf check
  · exact mem_checkOf mem

theorem mem_dueFilters {mode : LoadMode} {f : FilterCallback}
    (mem : f ∈ dueFilters mode e) : f.userData = some (addrOf e) ∧ f.callback.ofEndpoint = true := by
  unfold dueFilters at mem
  split at mem
  · exact mem_filtersOf mem
  · cases mem

theorem checkOf_other {t : Int} (other : isOneWire e = false) : checkOf t e = [] :=
  if_neg (by simp [other])

/-- A timeout of an endpoint does not ask for reports. -/
theorem isReport_of_kind (kind : c.callback.ofEndpoint = true) : ¬ isReport c = true := by
  intro report
  rw [show c.callback = .timeoutReport1wire from of_decide_eq_true report] at kind
  cases kind

theorem bscAddEndpointFilter_spec (s : Daemon) (e : Endpoint Handle) :
    bscAddEndpointFilter 120 s e =
      { s with
        filterList := filtersOf e ++ s.filterList
        timeoutList := infoOf e ++ s.timeoutList } := by
  unfold bscAddEndpointFilter filtersOf infoOf
  by_cases output : e.io = .output
  · simp [output, Daemon.addFilterAction, Daemon.addTimeoutAction]
  · simp [output, Daemon.addFilterAction, Daemon.addTimeoutAction]

/-- A turn of the loop registers what its mode says. -/
theorem watchSensor_spec {mode : LoadMode} {t : Int} (s : Daemon)
    (sensor : isOneWire e = true) (fits : t * 60 < 2147483648) :
    watchSensor mode t s e =
      { s with
        filterList := dueFilters mode e ++ s.filterList
        timeoutList := dueTimeouts mode t e ++ s.timeoutList } := by
  unfold watchSensor dueFilters dueTimeouts checkOf
  by_cases positive : 0 < t
  · have interval := wrap32_of_range (by omega) fits
    have notShort : ¬ t * 60 < 1 := by omega
    cases mode <;> simp [positive, sensor, interval, notShort, Daemon.addTimeoutAction, bscAddEndpointFilter_spec]
  · cases mode <;> simp [positive, bscAddEndpointFilter_spec]

section Ledger

variable {filters : Endpoint Handle → List FilterCallback}
  {timeouts : Endpoint Handle → List TimeoutCallback} {s : Daemon}

/-- A new endpoint with its registrations in front of the lists. -/
theorem Ledger.open (h : Ledger filters timeouts s) {e : Endpoint Handle} (id : UInt8) (callocs : Nat)
    (fresh : addrOf e ∉ s.endpointList.map addrOf)
    (ownFilters : ∀ f ∈ filters e, f.userData = some (addrOf e) ∧ f.callback.ofEndpoint = true)
    (ownTimeouts : ∀ c ∈ timeouts e, c.userData = some (addrOf e) ∧ c.callback.ofEndpoint = true) :
    Ledger filters timeouts
      { endpointList := e :: s.endpointList, id := id, callocs := callocs,
        filterList := filters e ++ s.filterList, timeoutList := timeouts e ++ s.timeoutList, died := s.died } := by
  have apart : ∀ x ∈ s.endpointList, addrOf x ≠ addrOf e :=
    fun x mem same => fresh (same ▸ mem_map_of_mem mem)
  constructor
  · exact nodup_cons.2 ⟨fresh, h.distinct⟩
  · exact h.filters.open apart fun f mem => (ownFilters f mem).1
  · exact h.timeouts.open apart fun c mem => (ownTimeouts c mem).1
  · intro f mem
    rcases mem_append.1 mem with new | old
    · rw [(ownFilters f new).1, (ownFilters f new).2]
      rfl
    · exact h.filterKinds f old
  · intro c mem
    rcases mem_append.1 mem with new | old
    · rw [(ownTimeouts c new).1, (ownTimeouts c new).2]
      rfl
    · exact h.timeoutKinds c old
  · exact h.alive

/-- An endpoint of which nothing is due yet. -/
theorem Ledger.addEndpoint (h : Ledger filters timeouts s) (m : Allocator) {name : Bytes}
    (subaddr : Option Bytes) (io : Io) (type : EndpointType) (device : Device)
    (nothing : ∀ e : Endpoint Handle, e.name = name → filters e = [] ∧ timeouts e = []) :
    Ledger filters timeouts (s.addEndpoint m name subaddr io type device) := by
  obtain ⟨e, added, named, -, -, -, fresh⟩ := addEndpoint_spec m s name subaddr io type device
  obtain ⟨noFilters, noTimeouts⟩ := nothing e named
  have opened := h.open (s.id + 1) (s.callocs + 1) fresh (e := e)
    (fun f mem => by rw [noFilters] at mem; cases mem) (fun c mem => by rw [noTimeouts] at mem; cases mem)
  rw [noFilters, noTimeouts] at opened
  rw [added]
  exact opened

/-- A timeout of nobody. -/
theorem Ledger.addReport (h : Ledger filters timeouts s) {interval : Int} (positive : 1 ≤ interval) :
    Ledger filters timeouts (s.addTimeoutAction .timeoutReport1wire interval none) := by
  refine ⟨h.distinct, h.filters, h.timeouts.anonymous rfl, h.filterKinds, ?_, ?_⟩
  · intro c mem
    rcases mem_cons.1 mem with rfl | old
    · rfl
    · exact h.timeoutKinds c old
  · have notShort : ¬ interval < 1 := by omega
    simp [Daemon.addTimeoutAction, h.alive, notShort]

end Ledger

/-! ## Loading the sensors -/

/-- What a load of sensors leaves: the lists in order, the other endpoints as they were. -/
structure Loaded (mode : LoadMode) (t : Int) (before after : Daemon) : Prop where
  ledger : Ledger (dueFilters mode) (dueTimeouts mode t) after
  others : others after = others before

section Load

variable (m : Allocator) {ini : Ini} (major : Int) (mode : LoadMode) {before s : Daemon}

section

variable (fits : oneWireTimeout ini * 60 < 2147483648)
include fits

theorem addSensor_loaded (i : Nat)
    (h : Loaded mode (oneWireTimeout ini) before s) :
    Loaded mode (oneWireTimeout ini) before (addSensor m ini major mode s i) ∧
      reports (addSensor m ini major mode s i) = reports s := by
  unfold addSensor
  split
  · exact ⟨h, rfl⟩
  · obtain ⟨e, added, named, -, -, -, fresh⟩ :=
      addEndpoint_spec m s "1wire" (some (decimal i)) .input .stream .oneWire
    have sensor : isOneWire e = true := beq_iff_eq.2 named
    rw [added]
    show Loaded _ _ _ (watchSensor _ _ _ e) ∧ reports (watchSensor _ _ _ e) = _
    rw [watchSensor_spec _ sensor fits]
    refine ⟨⟨h.ledger.open _ _ fresh (fun f => mem_dueFilters) (fun c => mem_dueTimeouts), ?_⟩, ?_⟩
    · rw [← h.others]
      exact filter_cons_of_neg (by simp [sensor])
    · show (dueTimeouts _ _ _ ++ s.timeoutList).countP isReport = _
      rw [countP_append, countP_eq_zero.2, Nat.zero_add]
      · rfl
      · exact fun c mem => isReport_of_kind (mem_dueTimeouts mem).2

theorem addSensors_loaded (sensors : List Nat) (s : Daemon)
    (h : Loaded mode (oneWireTimeout ini) before s) :
    Loaded mode (oneWireTimeout ini) before (sensors.foldl (addSensor m ini major mode) s) ∧
      reports (sensors.foldl (addSensor m ini major mode) s) = reports s := by
  induction sensors generalizing s with
  | nil => exact ⟨h, rfl⟩
  | cons i sensors ih =>
    obtain ⟨loaded, same⟩ := addSensor_loaded m major mode fits i h
    obtain ⟨all, count⟩ := ih _ loaded
    exact ⟨all, count.trans same⟩

/-- A load keeps the lists in order and adds at most one request for reports. -/
theorem addOneWire_loaded
    (h : Ledger (dueFilters mode) (dueTimeouts mode (oneWireTimeout ini)) s) :
    Loaded mode (oneWireTimeout ini) s (addOneWireIniEndpoints m ini major mode s) ∧
      reports (addOneWireIniEndpoints m ini major mode s) ≤ reports s + 1 := by
  have based : Loaded mode (oneWireTimeout ini) s (s.setEndpointUID 128) :=
    ⟨⟨h.distinct, h.filters, h.timeouts, h.filterKinds, h.timeoutKinds, h.alive⟩, rfl⟩
  obtain ⟨loaded, count⟩ := addSensors_loaded m major mode fits
    (List.range' 1 (oneWireDevices ini major).toNat) _ based
  have start : reports (s.setEndpointUID 128) = reports s := rfl
  by_cases positive : 0 < oneWireTimeout ini
  · rw [show addOneWireIniEndpoints m ini major mode s = _ from if_pos positive]
    have interval : 1 ≤ wrap32 (oneWireTimeout ini * 60 - 10) := by
      rw [wrap32_of_range (by omega) (by omega)]
      omega
    refine ⟨⟨loaded.ledger.addReport interval, loaded.others⟩, ?_⟩
    rw [← start, ← count]
    exact (countP_cons_of_pos rfl).le
  · rw [show addOneWireIniEndpoints m ini major mode s = _ from if_neg positive]
    refine ⟨loaded, ?_⟩
    rw [count, start]
    exact Nat.le_succ _

end

end Load

/-! ## Deleting the sensors -/

section Drop

variable {t : Int} {s : Daemon} {e : Endpoint Handle}

theorem dropSensor_other (other : ¬ isOneWire e = true) : dropSensor s e = s := if_neg other

/-- An endpoint has at most two timeouts, so both removals together take them all. -/
theorem dropSensor_spec (h : Ledger filtersOf (dueTimeouts .immediate t) s)
    (mem : e ∈ s.endpointList) (sensor : isOneWire e = true) :
    dropSensor s e =
      { s with
        endpointList := s.endpointList.filter fun x => !(addrOf x == addrOf e)
        filterList := without FilterCallback.userData (addrOf e) s.filterList
        timeoutList := without TimeoutCallback.userData (addrOf e) s.timeoutList } := by
  have once : s.endpointList.countP (fun x => addrOf x == addrOf e) ≤ 1 := by
    have counted := nodup_iff_count_le_one.1 h.distinct (addrOf e)
    rwa [count_eq_countP, countP_map] at counted
  have twice : s.timeoutList.countP (fun c => c.userData == some (addrOf e)) ≤ 2 := by
    rw [countP_eq_length_filter]
    have paid : s.timeoutList.filter (fun c => c.userData == some (addrOf e)) = dueTimeouts .immediate t e :=
      h.timeouts.paid e mem
    rw [paid]
    unfold dueTimeouts infoOf checkOf
    split <;> split <;> simp
  have unlinked := eraseP_iterate 1 s.endpointList once
  have emptied := eraseP_iterate 2 s.timeoutList twice
  rw [iterate_succ_apply, iterate_zero, id_eq] at unlinked
  rw [iterate_succ_apply, iterate_succ_apply, iterate_zero, id_eq] at emptied
  rw [show dropSensor s e = _ from if_pos sensor]
  unfold bscDelEndpoint Daemon.delFiltersOf Daemon.delTimeoutOf Daemon.unlink without
  rw [← unlinked, ← emptied]

theorem dropSensor_ledger (h : Ledger filtersOf (dueTimeouts .immediate t) s)
    (mem : e ∈ s.endpointList) : Ledger filtersOf (dueTimeouts .immediate t) (dropSensor s e) := by
  by_cases sensor : isOneWire e = true
  · rw [dropSensor_spec h mem sensor]
    refine ⟨?_, h.filters.close _, h.timeouts.close _, ?_, ?_, h.alive⟩
    · exact h.distinct.sublist (filter_sublist.map addrOf)
    · exact fun f old => h.filterKinds f (mem_of_mem_filter old)
    · exact fun c old => h.timeoutKinds c (mem_of_mem_filter old)
  · rw [dropSensor_other sensor]
    exact h

theorem Ledger.addr_inj {filters : Endpoint Handle → List FilterCallback}
    {timeouts : Endpoint Handle → List TimeoutCallback} (h : Ledger filters timeouts s) {x y : Endpoint Handle}
    (hx : x ∈ s.endpointList) (hy : y ∈ s.endpointList) (same : addrOf x = addrOf y) : x = y :=
  inj_on_of_nodup_map h.distinct hx hy same

section

variable (h : Ledger filtersOf (dueTimeouts .immediate t) s)
include h

/-- What one deletion leaves in the list of endpoints: the sensor goes, everything else stays. -/
theorem mem_dropSensor
    (mem : e ∈ s.endpointList) (x : Endpoint Handle) :
    x ∈ (dropSensor s e).endpointList ↔ x ∈ s.endpointList ∧ ¬ (x = e ∧ isOneWire e = true) := by
  by_cases sensor : isOneWire e = true
  · rw [dropSensor_spec h mem sensor]
    rw [mem_filter]
    constructor
    · rintro ⟨old, other⟩
      refine ⟨old, ?_⟩
      rintro ⟨rfl, -⟩
      simp at other
    · rintro ⟨old, other⟩
      refine ⟨old, ?_⟩
      have different : addrOf x ≠ addrOf e := fun same => other ⟨h.addr_inj old mem same, sensor⟩
      simpa using different
  · rw [dropSensor_other sensor]
    simp [sensor]

theorem others_dropSensor
    (mem : e ∈ s.endpointList) : others (dropSensor s e) = others s := by
  by_cases sensor : isOneWire e = true
  · rw [dropSensor_spec h mem sensor]
    show (s.endpointList.filter _).filter _ = s.endpointList.filter _
    rw [filter_filter]
    apply filter_congr
    intro x old
    by_cases same : addrOf x = addrOf e
    · rw [h.addr_inj old mem same]
      simp [sensor]
    · simp [same]
  · rw [dropSensor_other sensor]

theorem reports_dropSensor
    (mem : e ∈ s.endpointList) : reports (dropSensor s e) = reports s := by
  by_cases sensor : isOneWire e = true
  · rw [dropSensor_spec h mem sensor]
    show (s.timeoutList.filter _).countP isReport = s.timeoutList.countP isReport
    rw [countP_filter]
    apply countP_congr
    intro c old
    -- a request for reports has no user data
    by_cases report : isReport c = true
    · have kind := h.timeoutKinds c old
      rw [show c.callback = .timeoutReport1wire from of_decide_eq_true report] at kind
      have nobody := Option.isSome_eq_false_iff.1 kind.symm |> Option.isNone_iff_eq_none.1
      simp [nobody]
    · simp [report]
  · rw [dropSensor_other sensor]

end

/-- The loop over a list of endpoints: all the sensors in it are deleted. -/
theorem dropSensors_spec (es : List (Endpoint Handle)) (s : Daemon)
    (h : Ledger filtersOf (dueTimeouts .immediate t) s) (distinct : es.Nodup) (mem : ∀ e ∈ es, e ∈ s.endpointList) :
    Ledger filtersOf (dueTimeouts .immediate t) (es.foldl dropSensor s) ∧
      others (es.foldl dropSensor s) = others s ∧ reports (es.foldl dropSensor s) = reports s ∧
      ∀ x ∈ (es.foldl dropSensor s).endpointList, x ∈ s.endpointList ∧ (x ∈ es → isOneWire x = false) := by
  induction es generalizing s with
  | nil => exact ⟨h, rfl, rfl, fun x old => ⟨old, fun mem => absurd mem not_mem_nil⟩⟩
  | cons e es ih =>
    have here := mem e mem_cons_self
    rw [nodup_cons] at distinct
    have rest : ∀ x ∈ es, x ∈ (dropSensor s e).endpointList := by
      intro x later
      rw [mem_dropSensor h here]
      refine ⟨mem x (mem_cons_of_mem _ later), ?_⟩
      rintro ⟨rfl, -⟩
      exact distinct.1 later
    obtain ⟨ledger, same, count, gone⟩ := ih (dropSensor s e) (dropSensor_ledger h here) distinct.2 rest
    refine ⟨ledger, same.trans (others_dropSensor h here), count.trans (reports_dropSensor h here), ?_⟩
    intro x left
    obtain ⟨old, sensors⟩ := gone x left
    obtain ⟨older, kept⟩ := (mem_dropSensor h here x).1 old
    refine ⟨older, fun hit => ?_⟩
    rcases mem_cons.1 hit with rfl | later
    · exact Bool.eq_false_iff.2 fun sensor => kept ⟨rfl, sensor⟩
    · exact sensors later

end Drop

/-! ## Resets -/

/-- What holds between resets, with the timeout setting `t` of the last load. -/
structure Booked (t : Int) (s : Daemon) : Prop where
  ledger : Ledger filtersOf (dueTimeouts .immediate t) s
  reports : reports s ≤ 1

/-- With no sensor left, the setting does not matter. -/
theorem Ledger.setting {t : Int} {s : Daemon} (h : Ledger filtersOf (dueTimeouts .immediate t) s)
    (none : ∀ e ∈ s.endpointList, isOneWire e = false) (t' : Int) : Ledger filtersOf (dueTimeouts .immediate t') s := by
  refine ⟨h.distinct, h.filters, h.timeouts.congr ?_, h.filterKinds, h.timeoutKinds, h.alive⟩
  intro e mem
  show infoOf e ++ checkOf t e = infoOf e ++ checkOf t' e
  rw [checkOf_other (none e mem), checkOf_other (none e mem)]

theorem delReport_ledger {t : Int} {s : Daemon} (h : Ledger filtersOf (dueTimeouts .immediate t) s)
    (single : reports s ≤ 1) : Ledger filtersOf (dueTimeouts .immediate t) s.delReport ∧ reports s.delReport = 0 := by
  have erased := eraseP_iterate 1 s.timeoutList single
  rw [iterate_succ_apply, iterate_zero, id_eq] at erased
  have deleted : s.delReport = { s with timeoutList := s.timeoutList.filter fun c => !isReport c } := by
    unfold Daemon.delReport
    rw [erased]
  rw [deleted]
  refine ⟨⟨h.distinct, h.filters, h.timeouts.filter ?_, h.filterKinds, ?_, h.alive⟩, ?_⟩
  · intro c mem k carries
    have kind := h.timeoutKinds c mem
    rw [carries] at kind
    simp [isReport_of_kind kind]
  · exact fun c mem => h.timeoutKinds c (mem_of_mem_filter mem)
  · apply countP_eq_zero.2
    intro c mem
    have passed := (mem_filter.1 mem).2
    simpa using passed

/-- A reset keeps the books. -/
theorem reset_booked (m : Allocator) {t : Int} {s : Daemon} {load : Load} (h : Booked t s)
    (fits : oneWireTimeout load.ini * 60 < 2147483648) :
    Booked (oneWireTimeout load.ini) (resetOneWireEndpoints m s load) ∧
      others (resetOneWireEndpoints m s load) = others s := by
  have distinct := List.Nodup.of_map _ h.ledger.distinct
  obtain ⟨ledger, same, count, gone⟩ :=
    dropSensors_spec s.endpointList s h.ledger distinct fun e mem => mem
  have noSensor : ∀ e ∈ (s.endpointList.foldl dropSensor s).endpointList, isOneWire e = false :=
    fun e left => (gone e left).2 (gone e left).1
  obtain ⟨cleared, zero⟩ := delReport_ledger ledger (count ▸ h.reports)
  obtain ⟨loaded, single⟩ := addOneWire_loaded m load.major .immediate fits
    (cleared.setting noSensor (oneWireTimeout load.ini))
  rw [zero] at single
  exact ⟨⟨loaded.ledger, single⟩, loaded.others.trans same⟩

/-! ## Start -/

section Start

variable (m : Allocator) {t : Int} {s : Daemon}

/-- The books before any endpoint has its filters. -/
abbrev Unregistered (t : Int) (s : Daemon) : Prop := Ledger (dueFilters .delayed) (dueTimeouts .delayed t) s

theorem Ledger.setEndpointUID {filters : Endpoint Handle → List FilterCallback}
    {timeouts : Endpoint Handle → List TimeoutCallback} (h : Ledger filters timeouts s) (nid : UInt8) :
    Ledger filters timeouts (s.setEndpointUID nid) :=
  ⟨h.distinct, h.filters, h.timeouts, h.filterKinds, h.timeoutKinds, h.alive⟩

/-- An endpoint that is not a sensor gets nothing before its filters. -/
theorem unregistered_lasting (t : Int) (n : Nat) : Lasting m fun s => Unregistered t s ∧ reports s = n := by
  refine ⟨fun s nid h => ⟨h.1.setEndpointUID nid, h.2⟩, fun s name subaddr io type device plain _ h => ⟨?_, h.2⟩⟩
  apply h.1.addEndpoint
  intro e named
  have other : isOneWire e = false := by
    rw [← Bool.not_eq_true, isOneWire, beq_iff_eq, named]
    exact plain
  exact ⟨rfl, checkOf_other other⟩

variable {ini : Ini} (stack : Bytes → Int) (major : Int)

/-- Only a `[1wire]` section asks for reports, once. -/
theorem addSection_unregistered (fits : oneWireTimeout ini * 60 < 2147483648) (section' : Bytes)
    (h : Unregistered (oneWireTimeout ini) s) :
    Unregistered (oneWireTimeout ini) (addSection m ini stack major s section') ∧
      reports (addSection m ini stack major s section') ≤ reports s + [section'].count (ascii "1wire") := by
  have plain : ∀ {s' : Daemon}, Unregistered (oneWireTimeout ini) s' ∧ reports s' = reports s →
      Unregistered (oneWireTimeout ini) s' ∧ reports s' ≤ reports s + [section'].count (ascii "1wire") :=
    fun ⟨ledger, same⟩ => ⟨ledger, same.le.trans (Nat.le_add_right _ _)⟩
  have lasting := unregistered_lasting m (oneWireTimeout ini) (reports s)
  unfold addSection
  split
  · exact plain (lasting.ppeEndpoints ini _ section' ⟨h, rfl⟩)
  split
  · rename_i oneWire
    obtain ⟨loaded, more⟩ := addOneWire_loaded m major .delayed fits h
    refine ⟨loaded.ledger, ?_⟩
    rw [oneWire, count_singleton_self]
    exact more
  split
  · exact plain (lasting.rfEndpoints ini 30 ⟨h, rfl⟩)
  split
  · exact plain (lasting.rfEndpoints ini 3 ⟨h, rfl⟩)
  · exact plain ⟨h, rfl⟩

theorem addSections_unregistered (fits : oneWireTimeout ini * 60 < 2147483648) (names : List Bytes)
    (s : Daemon) (h : Unregistered (oneWireTimeout ini) s) :
    Unregistered (oneWireTimeout ini) (names.foldl (addSection m ini stack major) s) ∧
      reports (names.foldl (addSection m ini stack major) s) ≤ reports s + names.count (ascii "1wire") := by
  induction names generalizing s with
  | nil => exact ⟨h, Nat.le_refl _⟩
  | cons name names ih =>
    obtain ⟨step, one⟩ := addSection_unregistered m stack major fits name h
    obtain ⟨ledger, all⟩ := ih _ step
    refine ⟨ledger, all.trans ?_⟩
    have split : (name :: names).count (ascii "1wire") =
        [name].count (ascii "1wire") + names.count (ascii "1wire") := by
      rw [← count_append, singleton_append]
    omega

theorem init_unregistered : Unregistered t Daemon.init := by
  refine ⟨nodup_nil, ?_, ?_, fun f mem => absurd mem not_mem_nil, ?_, rfl⟩
  · exact ⟨fun e mem => absurd mem not_mem_nil, fun f mem => absurd mem not_mem_nil⟩
  · refine ⟨fun e mem => absurd mem not_mem_nil, ?_⟩
    intro c mem k carries
    rw [mem_singleton.1 mem] at carries
    cases carries
  · intro c mem
    rw [mem_singleton.1 mem]
    rfl

/-- The endpoints of `main` before they have their filters. -/
theorem createEndpoints_unregistered (single : ini.sectionNames.count (ascii "1wire") ≤ 1)
    (fits : oneWireTimeout ini * 60 < 2147483648) :
    Unregistered (oneWireTimeout ini) (createEndpoints m ini stack major) ∧
      reports (createEndpoints m ini stack major) ≤ 1 := by
  obtain ⟨board, none⟩ := (unregistered_lasting m (oneWireTimeout ini) 0).boardEndpoints ⟨init_unregistered, rfl⟩
  obtain ⟨ledger, few⟩ := addSections_unregistered m stack (firmwareVersionOverride ini major) fits
    ini.sectionNames _ board
  rw [none, Nat.zero_add] at few
  exact ⟨ledger, few.trans single⟩

theorem addFilters_spec (es : List (Endpoint Handle)) (s : Daemon) :
    es.foldl (bscAddEndpointFilter 120) s =
      { s with
        filterList := creditAll filtersOf es s.filterList
        timeoutList := creditAll infoOf es s.timeoutList } := by
  induction es generalizing s with
  | nil => rfl
  | cons e es ih =>
    rw [foldl_cons, bscAddEndpointFilter_spec, ih]
    rfl

/-- The filters of all endpoints complete the books. -/
theorem addFilterList_booked (h : Unregistered t s) (few : reports s ≤ 1) :
    Booked t (bscAddEndpointFilterList s 120) := by
  unfold bscAddEndpointFilterList
  rw [addFilters_spec]
  refine ⟨⟨h.distinct, ?_, ?_, ?_, ?_, h.alive⟩, ?_⟩
  · exact (h.filters.creditAll h.distinct fun e _ f mem => (mem_filtersOf mem).1).congr fun e _ => append_nil _
  · exact h.timeouts.creditAll h.distinct fun e _ c mem => (mem_infoOf mem).1
  · intro f mem
    rcases (mem_creditAll _ _).1 mem with ⟨e, -, new⟩ | old
    · rw [(mem_filtersOf new).1, (mem_filtersOf new).2]
      rfl
    · exact h.filterKinds f old
  · intro c mem
    rcases (mem_creditAll _ _).1 mem with ⟨e, -, new⟩ | old
    · rw [(mem_infoOf new).1, (mem_infoOf new).2]
      rfl
    · exact h.timeoutKinds c old
  · show (creditAll infoOf s.endpointList s.timeoutList).countP isReport ≤ 1
    rw [countP_creditAll _ _ fun e _ c mem => isReport_of_kind (mem_infoOf mem).2]
    exact few

theorem addRfFilters_booked (h : Booked t s) : Booked t (addRfFilters major s) := by
  unfold addRfFilters
  split
  · refine ⟨⟨h.ledger.distinct, (h.ledger.filters.anonymous rfl).anonymous rfl, h.ledger.timeouts, ?_,
      h.ledger.timeoutKinds, h.ledger.alive⟩, h.reports⟩
    intro f mem
    rcases mem_cons.1 mem with rfl | mem
    · rfl
    rcases mem_cons.1 mem with rfl | old
    · rfl
    · exact h.ledger.filterKinds f old
  · exact h

theorem startDaemon_booked (single : ini.sectionNames.count (ascii "1wire") ≤ 1)
    (fits : oneWireTimeout ini * 60 < 2147483648) : Booked (oneWireTimeout ini) (startDaemon m ini stack major) := by
  obtain ⟨ledger, few⟩ := createEndpoints_unregistered m stack major single fits
  exact addRfFilters_booked _ (addFilterList_booked ledger few)

end Start

/-! ## Runs of resets -/

/-- The timeout setting of the last load, `t` if there was no reset. -/
def lastTimeout (t : Int) (loads : List Load) : Int := loads.foldl (fun _ load => oneWireTimeout load.ini) t

theorem resets_booked (m : Allocator) (loads : List Load)
    (fits : ∀ load ∈ loads, oneWireTimeout load.ini * 60 < 2147483648) (t : Int) (s : Daemon) (h : Booked t s) :
    Booked (lastTimeout t loads) (loads.foldl (resetOneWireEndpoints m) s) ∧
      others (loads.foldl (resetOneWireEndpoints m) s) = others s := by
  induction loads generalizing t s with
  | nil => exact ⟨h, rfl⟩
  | cons load loads ih =>
    obtain ⟨booked, same⟩ := reset_booked m h (fits load mem_cons_self)
    obtain ⟨final, kept⟩ := ih (fun l mem => fits l (mem_cons_of_mem _ mem)) _ _ booked
    exact ⟨final, kept.trans same⟩

def filterCount (callback : FilterAction) (e : Endpoint Handle) (s : Daemon) : Nat :=
  s.filterList.countP fun f => f.callback == callback && f.userData == some (addrOf e)

def timeoutCount (callback : TimeoutAction) (e : Endpoint Handle) (s : Daemon) : Nat :=
  s.timeoutList.countP fun c => c.callback == callback && c.userData == some (addrOf e)

/-- The registrations of `s`, with the timeout setting `t` of its last load, as they should be after
resets of `start`. -/
structure Consistent (start : Daemon) (t : Int) (s : Daemon) : Prop where
  alive : s.died = false
  filtersLive : ∀ f ∈ s.filterList, f.callback.ofEndpoint = true →
    ∃ e ∈ s.endpointList, f.userData = some (addrOf e)
  timeoutsLive : ∀ c ∈ s.timeoutList, c.callback.ofEndpoint = true →
    ∃ e ∈ s.endpointList, c.userData = some (addrOf e)
  oneQuery : ∀ e ∈ s.endpointList, isOneWire e = true → filterCount .bscIncomingQuery e s = 1
  oneInfo : ∀ e ∈ s.endpointList, isOneWire e = true → timeoutCount .bscInfoTimeout e s = 1
  check : ∀ e ∈ s.endpointList, isOneWire e = true →
    timeoutCount .timeoutCheck1wire e s = if 0 < t then 1 else 0
  oneReport : reports s ≤ 1
  others : others s = others start
  otherFilters : ∀ e ∈ Hah.Livebox.others s,
    ownedBy FilterCallback.userData (addrOf e) s.filterList =
      ownedBy FilterCallback.userData (addrOf e) start.filterList
  otherTimeouts : ∀ e ∈ Hah.Livebox.others s,
    ownedBy TimeoutCallback.userData (addrOf e) s.timeoutList =
      ownedBy TimeoutCallback.userData (addrOf e) start.timeoutList

theorem filterCount_eq {callback : FilterAction} {s : Daemon} {t : Int} (h : Booked t s) (mem : e ∈ s.endpointList) :
    filterCount callback e s = (filtersOf e).countP fun f => f.callback == callback := by
  rw [← h.ledger.filters.paid e mem, ownedBy, countP_filter]
  rfl

theorem timeoutCount_eq {callback : TimeoutAction} {s : Daemon} {t : Int} (h : Booked t s) (mem : e ∈ s.endpointList) :
    timeoutCount callback e s = (infoOf e ++ checkOf t e).countP fun c => c.callback == callback := by
  have paid : ownedBy TimeoutCallback.userData (addrOf e) s.timeoutList = infoOf e ++ checkOf t e :=
    h.ledger.timeouts.paid e mem
  rw [← paid, ownedBy, countP_filter]
  rfl

theorem Booked.consistent {start s : Daemon} {t t' : Int} (h : Booked t s) (before : Booked t' start)
    (same : others s = others start) : Consistent start t s where
  alive := h.ledger.alive
  filtersLive := by
    intro f mem kind
    rw [h.ledger.filterKinds f mem] at kind
    obtain ⟨addr, carries⟩ := Option.isSome_iff_exists.1 kind
    obtain ⟨e, live, rfl⟩ := h.ledger.filters.live f mem addr carries
    exact ⟨e, live, carries⟩
  timeoutsLive := by
    intro c mem kind
    rw [h.ledger.timeoutKinds c mem] at kind
    obtain ⟨addr, carries⟩ := Option.isSome_iff_exists.1 kind
    obtain ⟨e, live, rfl⟩ := h.ledger.timeouts.live c mem addr carries
    exact ⟨e, live, carries⟩
  oneQuery := by
    intro e mem _
    rw [filterCount_eq h mem]
    unfold filtersOf
    split <;> rfl
  oneInfo := by
    intro e mem _
    rw [timeoutCount_eq h mem]
    unfold checkOf
    split <;> rfl
  check := by
    intro e mem sensor
    rw [timeoutCount_eq h mem]
    unfold checkOf
    by_cases positive : 0 < t
    · rw [if_pos ⟨sensor, positive⟩, if_pos positive]
      rfl
    · rw [if_neg fun both => positive both.2, if_neg positive]
      rfl
  oneReport := h.reports
  others := same
  otherFilters := by
    intro e mem
    have old : e ∈ start.endpointList := mem_of_mem_filter (same ▸ mem)
    rw [h.ledger.filters.paid e (mem_of_mem_filter mem), before.ledger.filters.paid e old]
  otherTimeouts := by
    intro e mem
    have old : e ∈ start.endpointList := mem_of_mem_filter (same ▸ mem)
    have other : isOneWire e = false := by simpa using (mem_filter.1 mem).2
    rw [h.ledger.timeouts.paid e (mem_of_mem_filter mem), before.ledger.timeouts.paid e old]
    show infoOf e ++ checkOf t e = infoOf e ++ checkOf t' e
    rw [checkOf_other other, checkOf_other other]

/-- **No registration outlives its endpoint.** After the start and any number of resets, whatever
the settings were at each load, the lists hold exactly the registrations of the endpoints there are. -/
theorem resets_keep_registrations (m : Allocator) (ini : Ini) (stack : Bytes → Int) (major : Int)
    (loads : List Load) (single : ini.sectionNames.count (ascii "1wire") ≤ 1)
    (fits : oneWireTimeout ini * 60 < 2147483648)
    (fitsLoads : ∀ load ∈ loads, oneWireTimeout load.ini * 60 < 2147483648) :
    Consistent (startDaemon m ini stack major) (lastTimeout (oneWireTimeout ini) loads)
      (loads.foldl (resetOneWireEndpoints m) (startDaemon m ini stack major)) := by
  have start := startDaemon_booked m stack major single fits
  obtain ⟨final, same⟩ := resets_booked m loads fitsLoads _ _ start
  exact final.consistent start same

/-- A start with two watched sensors, a reset without a timeout and one with three sensors. -/
theorem resets_keep_registrations_settings :
    Consistent
      (startDaemon .rising (Ini.of ["1wire"] [("1wire", "devices", "2"), ("1wire", "timeout", "5")]) (fun _ => 0) 1) 2
      (resetOneWireEndpoints .rising
        (resetOneWireEndpoints .rising
          (startDaemon .rising (Ini.of ["1wire"] [("1wire", "devices", "2"), ("1wire", "timeout", "5")]) (fun _ => 0) 1)
          ⟨Ini.of ["1wire"] [("1wire", "devices", "1")], 1⟩)
        ⟨Ini.of ["1wire"] [("1wire", "devices", "3"), ("1wire", "timeout", "2")], 1⟩) := by
  apply resets_keep_registrations .rising _ _ _
    [⟨Ini.of ["1wire"] [("1wire", "devices", "1")], 1⟩,
      ⟨Ini.of ["1wire"] [("1wire", "devices", "3"), ("1wire", "timeout", "2")], 1⟩]
  · decide
  · decide
  · intro load mem
    rcases mem_cons.1 mem with rfl | mem
    · decide
    · rw [mem_singleton.1 mem]
      decide

end Hah.Livebox
