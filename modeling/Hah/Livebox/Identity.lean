import Mathlib.Data.List.Nodup
import Hah.Livebox.Ini

/-!
# Identifiers of the endpoints

An endpoint takes the value of a counter of one byte as its identifier, and the counter
goes up by one. `main` and the sections of the settings file set the counter to the start
of a range before they create their endpoints, so that a device keeps its identifier:

  LCD / Inputs  0-31, PPE 32-95, Relays 96-127, 1-Wire 128-159, RF 160-255

Every section adds one `run` of identifiers. The ranges are kept by the limits on the
length of the runs, and the limit of an `[rf]` section is not effective.
-/

namespace Hah.Livebox
open C Bsc List

def inRange (device : Device) (id : UInt8) : Prop :=
  match device with
  | .lcd | .input => id.toNat ≤ 31
  | .ppe _ => 32 ≤ id.toNat ∧ id.toNat ≤ 95
  | .relay => 96 ≤ id.toNat ∧ id.toNat ≤ 127
  | .oneWire => 128 ≤ id.toNat ∧ id.toNat ≤ 159
  | .rf => 160 ≤ id.toNat

instance (device : Device) (id : UInt8) : Decidable (inRange device id) :=
  match device with
  | .lcd | .input => inferInstanceAs (Decidable (id.toNat ≤ 31))
  | .ppe _ => inferInstanceAs (Decidable (32 ≤ id.toNat ∧ id.toNat ≤ 95))
  | .relay => inferInstanceAs (Decidable (96 ≤ id.toNat ∧ id.toNat ≤ 127))
  | .oneWire => inferInstanceAs (Decidable (128 ≤ id.toNat ∧ id.toNat ≤ 159))
  | .rf => inferInstanceAs (Decidable (160 ≤ id.toNat))

/-- The endpoints have identifiers of their own, in the ranges of their devices. -/
structure Identified (s : Daemon) : Prop where
  distinct : (s.endpointList.map fun e => hex02 e.id).Nodup
  ranges : ∀ e ∈ s.endpointList, inRange e.device.device e.id

def ppeNumbers (names : List Bytes) : List Int :=
  (names.filter fun name => name.take 3 == ascii "ppe").map fun name => atoi (name.drop 3)

structure DistinctSections (names : List Bytes) : Prop where
  ppe : (ppeNumbers names).Nodup
  oneWire : names.count (ascii "1wire") ≤ 1
  rf : names.count (ascii "rf") ≤ 1

/-! ## Runs of identifiers -/

/-- Device and identifier of the endpoints. -/
def tags (s : Daemon) : List (Device × UInt8) := s.endpointList.map fun e => (e.device.device, e.id)

/-- `n` endpoints of a device from the identifier `b` on, the newest first. -/
def run (device : Device) (b : UInt8) : Nat → List (Device × UInt8)
  | 0 => []
  | n + 1 => (device, b + n.toUInt8) :: run device b n

variable {device : Device} {n : Nat} {x : Device × UInt8} {s : Daemon} {section' : Bytes}
  {names : List Bytes}

theorem mem_run {b : UInt8} : x ∈ run device b n ↔ ∃ k < n, x = (device, b + k.toUInt8) := by
  induction n with
  | zero => simp [run]
  | succ n ih =>
    rw [run, mem_cons, ih]
    constructor
    · rintro (rfl | ⟨k, less, rfl⟩)
      · exact ⟨n, Nat.lt_succ_self n, rfl⟩
      · exact ⟨k, Nat.lt_succ_of_lt less, rfl⟩
    · rintro ⟨k, less, rfl⟩
      rcases Nat.lt_succ_iff_lt_or_eq.1 less with before | rfl
      · exact Or.inr ⟨k, before, rfl⟩
      · exact Or.inl rfl

theorem toNat_add_ofNat (b : UInt8) (k : Nat) : (b + k.toUInt8).toNat = (b.toNat + k) % 256 := by
  simp [UInt8.toNat_add]

theorem next_id (b : UInt8) (n : Nat) : b + 1 + n.toUInt8 = b + (n + 1).toUInt8 := by
  apply UInt8.toNat_inj.1
  rw [toNat_add_ofNat, toNat_add_ofNat, show (b + 1).toNat = (b.toNat + 1) % 256 from toNat_add_ofNat b 1]
  omega

theorem run_one (device : Device) (b : UInt8) : run device b 1 = [(device, b)] := by
  show [(device, b + 0)] = _
  rw [UInt8.add_zero]

theorem run_nodup (device : Device) (b : UInt8) (short : n ≤ 256) : ((run device b n).map Prod.snd).Nodup := by
  induction n with
  | zero => exact nodup_nil
  | succ n ih =>
    rw [run, map_cons, nodup_cons]
    refine ⟨?_, ih (by omega)⟩
    intro mem
    obtain ⟨x, hx, same⟩ := mem_map.1 mem
    obtain ⟨k, less, rfl⟩ := mem_run.1 hx
    have equal := congrArg UInt8.toNat same
    simp only [toNat_add_ofNat] at equal
    omega

theorem run_succ (device : Device) (b : UInt8) (n : Nat) :
    run device (b + 1) n ++ [(device, b)] = run device b (n + 1) := by
  induction n with
  | zero => exact (run_one device b).symm
  | succ n ih => rw [run, cons_append, ih, next_id, ← run]

/-- `n` endpoints of a device were created. -/
structure Adds (device : Device) (n : Nat) (s s' : Daemon) : Prop where
  tags : tags s' = run device s.id n ++ tags s
  next : s'.id = s.id + n.toUInt8

theorem Adds.refl (device : Device) {s' : Daemon} (same : s'.endpointList = s.endpointList)
    (sameId : s'.id = s.id) : Adds device 0 s s' := by
  constructor
  · rw [Hah.Livebox.tags, same]
    rfl
  · rw [sameId]
    exact (UInt8.add_zero _).symm

theorem Adds.cons {s' s'' : Daemon}
    (first : Adds device 1 s s') (rest : Adds device n s' s'') : Adds device (n + 1) s s'' := by
  have nextId : s'.id = s.id + 1 := first.next
  constructor
  · rw [rest.tags, first.tags, nextId, run_one, ← append_assoc, run_succ]
  · rw [rest.next, nextId, next_id]

theorem addEndpoint_adds (m : Allocator) (s : Daemon) (name : Bytes) (subaddr : Option Bytes) (io : Io)
    (type : EndpointType) (device : Device) : Adds device 1 s (s.addEndpoint m name subaddr io type device) := by
  obtain ⟨e, added, -, -, takes, is, -⟩ := addEndpoint_spec m s name subaddr io type device
  rw [added]
  constructor
  · show (e.device.device, e.id) :: tags s = run device s.id 1 ++ tags s
    rw [takes, is, run_one, singleton_append]
  · rfl

theorem addEndpoints_adds (m : Allocator) (name : Bytes) (indices : List Nat)
    (subaddr : Nat → Option Bytes) (io : Io) (type : EndpointType) (device : Device) (s : Daemon) :
    Adds device indices.length s
      (indices.foldl (fun s i => s.addEndpoint m name (subaddr i) io type device) s) := by
  induction indices generalizing s with
  | nil => exact .refl device rfl rfl
  | cons i indices ih => exact (addEndpoint_adds m s name (subaddr i) io type device).cons (ih _)

/-! ## Sections -/

theorem bscAddEndpointFilter_endpoints (interval : Int) (s : Daemon) (e : Endpoint Handle) :
    (bscAddEndpointFilter interval s e).endpointList = s.endpointList ∧
      (bscAddEndpointFilter interval s e).id = s.id := by
  unfold bscAddEndpointFilter
  split <;> split <;> exact ⟨rfl, rfl⟩

theorem watchSensor_endpoints (mode : LoadMode) (t : Int) (s : Daemon) (e : Endpoint Handle) :
    (watchSensor mode t s e).endpointList = s.endpointList ∧ (watchSensor mode t s e).id = s.id := by
  have timed : ∀ s' : Daemon, s'.endpointList = s.endpointList ∧ s'.id = s.id →
      (if mode = .immediate then bscAddEndpointFilter 120 s' e else s').endpointList = s.endpointList ∧
        (if mode = .immediate then bscAddEndpointFilter 120 s' e else s').id = s.id := by
    rintro s' ⟨same, sameId⟩
    split
    · obtain ⟨list, id⟩ := bscAddEndpointFilter_endpoints 120 s' e
      exact ⟨list.trans same, id.trans sameId⟩
    · exact ⟨same, sameId⟩
  apply timed
  split <;> exact ⟨rfl, rfl⟩

/-- A sensor without a ROM identifier is skipped and takes no identifier. -/
theorem addSensor_adds (m : Allocator) (ini : Ini) (major : Int) (mode : LoadMode) (s : Daemon) (i : Nat) :
    Adds .oneWire (if romidMissing ini major i then 0 else 1) s (addSensor m ini major mode s i) := by
  unfold addSensor
  split
  · exact .refl _ rfl rfl
  · obtain ⟨e, added, -, -, takes, is, -⟩ :=
      addEndpoint_spec m s "1wire" (some (decimal i)) .input .stream .oneWire
    rw [added]
    obtain ⟨same, sameId⟩ := watchSensor_endpoints mode (oneWireTimeout ini)
      { s with
        endpointList := e :: s.endpointList
        id := s.id + 1
        callocs := s.callocs + 1 } e
    constructor
    · rw [tags, same]
      show (e.device.device, e.id) :: tags s = run .oneWire s.id 1 ++ tags s
      rw [takes, is, run_one, singleton_append]
    · exact sameId

theorem addSensors_adds (m : Allocator) (ini : Ini) (major : Int) (mode : LoadMode) (sensors : List Nat) (s : Daemon) :
    ∃ n ≤ sensors.length, Adds .oneWire n s (sensors.foldl (addSensor m ini major mode) s) := by
  induction sensors generalizing s with
  | nil => exact ⟨0, Nat.le_refl _, .refl _ rfl rfl⟩
  | cons i sensors ih =>
    have first := addSensor_adds m ini major mode s i
    obtain ⟨n, few, rest⟩ := ih (addSensor m ini major mode s i)
    by_cases missing : romidMissing ini major i = true
    · rw [if_pos missing] at first
      refine ⟨n, Nat.le_succ_of_le few, ?_⟩
      have same := first.next.trans (UInt8.add_zero _)
      refine ⟨?_, ?_⟩
      · rw [foldl_cons, rest.tags, first.tags, same]
        rfl
      · rw [foldl_cons, rest.next, same]
    · rw [if_neg missing] at first
      exact ⟨n + 1, Nat.succ_le_succ few, first.cons rest⟩

/-- What a section can add: nothing, or a run of its own. -/
inductive Made (ini : Ini) (major : Int) (section' : Bytes) : Device → UInt8 → Nat → Prop where
  | nothing (device : Device) (b : UInt8) : Made ini major section' device b 0
  | ppe (user : PpeUser) (k n : Nat) (named : section'.take 3 = "ppe")
      (numbered : atoi (section'.drop 3) = k) (low : 1 ≤ k) (high : k ≤ 8) (few : n ≤ 8) :
      Made ini major section' (.ppe user) ((k - 1) * 8 + 32).toUInt8 n
  | oneWire (n : Nat) (named : section' = "1wire") (few : n ≤ 31) :
      Made ini major section' .oneWire 128 n
  | rf (named : section' = "rf") (able : 1 ≤ major) :
      Made ini major section' .rf 160 (rfDevices ini).toNat

theorem addPPEmode_adds (m : Allocator) (s : Daemon) (p : PpeSection) :
    ∃ n ≤ 8, Adds (.ppe p.user) n s (addPPEmode m s p) := by
  unfold addPPEmode
  split
  · exact ⟨1, by decide, addEndpoint_adds m s _ _ _ _ _⟩
  · exact ⟨8, Nat.le_refl 8,
      addEndpoints_adds m "ppe" (List.range 8) (fun pin => some (pinSubaddr p.sectionNumber pin))
        .output .binary _ s⟩

section Sections

variable (m : Allocator) (ini : Ini) (stack : Bytes → Int) (major : Int)

theorem addPPEendpoints_made (word : Int) (s : Daemon) {section' : Bytes} (named : section'.take 3 = "ppe") :
    ∃ device b n, Made ini major section' device b n ∧
      tags (addPPEendpoints m ini word s section') = run device b n ++ tags s := by
  have unchanged : ∃ device b n, Made ini major section' device b n ∧ tags s = run device b n ++ tags s :=
    ⟨.lcd, 0, 0, .nothing _ _, rfl⟩
  simp only [addPPEendpoints]
  split
  · exact unchanged
  -- the number of the section is between 1 and 8
  obtain ⟨k, number⟩ : ∃ k : Nat, atoi (section'.drop 3) = k := ⟨(atoi (section'.drop 3)).toNat, by omega⟩
  have made : ∀ (byteMode : Bool) (addr : UInt8), ∃ device b n, Made ini major section' device b n ∧
      tags (addPPEmode m (s.setEndpointUID (PpeSection.mk (atoi (section'.drop 3)).toNat addr true).firstId)
        (PpeSection.mk (atoi (section'.drop 3)).toNat addr byteMode)) = run device b n ++ tags s := by
    intro byteMode addr
    obtain ⟨n, few, adds⟩ := addPPEmode_adds m
      (s.setEndpointUID (PpeSection.mk (atoi (section'.drop 3)).toNat addr true).firstId)
      (PpeSection.mk (atoi (section'.drop 3)).toNat addr byteMode)
    refine ⟨.ppe (PpeSection.mk (atoi (section'.drop 3)).toNat addr byteMode).user, _, n,
      .ppe _ k n named number (by omega) (by omega) few, ?_⟩
    rw [adds.tags]
    show run _ (((atoi (section'.drop 3)).toNat - 1) * 8 + 32).toUInt8 n ++ tags s = _
    rw [number, Int.toNat_natCast]
  split_ifs
  · exact unchanged
  · exact unchanged
  · exact unchanged
  · exact made _ _
  · exact made _ _
  · exact unchanged

theorem oneWireDevices_le : (oneWireDevices ini major).toNat ≤ 31 := by
  have limit : oneWireDevices ini major ≤ maxDevices major := Int.min_le_right _ _
  have most : maxDevices major ≤ 31 := by
    unfold maxDevices
    split <;> omega
  omega

theorem addOneWire_adds (mode : LoadMode) (s : Daemon) :
    ∃ n ≤ 31, tags (addOneWireIniEndpoints m ini major mode s) = run .oneWire 128 n ++ tags s := by
  obtain ⟨n, few, adds⟩ := addSensors_adds m ini major mode
    (List.range' 1 (oneWireDevices ini major).toNat) (s.setEndpointUID 128)
  rw [length_range'] at few
  refine ⟨n, few.trans (oneWireDevices_le ini major), ?_⟩
  by_cases positive : 0 < oneWireTimeout ini
  · rw [show addOneWireIniEndpoints m ini major mode s = _ from if_pos positive]
    exact adds.tags
  · rw [show addOneWireIniEndpoints m ini major mode s = _ from if_neg positive]
    exact adds.tags

/-- The loop of an `[rf]` section is not limited. -/
theorem addRfEndpoints_tags (size : Nat) (s : Daemon) :
    tags (addRfEndpoints m ini size s) = run .rf 160 (rfDevices ini).toNat ++ tags s := by
  have adds := addEndpoints_adds m "rf" (List.range' 1 (rfDevices ini).toNat)
    (fun i => some ((decimal i).take (size - 1))) .output .binary .rf (s.setEndpointUID 160)
  rw [length_range'] at adds
  exact adds.tags

/-- A section adds one run. -/
theorem addSection_made (s : Daemon) (section' : Bytes) :
    ∃ device b n, Made ini major section' device b n ∧
      tags (addSection m ini stack major s section') = run device b n ++ tags s := by
  unfold addSection
  split
  · rename_i named
    exact addPPEendpoints_made m ini major _ s named
  split
  · rename_i named
    obtain ⟨n, few, adds⟩ := addOneWire_adds m ini major .delayed s
    exact ⟨_, _, n, .oneWire n named few, adds⟩
  split
  · rename_i named
    exact ⟨_, _, _, .rf named.2 (by omega), addRfEndpoints_tags m ini 30 s⟩
  split
  · rename_i named
    exact ⟨_, _, _, .rf named.2 (by omega), addRfEndpoints_tags m ini 3 s⟩
  · exact ⟨.lcd, 0, 0, .nothing _ _, rfl⟩

theorem addSection_rf (s : Daemon) (able : 1 ≤ major) :
    tags (addSection m ini stack major s "rf") = run .rf 160 (rfDevices ini).toNat ++ tags s := by
  unfold addSection
  rw [if_neg (by decide), if_neg (by decide)]
  by_cases single : major = 1
  · rw [if_pos ⟨single, rfl⟩, addRfEndpoints_tags]
  · rw [if_neg fun both => single both.1, if_pos ⟨by omega, rfl⟩, addRfEndpoints_tags]

end Sections

/-! ## Blocks -/

/-- The identifiers that belong to a section. -/
def Block (section' : Bytes) (id : UInt8) : Prop :=
  (section'.take 3 = "ppe" ∧ 32 ≤ id.toNat ∧ id.toNat ≤ 95 ∧
    atoi (section'.drop 3) = ((id.toNat - 32) / 8 + 1 : Nat)) ∨
  (section' = "1wire" ∧ 128 ≤ id.toNat ∧ id.toNat ≤ 159) ∨ (section' = "rf" ∧ 160 ≤ id.toNat)

def Board (id : UInt8) : Prop := id.toNat ≤ 31 ∨ 96 ≤ id.toNat ∧ id.toNat ≤ 127

theorem not_board_of_block {id : UInt8} (block : Block section' id) : ¬ Board id := by
  unfold Board
  rcases block with ⟨-, low, high, -⟩ | ⟨-, low, high⟩ | ⟨-, low⟩
  · omega
  · omega
  · omega

/-- The blocks of the sections of a file do not overlap. -/
theorem DistinctSections.apart (h : DistinctSections (section' :: names)) {other : Bytes} (mem : other ∈ names)
    {id : UInt8} (mine : Block section' id) : ¬ Block other id := by
  have twice : section' = other → 2 ≤ (section' :: names).count section' := by
    rintro rfl
    rw [count_cons_self]
    exact Nat.succ_le_succ (count_pos_iff.2 mem)
  rintro (⟨named, low, high, number⟩ | ⟨named, low, high⟩ | ⟨named, low⟩)
  · rcases mine with ⟨named', -, -, number'⟩ | ⟨-, low', -⟩ | ⟨-, low'⟩
    · -- both are port expanders, with the same number
      have distinct := h.ppe
      rw [ppeNumbers, filter_cons_of_pos (by simp [named']), map_cons, nodup_cons] at distinct
      apply distinct.1
      rw [number', ← number]
      exact mem_map_of_mem (mem_filter.2 ⟨mem, beq_iff_eq.2 named⟩)
    · omega
    · omega
  · rcases mine with ⟨-, -, high', -⟩ | ⟨named', -, -⟩ | ⟨-, low'⟩
    · omega
    · have count := twice (named'.trans named.symm)
      rw [named'] at count
      have once := h.oneWire
      rw [named'] at once
      omega
    · omega
  · rcases mine with ⟨-, -, high', -⟩ | ⟨-, -, high'⟩ | ⟨named', -⟩
    · omega
    · omega
    · have count := twice (named'.trans named.symm)
      rw [named'] at count
      have once := h.rf
      rw [named'] at once
      omega

theorem DistinctSections.tail (h : DistinctSections (section' :: names)) : DistinctSections names := by
  refine ⟨?_, count_le_count_cons.trans h.oneWire, count_le_count_cons.trans h.rf⟩
  exact h.ppe.sublist (((sublist_cons_self _ _).filter _).map _)

/-- A run stays in the block of its section and in the range of its device, if an `[rf]` section has
at most 96 devices. -/
theorem Made.block {ini : Ini} {major : Int} {b : UInt8} (made : Made ini major section' device b n)
    (limit : section' = "rf" → 1 ≤ major → rfDevices ini ≤ 96) :
    n ≤ 256 ∧ ∀ x ∈ run device b n, inRange x.1 x.2 ∧ Block section' x.2 := by
  cases made with
  | nothing => exact ⟨by decide, fun x mem => absurd mem not_mem_nil⟩
  | ppe user k n named numbered low high few =>
    refine ⟨by omega, fun x mem => ?_⟩
    obtain ⟨j, less, rfl⟩ := mem_run.1 mem
    have value : (((k - 1) * 8 + 32).toUInt8 + j.toUInt8).toNat = (k - 1) * 8 + 32 + j := by
      rw [toNat_add_ofNat, show ((k - 1) * 8 + 32).toUInt8.toNat = ((k - 1) * 8 + 32) % 256 from rfl]
      omega
    simp only [inRange, Block, value]
    refine ⟨by omega, Or.inl ⟨named, by omega, by omega, ?_⟩⟩
    rw [numbered]
    omega
  | oneWire n named few =>
    refine ⟨by omega, fun x mem => ?_⟩
    obtain ⟨j, less, rfl⟩ := mem_run.1 mem
    have value : (128 + j.toUInt8 : UInt8).toNat = 128 + j := by
      rw [toNat_add_ofNat, show (128 : UInt8).toNat = 128 from rfl]
      omega
    simp only [inRange, Block, value]
    exact ⟨by omega, Or.inr (Or.inl ⟨named, by omega, by omega⟩)⟩
  | rf named able =>
    have few := limit named able
    refine ⟨by omega, fun x mem => ?_⟩
    obtain ⟨j, less, rfl⟩ := mem_run.1 mem
    have value : (160 + j.toUInt8 : UInt8).toNat = 160 + j := by
      rw [toNat_add_ofNat, show (160 : UInt8).toNat = 160 from rfl]
      omega
    simp only [inRange, Block, value]
    exact ⟨by omega, Or.inr (Or.inr ⟨named, by omega⟩)⟩

/-- What holds before the sections `names` are read: every identifier is taken once, in the range of
its device and outside the blocks of these sections. -/
structure Vacant (names : List Bytes) (s : Daemon) : Prop where
  distinct : ((tags s).map Prod.snd).Nodup
  ranges : ∀ x ∈ tags s, inRange x.1 x.2
  free : ∀ x ∈ tags s, ∀ name ∈ names, ¬ Block name x.2

theorem addSection_vacant (m : Allocator) {ini : Ini} (stack : Bytes → Int) {major : Int}
    (limit : section' = "rf" → 1 ≤ major → rfDevices ini ≤ 96) (distinct : DistinctSections (section' :: names))
    (h : Vacant (section' :: names) s) : Vacant names (addSection m ini stack major s section') := by
  obtain ⟨device, b, n, made, added⟩ := addSection_made m ini stack major s section'
  obtain ⟨short, inside⟩ := made.block limit
  constructor
  · rw [added, map_append]
    refine nodup_append'.2 ⟨run_nodup device b short, h.distinct, ?_⟩
    -- the old identifiers are outside the block of the section
    intro id new old
    obtain ⟨x, hx, rfl⟩ := mem_map.1 new
    obtain ⟨y, hy, same⟩ := mem_map.1 old
    apply h.free y hy section' mem_cons_self
    rw [same]
    exact (inside x hx).2
  · intro x mem
    rw [added] at mem
    rcases mem_append.1 mem with new | old
    · exact (inside x new).1
    · exact h.ranges x old
  · intro x mem name later
    rw [added] at mem
    rcases mem_append.1 mem with new | old
    · exact distinct.apart later (inside x new).2
    · exact h.free x old name (mem_cons_of_mem _ later)

theorem addSections_vacant (m : Allocator) {ini : Ini} (stack : Bytes → Int) {major : Int}
    (names : List Bytes) (s : Daemon) (limit : ascii "rf" ∈ names → 1 ≤ major → rfDevices ini ≤ 96)
    (distinct : DistinctSections names) (h : Vacant names s) :
    Vacant [] (names.foldl (addSection m ini stack major) s) := by
  induction names generalizing s with
  | nil => exact h
  | cons section' names ih =>
    apply ih
    · exact fun mem => limit (mem_cons_of_mem _ mem)
    · exact distinct.tail
    · apply addSection_vacant m stack _ distinct h
      rintro rfl
      exact limit mem_cons_self

/-! ## The daemon -/

/-- The endpoints of the board, whatever their addresses are. -/
theorem tags_board (m : Allocator) :
    tags (addBoardEndpoints m Daemon.init) =
      [(.relay, 99), (.relay, 98), (.relay, 97), (.relay, 96), (.input, 5), (.input, 4), (.input, 3), (.input, 2),
        (.lcd, 1)] := rfl

theorem board_vacant (m : Allocator) (names : List Bytes) : Vacant names (addBoardEndpoints m Daemon.init) := by
  have inside : ∀ x ∈ tags (addBoardEndpoints m Daemon.init), inRange x.1 x.2 ∧ Board x.2 := by
    rw [tags_board]
    simp [inRange, Board]
  constructor
  · rw [tags_board]
    decide
  · exact fun x mem => (inside x mem).1
  · exact fun x mem name _ block => not_board_of_block block (inside x mem).2

theorem hex02_injective : Function.Injective hex02 := by
  have digits : ∀ i < 16, ∀ j < 16, hexChar i = hexChar j → i = j := by decide
  intro a b same
  have smallA := a.toNat_lt
  have smallB := b.toNat_lt
  injection same with high rest
  injection rest with low
  have highs := digits (a.toNat / 16) (by omega) (b.toNat / 16) (by omega) high
  have lows := digits (a.toNat % 16) (by omega) (b.toNat % 16) (by omega) low
  apply UInt8.toNat_inj.1
  omega

theorem identified_of_vacant (h : Vacant [] s) : Identified s := by
  constructor
  · have ids : (s.endpointList.map fun e => e.id).Nodup := by
      have distinct := h.distinct
      rw [tags, map_map] at distinct
      exact distinct
    have texts := List.Nodup.map hex02_injective ids
    rw [map_map] at texts
    exact texts
  · exact fun e mem => h.ranges _ (mem_map_of_mem mem)

theorem Identified.tag_range (h : Identified s) (mem : x ∈ tags s) : inRange x.1 x.2 := by
  obtain ⟨e, here, rfl⟩ := mem_map.1 mem
  exact h.ranges e here

theorem tags_addSections (m : Allocator) (ini : Ini) (stack : Bytes → Int) (major : Int)
    (names : List Bytes) (s : Daemon) (mem : x ∈ tags s) :
    x ∈ tags (names.foldl (addSection m ini stack major) s) := by
  induction names generalizing s with
  | nil => exact mem
  | cons name names ih =>
    apply ih
    obtain ⟨device, b, n, -, added⟩ := addSection_made m ini stack major s name
    rw [added]
    exact mem_append_right _ mem

theorem rf_tags (m : Allocator) {ini : Ini} (stack : Bytes → Int) {major : Int}
    (mem : ascii "rf" ∈ ini.sectionNames) (able : 1 ≤ firmwareVersionOverride ini major) {k : Nat}
    (less : k < rfDevices ini) : (Device.rf, 160 + k.toUInt8) ∈ tags (createEndpoints m ini stack major) := by
  obtain ⟨before, after, split⟩ := append_of_mem mem
  unfold createEndpoints addIniEndpoints
  rw [split, foldl_append, foldl_cons]
  apply tags_addSections
  rw [addSection_rf m ini stack _ _ able]
  apply mem_append_left
  exact mem_run.2 ⟨k, by omega, rfl⟩

/-- **Endpoints keep to their identifiers unless there are too many RF devices.** With each section
once in the file, the identifiers are distinct and in their ranges if and only if an `[rf]` section
that is read has at most 96 devices. -/
theorem identified_iff (m : Allocator) (ini : Ini) (stack : Bytes → Int) (major : Int)
    (distinct : DistinctSections ini.sectionNames) :
    Identified (createEndpoints m ini stack major) ↔
      (ascii "rf" ∈ ini.sectionNames → 1 ≤ firmwareVersionOverride ini major → rfDevices ini ≤ 96) := by
  constructor
  · intro identified mem able
    by_contra many
    -- the 97th device has the identifier 0
    have wrapped := rf_tags m stack mem able (show ((96 : Nat) : Int) < rfDevices ini by omega)
    exact absurd (identified.tag_range wrapped) (by decide)
  · intro limit
    exact identified_of_vacant (addSections_vacant m stack _ _ limit distinct (board_vacant m _))

/-- A file with every kind of section, and as many transmitters as there are identifiers. -/
theorem identified_full_range :
    Identified (createEndpoints .rising
      (Ini.of ["ppe1", "1wire", "rf"] [("ppe1", "address", "40"), ("ppe1", "mode", "pin"), ("1wire", "devices", "1"),
        ("rf", "devices", "96")]) (fun _ => 0) 1) := by
  apply (identified_iff .rising _ (fun _ => 0) 1 ⟨by decide, by decide, by decide⟩).2
  intro _ _
  decide

/-- With 98 devices the last one has the identifier of the LCD. -/
theorem rf_takes_lcd_id :
    let ini := Ini.of ["rf"] [("rf", "devices", "98")]
    DistinctSections ini.sectionNames ∧
      (Device.lcd, 1) ∈ tags (createEndpoints .rising ini (fun _ => 0) 2) ∧
      (Device.rf, 1) ∈ tags (createEndpoints .rising ini (fun _ => 0) 2) ∧
      ¬ Identified (createEndpoints .rising ini (fun _ => 0) 2) := by
  intro ini
  have lcd : (Device.lcd, 1) ∈ tags (createEndpoints .rising ini (fun _ => 0) 2) := by
    apply tags_addSections
    rw [tags_board]
    decide
  have rf : (Device.rf, 1) ∈ tags (createEndpoints .rising ini (fun _ => 0) 2) :=
    rf_tags .rising (fun _ => 0) (by decide) (by decide) (show ((97 : Nat) : Int) < rfDevices ini by decide)
  refine ⟨⟨by decide, by decide, by decide⟩, lcd, rf, ?_⟩
  exact fun identified => absurd (identified.tag_range rf) (by decide)

end Hah.Livebox
