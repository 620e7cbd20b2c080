import Hah.Hub.Membership
import Mathlib.Algebra.Order.Field.Rat
import Mathlib.Tactic.Linarith

/-!
# Clients that keep their schedule

A client announces an interval with its heartbeats and sends them at most that far apart.
The hub grants twice the interval and takes 10 seconds off at every reap, however long the
last reap is ago. Between two heartbeats that are `interval` apart there can be one reap
more than `interval` has tens, so the grant lasts if this is less than the doubled interval:
it does not for 1 to 5 and for 10 seconds. A doubled interval that is no `int` has run out
when it is granted.

Events carry the time at which they reach the hub.
-/

namespace Hah.Hub
open C Xap List

/-- A run of timed events in which the client on `port` keeps to its interval and the reaper to
its 10 seconds. The last field says for every event behind the first heartbeat that a heartbeat
came at most an interval before it. -/
structure OnSchedule (port interval : Int) (run : List (ℚ × HubEvent)) : Prop where
  ordered : run.Pairwise fun a b => a.1 ≤ b.1
  reaps : run.Pairwise fun a b => a.2 = .reap → b.2 = .reap → a.1 + 10 ≤ b.1
  announces : ∀ x ∈ run, ∀ ask, x.2.signal = .renew port ask → ask = interval
  stays : ∀ x ∈ run, x.2.signal ≠ .release port
  beats : ∀ before x after, run = before ++ x :: after →
    (∃ b ∈ before, b.2.signal = .renew port interval) →
      ∃ b ∈ before, b.2.signal = .renew port interval ∧ x.1 ≤ b.1 + (interval : ℚ)

/-- Whenever the hub has had a heartbeat for `port`, it has an entry for it, and the entry is alive. -/
def NeverDead (port interval : Int) (run : List (ℚ × HubEvent)) : Prop :=
  ∀ before after h, run = before ++ after → (∃ b ∈ before, b.2.signal = .renew port interval) →
    hubRun hubStart (before.map (·.2)) = some h →
      (∃ entry ∈ h.hubList, entry.port = port) ∧ ∀ entry ∈ h.hubList, entry.port = port → entry.isAlive = true

/-! ## Defined runs -/

variable {h : HubState} {before after : List (ℚ × HubEvent)}
  {event : HubEvent} {h' : HubState} {x : ℚ × HubEvent}

theorem step_fits {done : HubState × List Sent} (step : hubStep h event = some done) : event.Fits := by
  cases event with
  | reap => trivial
  | packet fromHere datagram =>
    cases fromHere with
    | false => trivial
    | true =>
      show FitsTable (received datagram)
      by_cases empty : received datagram = []
      · rw [empty]
        decide
      · by_contra misfit
        have outside : ¬ ∀ slot ∈ parseStores (h.frame.load (received datagram)), slot < xapMsgElements :=
          fun inside => misfit (.of_stores inside (received_short datagram))
        simp [hubStep, xapRxBroadcast, empty, outside] at step

theorem run_fits {run : List HubEvent} (reached : hubRun h run = some h') : ∀ event ∈ run, event.Fits := by
  induction run generalizing h with
  | nil => exact fun _ mem => absurd mem not_mem_nil
  | cons event run ih =>
    obtain ⟨next, step, rest⟩ := Option.bind_eq_some_iff.1 reached
    exact forall_mem_cons.2 ⟨step_fits step, ih rest⟩

theorem run_entries {run : List HubEvent} (reached : hubRun h run = some h') :
    h'.hubList = run.foldl HubEvent.effect h.hubList := by
  obtain ⟨frame, same⟩ := hubRun_effects (run_fits reached) h
  rw [same, Option.some.injEq] at reached
  rw [← reached]

/-! ## Reaps between heartbeats -/

/-- Times that are 10 apart need room. -/
theorem spaced_length {times : List ℚ} (spaced : times.Pairwise fun a b => a + 10 ≤ b) {start stop : ℚ}
    (within : ∀ t ∈ times, start ≤ t ∧ t ≤ stop) (nonempty : times ≠ []) :
    10 * ((times.length : ℚ) - 1) ≤ stop - start := by
  induction times generalizing start with
  | nil => exact absurd rfl nonempty
  | cons t rest ih =>
    obtain ⟨first, more⟩ := pairwise_cons.1 spaced
    have bounds := within t mem_cons_self
    by_cases last : rest = []
    · rw [last, length_singleton]
      push_cast
      linarith
    · have shifted : ∀ u ∈ rest, t + 10 ≤ u ∧ u ≤ stop :=
        fun u mem => ⟨first u mem, (within u (mem_cons_of_mem t mem)).2⟩
      have room := ih more shifted last
      rw [length_cons]
      push_cast
      linarith

variable {port interval : Int} {run : List (ℚ × HubEvent)}

theorem OnSchedule.initial (h : OnSchedule port interval (before ++ after)) :
    OnSchedule port interval before where
  ordered := (pairwise_append.1 h.ordered).1
  reaps := (pairwise_append.1 h.reaps).1
  announces x mem := h.announces x (mem_append_left after mem)
  stays x mem := h.stays x (mem_append_left after mem)
  beats front x back split renewed :=
    h.beats front x (back ++ after) (by rw [split, append_assoc, cons_append]) renewed

/-- Behind the last heartbeat everything happens before the next one is due. -/
theorem OnSchedule.before_due (h : OnSchedule port interval (before ++ beat :: after))
    (renews : beat.2.signal = .renew port interval) (quiet : ∀ x ∈ after, x.2.signal.quiet port = true)
    (mem : x ∈ after) : beat.1 ≤ x.1 ∧ x.1 ≤ beat.1 + interval := by
  obtain ⟨-, ordered, early⟩ := pairwise_append.1 h.ordered
  refine ⟨(pairwise_cons.1 ordered).1 x mem, ?_⟩
  -- the heartbeat that is due for this event is the last one or an earlier one
  obtain ⟨front, back, split⟩ := append_of_mem mem
  obtain ⟨b, memB, renewed, due⟩ := h.beats (before ++ beat :: front) x back (by simp [split])
    ⟨beat, by simp, renews⟩
  have notLater : b.1 ≤ beat.1 := by
    rcases mem_append.1 memB with inBefore | inRest
    · exact early b inBefore beat mem_cons_self
    · rcases mem_cons.1 inRest with rfl | inFront
      · exact le_refl _
      · have calm := quiet b (by rw [split]; exact mem_append_left _ inFront)
        rw [renewed] at calm
        simp [Lease.Signal.quiet] at calm
  linarith

theorem isTick_reap (tick : event.signal.isTick = true) : event = .reap := by
  cases event with
  | reap => rfl
  | packet fromHere datagram =>
    simp only [HubEvent.signal] at tick
    split at tick <;> cases tick

/-- Behind the last heartbeat there is at most one reap more than the interval has tens. -/
theorem OnSchedule.few_reaps (h : OnSchedule port interval (before ++ beat :: after))
    (renews : beat.2.signal = .renew port interval) (quiet : ∀ x ∈ after, x.2.signal.quiet port = true) :
    after.countP (fun x => x.2.signal.isTick) = 0 ∨
      10 * ((after.countP (fun x => x.2.signal.isTick) : Int) - 1) ≤ interval := by
  obtain ⟨-, spaced, -⟩ := pairwise_append.1 h.reaps
  have isReap : ∀ x ∈ after.filter (fun x => x.2.signal.isTick), x.2 = .reap :=
    fun x mem => isTick_reap (mem_filter.1 mem).2
  rw [countP_eq_length_filter]
  by_cases none : after.filter (fun x => x.2.signal.isTick) = []
  · left
    rw [none, length_nil]
  · right
    have apart : ((after.filter (fun x => x.2.signal.isTick)).map (·.1)).Pairwise fun a b => a + 10 ≤ b := by
      rw [pairwise_map]
      refine List.Pairwise.imp_of_mem ?_ ((pairwise_cons.1 spaced).2.filter _)
      exact fun memA memB both => both (isReap _ memA) (isReap _ memB)
    have within : ∀ t ∈ (after.filter (fun x => x.2.signal.isTick)).map (·.1),
        beat.1 ≤ t ∧ t ≤ beat.1 + interval := by
      intro t mem
      obtain ⟨x, filtered, rfl⟩ := mem_map.1 mem
      exact h.before_due renews quiet (mem_filter.1 filtered).1
    have room := spaced_length apart within (by simpa using none)
    rw [length_map] at room
    have cast : ((10 * (((after.filter fun x => x.2.signal.isTick).length : Int) - 1) : Int) : ℚ) ≤ interval := by
      push_cast
      linarith
    exact_mod_cast cast

/-- The intervals that outlast the reaps between two heartbeats. -/
def Lasting (interval : Int) : Prop := 6 ≤ interval ∧ interval ≠ 10 ∧ interval ≤ 1073741828

instance (interval : Int) : Decidable (Lasting interval) := inferInstanceAs (Decidable (_ ∧ _))

/-- A grant of a lasting interval is alive behind the reaps that a schedule allows. -/
theorem Lasting.decayed (lasting : Lasting interval) {n : Nat} (few : n = 0 ∨ 10 * ((n : Int) - 1) ≤ interval) :
    ∃ timer, Lease.decayed decay n (grant interval) = some timer := by
  obtain ⟨six, notTen, high⟩ := lasting
  cases n with
  | zero => exact ⟨_, rfl⟩
  | succ n =>
    have room : 10 * ((n : Int) + 1) < 2 * interval := by omega
    exact ⟨_, by rw [decayed_reaped (by omega) (by omega), if_pos room]⟩

theorem OnSchedule.alive (h : OnSchedule port interval run) (lasting : Lasting interval)
    (renewed : ∃ b ∈ run, b.2.signal = .renew port interval) :
    ∃ timer, timerOf ((run.map (·.2)).foldl HubEvent.effect []) port = some timer := by
  have asked : ∃ ask, Lease.Signal.renew port ask ∈ (run.map (·.2)).map HubEvent.signal := by
    obtain ⟨b, mem, beat⟩ := renewed
    exact ⟨interval, mem_map.2 ⟨b.2, mem_map_of_mem mem, beat⟩⟩
  have kept : Lease.Signal.release port ∉ (run.map (·.2)).map HubEvent.signal := by
    rw [map_map]
    intro mem
    obtain ⟨x, inRun, stops⟩ := mem_map.1 mem
    exact h.stays x inRun stops
  obtain ⟨ask, n, since⟩ := Lease.exists_since asked kept
  have last := since
  obtain ⟨front, back, split, quiet, rfl⟩ := last
  rw [map_map] at split
  obtain ⟨before, rest, rfl, -, restIs⟩ := map_eq_append_iff.1 split
  obtain ⟨beat, after, rfl, renews, backIs⟩ := map_eq_cons_iff.1 restIs
  obtain rfl := h.announces beat (by simp) ask renews
  have few := h.few_reaps renews fun x mem => quiet _ (by rw [← backIs]; exact mem_map_of_mem mem)
  have ticks : Lease.ticks back = after.countP fun x => x.2.signal.isTick := by
    rw [Lease.ticks, ← backIs, countP_map]
    rfl
  rw [← ticks] at few
  obtain ⟨timer, lasts⟩ := lasting.decayed few
  refine ⟨timer, ?_⟩
  rw [run_leases]
  exact (Lease.run_iff grant decay).2 ⟨ask, _, since, lasts⟩

theorem alive_entries {hubList : List HubEntry} (distinct : (hubList.map (·.port)).Nodup) {timer : Int}
    (held : timerOf hubList port = some timer) :
    (∃ entry ∈ hubList, entry.port = port) ∧ ∀ entry ∈ hubList, entry.port = port → entry.isAlive = true := by
  obtain ⟨entry, mem, same, alive⟩ := (alive_iff_timer distinct port).2 ⟨timer, held⟩
  refine ⟨⟨entry, mem, same⟩, ?_⟩
  intro other memOther sameOther
  rwa [inj_on_of_nodup_map distinct memOther mem (sameOther.trans same.symm)]

theorem OnSchedule.neverDead (h : OnSchedule port interval run) (lasting : Lasting interval) :
    NeverDead port interval run := by
  intro before after hub split renewed reached
  subst split
  obtain ⟨timer, held⟩ := h.initial.alive lasting renewed
  have entries := run_entries reached
  rw [show hubStart.hubList = [] from rfl] at entries
  rw [entries]
  exact alive_entries (run_distinct _ (by simp)) held

/-! ## Short and huge intervals -/

/-- The section of a heartbeat of port 4000 that announces `interval`. -/
def announcement (interval : Int) : Section :=
  ⟨"xap-hbeat", [("class", "xap-hbeat.alive"), ("interval", decimalInt interval),
    ("port", "4000")]⟩

def beacon (interval : Int) : HubEvent := .packet true (layout [announcement interval])

theorem decimalInt_printable (x : Int) : ValueOk (decimalInt x) := by
  have digits : ∀ c ∈ decimal x.natAbs, 32 ≤ c := by
    intro c mem
    have isDigit := isdigit_decimal c mem
    simp only [isdigit, Bool.and_eq_true, decide_eq_true_eq] at isDigit
    exact UInt8.le_trans (by decide) isDigit.1
  unfold decimalInt
  split
  next => exact forall_mem_cons.2 ⟨by decide, digits⟩
  next => exact digits

theorem announcement_ok (interval : Int) : (announcement interval).Ok := by
  have key : ∀ k ∈ ["class", "interval", "port"], KeyOk k := by
    intro k mem
    simp only [mem_cons, not_mem_nil, or_false] at mem
    rcases mem with rfl | rfl | rfl <;> exact .of_plain (by decide)
  have name : NameOk "xap-hbeat" := .of_plain (by decide)
  refine ⟨name, ?_⟩
  intro p mem
  simp only [announcement, mem_cons, not_mem_nil, or_false] at mem
  rcases mem with rfl | rfl | rfl
  · exact ⟨key _ (by simp), bytes_of_all (by decide)⟩
  · exact ⟨key _ (by simp), decimalInt_printable interval⟩
  · exact ⟨key _ (by simp), bytes_of_all (by decide)⟩

/-- A heartbeat and then reaps, the first of them at once. -/
def silence (interval : Int) (reaps : Nat) : List (ℚ × HubEvent) :=
  (0, beacon interval) :: (List.range reaps).map fun k : Nat => (10 * (k : ℚ), .reap)

theorem silence_events (reaps : Nat) :
    (silence interval reaps).map (·.2) = beacon interval :: List.replicate reaps .reap := by
  simp [silence, Function.comp_def, map_const']

theorem mem_silence {reaps : Nat} (mem : x ∈ silence interval reaps) :
    x = (0, beacon interval) ∨ ∃ k : Nat, k < reaps ∧ x = (10 * (k : ℚ), .reap) := by
  rcases mem_cons.1 mem with rfl | tail
  · exact .inl rfl
  · obtain ⟨k, inRange, rfl⟩ := mem_map.1 tail
    exact .inr ⟨k, mem_range.1 inRange, rfl⟩

theorem reaps_apart (reaps : Nat) : (List.range reaps).Pairwise fun i j : Nat => 10 * (i : ℚ) + 10 ≤ 10 * (j : ℚ) := by
  refine pairwise_lt_range.imp ?_
  intro i j before
  have next : ((i + 1 : Nat) : ℚ) ≤ j := Nat.cast_le.2 before
  push_cast at next
  linarith

section Beacon

variable (low : -2147483648 ≤ interval) (high : interval < 2147483648)

include low high

variable {reaps : Nat}

theorem announcement_length : (layout [announcement interval]).length ≤ 67 := by
  have digits := decimalInt_length low high
  have fixed : (layout [announcement interval]).length = 56 + (decimalInt interval).length := by
    simp [layout, Section.layout, announcement, pairLayout, ascii]
    omega
  omega

theorem beacon_signal : (beacon interval).signal = .renew 4000 interval := by
  have short := announcement_length low high
  have whole : received (layout [announcement interval]) = layout [announcement interval] :=
    take_of_length_le (Nat.le_trans short (by decide))
  have read := scan_layout (forall_mem_singleton.2 (announcement_ok interval))
      (by simp [Section.elements, announcement, xapMsgElements])
  have noticed : notice [announcement interval] = .beat 4000 (atoi (decimalInt interval)) := rfl
  rw [atoi_decimalInt low high] at noticed
  simp only [beacon, HubEvent.signal, packetNotice, if_true, whole, read, noticed]

theorem beacon_fits : (beacon interval).Fits := by
  have short := announcement_length low high
  apply FitsTable.of_short
  rw [received, length_take]
  exact Nat.le_trans (Nat.min_le_right _ _) (Nat.le_trans short (by decide))

/-- The schedule is kept as long as the last reap is not behind the next heartbeat. -/
theorem silence_onSchedule (soon : 10 * ((reaps : ℚ) - 1) ≤ interval) (positive : 0 ≤ interval) :
    OnSchedule 4000 interval (silence interval reaps) := by
  have beat := beacon_signal low high
  refine ⟨?_, ?_, ?_, ?_, ?_⟩
  · refine pairwise_cons.2 ⟨?_, pairwise_map.2 ((reaps_apart reaps).imp fun {i j} apart => by linarith)⟩
    intro x mem
    obtain ⟨k, -, rfl⟩ := mem_map.1 mem
    have : (0 : ℚ) ≤ k := Nat.cast_nonneg k
    linarith
  · refine pairwise_cons.2 ⟨?_, pairwise_map.2 ((reaps_apart reaps).imp fun apart _ _ => apart)⟩
    intro x mem isReap
    cases isReap
  · intro x mem ask renews
    rcases mem_silence mem with rfl | ⟨k, -, rfl⟩
    · rw [beat] at renews
      injection renews with _ same
      exact same.symm
    · cases renews
  · intro x mem stops
    rcases mem_silence mem with rfl | ⟨k, -, rfl⟩
    · rw [beat] at stops
      cases stops
    · cases stops
  · intro before x after split renewed
    cases before with
    | nil =>
      obtain ⟨b, mem, -⟩ := renewed
      cases mem
    | cons first before =>
      obtain ⟨rfl, -⟩ := List.cons.inj split
      refine ⟨(0, beacon interval), mem_cons_self, beat, ?_⟩
      have inRun : x ∈ silence interval reaps := by
        rw [split]
        simp
      have wide : (0 : ℚ) ≤ interval := Int.cast_nonneg positive
      rcases mem_silence inRun with rfl | ⟨k, few, rfl⟩
      · show (0 : ℚ) ≤ 0 + interval
        linarith
      · have next : ((k + 1 : Nat) : ℚ) ≤ reaps := Nat.cast_le.2 few
        push_cast at next
        linarith

theorem silence_timer (reaps : Nat) :
    timerOf (((silence interval reaps).map (·.2)).foldl HubEvent.effect []) 4000 =
      Lease.decayed decay reaps (grant interval) := by
  have reaped : ∀ table : Lease.Table Int Int, table 4000 = some (grant interval) →
      ((List.replicate reaps HubEvent.reap).map HubEvent.signal).foldl (Lease.step grant decay) table 4000 =
        Lease.decayed decay reaps (grant interval) := by
    intro table held
    induction reaps with
    | zero => exact held
    | succ n ih =>
      rw [replicate_succ', map_append, foldl_append, Lease.decayed, ← ih]
      rfl
  rw [silence_events, run_leases, map_cons, beacon_signal low high]
  exact reaped _ (by simp [Lease.step])

/-- A client whose grant does not outlive the reaps is dropped on schedule. -/
theorem silence_dead (expired : Lease.decayed decay reaps (grant interval) = none) :
    ¬ NeverDead 4000 interval (silence interval reaps) := by
  intro never
  have fits : ∀ event ∈ (silence interval reaps).map (·.2), event.Fits := by
    rw [silence_events]
    refine forall_mem_cons.2 ⟨beacon_fits low high, ?_⟩
    intro event mem
    rw [eq_of_mem_replicate mem]
    trivial
  obtain ⟨frame, reached⟩ := hubRun_effects fits hubStart
  obtain ⟨⟨entry, mem, same⟩, alive⟩ := never _ [] _ (append_nil _).symm
    ⟨_, mem_cons_self, beacon_signal low high⟩ reached
  obtain ⟨timer, held⟩ := (alive_iff_timer (run_distinct _ (by simp [hubStart])) 4000).1
    ⟨entry, mem, same, alive entry mem same⟩
  rw [show hubStart.hubList = [] from rfl, silence_timer low high, expired] at held
  cases held

end Beacon

/-- **Clients on schedule stay connected exactly for the lasting intervals**: from 6 seconds on, but
for 10 seconds and for intervals whose double is no `int`. -/
theorem schedule_lasting_iff {interval : Int} (positive : 1 ≤ interval) (int : interval < 2147483648) :
    (∀ port run, OnSchedule port interval run → NeverDead port interval run) ↔
      6 ≤ interval ∧ interval ≠ 10 ∧ interval ≤ 1073741828 := by
  constructor
  · intro safe
    have survives : ∀ reaps : Nat, 10 * ((reaps : ℚ) - 1) ≤ interval →
        Lease.decayed decay reaps (grant interval) ≠ none := fun reaps soon expired =>
      silence_dead (by omega) int expired (safe 4000 _ (silence_onSchedule (by omega) int soon (by omega)))
    have once := survives 1 (by norm_num; linarith)
    refine ⟨?_, ?_, ?_⟩
    · by_contra small
      apply once
      rw [decayed_reaped (by omega) (by omega), if_neg (by simp; omega)]
    · rintro rfl
      exact survives 2 (by norm_num) (by decide)
    · by_contra huge
      apply once
      have gone : wrap32 (grant interval - reapTimeSecs) ≤ 0 := by
        unfold grant wrap32 reapTimeSecs
        omega
      rw [Lease.decayed, Lease.decayed, Option.bind_some, decay, if_pos gone]
  · intro lasting port run scheduled
    exact scheduled.neverDead lasting

/-- A client with the usual 60 seconds, reaped six times between its heartbeats. -/
theorem schedule_lasting_minute :
    OnSchedule 4000 60 (silence 60 7) ∧ NeverDead 4000 60 (silence 60 7) := by
  have scheduled : OnSchedule 4000 60 (silence 60 7) :=
    silence_onSchedule (by decide) (by decide) (by norm_num) (by decide)
  exact ⟨scheduled, (schedule_lasting_iff (by decide) (by decide)).2 (by decide) 4000 _ scheduled⟩

/-- With heartbeats every 10 seconds a client is dropped when reaps come right behind a heartbeat and
right before the next one; with 5 seconds one reap is enough. -/
theorem schedule_dropped :
    (OnSchedule 4000 10 (silence 10 2) ∧ ¬ NeverDead 4000 10 (silence 10 2)) ∧
      OnSchedule 4000 5 (silence 5 1) ∧ ¬ NeverDead 4000 5 (silence 5 1) :=
  ⟨⟨silence_onSchedule (by decide) (by decide) (by norm_num) (by decide),
      silence_dead (by decide) (by decide) (by decide)⟩,
    silence_onSchedule (by decide) (by decide) (by norm_num) (by decide),
    silence_dead (by decide) (by decide) (by decide)⟩

end Hah.Hub
