import Hah.Lib.Lease
import Hah.Hub.Hub
import Hah.Xap.Capacity
import Mathlib.Data.List.Nodup

/-!
# Who the hub relays to

A packet gives the hub a notice, read off its sections: a heartbeat that renews a port, a
stop that releases it, the hub's own heartbeat, or nothing. Over a run the entries of
`hubList` are the leases of these notices (`run_leases`): a port is alive by its last
heartbeat, its stop and the reaps since. The terms are `int`s and wrap around.
-/

namespace Hah.Hub
open C Xap List

/-! ## What a packet says -/

inductive Notice where
  | beat (port interval : Int)
  | stop (port : Int)
  | own
  | none
  deriving DecidableEq, Repr

/-- The notice of a message from this host. -/
def notice (sections : List Section) : Notice :=
  if ∃ s ∈ sections.head?, strcasecmpEq s.name (ascii "xap-hbeat") = true then
    match lookup sections (ascii "xap-hbeat") (ascii "port"),
      lookup sections (ascii "xap-hbeat") (ascii "interval") with
    | some port, some interval =>
      if atoi port = rxPort then .own
      else if lookup sections (ascii "xap-hbeat") (ascii "class") = some (ascii "xap-hbeat.stop") then
        .stop (atoi port)
      else .beat (atoi port) (atoi interval)
    | _, _ => .none
  else .none

/-- The notice of a datagram: packets from elsewhere and empty ones give none. -/
def packetNotice (fromHere : Bool) (datagram : Bytes) : Notice :=
  if fromHere then notice ((scan (received datagram)).blocks.map Block.text) else .none

/-- What happens to the leases of the ports. -/
def HubEvent.signal : HubEvent → Lease.Signal Int Int
  | .reap => .tick
  | .packet fromHere datagram =>
    match packetNotice fromHere datagram with
    | .beat port interval => .renew port interval
    | .stop port => .release port
    | _ => .other

/-- A datagram that is parsed does not overrun the table of the frame. -/
def HubEvent.Fits : HubEvent → Prop
  | .packet true datagram => FitsTable (received datagram)
  | _ => True

instance (event : HubEvent) : Decidable event.Fits :=
  match event with
  | .packet true datagram => inferInstanceAs (Decidable (FitsTable (received datagram)))
  | .packet false _ => isTrue trivial
  | .reap => isTrue trivial

def Notice.effect (hubList : List HubEntry) : Notice → List HubEntry
  | .beat port interval => addOrUpdateHubEntry hubList port interval
  | .stop port => stopHubConnection hubList port
  | _ => hubList

def HubEvent.effect (hubList : List HubEntry) : HubEvent → List HubEntry
  | .packet fromHere datagram => (packetNotice fromHere datagram).effect hubList
  | .reap => reapHubConnections reapTimeSecs hubList

/-- What is sent on an event that leaves the entries `hubList`: nothing on a reap, on an empty
datagram and on the hub's own heartbeat, else the bytes received, once to every live entry. -/
def HubEvent.relayed (hubList : List HubEntry) : HubEvent → List Sent
  | .reap => []
  | .packet fromHere datagram =>
    if received datagram = [] ∨ packetNotice fromHere datagram = .own then []
    else (hubList.filter (·.isAlive)).map fun entry => ⟨udpPort entry.port, received datagram⟩

/-! ## One callback -/

variable {hubList : List HubEntry} {port interval : Int}

theorem relayLoop_eq (frame : XapFrame) (hubList : List HubEntry) :
    relayLoop frame hubList = (hubList.filter (·.isAlive)).map fun entry =>
      ⟨udpPort entry.port, bytesAt frame.dataPacket 0 frame.len⟩ := by
  induction hubList with
  | nil => rfl
  | cons entry rest ih => cases alive : entry.isAlive <;> simp [relayLoop, alive, ih]

/-- The relayed bytes are those received: the parse worked on a copy. -/
theorem hubRelay_load (hubList : List HubEntry) (frame : XapFrame) (d : Bytes) :
    hubRelay ⟨hubList, frame.load d⟩ =
      (hubList.filter (·.isAlive)).map fun entry => ⟨udpPort entry.port, d⟩ := by
  have bytes : bytesAt (frame.load d).dataPacket 0 (frame.load d).len = d := by
    apply ext_getElem
    · simp [bytesAt, XapFrame.load]
    · intro j hj hj'
      simp [bytesAt, XapFrame.load, hj']
  rw [hubRelay, relayLoop_eq, bytes]

theorem onHeartbeat_eq {f : XapFrame} {sections : List Section} (shown : Shows f sections)
    (isHbeat : xapGetTypeF f = .hbeat) (hubList : List HubEntry) :
    onHeartbeat hubList f =
      if notice sections = .own then none else some ((notice sections).effect hubList) := by
  simp only [onHeartbeat, shown.getValue, notice, if_pos (shown.hbeat_iff.1 isHbeat)]
  cases lookup sections "xap-hbeat" "port" with
  | none => simp [Notice.effect]
  | some port =>
    cases lookup sections "xap-hbeat" "interval" with
    | none => simp [Notice.effect]
    | some interval =>
      split_ifs <;> simp_all [Notice.effect]

theorem received_short (datagram : Bytes) : (received datagram).length ≤ xapDataLen := by
  simp only [received, length_take, xapDataLen]
  omega

/-- **A callback** keeps to its notice: it changes the entries by its effect and relays
what it received to the entries that are alive then. -/
theorem step_event (h : HubState) (event : HubEvent) (fits : event.Fits) :
    ∃ frame, hubStep h event =
      some (⟨event.effect h.hubList, frame⟩, event.relayed (event.effect h.hubList)) := by
  cases event with
  | reap => exact ⟨h.frame, rfl⟩
  | packet fromHere datagram =>
    simp only [hubStep, HubEvent.relayed, HubEvent.effect, xapRxBroadcast]
    by_cases empty : received datagram = []
    · have silent : packetNotice fromHere datagram = .none := by
        cases fromHere
        · rfl
        · rw [packetNotice, if_pos rfl, empty]
          rfl
      refine ⟨{ h.frame with len := 0 }, ?_⟩
      simp [empty, silent, Notice.effect]
    refine ⟨h.frame.load (received datagram), ?_⟩
    cases fromHere with
    | false => simp [empty, packetNotice, Notice.effect, hubRelay_load]
    | true =>
      have inside := (FitsTable.within fits h.frame (received_short datagram)).stores
      have shown := parse_shows h.frame (received_short datagram)
      simp only [empty, if_false, if_true, if_pos inside, packetNotice]
      by_cases isHbeat : xapGetTypeF (parseMsgF (h.frame.load (received datagram))) = .hbeat
      · rw [if_pos isHbeat, onHeartbeat_eq shown isHbeat]
        by_cases own : notice ((scan (received datagram)).blocks.map Block.text) = .own
        · simp [own, Notice.effect]
        · simp [own, hubRelay_load]
      · have silent : notice ((scan (received datagram)).blocks.map Block.text) = .none := by
          rw [notice, if_neg fun first => isHbeat (shown.hbeat_iff.2 first)]
        simp [isHbeat, silent, Notice.effect, hubRelay_load]

/-! ## Entries are leases -/

/-- What is left of the term of a live port. -/
def timerOf (hubList : List HubEntry) (port : Int) : Option Int :=
  (hubList.find? (·.port = port)).bind fun entry => if entry.isAlive then some entry.timer else none

def grant (interval : Int) : Int := wrap32 (interval * 2)

def decay (timer : Int) : Option Int :=
  if wrap32 (timer - reapTimeSecs) ≤ 0 then none else some (wrap32 (timer - reapTimeSecs))

section Change

variable {change : HubEntry → HubEntry} (keeps : ∀ entry, (change entry).port = entry.port)

include keeps

theorem changeEntry_ports (port : Int) (hubList : List HubEntry) :
    (changeEntry port change hubList).map (·.port) = hubList.map (·.port) := by
  induction hubList with
  | nil => rfl
  | cons entry rest ih =>
    rw [changeEntry]
    split_ifs
    · simp [keeps]
    · simp [ih]

theorem changeEntry_find (port p : Int) (hubList : List HubEntry) :
    (changeEntry port change hubList).find? (·.port = p) =
      if p = port then (hubList.find? (·.port = p)).map change else hubList.find? (·.port = p) := by
  induction hubList with
  | nil => simp [changeEntry]
  | cons entry rest ih =>
    rw [changeEntry]
    by_cases here : entry.port = port
    · by_cases asked : p = port
      · simp [here, asked, keeps]
      · simp [here, asked, keeps, Ne.symm asked]
    · by_cases asked : entry.port = p
      · simp [asked, show p ≠ port from asked ▸ here]
      · simp [here, asked, ih]

end Change

/-- A port of the list is found in it. -/
theorem find_port (known : ∃ entry ∈ hubList, entry.port = port) :
    ∃ entry, hubList.find? (·.port = port) = some entry := by
  rw [← Option.isSome_iff_exists, find?_isSome]
  simpa using known

theorem addOrUpdate_ports (hubList : List HubEntry) (port interval : Int) :
    (addOrUpdateHubEntry hubList port interval).map (·.port) =
      if port ∈ hubList.map (·.port) then hubList.map (·.port) else port :: hubList.map (·.port) := by
  have known : hubList.any (·.port = port) = true ↔ port ∈ hubList.map (·.port) := by
    simp
  unfold addOrUpdateHubEntry
  by_cases old : port ∈ hubList.map (·.port)
  · rw [if_pos (known.2 old), if_pos old]
    exact changeEntry_ports (fun _ => by rfl) port hubList
  · rw [if_neg (mt known.1 old), if_neg old]
    rfl

theorem timerOf_beat (hubList : List HubEntry) (port interval : Int) :
    timerOf (addOrUpdateHubEntry hubList port interval) =
      Lease.step grant decay (timerOf hubList) (.renew port interval) := by
  funext p
  simp only [timerOf, addOrUpdateHubEntry, Lease.step]
  by_cases known : hubList.any (·.port = port) = true
  · rw [if_pos known, changeEntry_find (fun _ => by rfl)]
    by_cases asked : p = port
    · subst asked
      have listed : ∃ entry ∈ hubList, entry.port = p := by simpa using known
      obtain ⟨entry, found⟩ := find_port listed
      simp [found, grant]
    · simp [asked]
  · rw [if_neg known]
    by_cases asked : p = port
    · simp [asked, grant]
    · simp [asked, Ne.symm asked]

theorem timerOf_stop (hubList : List HubEntry) (port : Int) :
    timerOf (stopHubConnection hubList port) = Lease.step grant decay (timerOf hubList) (.release port) := by
  funext p
  simp only [timerOf, stopHubConnection, Lease.step]
  rw [changeEntry_find (fun _ => by rfl)]
  by_cases asked : p = port
  · cases hubList.find? (·.port = p) <;> simp [asked]
  · simp [asked]

theorem reapEntry_port (interval : Int) (entry : HubEntry) : (reapEntry interval entry).port = entry.port := by
  unfold reapEntry
  dsimp only
  split_ifs <;> rfl

theorem timerOf_reap (hubList : List HubEntry) :
    timerOf (reapHubConnections reapTimeSecs hubList) = Lease.step grant decay (timerOf hubList) .tick := by
  funext p
  simp only [timerOf, reapHubConnections, Lease.step, find?_map, Function.comp_def, reapEntry_port]
  cases hubList.find? (·.port = p) with
  | none => rfl
  | some entry =>
    cases alive : entry.isAlive with
    | false => simp [reapEntry, alive]
    | true =>
      simp only [Option.map_some, Option.bind_some, reapEntry, alive, if_true, decay]
      split_ifs <;> simp_all

theorem timerOf_event (hubList : List HubEntry) (event : HubEvent) :
    timerOf (event.effect hubList) = Lease.step grant decay (timerOf hubList) event.signal := by
  cases event with
  | reap => exact timerOf_reap hubList
  | packet fromHere datagram =>
    simp only [HubEvent.effect, HubEvent.signal]
    cases packetNotice fromHere datagram with
    | beat port interval => exact timerOf_beat hubList port interval
    | stop port => exact timerOf_stop hubList port
    | own => rfl
    | none => rfl

theorem effect_ports (hubList : List HubEntry) (event : HubEvent) :
    (event.effect hubList).map (·.port) = hubList.map (·.port) ∨
      ∃ port interval, event.signal = .renew port interval ∧ port ∉ hubList.map (·.port) ∧
        (event.effect hubList).map (·.port) = port :: hubList.map (·.port) := by
  cases event with
  | reap =>
    left
    simp [HubEvent.effect, reapHubConnections, reapEntry_port, Function.comp_def]
  | packet fromHere datagram =>
    simp only [HubEvent.effect, HubEvent.signal]
    cases packetNotice fromHere datagram with
    | beat port interval =>
      simp only [Notice.effect, addOrUpdate_ports]
      by_cases old : port ∈ hubList.map (·.port)
      · exact .inl (if_pos old)
      · exact .inr ⟨port, interval, rfl, old, if_neg old⟩
    | stop port =>
      left
      exact changeEntry_ports (fun _ => by rfl) port hubList
    | own => exact .inl rfl
    | none => exact .inl rfl

/-! ## Runs -/

/-- Every run whose packets fit the table is defined, and its entries follow the events. -/
theorem hubRun_effects {run : List HubEvent} (fits : ∀ event ∈ run, event.Fits) (h : HubState) :
    ∃ frame, hubRun h run = some ⟨run.foldl HubEvent.effect h.hubList, frame⟩ := by
  induction run generalizing h with
  | nil => exact ⟨h.frame, rfl⟩
  | cons event run ih =>
    obtain ⟨frame, step⟩ := step_event h event (fits event (by simp))
    obtain ⟨frame', rest⟩ := ih (fun e he => fits e (by simp [he])) ⟨event.effect h.hubList, frame⟩
    exact ⟨frame', by simp [hubRun, step, rest]⟩

theorem run_leases (run : List HubEvent) (hubList : List HubEntry) :
    timerOf (run.foldl HubEvent.effect hubList) =
      (run.map HubEvent.signal).foldl (Lease.step grant decay) (timerOf hubList) := by
  induction run generalizing hubList with
  | nil => rfl
  | cons event run ih => rw [foldl_cons, ih, timerOf_event, map_cons, foldl_cons]

theorem run_distinct (run : List HubEvent) (distinct : (hubList.map (·.port)).Nodup) :
    ((run.foldl HubEvent.effect hubList).map (·.port)).Nodup := by
  induction run generalizing hubList with
  | nil => exact distinct
  | cons event run ih =>
    apply ih
    rcases effect_ports hubList event with same | ⟨port, interval, -, fresh, added⟩
    · rwa [same]
    · rw [added]
      exact nodup_cons.2 ⟨fresh, distinct⟩

/-! ## Membership is history -/

/-- `port` is alive by the history of the hub: the last heartbeat for it was followed by no
stop for it, and by no reap or by fewer reaps than its doubled interval lasts. -/
def AliveByHistory (run : List HubEvent) (port : Int) : Prop :=
  ∃ interval n, Lease.Since (run.map HubEvent.signal) port interval n ∧ (n = 0 ∨ 10 * (n : Int) < 2 * interval)

/-- The doubled interval of the last heartbeat is an `int`, also after the first reap. -/
def IntervalsFit (run : List HubEvent) (port : Int) : Prop :=
  ∀ interval n, Lease.Since (run.map HubEvent.signal) port interval n →
    -2147483638 ≤ 2 * interval ∧ 2 * interval < 2147483648

/-- Reaps count a grant down exactly, also one that has run over the largest `int` by less than a
reap takes off. -/
theorem decayed_reaped (low : -2147483638 ≤ 2 * interval) (high : 2 * interval < 2147483658)
    (n : Nat) : Lease.decayed decay (n + 1) (grant interval) =
      if 10 * ((n : Int) + 1) < 2 * interval then some (2 * interval - 10 * (n + 1)) else none := by
  induction n with
  | zero =>
    have left : wrap32 (grant interval - reapTimeSecs) = 2 * interval - 10 := by
      unfold grant wrap32 reapTimeSecs
      omega
    rw [Lease.decayed, Lease.decayed, Option.bind_some, decay, left]
    by_cases lasts : 10 < 2 * interval
    · rw [if_neg (by omega), if_pos (by simpa using lasts)]
      rfl
    · rw [if_pos (by omega), if_neg (by simpa using lasts)]
  | succ n ih =>
    rw [Lease.decayed, ih]
    by_cases alive : 10 * ((n : Int) + 1) < 2 * interval
    · have left : wrap32 (2 * interval - 10 * (n + 1) - reapTimeSecs) = 2 * interval - 10 * (n + 1 + 1) := by
        rw [wrap32_of_range] <;> unfold reapTimeSecs <;> omega
      rw [if_pos alive, Option.bind_some, decay, left]
      by_cases more : 10 * ((n : Int) + 1 + 1) < 2 * interval
      · rw [if_neg (by omega), if_pos (by simpa using more)]
        simp
      · rw [if_pos (by omega), if_neg (by simpa using more)]
    · rw [if_neg alive, if_neg (by push_cast; omega)]
      rfl

/-- Terms that fit count down exactly; only a positive one is ever reduced again. -/
theorem decayed_grant (low : -2147483638 ≤ 2 * interval) (high : 2 * interval < 2147483648)
    (n : Nat) : Lease.decayed decay n (grant interval) =
      if n = 0 ∨ 10 * (n : Int) < 2 * interval then some (2 * interval - 10 * n) else none := by
  cases n with
  | zero => simp [Lease.decayed, grant, wrap32_of_range (x := interval * 2) (by omega) (by omega), Int.mul_comm]
  | succ n =>
    rw [decayed_reaped low (by omega)]
    simp only [Nat.succ_ne_zero, false_or, Int.natCast_succ]

theorem alive_iff_timer (distinct : (hubList.map (·.port)).Nodup) (port : Int) :
    (∃ entry ∈ hubList, entry.port = port ∧ entry.isAlive = true) ↔
      ∃ timer, timerOf hubList port = some timer := by
  constructor
  · rintro ⟨entry, mem, rfl, alive⟩
    have found : hubList.find? (·.port = entry.port) = some entry := by
      obtain ⟨other, found⟩ := find_port ⟨entry, mem, rfl⟩
      have same : other.port = entry.port := by simpa using find?_some found
      rw [found, inj_on_of_nodup_map distinct (mem_of_find?_eq_some found) mem same]
    exact ⟨entry.timer, by simp [timerOf, found, alive]⟩
  · rintro ⟨timer, held⟩
    obtain ⟨entry, found, alive⟩ := Option.bind_eq_some_iff.1 held
    refine ⟨entry, mem_of_find?_eq_some found, by simpa using find?_some found, ?_⟩
    by_contra dead
    simp [dead] at alive

/-- The entries after a run, against the history of a port. -/
theorem alive_iff_history {run : List HubEvent} (intervals : IntervalsFit run port) :
    (∃ entry ∈ run.foldl HubEvent.effect [], entry.port = port ∧ entry.isAlive = true) ↔
      AliveByHistory run port := by
  rw [alive_iff_timer (run_distinct run (by simp)), run_leases]
  have leases : ∀ timer, (run.map HubEvent.signal).foldl (Lease.step grant decay) (timerOf []) port = some timer ↔
      ∃ interval n, Lease.Since (run.map HubEvent.signal) port interval n ∧
        Lease.decayed decay n (grant interval) = some timer := fun _ => Lease.run_iff grant decay
  simp only [leases]
  constructor
  · rintro ⟨timer, interval, n, since, left⟩
    obtain ⟨low, high⟩ := intervals interval n since
    rw [decayed_grant low high] at left
    refine ⟨interval, n, since, ?_⟩
    by_contra expired
    simp [if_neg expired] at left
  · rintro ⟨interval, n, since, lasts⟩
    obtain ⟨low, high⟩ := intervals interval n since
    exact ⟨_, interval, n, since, by rw [decayed_grant low high, if_pos lasts]⟩

/-- **Hub membership equals history**, and every packet is relayed as it came, once to every
entry alive after the packet's own effect. -/
theorem hub_membership (run : List HubEvent) (fits : ∀ event ∈ run, event.Fits) :
    ∃ h, hubRun hubStart run = some h ∧ (h.hubList.map (·.port)).Nodup ∧
      (∀ port, IntervalsFit run port →
        ((∃ entry ∈ h.hubList, entry.port = port ∧ entry.isAlive = true) ↔ AliveByHistory run port)) ∧
      ∀ fromHere datagram, (HubEvent.packet fromHere datagram).Fits →
        ∃ h' sent, hubStep h (.packet fromHere datagram) = some (h', sent) ∧
          sent = if received datagram = [] ∨ packetNotice fromHere datagram = .own then []
            else (h'.hubList.filter (·.isAlive)).map fun entry => ⟨udpPort entry.port, received datagram⟩ := by
  obtain ⟨frame, reached⟩ := hubRun_effects fits hubStart
  refine ⟨_, reached, run_distinct run (by simp [hubStart]), fun port intervals => alive_iff_history intervals, ?_⟩
  intro fromHere datagram fit
  obtain ⟨frame', step⟩ := step_event ⟨run.foldl HubEvent.effect hubStart.hubList, frame⟩ _ fit
  exact ⟨_, _, step, rfl⟩

def heartbeat (port interval : String) : HubEvent :=
  .packet true ("xap-hbeat\n\x7b\ninterval=" ++ ascii interval ++ "\nport=" ++ ascii port ++
    "\nclass=xap-hbeat.alive\n\x7d")

theorem heartbeat_since {event : HubEvent} {interval' : Int} {n : Nat} (beat : event.signal = .renew port interval)
    (since : Lease.Since ([event, .reap].map HubEvent.signal) port interval' n) : interval' = interval ∧ n = 1 := by
  have history : [event, .reap].map HubEvent.signal = ([] ++ [.renew port interval]) ++ [.tick] := by
    rw [map_cons, beat]
    rfl
  rw [history] at since
  obtain ⟨impossible, -⟩ | ⟨-, m, earlier, rfl⟩ := Lease.since_snoc.1 since
  · cases impossible
  · obtain ⟨same, rfl⟩ | ⟨other, -⟩ := Lease.since_snoc.1 earlier
    · injection same with _ equal
      exact ⟨equal.symm, rfl⟩
    · simp [Lease.Signal.quiet] at other

/-- A heartbeat of 60 seconds outlives a reap. -/
theorem hub_membership_minute : ∃ h, hubRun hubStart [heartbeat "4000" "60", .reap] = some h ∧
    ∃ entry ∈ h.hubList, entry.port = 4000 ∧ entry.isAlive = true := by
  have beat : (heartbeat "4000" "60").signal = .renew 4000 60 := by decide +kernel
  obtain ⟨h, reached, -, alive, -⟩ := hub_membership [heartbeat "4000" "60", .reap] (by decide +kernel)
  refine ⟨h, reached, (alive 4000 fun interval n since => ?_).2 ⟨60, 1, ?_, by decide⟩⟩
  · obtain ⟨rfl, -⟩ := heartbeat_since beat since
    decide
  · exact ⟨[], [.tick], by rw [map_cons, beat]; rfl, by decide, rfl⟩

/-- The first reap takes a very negative term round to a positive one: the port stays alive,
although its doubled interval is an `int` and has run out. -/
theorem hub_membership_underflow :
    (∃ h, hubRun hubStart [heartbeat "4000" "-1073741823", .reap] = some h ∧
      ∃ entry ∈ h.hubList, entry.port = 4000 ∧ entry.isAlive = true) ∧
    (heartbeat "4000" "-1073741823").signal = .renew 4000 (-1073741823) ∧
      (2 * (-1073741823 : Int)).natAbs < 2147483648 ∧
      ¬ AliveByHistory [heartbeat "4000" "-1073741823", .reap] 4000 := by
  have beat : (heartbeat "4000" "-1073741823").signal = .renew 4000 (-1073741823) := by decide +kernel
  have entries : (hubRun hubStart [heartbeat "4000" "-1073741823", .reap]).map (·.hubList) =
      some [⟨4000, -1073741823, 2147483640, true⟩] := by decide +kernel
  refine ⟨?_, beat, by decide, ?_⟩
  · obtain ⟨h, reached, hubList⟩ := Option.map_eq_some_iff.1 entries
    exact ⟨h, reached, _, by rw [hubList]; exact mem_singleton.2 rfl, rfl, rfl⟩
  · rintro ⟨interval, n, since, lasts⟩
    obtain ⟨rfl, rfl⟩ := heartbeat_since beat since
    revert lasts
    decide

end Hah.Hub
