import Hah.Hub.Membership

/-!
# Where the hub relays to

Entries are kept by the `int` that a heartbeat announces, and a copy goes to the low 16
bits of it. As long as the announced ports do not collide in these bits, with each other
or with the hub's own port, no UDP port gets two copies and the hub gets none.
-/

namespace Hah.Hub
open C Xap List

/-- A heartbeat of the run announced `port`. -/
def Announced (run : List HubEvent) (port : Int) : Prop :=
  ∃ interval, ∃ event ∈ run, event.signal = .renew port interval

structure PortsApart (run : List HubEvent) : Prop where
  distinct : ∀ port port', Announced run port → Announced run port' → port % 65536 = port' % 65536 → port = port'
  notOwn : ∀ port, Announced run port → port % 65536 ≠ rxPort

variable {run : List HubEvent} {port : Int}

theorem Announced.cons (h : Announced run port) (event : HubEvent) : Announced (event :: run) port := by
  obtain ⟨interval, e, mem, beat⟩ := h
  exact ⟨interval, e, mem_cons_of_mem event mem, beat⟩

/-- Every entry is an old one or was announced. -/
theorem run_announced (run : List HubEvent) (hubList : List HubEntry) :
    ∀ port ∈ (run.foldl HubEvent.effect hubList).map (·.port),
      port ∈ hubList.map (·.port) ∨ Announced run port := by
  induction run generalizing hubList with
  | nil => exact fun port mem => .inl mem
  | cons event run ih =>
    intro port mem
    rcases ih (event.effect hubList) port mem with known | later
    · rcases effect_ports hubList event with same | ⟨added, interval, beat, -, ports⟩
      · rw [same] at known
        exact .inl known
      · rw [ports] at known
        rcases mem_cons.1 known with rfl | old
        · exact .inr ⟨interval, event, mem_cons_self, beat⟩
        · exact .inl old
    · exact .inr (later.cons event)

def livePorts (run : List HubEvent) : List Int :=
  ((run.foldl HubEvent.effect []).filter (·.isAlive)).map (·.port)

theorem livePorts_announced (live : port ∈ livePorts run) : Announced run port := by
  have known := map_subset _ (filter_subset_self _) live
  rcases run_announced run [] port known with old | announced
  · simp at old
  · exact announced

theorem livePorts_nodup (run : List HubEvent) : (livePorts run).Nodup :=
  (run_distinct run (by simp)).sublist (filter_sublist.map _)

/-- **The hub never feeds itself and never duplicates**, in every state that a run of packets
with ports apart can reach. -/
theorem relay_ports (run : List HubEvent) (fits : ∀ event ∈ run, event.Fits) (apart : PortsApart run) :
    ∃ h, hubRun hubStart run = some h ∧ (∀ sent ∈ hubRelay h, (sent.port : Int) ≠ rxPort) ∧
      ((hubRelay h).map (·.port)).Nodup := by
  obtain ⟨frame, reached⟩ := hubRun_effects fits hubStart
  have ports : (hubRelay ⟨run.foldl HubEvent.effect [], frame⟩).map (·.port) = (livePorts run).map udpPort := by
    simp [hubRelay, relayLoop_eq, livePorts]
  refine ⟨_, reached, ?_, ?_⟩
  · intro sent mem own
    have copied : sent.port ∈ (livePorts run).map udpPort := ports ▸ mem_map_of_mem mem
    obtain ⟨port, live, low⟩ := mem_map.1 copied
    apply apart.notOwn port (livePorts_announced live)
    rw [← own, ← low, udpPort]
    omega
  · rw [show hubStart.hubList = [] from rfl, ports]
    apply List.Nodup.map_on _ (livePorts_nodup run)
    intro port live port' live' same
    apply apart.distinct port port' (livePorts_announced live) (livePorts_announced live')
    unfold udpPort at same
    omega

theorem announced_of_signals {signals : List (Lease.Signal Int Int)} (history : run.map HubEvent.signal = signals)
    (h : Announced run port) : ∃ interval, .renew port interval ∈ signals := by
  obtain ⟨interval, event, mem, beat⟩ := h
  refine ⟨interval, ?_⟩
  rw [← history, ← beat]
  exact mem_map_of_mem mem

/-- Two programs on ports 4000 and 4001. -/
theorem relay_ports_two :
    ∃ h, hubRun hubStart [heartbeat "4000" "60", heartbeat "4001" "60"] = some h ∧
      (∀ sent ∈ hubRelay h, (sent.port : Int) ≠ rxPort) ∧ ((hubRelay h).map (·.port)).Nodup := by
  have history : [heartbeat "4000" "60", heartbeat "4001" "60"].map HubEvent.signal =
      [.renew 4000 60, .renew 4001 60] := by decide +kernel
  have either : ∀ port, Announced [heartbeat "4000" "60", heartbeat "4001" "60"] port →
      port = 4000 ∨ port = 4001 := by
    intro port announced
    obtain ⟨interval, mem⟩ := announced_of_signals history announced
    simp only [mem_cons, Lease.Signal.renew.injEq, not_mem_nil, or_false] at mem
    omega
  apply relay_ports
  · decide +kernel
  · constructor
    · intro port port' announced announced' same
      have := either port announced
      have := either port' announced'
      omega
    · intro port announced
      have := either port announced
      unfold rxPort
      omega

/-- Port 69175 is 3639 in 16 bits, and 69536 is 4000: the hub relays to itself, and twice to
one program. -/
theorem relay_ports_wrap :
    (∃ h, hubRun hubStart [heartbeat "69175" "60"] = some h ∧ ∃ sent ∈ hubRelay h, (sent.port : Int) = rxPort) ∧
      ∃ h, hubRun hubStart [heartbeat "4000" "60", heartbeat "69536" "60"] = some h ∧
        ¬ ((hubRelay h).map (·.port)).Nodup := by
  have self : (hubRun hubStart [heartbeat "69175" "60"]).map (fun h => (hubRelay h).map (·.port)) =
      some [3639] := by decide +kernel
  have twice : (hubRun hubStart [heartbeat "4000" "60", heartbeat "69536" "60"]).map
      (fun h => (hubRelay h).map (·.port)) = some [4000, 4000] := by decide +kernel
  constructor
  · obtain ⟨h, reached, ports⟩ := Option.map_eq_some_iff.1 self
    obtain ⟨sent, mem, port⟩ : ∃ sent ∈ hubRelay h, sent.port = 3639 := by
      apply mem_map.1
      rw [ports]
      exact mem_singleton.2 rfl
    exact ⟨h, reached, sent, mem, by rw [port]; rfl⟩
  · obtain ⟨h, reached, ports⟩ := Option.map_eq_some_iff.1 twice
    exact ⟨h, reached, by rw [ports]; decide⟩

end Hah.Hub
