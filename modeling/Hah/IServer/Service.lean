import Hah.IServer.FilterRun
import Hah.IServer.Numbering
import Hah.IServer.Verbatim

/-!
# What the server does for its clients

Both directions of the server, over every interleaving of its clients and its two threads.
Upwards, what the messages of a client ask to be sent is sent in the order of the messages, each
packet once (`packets_in_order`). A turn of `txLoop` that would count in the record of a deleted client
(`Hah.IServer.Lifetime`) has no outcome here. Downwards, a packet of the bus goes to clients in the list
only, and to a live one exactly if it passes a filter that the client wants or the one for its own
address (`packet_delivered`).
-/

namespace Hah.IServer
open C Xap List Option

variable {env : ClientId → Env} {s s' : Server} {id : ClientId} {run : List ServerEvent} {event : ServerEvent}
  {sent : List ClientPacket}

/-! ## Packets of the clients -/

/-- The packets of a client, of those that were sent or are queued. -/
def posted (id : ClientId) (log : List ClientPacket) : List Bytes :=
  log.filterMap fun p => if p.client = id then some p.msg else none

/-- The next packet for `txLoop` is one of a client that has been deleted. -/
def Server.dangling (s : Server) : Bool := s.txQueue.head?.any (·.client ∉ s.ids)

/-- A step, with the packets that `txLoop` has sent so far; a turn of it that writes to a deleted client has
no outcome. -/
def serviceStep (env : ClientId → Env) (now : Server × List ClientPacket) (event : ServerEvent) :
    Option (Server × List ClientPacket) :=
  if event = .transmit ∧ now.1.dangling then none
  else (serverStep env now.1 event).map (·, now.2 ++ if event = .transmit then now.1.txQueue.head?.toList else [])

def serviceRun (env : ClientId → Env) (run : List ServerEvent) : Option (Server × List ClientPacket) :=
  run.foldlM (serviceStep env) (serverStart, [])

/-- The last step of a run is one of the server. -/
theorem serviceRun_snoc (reached : serviceRun env (run ++ [event]) = some (s', sent)) :
    ∃ s earlier, serviceRun env run = some (s, earlier) ∧ serverStep env s event = some s' ∧
      sent = earlier ++ if event = .transmit then s.txQueue.head?.toList else [] := by
  simp only [serviceRun, foldlM_append, foldlM_cons, foldlM_nil, bind_pure] at reached
  obtain ⟨⟨s, earlier⟩, before, step⟩ := bind_eq_some_iff.1 reached
  obtain ⟨-, step⟩ := ite_none_left_eq_some.1 step
  obtain ⟨next, taken, same⟩ := map_eq_some_iff.1 step
  cases same
  exact ⟨s, earlier, before, taken, rfl⟩

theorem serviceRun_server (reached : serviceRun env run = some (s, sent)) :
    serverRun env serverStart run = some s := by
  induction run using List.reverseRecOn generalizing s sent with
  | nil =>
    cases reached
    rfl
  | append_singleton run event ih =>
    obtain ⟨mid, earlier, before, taken, -⟩ := serviceRun_snoc reached
    rw [serverRun_snoc, ih before]
    exact taken

/-- **One token** of a live client: the packets of the message that it completes. -/
theorem parseToken_packets (env : Env) (id : ClientId) {c : Client} {filterList : List FilterCallback} {r : Reading}
    (t : Token) (reads : ReadsAt r ⟨c, filterList, [], false⟩) (live : c.connected = true) :
    (parseToken env id ⟨c, filterList, [], false⟩ t).broadcasts =
      (r.completes t).toList.flatMap (ClientMessage.packets env) := by
  have alive : ¬ Session.dead ⟨c, filterList, [], false⟩ := by simp [Session.dead, live]
  rw [← settled_broadcasts, (parseToken_reads alive reads t).2]
  cases r.completes t with
  | none => rfl
  | some m =>
    simp only [toList_some, foldl_cons, foldl_nil, perform, settled_dead, if_neg alive]
    exact (finish_packets env id m.kind _).trans (append_nil _).symm

/-- The packets of a client are those of its messages, up to some message, and of all messages if the
client is live. -/
def InOrder (env : ClientId → Env) (run : List ServerEvent) (sent : List ClientPacket) (s : Server)
    (id : ClientId) : Prop :=
  ∃ seen, seen <+: messages (tokensOf id run) ∧ (Live s id → seen = messages (tokensOf id run)) ∧
    posted id (sent ++ s.txQueue) = seen.flatMap (ClientMessage.packets (env id))

/-- A step that is no token of the client. -/
theorem InOrder.quiet (h : InOrder env run sent s id) (tracked : Tracked run s)
    (step : serverStep env s event = some s') (foreign : tokensOf id (run ++ [event]) = tokensOf id run)
    {sent' : List ClientPacket} (log : posted id (sent' ++ s'.txQueue) = posted id (sent ++ s.txQueue)) :
    InOrder env (run ++ [event]) sent' s' id := by
  obtain ⟨seen, initial, all, packets⟩ := h
  rw [InOrder, foreign, log]
  refine ⟨seen, initial, fun live => ?_, packets⟩
  by_cases old : id < s.allocated
  · exact all (live_before step old live)
  · rw [tracked.silent id (Nat.le_of_not_lt old)] at initial ⊢
    exact prefix_nil.1 initial

theorem posted_append (id : ClientId) (log more : List ClientPacket) :
    posted id (log ++ more) = posted id log ++ posted id more :=
  filterMap_append

/-- The packets of a turn of the parser belong to its client. -/
theorem posted_pushed (s : Server) (other : ClientId) (actions : List Action) :
    posted id (pushPackets s other actions).txQueue =
      posted id s.txQueue ++ if other = id then actions.flatMap Action.packets else [] := by
  rw [pushPackets, posted_append]
  congr 1
  split_ifs with own
  · induction actions with
    | nil => rfl
    | cons a actions ih => cases a <;> simpa [posted, Action.packets, own] using ih
  · rw [posted, filterMap_filterMap, filterMap_eq_nil_iff]
    rintro a -
    cases a <;> simp [own]

theorem InOrder.receive {c : Client} (t : Token) (h : InOrder env run sent s id) (tracked : Tracked run s)
    (sound : s.overrun = false) (found : s.clientList.lookup id = some c) :
    InOrder env (run ++ [.receive id t]) sent (receiveToken (env id) s id c t) id := by
  obtain ⟨seen, initial, all, packets⟩ := h
  have log : posted id (sent ++ (receiveToken (env id) s id c t).txQueue) = posted id (sent ++ s.txQueue) ++
      (parseToken (env id) id ⟨c, s.filterList, [], false⟩ t).broadcasts := by
    rw [posted_append, posted_append, append_assoc, receiveToken, posted_pushed, if_pos rfl]
    rfl
  rw [InOrder, tokensOf_snoc, log, packets]
  simp only [if_true, messages_snoc]
  by_cases live : c.connected = true
  · refine ⟨_, prefix_rfl, fun _ => rfl, ?_⟩
    rw [parseToken_packets (env id) id t (tracked.heard sound id c found live).reads live, all ⟨c, found, live⟩,
      flatMap_append]
  · -- nothing happens for a client that is gone
    have gone : parseToken (env id) id ⟨c, s.filterList, [], false⟩ t = ⟨c, s.filterList, [], false⟩ :=
      if_pos (.inl (Bool.eq_false_iff.2 live))
    refine ⟨seen, initial.trans (prefix_append _ _), ?_, by rw [gone]; exact append_nil _⟩
    rintro ⟨c', listed, alive⟩
    rw [lookup_receiveToken, found, map_some, if_pos rfl, gone] at listed
    rw [← some.inj listed] at alive
    exact absurd alive live

/-- **One step** of either thread. -/
theorem InOrder.step (h : InOrder env run sent s id) (tracked : Tracked run s)
    (step : serverStep env s event = some s') :
    InOrder env (run ++ [event]) (sent ++ if event = .transmit then s.txQueue.head?.toList else []) s' id := by
  obtain ⟨sound, taken⟩ := serverStep_cases step
  cases taken with
  | connect greeting =>
    rw [if_neg (by simp), append_nil]
    refine h.quiet tracked step (by simp [tokensOf_snoc]) ?_
    rcases addClient_cases s greeting with kept | refused
    · rw [kept]
      rfl
    · rw [refused]
      rfl
  | receive other t found =>
    rw [if_neg (by simp), append_nil]
    by_cases own : other = id
    · subst own
      exact h.receive t tracked sound found
    · refine h.quiet tracked step (by simp [tokensOf_snoc, own]) ?_
      rw [posted_append, posted_append, receiveToken, posted_pushed, if_neg own, append_nil]
      rfl
  | transmit queue =>
    refine h.quiet tracked step (by simp [tokensOf_snoc]) ?_
    rw [if_pos rfl, queue]
    exact congrArg (posted id) (append_assoc _ _ _)
  | disconnect listed => exact h.quiet tracked step (by simp [tokensOf_snoc]) (by simp [delClient])

/-- **The packets of every client are sent in order**, none of them lost or twice, in whatever order
the clients, and the two threads, take their turns, as long as `txLoop` meets no packet of a deleted
client. -/
theorem packets_in_order (reached : serviceRun env run = some (s, sent)) (id : ClientId) :
    InOrder env run sent s id := by
  induction run using List.reverseRecOn generalizing s sent with
  | nil =>
    cases reached
    exact ⟨[], nil_prefix, fun _ => rfl, rfl⟩
  | append_singleton run event ih =>
    obtain ⟨mid, earlier, before, taken, rfl⟩ := serviceRun_snoc reached
    exact (ih before).step (tracked_run run (serviceRun_server before)) taken

/-- A client sends one packet, and the transmit thread takes it. -/
theorem packets_in_order_one :
    ∃ s, serviceRun (fun _ => plainEnv) (packetRun ++ [.transmit]) = some (s, [⟨0, "x"⟩]) ∧
      InOrder (fun _ => plainEnv) (packetRun ++ [.transmit]) [⟨0, "x"⟩] s 0 := by
  have sends : (serviceRun (fun _ => plainEnv) (packetRun ++ [.transmit])).map Prod.snd = some [⟨0, "x"⟩] := by
    decide +kernel
  obtain ⟨⟨s, sent⟩, reached, rfl⟩ := map_eq_some_iff.1 sends
  exact ⟨s, reached, packets_in_order reached 0⟩

/-! ## Packets for the clients -/

/-- The filters of a client that are neither for a source nor for a class. -/
def addressFilters (id : ClientId) (filterList : List FilterCallback) : List XapFilter :=
  ((filtersOf id filterList).filter fun f => (pairOf id f).isNone).map FilterCallback.filter

def ownAddress (source : Bytes) : XapFilter := ⟨"xap-header", "target", source⟩

/-- Such a filter is there once the client has a source, and it is the one for that address. -/
structure Addressed (id : ClientId) (s : Session) : Prop where
  filters : addressFilters id s.filterList = s.client.source.toList.map ownAddress
  first : s.client.firstMessage = true → s.client.source = none

theorem mem_addressFilters {filter : XapFilter} {filterList : List FilterCallback} :
    filter ∈ addressFilters id filterList ↔
      ∃ f ∈ filterList, f.userData = id ∧ pairOf id f = none ∧ f.filter = filter := by
  simp [addressFilters, filtersOf, and_assoc, and_left_comm]

theorem addressFilters_added (kind : FilterKind) (value : Bytes) (filterList : List FilterCallback) :
    addressFilters id (⟨id, ⟨"xap-header", kind.filterType, value⟩⟩ :: filterList) = addressFilters id filterList := by
  have other : ascii "class" ≠ "source" := by decide
  cases kind <;> simp [addressFilters, filtersOf, pairOf, FilterKind.filterType, other]

theorem addressFilters_target (value : Bytes) (filterList : List FilterCallback) :
    addressFilters id (⟨id, ownAddress value⟩ :: filterList) = ownAddress value :: addressFilters id filterList := by
  have other : ascii "target" ≠ "source" ∧ ascii "target" ≠ "class" := by decide
  simp [addressFilters, filtersOf, pairOf, ownAddress, other]

theorem addressFilters_dropped (kind : FilterKind) (value : Bytes) (filterList : List FilterCallback) :
    addressFilters id (filterList.filter fun f => !deletes id kind.filterType value f) = addressFilters id filterList := by
  simp only [addressFilters, filtersOf, List.filter_filter]
  congr 1
  refine filter_congr fun f mem => ?_
  unfold pairOf deletes
  cases kind <;> split_ifs <;> simp_all [FilterKind.filterType]

theorem firstClientMessage_addressed {s : Session} (h : Addressed id s) : Addressed id (firstClientMessage id s) := by
  unfold firstClientMessage
  split_ifs with first
  · dsimp only
    split_ifs
    · cases packetSource (parseMsgF (XapFrame.blank.load s.client.ident)) with
      | none => exact h
      | some source =>
        refine ⟨?_, nofun⟩
        have earlier := h.filters
        rw [h.first first] at earlier
        exact (addressFilters_target source s.filterList).trans (congrArg _ earlier)
    · exact ⟨h.filters, h.first⟩
  · exact h

theorem finish_addressed {s : Session} (env : Env) (kind : MessageKind) (h : Addressed id s) :
    Addressed id (kind.finish env id s) := by
  have add : ∀ filter : FilterKind, Addressed id (endAddFilter env id filter.filterType s) := by
    intro filter
    have client : (endAddFilter env id filter.filterType s).client = s.client := by
      unfold endAddFilter
      cases uniqueFilter s id s.client.ident <;> dsimp only <;> split_ifs <;> rfl
    refine ⟨?_, by rw [client]; exact h.first⟩
    rw [client, ← h.filters, endAddFilter_filters]
    split_ifs
    · exact addressFilters_added filter s.client.ident s.filterList
    · rfl
  have del : ∀ filter : FilterKind, Addressed id (endDelFilter id filter.filterType s) := fun filter =>
    ⟨(addressFilters_dropped filter s.client.ident s.filterList).trans h.filters, h.first⟩
  cases kind with
  | xap => exact firstClientMessage_addressed ⟨h.filters, h.first⟩
  | login =>
    change Addressed id (endLogin env s)
    unfold endLogin
    split_ifs <;> exact ⟨h.filters, h.first⟩
  | addSource => exact add .sourceFilter
  | addClass => exact add .classFilter
  | delSource => exact del .sourceFilter
  | delClass => exact del .classFilter

theorem parseToken_addressed {s : Session} (env : Env) (t : Token) (h : Addressed id s) :
    Addressed id (parseToken env id s t) := by
  rcases parseToken_cases env id s t with ⟨state, ident, same⟩ | ⟨kind, done⟩
  · rw [same]
    exact ⟨h.filters, h.first⟩
  · rw [done]
    exact ⟨(finish_addressed env kind h).filters, (finish_addressed env kind h).first⟩

/-- The filters belong to clients in the list, and each of these has the one for its own address. -/
structure Registered (s : Server) : Prop where
  listed : ∀ f ∈ s.filterList, f.userData ∈ s.ids
  addressed : ∀ id c, s.clientList.lookup id = some c → Addressed id ⟨c, s.filterList, [], false⟩

theorem Addressed.congr {c c' : Client} {l l' : List FilterCallback} (h : Addressed id ⟨c, l, [], false⟩)
    (same : filtersOf id l' = filtersOf id l) (source : c'.source = c.source)
    (first : c'.firstMessage = c.firstMessage) : Addressed id ⟨c', l', [], false⟩ := by
  constructor
  · rw [source, addressFilters, same]
    exact h.filters
  · rw [source, first]
    exact h.first

theorem Registered.delete (h : Registered s) (id : ClientId) : Registered (delClient s id) := by
  constructor
  · intro f mem
    obtain ⟨listed, kept⟩ := mem_filter.1 mem
    rw [delClient_ids]
    exact mem_filter.2 ⟨h.listed f listed, kept⟩
  · intro other c found
    obtain ⟨foreign, listed⟩ := lookup_delClient found
    exact (h.addressed other c listed).congr (filtersOf_delClient foreign) rfl rfl

theorem Registered.connect (h : Registered s) (known : ∀ id ∈ s.ids, id < s.allocated) (greeting : SendResult) :
    Registered (addClient s greeting) := by
  have added : Registered (joined s) := by
    refine ⟨fun f mem => mem_cons_of_mem _ (h.listed f mem), fun id c found => ?_⟩
    rcases lookup_joined found with ⟨rfl, rfl⟩ | listed
    · -- no filter can be the new client's
      have none : filtersOf s.allocated (joined s).filterList = [] := filter_eq_nil_iff.2 fun f mem => by
        simpa using Nat.ne_of_lt (known _ (h.listed f mem))
      exact ⟨by rw [addressFilters, none]; rfl, fun _ => rfl⟩
    · exact h.addressed id c listed
  rcases addClient_cases s greeting with kept | refused
  · rw [kept]
    exact added
  · rw [refused]
    exact added.delete s.allocated

theorem Registered.receive {c : Client} (h : Registered s) (found : s.clientList.lookup id = some c) (env : Env)
    (t : Token) : Registered (receiveToken env s id c t) := by
  have change := parseToken_change env id ⟨c, s.filterList, [], false⟩ t
  constructor
  · intro f mem
    rw [receiveToken_ids]
    by_cases own : f.userData = id
    · rw [own]
      exact lookup_mem found
    · -- the filters of the other clients are as before
      have before : f ∈ filtersOf f.userData s.filterList := change.others own ▸ mem_filter.2 ⟨mem, by simp⟩
      exact h.listed f (mem_of_mem_filter before)
  · intro other c' found'
    rw [lookup_receiveToken] at found'
    obtain ⟨old, listed, rfl⟩ := map_eq_some_iff.1 found'
    by_cases own : other = id
    · subst own
      have next := parseToken_addressed env t (h.addressed other c found)
      rw [if_pos rfl]
      exact ⟨next.filters, next.first⟩
    · rw [if_neg own]
      exact (h.addressed other old listed).congr (change.others own) rfl rfl

theorem Registered.step (h : Registered s) (known : ∀ id ∈ s.ids, id < s.allocated)
    (step : serverStep env s event = some s') : Registered s' := by
  cases (serverStep_cases step).2 with
  | connect greeting => exact h.connect known greeting
  | receive id t found => exact h.receive found (env id) t
  | transmit queue =>
    refine ⟨fun f mem => by rw [setClient_ids]; exact h.listed f mem, fun id c found => ?_⟩
    rw [lookup_setClient] at found
    obtain ⟨old, listed, rfl⟩ := map_eq_some_iff.1 found
    refine (h.addressed id old listed).congr rfl ?_ ?_ <;> split_ifs <;> rfl
  | disconnect listed => exact h.delete _

theorem registered_run (reached : serverRun env serverStart run = some s) : Registered s := by
  induction run using List.reverseRecOn generalizing s with
  | nil =>
    cases reached
    exact ⟨nofun, nofun⟩
  | append_singleton run event ih =>
    rw [serverRun_snoc] at reached
    obtain ⟨mid, earlier, step⟩ := bind_eq_some_iff.1 reached
    exact (ih earlier).step (tracked_run run earlier).known step

theorem pairOf_some {f : FilterCallback} {kind : FilterKind} {value : Bytes}
    (pair : pairOf id f = some (kind, value)) :
    f.userData = id ∧ f.filter.key = kind.filterType ∧ f.filter.value = value := by
  unfold pairOf at pair
  split_ifs at pair with own source cls <;> cases pair
  · exact ⟨own, source, rfl⟩
  · exact ⟨own, cls, rfl⟩

/-- **Who a packet of the bus is delivered to**, after any run in which no message of a client has left the
table, in a pass that stays inside its buffers: to clients in the list only, and to a live client whose
commands are balanced exactly if the packet passes a source or class filter that the client wants, or
the filter for the client's own address. -/
theorem packet_delivered (env : ClientId → Env) (run : List ServerEvent)
    (reached : serviceRun env run = some (s, sent)) (sound : s.overrun = false) (own : Env) (optE : Bool)
    {p t : Numbering.Pass} {packet : Bytes} (passes : Numbering.incomingXapPacket own optE
      (s.filterList.map FilterCallback.registration) p packet = some t) :
    ∃ served, t.sent.map Prod.fst = p.sent.map Prod.fst ++ served ∧ (∀ id ∈ served, id ∈ s.ids) ∧
      ∀ id c, s.clientList.lookup id = some c → c.connected = true →
        (∀ front m rest, messages (tokensOf id run) = front ++ m :: rest → Balanced front m) →
        (id ∈ served ↔
          (∃ kind value, Wanted (messages (tokensOf id run)) kind value ∧
            xapCompareFilters (parseMsgF (p.frame.load packet)) [⟨"xap-header", kind.filterType, value⟩] = true) ∨
          ∃ source, c.source = some source ∧
            xapCompareFilters (parseMsgF (p.frame.load packet)) [⟨"xap-header", "target", source⟩] = true) := by
  have server := serviceRun_server reached
  have registered := registered_run server
  have who : ∀ id, id ∈ matching (s.filterList.map FilterCallback.registration) (parseMsgF (p.frame.load packet)) ↔
      ∃ f ∈ s.filterList, f.userData = id ∧
        xapCompareFilters (parseMsgF (p.frame.load packet)) [f.filter] = true := by
    intro id
    simp only [mem_matching, List.mem_map, exists_exists_and_eq_and]
    rfl
  refine ⟨_, Numbering.incomingXapPacket_served passes, ?_, ?_⟩
  · intro id mem
    obtain ⟨f, listed, rfl, -⟩ := (who id).1 mem
    exact registered.listed f listed
  · intro id c found live balanced
    have tracked := tracked_run run server
    have wanted : ∀ kind value, (kind, value) ∈ IServer.registered id s.filterList ↔
        Wanted (messages (tokensOf id run)) kind value := by
      rw [(tracked.heard sound id c found live).pairs]
      rcases eq_nil_or_concat (messages (tokensOf id run)) with none | ⟨front, m, some⟩
      · rw [none]
        exact exact_nil.wanted
      · rw [concat_eq_append] at some
        rw [some] at balanced ⊢
        exact ((exact_run_iff _).2 balanced front m [] rfl).wanted
    have address := (registered.addressed id c found).filters
    rw [who]
    constructor
    · rintro ⟨f, listed, rfl, passes⟩
      cases pair : pairOf f.userData f with
      | none =>
        have mem := mem_addressFilters.2 ⟨f, listed, rfl, pair, rfl⟩
        rw [address] at mem
        obtain ⟨source, is, same⟩ := List.mem_map.1 mem
        exact .inr ⟨source, Option.mem_toList.1 is, by rw [← same] at passes; exact passes⟩
      | some found =>
        obtain ⟨-, key, value⟩ := pairOf_some pair
        refine .inl ⟨found.1, found.2, (wanted _ _).1 (mem_filterMap.2 ⟨f, listed, pair⟩), ?_⟩
        rwa [← (tracked.formed f listed).1, ← key, ← value]
    · rintro (⟨kind, value, wants, passes⟩ | ⟨source, is, passes⟩)
      · obtain ⟨f, listed, pair⟩ := mem_filterMap.1 ((wanted kind value).2 wants)
        obtain ⟨user, key, same⟩ := pairOf_some pair
        refine ⟨f, listed, user, ?_⟩
        rwa [← (tracked.formed f listed).1, ← key, ← same] at passes
      · have mem : ownAddress source ∈ addressFilters id s.filterList := by
          rw [address, is]
          exact mem_singleton_self _
        obtain ⟨f, listed, user, -, same⟩ := mem_addressFilters.1 mem
        exact ⟨f, listed, user, by rw [same]; exact passes⟩

/-- A packet for the two clients of `balancedRun`. -/
theorem packet_delivered_header : ∃ t served,
    Numbering.incomingXapPacket plainEnv false (balancedServer.filterList.map FilterCallback.registration)
        (Numbering.clientsAt fun _ => 1) "xap-header\n\x7b\nsource=x\n\x7d\n" = some t ∧
      t.sent.map Prod.fst = served ∧ ∀ id ∈ served, id ∈ balancedServer.ids := by
  obtain ⟨t, passes⟩ := isSome_iff_exists.1 (show (Numbering.incomingXapPacket plainEnv false
    (balancedServer.filterList.map FilterCallback.registration) (Numbering.clientsAt fun _ => 1)
    "xap-header\n\x7b\nsource=x\n\x7d\n").isSome = true by decide +kernel)
  have reached : serviceRun (fun _ => plainEnv) balancedRun = some (balancedServer, []) := by decide +kernel
  obtain ⟨served, serves, listed, -⟩ := packet_delivered _ balancedRun reached rfl plainEnv false passes
  exact ⟨t, served, passes, serves, listed⟩

end Hah.IServer
