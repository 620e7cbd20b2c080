import Hah.IServer.FilterSet
import Hah.IServer.Lifetime

/-!
# The filters of the clients of a server

All clients share one filter list, and their tokens arrive in any order. Every run of the
server keeps a live client at its place in its own messages and shows it, in the shared
list, the pairs that those messages give (`Tracked`); the other clients' events do not
disturb it. So whether a client's filters are the ones it asked for depends on its own
commands only, and `filters_exact_iff` says how.
-/

namespace Hah.IServer
open C Xap List Option

/-! ## The server -/

def tokensOf (id : ClientId) (run : List ServerEvent) : List Token :=
  run.filterMap fun
    | .receive other token => if other = id then some token else none
    | _ => none

def readingOf (tokens : List Token) : Reading := tokens.foldl Reading.step .outside

variable {s s' : Server} {id : ClientId} {c : Client} {run : List ServerEvent} {env : ClientId → Env}
  {event : ServerEvent}

theorem messagesFrom_append (r : Reading) (tokens more : List Token) :
    messagesFrom r (tokens ++ more) = messagesFrom r tokens ++ messagesFrom (tokens.foldl Reading.step r) more := by
  induction tokens generalizing r with
  | nil => rfl
  | cons first tokens ih => simp only [cons_append, messagesFrom, ih, foldl_cons, append_assoc]

theorem messages_snoc (tokens : List Token) (t : Token) :
    messages (tokens ++ [t]) = messages tokens ++ ((readingOf tokens).completes t).toList := by
  rw [messages, messagesFrom_append, messagesFrom, messagesFrom, append_nil]
  rfl

theorem lookup_setClient (s : Server) (id other : ClientId) (change : Client → Client) :
    (s.setClient id change).clientList.lookup other =
      (s.clientList.lookup other).map fun c => if other = id then change c else c := by
  unfold Server.setClient
  induction s.clientList with
  | nil => rfl
  | cons entry rest ih =>
    obtain ⟨first, c⟩ := entry
    have head : (if first = id then (first, change c) else (first, c)) =
        (first, if first = id then change c else c) := by
      split_ifs <;> rfl
    rw [map_cons, head, lookup_cons, lookup_cons, ih]
    by_cases hit : other = first
    · simp [hit]
    · simp [beq_false_of_ne hit]

theorem lookup_delClient {other : ClientId} (found : (delClient s id).clientList.lookup other = some c) :
    other ≠ id ∧ s.clientList.lookup other = some c := by
  unfold delClient at found
  revert found
  induction s.clientList with
  | nil => exact fun found => nomatch found
  | cons entry rest ih =>
    intro found
    obtain ⟨first, c'⟩ := entry
    by_cases gone : first = id
    · rw [filter_cons_of_neg (by simpa using gone)] at found
      obtain ⟨foreign, later⟩ := ih found
      refine ⟨foreign, ?_⟩
      rw [lookup_cons, beq_false_of_ne (by rw [gone]; exact foreign)]
      exact later
    · rw [filter_cons_of_pos (by simpa using gone)] at found
      by_cases hit : other = first
      · subst hit
        simp only [lookup_cons, beq_self_eq_true] at found ⊢
        exact ⟨gone, found⟩
      · simp only [lookup_cons, beq_false_of_ne hit] at found ⊢
        exact ih found

theorem lookup_receiveToken (env : Env) (s : Server) (id : ClientId) (c : Client) (t : Token) (other : ClientId) :
    (receiveToken env s id c t).clientList.lookup other = (s.clientList.lookup other).map fun old =>
      if other = id then (parseToken env id ⟨c, s.filterList, [], false⟩ t).client else old :=
  lookup_setClient s id other fun _ => (parseToken env id ⟨c, s.filterList, [], false⟩ t).client

theorem lookup_joined (found : (joined s).clientList.lookup id = some c) :
    (id = s.allocated ∧ c = newClient) ∨ s.clientList.lookup id = some c := by
  by_cases new : id = s.allocated
  · subst new
    exact .inl ⟨rfl, by simpa [joined, eq_comm] using found⟩
  · exact .inr (by simpa [joined, lookup_cons, beq_false_of_ne new] using found)

theorem filtersOf_delClient {other : ClientId} (foreign : other ≠ id) :
    filtersOf other (delClient s id).filterList = filtersOf other s.filterList := by
  rw [filtersOf, filtersOf, delClient, List.filter_filter]
  apply filter_congr
  intro f mem
  by_cases own : f.userData = other
  · simp [own, foreign]
  · simp [own]

/-- The server agrees with what a client sent: it stands at the client's place in its
messages, and holds the pairs that the machine on pairs gives. -/
structure Heard (tokens : List Token) (s : Server) (id : ClientId) (c : Client) : Prop where
  reads : ReadsAt (readingOf tokens) ⟨c, s.filterList, [], false⟩
  pairs : registered id s.filterList = (messages tokens).foldl commanded []

structure Tracked (run : List ServerEvent) (s : Server) : Prop where
  formed : WellFormed s.allocated s.filterList
  known : ∀ id ∈ s.ids, id < s.allocated
  silent : ∀ id, s.allocated ≤ id → tokensOf id run = []
  heard : s.overrun = false → ∀ id c, s.clientList.lookup id = some c → c.connected = true →
    Heard (tokensOf id run) s id c

theorem tracked_start : Tracked [] serverStart :=
  ⟨by simp [WellFormed, serverStart], by simp [Server.ids, serverStart], fun _ _ => rfl,
    fun _ id c found => by simp [serverStart] at found⟩

theorem ReadsAt.congr {r : Reading} {s s' : Session} (h : ReadsAt r s) (state : s'.client.state = s.client.state)
    (ident : s'.client.ident = s.client.ident) : ReadsAt r s' := by
  cases h with
  | outside at_state => exact .outside (state.trans at_state)
  | command at_state empty => exact .command (state.trans at_state) (ident.trans empty)
  | body at_state text => exact .body (state.trans at_state) (ident.trans text)

theorem Heard.congr {tokens : List Token} (h : Heard tokens s id c)
    (same : filtersOf id s'.filterList = filtersOf id s.filterList) : Heard tokens s' id c :=
  ⟨h.reads.congr rfl rfl, (registered_congr same).trans h.pairs⟩

theorem tokensOf_snoc (id : ClientId) (run : List ServerEvent) (event : ServerEvent) :
    tokensOf id (run ++ [event]) =
      tokensOf id run ++
        match event with
        | .receive other token => if other = id then [token] else []
        | _ => [] := by
  rw [tokensOf, filterMap_append, ← tokensOf]
  cases event with
  | receive other token =>
    by_cases own : other = id <;> simp [own]
  | _ => rfl

theorem Tracked.delete (h : Tracked run s) (id : ClientId) :
    Tracked run (delClient s id) where
  formed := fun f mem => h.formed f (mem_of_mem_filter mem)
  known := by
    intro other mem
    rw [delClient_ids] at mem
    exact h.known other (mem_of_mem_filter mem)
  silent := h.silent
  heard := by
    intro sound other c found live
    obtain ⟨foreign, listed⟩ := lookup_delClient found
    exact (h.heard sound other c listed live).congr (filtersOf_delClient foreign)

/-- The client that `addClient` allocates has not been heard yet. -/
theorem Tracked.connect (h : Tracked run s) (greeting : SendResult) : Tracked run (addClient s greeting) := by
  have added : Tracked run (joined s) := by
    refine ⟨fun f mem => ⟨(h.formed f mem).1, Nat.lt_succ_of_lt (h.formed f mem).2⟩, ?_, ?_, ?_⟩
    · intro id mem
      rcases mem_cons.1 mem with rfl | mem
      · exact Nat.lt_succ_self _
      · exact Nat.lt_succ_of_lt (h.known id mem)
    · exact fun id fresh => h.silent id (Nat.le_of_succ_le fresh)
    · intro sound id c found live
      rcases lookup_joined found with ⟨rfl, rfl⟩ | listed
      · rw [h.silent s.allocated (Nat.le_refl _)]
        exact ⟨.outside rfl, registered_fresh h.formed (Nat.le_refl _)⟩
      · exact (h.heard sound id c listed live).congr rfl
  rcases addClient_cases s greeting with kept | refused
  · rw [kept]
    exact added
  · rw [refused]
    exact added.delete s.allocated

theorem Tracked.transmit (h : Tracked run s) (p : ClientPacket) (rest : List ClientPacket) : Tracked run
    (Server.setClient { s with txQueue := rest } p.client fun c => { c with txFrame := c.txFrame + 1 }) := by
  refine ⟨h.formed, ?_, h.silent, ?_⟩
  · rw [setClient_ids]
    exact h.known
  · intro sound id c found live
    rw [lookup_setClient] at found
    obtain ⟨c', listed, rfl⟩ := map_eq_some_iff.1 found
    -- only the frame counter of the packet's client has changed
    by_cases own : id = p.client
    · simp only [own, if_true] at live ⊢
      have heard := h.heard sound p.client c' (own ▸ listed) live
      exact ⟨heard.reads.congr rfl rfl, heard.pairs⟩
    · simp only [own, if_false] at live ⊢
      exact (h.heard sound id c' listed live).congr rfl

/-- A live client has been live before. -/
theorem parseToken_live {env : Env} {s : Session} {t : Token} (live : ¬ (parseToken env id s t).dead) : ¬ s.dead := by
  intro dead
  rw [parseToken, if_pos dead] at live
  exact live dead

theorem Heard.receive {tokens : List Token} (h : Heard tokens s id c) (formed : WellFormed s.allocated s.filterList)
    (env : Env) (t : Token) (live : ¬ (parseToken env id ⟨c, s.filterList, [], false⟩ t).dead) :
    Heard (tokens ++ [t]) (receiveToken env s id c t) id
      (parseToken env id ⟨c, s.filterList, [], false⟩ t).client := by
  have turn : ReadsAt ((readingOf tokens).step t) (parseToken env id ⟨c, s.filterList, [], false⟩ t) ∧ _ :=
    parseToken_reads (parseToken_live live) h.reads t
  obtain ⟨next, done⟩ := turn
  refine ⟨?_, ?_⟩
  · rw [readingOf, foldl_append]
    exact next.congr rfl rfl
  · have list : (receiveToken env s id c t).filterList =
        (((readingOf tokens).completes t).toList.foldl (perform env id)
          (Session.settled ⟨c, s.filterList, [], false⟩)).filterList := by
      rw [← done]
      rfl
    rw [list, messages_snoc, foldl_append, ← h.pairs]
    cases (readingOf tokens).completes t with
    | none => rfl
    | some m =>
      simp only [toList_some, foldl_cons, foldl_nil, perform, settled_dead,
        if_neg (parseToken_live live)]
      exact finish_registered env id m.kind formed

theorem Tracked.receive (h : Tracked run s) (found : s.clientList.lookup id = some c) (before : s.overrun = false)
    (env : Env) (t : Token) : Tracked (run ++ [.receive id t]) (receiveToken env s id c t) := by
  have known := h.known id (lookup_mem found)
  have change := parseToken_change env id ⟨c, s.filterList, [], false⟩ t
  refine ⟨change.wellFormed h.formed known, ?_, ?_, ?_⟩
  · rw [receiveToken_ids]
    exact h.known
  · intro other fresh
    have foreign := Nat.ne_of_lt (Nat.lt_of_lt_of_le known fresh)
    rw [tokensOf_snoc, h.silent other fresh]
    simp [foreign]
  · intro sound other c' found' live
    rw [lookup_receiveToken] at found'
    obtain ⟨old, listed, rfl⟩ := map_eq_some_iff.1 found'
    rw [tokensOf_snoc]
    by_cases own : other = id
    · subst own
      obtain rfl : c = old := some.inj (found.symm.trans listed)
      simp only [if_true] at live ⊢
      have alive : ¬ (parseToken env other ⟨c, s.filterList, [], false⟩ t).dead := by
        rintro (gone | overrun)
        · rw [gone] at live
          cases live
        · have sound' : (parseToken env other ⟨c, s.filterList, [], false⟩ t).overrun = false := sound
          rw [overrun] at sound'
          cases sound'
      have connected : c.connected = true := by
        by_contra gone
        exact parseToken_live alive (.inl (by simpa using gone))
      exact (h.heard before other c listed connected).receive h.formed env t alive
    · simp only [own, Ne.symm own, if_false, append_nil] at live ⊢
      exact (h.heard before other old listed live).congr (change.others own)

/-- **One step** of either thread. -/
theorem Tracked.step (h : Tracked run s) (step : serverStep env s event = some s') : Tracked (run ++ [event]) s' := by
  have quiet : (∀ id t, event ≠ .receive id t) → Tracked run s' → Tracked (run ++ [event]) s' := by
    intro other next
    have same : ∀ id, tokensOf id (run ++ [event]) = tokensOf id run := by
      intro id
      rw [tokensOf_snoc]
      cases event with
      | receive id' t => exact absurd rfl (other id' t)
      | _ => exact append_nil _
    refine ⟨next.formed, next.known, ?_, ?_⟩
    · intro id fresh
      rw [same]
      exact next.silent id fresh
    · intro sound id c found live
      rw [same]
      exact next.heard sound id c found live
  obtain ⟨sound, taken⟩ := serverStep_cases step
  cases taken with
  | connect greeting => exact quiet (by simp) (h.connect greeting)
  | receive id t found => exact h.receive found sound (env id) t
  | @transmit p rest queue => exact quiet (by simp) (h.transmit p rest)
  | disconnect listed => exact quiet (by simp) (h.delete _)

theorem serverRun_append (env : ClientId → Env) (run more : List ServerEvent) (s : Server) :
    serverRun env s (run ++ more) = (serverRun env s run).bind fun next => serverRun env next more := by
  induction run generalizing s with
  | nil => rfl
  | cons first run ih =>
    rw [cons_append, serverRun, serverRun, bind_assoc]
    exact congrArg _ (funext fun next => ih next)

theorem serverRun_snoc (env : ClientId → Env) (run : List ServerEvent) (event : ServerEvent) (s : Server) :
    serverRun env s (run ++ [event]) = (serverRun env s run).bind fun next => serverStep env next event := by
  rw [serverRun_append]
  refine congrArg _ (funext fun next => ?_)
  rw [serverRun]
  cases serverStep env next event <;> rfl

/-- **Every run**: the list shows each live client the pairs that its own messages give. -/
theorem tracked_run (run : List ServerEvent) (reached : serverRun env serverStart run = some s) : Tracked run s := by
  induction run using List.reverseRecOn generalizing s with
  | nil =>
    cases reached
    exact tracked_start
  | append_singleton run event ih =>
    rw [serverRun_snoc] at reached
    obtain ⟨mid, earlier, step⟩ := bind_eq_some_iff.1 reached
    exact (ih earlier).step step

/-! ## Live clients -/

theorem serverStep_allocated (step : serverStep env s event = some s') : s.allocated ≤ s'.allocated := by
  cases (serverStep_cases step).2 with
  | connect greeting =>
    unfold addClient
    split_ifs <;> exact Nat.le_succ _
  | _ => exact Nat.le_refl _

/-- A client in the list that is still connected. -/
def Live (s : Server) (id : ClientId) : Prop := ∃ c, s.clientList.lookup id = some c ∧ c.connected = true

/-- A client that is live after a step was live before it, or is new. -/
theorem live_before (step : serverStep env s event = some s') (old : id < s.allocated) (live : Live s' id) :
    Live s id := by
  obtain ⟨c', found, live⟩ := live
  cases (serverStep_cases step).2 with
  | connect greeting =>
    have listed : (joined s).clientList.lookup id = some c' := by
      rcases addClient_cases s greeting with kept | refused
      · rwa [kept] at found
      · rw [refused] at found
        exact (lookup_delClient found).2
    rcases lookup_joined listed with ⟨new, -⟩ | listed
    · exact absurd new (Nat.ne_of_lt old)
    · exact ⟨c', listed, live⟩
  | @receive other t c listed =>
    rw [lookup_receiveToken] at found
    obtain ⟨before, listed', rfl⟩ := map_eq_some_iff.1 found
    by_cases own : id = other
    · subst own
      refine ⟨c, listed, ?_⟩
      by_contra gone
      have dead : Session.dead ⟨c, s.filterList, [], false⟩ := .inl (by simpa using gone)
      rw [if_pos rfl, parseToken, if_pos dead] at live
      exact gone live
    · rw [if_neg own] at live
      exact ⟨before, listed', live⟩
  | transmit queue =>
    rw [lookup_setClient] at found
    obtain ⟨before, listed, rfl⟩ := map_eq_some_iff.1 found
    refine ⟨before, listed, ?_⟩
    split_ifs at live <;> exact live
  | disconnect listed => exact ⟨c', (lookup_delClient found).2, live⟩

/-- A client that is live at the end of a run was live all along it. -/
theorem live_along (reached : serverRun env s run = some s') (old : id < s.allocated) (sound : s'.overrun = false)
    (live : Live s' id) : s.overrun = false ∧ Live s id := by
  induction run generalizing s with
  | nil =>
    cases reached
    exact ⟨sound, live⟩
  | cons event run ih =>
    obtain ⟨next, step, rest⟩ := bind_eq_some_iff.1 reached
    have later := ih rest (Nat.lt_of_lt_of_le old (serverStep_allocated step))
    exact ⟨(serverStep_cases step).1, live_before step old later.2⟩

/-! ## Every command of a client -/

/-- After every token of the client, its filters are the ones that its messages so far asked
for, and the token has not changed the filters of another client. -/
def FiltersExact (env : ClientId → Env) (run : List ServerEvent) (id : ClientId) : Prop :=
  ∀ before t after, run = before ++ .receive id t :: after →
    ∀ s s', serverRun env serverStart before = some s → serverStep env s (.receive id t) = some s' →
      Exact (messages (tokensOf id (before ++ [.receive id t]))) (registered id s'.filterList) ∧
        ∀ other, other ≠ id → filtersOf other s'.filterList = filtersOf other s.filterList

/-- A token that completes a message, for every message. -/
theorem message_token {front : List ClientMessage} {m : ClientMessage}
    {rest : List ClientMessage} (split : messages (tokensOf id run) = front ++ m :: rest) :
    ∃ before t after, run = before ++ .receive id t :: after ∧
      messages (tokensOf id (before ++ [.receive id t])) = front ++ [m] := by
  induction run using List.reverseRecOn generalizing rest with
  | nil => simp [tokensOf, messages, messagesFrom] at split
  | append_singleton run event ih =>
    have earlier : ∀ rest', messages (tokensOf id run) = front ++ m :: rest' →
        ∃ before t after, run ++ [event] = before ++ .receive id t :: after ∧
          messages (tokensOf id (before ++ [.receive id t])) = front ++ [m] := by
      intro rest' split'
      obtain ⟨before, t, after, rfl, complete⟩ := ih split'
      exact ⟨before, t, after ++ [event], by simp, complete⟩
    rw [tokensOf_snoc] at split
    cases event with
    | receive other t =>
      by_cases own : other = id
      · subst own
        simp only [if_true, messages_snoc] at split
        cases done : (readingOf (tokensOf other run)).completes t with
        | none =>
          rw [done, toList_none, append_nil] at split
          exact earlier rest split
        | some m' =>
          rw [done, toList_some] at split
          rcases eq_nil_or_concat rest with rfl | ⟨rest', last, rfl⟩
          · refine ⟨run, t, [], rfl, ?_⟩
            rw [tokensOf_snoc]
            simp only [if_true, messages_snoc]
            rw [done, toList_some, split]
          · rw [concat_eq_append, ← cons_append, ← append_assoc] at split
            exact earlier rest' (append_singleton_inj.1 split).1
      · simp only [own, if_false, append_nil] at split
        exact earlier rest split
    | _ =>
      rw [append_nil] at split
      exact earlier rest split

/-- The messages up to some token of the client are none, or end with one of its messages. -/
theorem token_messages (run : List ServerEvent) {before after : List ServerEvent} (split : run = before ++ after) :
    messages (tokensOf id before) = [] ∨ ∃ front m rest, messages (tokensOf id before) = front ++ [m] ∧
      messages (tokensOf id run) = front ++ m :: rest := by
  rcases eq_nil_or_concat (messages (tokensOf id before)) with none | ⟨front, m, some⟩
  · exact .inl none
  · rw [concat_eq_append] at some
    refine .inr ⟨front, m, messagesFrom (readingOf (tokensOf id before)) (tokensOf id after), some, ?_⟩
    rw [split, tokensOf, filterMap_append, messages, messagesFrom_append]
    change messages (tokensOf id before) ++ _ = _
    rw [some, append_assoc]
    rfl

/-- **The filters of a live client are exactly those it asked for**, at every token of it and
in every interleaving with other clients, if and only if each class filter it adds is wanted
already just when the source filter of the same value is. -/
theorem filters_exact_iff (env : ClientId → Env) (run : List ServerEvent) (s : Server)
    (reached : serverRun env serverStart run = some s) (sound : s.overrun = false) (id : ClientId)
    (live : Live s id) :
    FiltersExact env run id ↔
      ∀ front m rest, messages (tokensOf id run) = front ++ m :: rest → Balanced front m := by
  -- the pairs at every token, by the messages up to it
  have pairs : ∀ before t after, run = before ++ .receive id t :: after → ∃ mid mid',
      serverRun env serverStart before = some mid ∧ serverStep env mid (.receive id t) = some mid' ∧
        registered id mid'.filterList =
          (messages (tokensOf id (before ++ [.receive id t]))).foldl commanded [] := by
    intro before t after split
    rw [split, append_cons, serverRun_append] at reached
    obtain ⟨mid', first, rest⟩ := bind_eq_some_iff.1 reached
    have tracked := tracked_run _ first
    rw [serverRun_snoc] at first
    obtain ⟨mid, earlier, step⟩ := bind_eq_some_iff.1 first
    refine ⟨mid, mid', earlier, step, ?_⟩
    have old : id < mid'.allocated := by
      by_contra fresh
      have silent := tracked.silent id (Nat.le_of_not_lt fresh)
      rw [tokensOf_snoc] at silent
      simp at silent
    obtain ⟨sound', c, found, alive⟩ := live_along rest old sound live
    exact (tracked.heard sound' id c found alive).pairs
  rw [← exact_run_iff]
  constructor
  · intro exact_all front m rest split
    obtain ⟨before, t, after, cut, complete⟩ := message_token split
    obtain ⟨mid, mid', earlier, step, seen⟩ := pairs before t after cut
    have here := (exact_all before t after cut mid mid' earlier step).1
    rwa [seen, complete] at here
  · intro exact_all before t after cut mid mid' earlier step
    obtain ⟨_, _, earlier', step', seen⟩ := pairs before t after cut
    obtain rfl := some.inj (earlier'.symm.trans earlier)
    obtain rfl := some.inj (step'.symm.trans step)
    refine ⟨?_, ?_⟩
    · rw [seen]
      rcases token_messages run (cut.trans (append_cons _ _ _)) with none | ⟨front, m, rest, some, all⟩
      · rw [none]
        exact exact_nil
      · rw [some]
        exact exact_all front m rest all
    · intro other foreign
      unfold serverStep at step
      split_ifs at step
      obtain ⟨c, -, rfl⟩ := map_eq_some_iff.1 step
      exact (parseToken_change (env id) id ⟨c, _, [], false⟩ t).others foreign

/-- The tokens of a command with a text. -/
def commandEvents (id : ClientId) (command : Token) (text : Bytes) : List ServerEvent :=
  .receive id .startCmd :: .receive id command :: text.map (fun c => .receive id (.ident c)) ++
    [.receive id .endCmd]

/-- Two clients; the first adds a source filter twice and a class filter of another value. -/
def balancedRun : List ServerEvent :=
  [.connect .sent, .connect .sent] ++ commandEvents 0 .addSourceFilter "x" ++
    commandEvents 1 .addClassFilter "x" ++ commandEvents 0 .addSourceFilter "x" ++
    commandEvents 0 .addClassFilter "y"

def balancedServer : Server :=
  { clientList := [(1, { newClient with ident := "x" }), (0, { newClient with ident := "y" })]
    filterList := [⟨0, ⟨"xap-header", "class", "y"⟩⟩,
      ⟨1, ⟨"xap-header", "class", "x"⟩⟩, ⟨0, ⟨"xap-header", "source", "x"⟩⟩]
    txQueue := []
    allocated := 2
    overrun := false }

theorem filters_exact_two_clients :
    serverRun (fun _ => plainEnv) serverStart balancedRun = some balancedServer ∧
      FiltersExact (fun _ => plainEnv) balancedRun 0 := by
  have reached : serverRun (fun _ => plainEnv) serverStart balancedRun = some balancedServer := by
    decide +kernel
  have commands : messages (tokensOf 0 balancedRun) =
      [⟨.addSource, "x"⟩, ⟨.addSource, "x"⟩, ⟨.addClass, "y"⟩] := by
    decide +kernel
  refine ⟨reached, (filters_exact_iff _ _ _ reached rfl 0 ⟨_, rfl, rfl⟩).2 ?_⟩
  intro front m rest split kind
  rw [commands] at split
  match front, split with
  | [], split =>
    cases split
    cases kind
  | [_], split =>
    cases split
    cases kind
  | [_, _], split =>
    cases split
    decide
  | _ :: _ :: _ :: _, split => simp at split

/-- A client that adds a source filter and then the class filter of the same value, up to the
end tag. -/
def blockedRun : List ServerEvent :=
  [.connect .sent] ++ commandEvents 0 .addSourceFilter "x" ++
    (commandEvents 0 .addClassFilter "x").dropLast

/-- The server when the class filter is about to be added. -/
def blockedServer : Server :=
  { clientList := [(0, { newClient with state := .addClassFilter, ident := "x" })]
    filterList := [⟨0, ⟨"xap-header", "source", "x"⟩⟩]
    txQueue := []
    allocated := 1
    overrun := false }

/-- The class filter is not registered: the source filter is taken for a duplicate of it. -/
theorem class_filter_blocked :
    serverRun (fun _ => plainEnv) serverStart blockedRun = some blockedServer ∧
      ∃ s, serverStep (fun _ => plainEnv) blockedServer (.receive 0 .endCmd) = some s ∧
        registered 0 s.filterList = [(.sourceFilter, ascii "x")] ∧
        messages (tokensOf 0 (blockedRun ++ [.receive 0 .endCmd])) =
          [⟨.addSource, ascii "x"⟩, ⟨.addClass, ascii "x"⟩] ∧
        ¬ FiltersExact (fun _ => plainEnv) (blockedRun ++ [.receive 0 .endCmd]) 0 := by
  have reached : serverRun (fun _ => plainEnv) serverStart blockedRun = some blockedServer := by
    decide +kernel
  have step : serverStep (fun _ => plainEnv) blockedServer (.receive 0 .endCmd) =
      some { blockedServer with clientList := [(0, { newClient with ident := ascii "x" })] } := by
    decide +kernel
  have commands : messages (tokensOf 0 (blockedRun ++ [.receive 0 .endCmd])) =
      [⟨.addSource, ascii "x"⟩, ⟨.addClass, ascii "x"⟩] := by
    decide +kernel
  refine ⟨reached, _, step, by decide, commands, fun exact_all => ?_⟩
  have here := (exact_all blockedRun .endCmd [] rfl _ _ reached step).1
  rw [commands] at here
  have missing : (FilterKind.classFilter, ascii "x") ∉ registered 0 blockedServer.filterList := by decide
  exact missing ((here.wanted .classFilter (ascii "x")).2 (by decide))

end Hah.IServer
