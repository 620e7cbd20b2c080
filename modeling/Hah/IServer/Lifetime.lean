import Hah.IServer.Client

/-!
# Clients and the transmit queue

The main loop accepts clients, feeds their tokens to the machine and deletes clients that
have gone; a second thread takes packets off the transmit queue and uses the client each
of them carries. A client that is deleted while a packet of it is queued leaves a dangling
pointer behind. `ServerEvent` are the atomic steps of the two threads, in any order.
-/

namespace Hah.IServer
open C Xap List

structure ClientPacket where
  client : ClientId
  msg : Bytes
  deriving DecidableEq, Repr

/-- What the two threads share. `allocated` is the identity of the next client: a client that
is allocated after another was freed is not that client, even at its address. -/
structure Server where
  clientList : List (ClientId × Client)
  filterList : List FilterCallback
  txQueue : List ClientPacket
  allocated : ClientId
  overrun : Bool
  deriving DecidableEq, Repr

def serverStart : Server :=
  { clientList := [], filterList := [], txQueue := [], allocated := 0, overrun := false }

def Server.ids (s : Server) : List ClientId := s.clientList.map (·.1)

/-- `queue_push`, for the packets that a turn of the parser broadcasts. -/
def pushPackets (s : Server) (id : ClientId) (actions : List Action) : Server :=
  { s with txQueue := s.txQueue ++ actions.filterMap fun
      | .broadcast msg => some ⟨id, msg⟩
      | _ => none }

/-- `queue_pop`; it blocks while the queue is empty. -/
def queuePop (s : Server) : Option (ClientPacket × Server) :=
  match s.txQueue with
  | [] => none
  | p :: rest => some (p, { s with txQueue := rest })

def Server.setClient (s : Server) (id : ClientId) (change : Client → Client) : Server :=
  { s with clientList := s.clientList.map fun entry =>
      if entry.1 = id then (entry.1, change entry.2) else entry }

/-- `delClient`: the filters of the client, its place in the list, and the client itself. -/
def delClient (s : Server) (id : ClientId) : Server :=
  { s with
    filterList := s.filterList.filter fun f => f.userData ≠ id
    clientList := s.clientList.filter fun entry => entry.1 ≠ id }

/-- `addClient`; `greeting` is the outcome of the first send. -/
def addClient (s : Server) (greeting : SendResult) : Server :=
  let id := s.allocated
  let s := { s with clientList := (id, newClient) :: s.clientList, allocated := id + 1 }
  if greeting = .sent then s else delClient s id

/-- A turn of the loop of `parseiServerMsg` for a client. -/
def receiveToken (env : Env) (s : Server) (id : ClientId) (c : Client) (token : Token) : Server :=
  let session := parseToken env id ⟨c, s.filterList, [], false⟩ token
  pushPackets
    { s.setClient id fun _ => session.client with
      filterList := session.filterList
      overrun := session.overrun }
    id session.actions

/-- A turn of `txLoop`, up to the packet it sends: `p->client->txFrame++`. -/
def txTurn (s : Server) : Option Server :=
  (queuePop s).map fun (p, s) => s.setClient p.client fun c => { c with txFrame := c.txFrame + 1 }

inductive ServerEvent where
  | connect (greeting : SendResult)
  | receive (id : ClientId) (token : Token)
  | transmit
  | disconnect (id : ClientId)
  deriving DecidableEq, Repr

/-- One step; `none` when it cannot be taken, or when nothing is known of the program. -/
def serverStep (env : ClientId → Env) (s : Server) (event : ServerEvent) : Option Server :=
  if s.overrun then none
  else
    match event with
    | .connect greeting => some (addClient s greeting)
    | .receive id token => (s.clientList.lookup id).map fun c => receiveToken (env id) s id c token
    | .transmit => txTurn s
    | .disconnect id => if id ∈ s.ids then some (delClient s id) else none

def serverRun (env : ClientId → Env) (s : Server) : List ServerEvent → Option Server
  | [] => some s
  | event :: run => (serverStep env s event).bind fun next => serverRun env next run

/-! ## Runs that delete only idle clients -/

/-- No packet of a client is queued when the client is deleted. -/
def drained (s : Server) : ServerEvent → Bool
  | .disconnect id => s.txQueue.all fun p => p.client ≠ id
  | _ => true

/-- Every step of the run meets `drained` in the state it is taken in. -/
def drainedRun (env : ClientId → Env) (s : Server) : List ServerEvent → Bool
  | [] => true
  | event :: run =>
    drained s event &&
      match serverStep env s event with
      | none => true
      | some next => drainedRun env next run

/-- Every queued packet belongs to a client in the list, and identities are handed out in order. -/
structure ClientsLive (s : Server) : Prop where
  queued : ∀ p ∈ s.txQueue, p.client ∈ s.ids
  allocated : ∀ id ∈ s.ids, id < s.allocated

variable {s s' : Server} {id : ClientId} {env : ClientId → Env} {event : ServerEvent}

/-- The list with the client that `addClient` allocates. -/
def joined (s : Server) : Server :=
  { s with clientList := (s.allocated, newClient) :: s.clientList, allocated := s.allocated + 1 }

theorem addClient_cases (s : Server) (greeting : SendResult) :
    addClient s greeting = joined s ∨ addClient s greeting = delClient (joined s) s.allocated := by
  unfold addClient
  split_ifs
  · exact .inl rfl
  · exact .inr rfl

/-- The steps that the two threads can take, with what each of them finds. -/
inductive Stepped (env : ClientId → Env) (s : Server) : ServerEvent → Server → Prop where
  | connect (greeting : SendResult) : Stepped env s (.connect greeting) (addClient s greeting)
  | receive (id : ClientId) (t : Token) {c : Client} (found : s.clientList.lookup id = some c) :
      Stepped env s (.receive id t) (receiveToken (env id) s id c t)
  | transmit {p : ClientPacket} {rest : List ClientPacket} (queue : s.txQueue = p :: rest) :
      Stepped env s .transmit
        (Server.setClient { s with txQueue := rest } p.client fun c => { c with txFrame := c.txFrame + 1 })
  | disconnect {id : ClientId} (listed : id ∈ s.ids) : Stepped env s (.disconnect id) (delClient s id)

theorem lookup_mem {c : Client} (found : s.clientList.lookup id = some c) : id ∈ s.ids := by
  obtain ⟨before, after, split, -⟩ := lookup_eq_some_iff.1 found
  simp [Server.ids, split]

/-- What a pop takes and leaves. -/
theorem queuePop_some {p : ClientPacket} (pop : queuePop s = some (p, s')) :
    ∃ rest, s.txQueue = p :: rest ∧ s' = { s with txQueue := rest } := by
  unfold queuePop at pop
  cases queue : s.txQueue with
  | nil => simp [queue] at pop
  | cons first rest =>
    simp only [queue, Option.some.injEq, Prod.mk.injEq] at pop
    obtain ⟨rfl, rfl⟩ := pop
    exact ⟨rest, rfl, rfl⟩

theorem serverStep_cases (step : serverStep env s event = some s') : s.overrun = false ∧ Stepped env s event s' := by
  unfold serverStep at step
  split_ifs at step with overrun
  refine ⟨Bool.eq_false_iff.2 overrun, ?_⟩
  cases event with
  | connect greeting =>
    cases step
    exact .connect greeting
  | receive id t =>
    obtain ⟨c, found, rfl⟩ := Option.map_eq_some_iff.1 step
    exact .receive id t found
  | transmit =>
    obtain ⟨⟨p, popped⟩, pop, rfl⟩ := Option.map_eq_some_iff.1 step
    obtain ⟨rest, queue, rfl⟩ := queuePop_some pop
    exact .transmit queue
  | disconnect id =>
    dsimp only at step
    split_ifs at step with listed
    cases step
    exact .disconnect listed

theorem setClient_ids (s : Server) (id : ClientId) (change : Client → Client) :
    (s.setClient id change).ids = s.ids := by
  simp only [Server.ids, Server.setClient, map_map]
  apply map_congr_left
  intro entry mem
  simp only [Function.comp_apply]
  split_ifs <;> rfl

theorem delClient_ids (s : Server) (id : ClientId) : (delClient s id).ids = s.ids.filter (· ≠ id) := by
  simp [Server.ids, delClient, filter_map, Function.comp_def]

theorem receiveToken_ids (env : Env) (s : Server) (id : ClientId) (c : Client) (t : Token) :
    (receiveToken env s id c t).ids = s.ids :=
  setClient_ids s id fun _ => (parseToken env id ⟨c, s.filterList, [], false⟩ t).client

theorem ClientsLive.delete (h : ClientsLive s)
    (idle : ∀ p ∈ s.txQueue, p.client ≠ id) : ClientsLive (delClient s id) := by
  constructor
  · intro p mem
    rw [delClient_ids, mem_filter]
    exact ⟨h.queued p mem, by simpa using idle p mem⟩
  · intro other mem
    rw [delClient_ids] at mem
    exact h.allocated other (mem_of_mem_filter mem)

theorem ClientsLive.connect (h : ClientsLive s) (greeting : SendResult) : ClientsLive (addClient s greeting) := by
  have added : ClientsLive (joined s) := by
    constructor
    · intro p mem
      exact mem_cons_of_mem _ (h.queued p mem)
    · intro id mem
      rcases mem_cons.1 mem with rfl | mem
      · exact Nat.lt_succ_self _
      · exact Nat.lt_succ_of_lt (h.allocated id mem)
  rcases addClient_cases s greeting with kept | refused
  · rw [kept]
    exact added
  · rw [refused]
    apply added.delete
    -- the new identity is in no packet yet
    intro p mem same
    exact Nat.ne_of_lt (h.allocated p.client (h.queued p mem)) same

theorem ClientsLive.receive (h : ClientsLive s) (known : id ∈ s.ids) (env : Env)
    (c : Client) (token : Token) : ClientsLive (receiveToken env s id c token) := by
  constructor
  · intro p mem
    rw [receiveToken_ids]
    rcases mem_append.1 mem with mem | mem
    · exact h.queued p mem
    · obtain ⟨a, -, pushed⟩ := mem_filterMap.1 mem
      cases a with
      | broadcast msg => cases pushed; exact known
      | _ => cases pushed
  · rw [receiveToken_ids]
    exact h.allocated

/-- **One step** of either thread keeps the queued packets' clients in the list. -/
theorem ClientsLive.step (h : ClientsLive s)
    (idle : drained s event = true) (step : serverStep env s event = some s') : ClientsLive s' := by
  cases (serverStep_cases step).2 with
  | connect greeting => exact h.connect greeting
  | receive id t found => exact h.receive (lookup_mem found) (env id) _ t
  | @transmit p rest queue =>
    constructor
    · intro q mem
      rw [setClient_ids]
      apply h.queued q
      rw [queue]
      exact mem_cons_of_mem p mem
    · rw [setClient_ids]
      exact h.allocated
  | disconnect listed =>
    apply h.delete
    simpa [drained] using idle

theorem ClientsLive.run {run : List ServerEvent} (h : ClientsLive s)
    (idle : drainedRun env s run = true) (reached : serverRun env s run = some s') : ClientsLive s' := by
  induction run generalizing s with
  | nil =>
    cases reached
    exact h
  | cons event run ih =>
    obtain ⟨next, step, rest⟩ := Option.bind_eq_some_iff.1 reached
    simp only [drainedRun, step, Bool.and_eq_true] at idle
    exact ih (h.step idle.1 step) idle.2 rest

/-- **A popped packet's client is alive**, in every interleaving in which clients are deleted
only when none of their packets is queued. -/
theorem popped_client_listed (env : ClientId → Env) (run : List ServerEvent)
    (idle : drainedRun env serverStart run = true) (s : Server) (reached : serverRun env serverStart run = some s)
    (p : ClientPacket) (s' : Server) (pop : queuePop s = some (p, s')) : p.client ∈ s.ids := by
  have start : ClientsLive serverStart := ⟨by simp [serverStart], by simp [serverStart, Server.ids]⟩
  have live := start.run idle reached
  obtain ⟨rest, queue, -⟩ := queuePop_some pop
  apply live.queued p
  rw [queue]
  exact mem_cons_self

/-- A client that sends a packet `x`. -/
def packetRun : List ServerEvent :=
  [.connect .sent, .receive 0 .startXap, .receive 0 (.ident 120), .receive 0 .endXap]

/-- The packet is sent, its client goes, and a second client sends one. -/
def drainedPackets : List ServerEvent :=
  packetRun ++ [.transmit, .disconnect 0, .connect .sent, .receive 1 .startXap, .receive 1 .endXap]

theorem popped_client_listed_second :
    ∃ s p s', serverRun (fun _ => plainEnv) serverStart drainedPackets = some s ∧ queuePop s = some (p, s') ∧
      p.client ∈ s.ids := by
  obtain ⟨s, reached⟩ : ∃ s, serverRun (fun _ => plainEnv) serverStart drainedPackets = some s :=
    Option.isSome_iff_exists.1 (by decide +kernel)
  have some_packet : ((serverRun (fun _ => plainEnv) serverStart drainedPackets).bind queuePop).isSome := by
    decide +kernel
  rw [reached, Option.bind_some, Option.isSome_iff_exists] at some_packet
  obtain ⟨⟨p, s'⟩, pop⟩ := some_packet
  exact ⟨s, p, s', reached, pop,
    popped_client_listed (fun _ => plainEnv) drainedPackets (by decide +kernel) s reached p s' pop⟩

/-- The client disconnects before the transmit thread gets to its packet. -/
theorem popped_client_deleted :
    ∃ s p s', serverRun (fun _ => plainEnv) serverStart (packetRun ++ [.disconnect 0]) = some s ∧
      queuePop s = some (p, s') ∧ p.client ∉ s.ids := by
  refine ⟨{ serverStart with txQueue := [⟨0, "x"⟩], allocated := 1 }, ⟨0, "x"⟩,
    { serverStart with allocated := 1 }, by decide +kernel, rfl, by decide⟩

end Hah.IServer
