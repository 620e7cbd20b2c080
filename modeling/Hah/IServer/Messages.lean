import Hah.IServer.Client

/-!
# The messages of a client

Read as a language, the tokens of a client are messages with noise between them: a packet
`<xap>..</xap>` or a command `<cmd>..</cmd>`, each with a text. `messages` reads them off
and does nothing else. The machine of `parseToken` acts message by message
(`session_messages`): between two messages it changes only its state and its identifier.
-/

namespace Hah.IServer
open C Xap

inductive MessageKind where
  | xap
  | login
  | addSource
  | addClass
  | delSource
  | delClass
  deriving DecidableEq, Repr

/-- A complete message of a client and its text. -/
structure ClientMessage where
  kind : MessageKind
  text : Bytes
  deriving DecidableEq, Repr

/-- The command that a token behind `<cmd>` opens. -/
def commandKind : Token → Option MessageKind
  | .login => some .login
  | .addSourceFilter => some .addSource
  | .addClassFilter => some .addClass
  | .delSourceFilter => some .delSource
  | .delClassFilter => some .delClass
  | _ => none

/-- The tokens that end a message; a filter command takes the end tag of either kind. -/
def MessageKind.ends : MessageKind → Token → Bool
  | .xap, .endXap => true
  | .login, .endCmd => true
  | .addSource, .addSourceFilterE | .addSource, .addClassFilterE | .addSource, .endCmd => true
  | .addClass, .addSourceFilterE | .addClass, .addClassFilterE | .addClass, .endCmd => true
  | .delSource, .delSourceFilterE | .delSource, .delClassFilterE | .delSource, .endCmd => true
  | .delClass, .delSourceFilterE | .delClass, .delClassFilterE | .delClass, .endCmd => true
  | _, _ => false

/-- The text of a message: the bytes between its tags, without NULs, in a buffer of
`XAP_DATA_LEN` bytes. -/
def collected (bytes : Bytes) : Bytes := (bytes.filter (· ≠ 0)).take (xapDataLen - 1)

/-- Where in a message a token stands. -/
inductive Reading where
  | outside
  | command
  | body (kind : MessageKind) (bytes : Bytes)
  deriving DecidableEq, Repr

def Reading.step : Reading → Token → Reading
  | .outside, .startCmd => .command
  | .outside, .startXap => .body .xap []
  | .outside, _ => .outside
  | .command, t =>
    match commandKind t with
    | some kind => .body kind []
    | none => .outside
  | .body kind bytes, .ident c => .body kind (bytes ++ [c])
  | .body _ _, _ => .outside

def Reading.completes : Reading → Token → Option ClientMessage
  | .body kind bytes, t => if kind.ends t then some ⟨kind, collected bytes⟩ else none
  | _, _ => none

def messagesFrom : Reading → List Token → List ClientMessage
  | _, [] => []
  | r, t :: tokens => (r.completes t).toList ++ messagesFrom (r.step t) tokens

def messages (tokens : List Token) : List ClientMessage := messagesFrom .outside tokens

example : messages (yylex "-<cmd><flt+>a:b</flt+><xap>p</cmd>") = [⟨.addSource, "a:b"⟩] := by
  decide +kernel

/-! ## What a message does -/

/-- The session without the machine's own variables. -/
def Session.settled (s : Session) : Session :=
  { s with client := { s.client with state := .waitForMessage, ident := [] } }

def Session.withIdent (s : Session) (text : Bytes) : Session :=
  { s with client := { s.client with ident := text } }

def MessageKind.finish (env : Env) (id : ClientId) : MessageKind → Session → Session
  | .xap => endXap id
  | .login => endLogin env
  | .addSource => endAddFilter env id "source"
  | .addClass => endAddFilter env id "class"
  | .delSource => endDelFilter id "source"
  | .delClass => endDelFilter id "class"

def perform (env : Env) (id : ClientId) (s : Session) (m : ClientMessage) : Session :=
  if s.dead then s else (m.kind.finish env id (s.withIdent m.text)).settled

/-! ## The machine follows the messages -/

def MessageKind.state : MessageKind → ClientState
  | .xap => .xap
  | .login => .login
  | .addSource => .addSourceFilter
  | .addClass => .addClassFilter
  | .delSource => .delSourceFilter
  | .delClass => .delClassFilter

/-- The machine's own variables while a message is read. -/
inductive ReadsAt : Reading → Session → Prop
  | outside {s : Session} (state : s.client.state = .waitForMessage) : ReadsAt .outside s
  | command {s : Session} (state : s.client.state = .cmd) (ident : s.client.ident = []) : ReadsAt .command s
  | body {s : Session} {kind : MessageKind} {bytes : Bytes} (state : s.client.state = kind.state)
      (ident : s.client.ident = collected bytes) : ReadsAt (.body kind bytes) s

variable {env : Env} {id : ClientId} {r : Reading}

theorem collected_snoc (bytes : Bytes) (c : UInt8) :
    strlcat (collected bytes) (if c = 0 then [] else [c]) xapDataLen = collected (bytes ++ [c]) := by
  by_cases nul : c = 0
  · simp [nul, collected, strlcat]
  · have kept : [c].filter (· ≠ 0) = [c] := by simp [nul]
    have room : xapDataLen - 1 - min (xapDataLen - 1) (bytes.filter (· ≠ 0)).length =
        xapDataLen - 1 - (bytes.filter (· ≠ 0)).length := by omega
    simp only [collected, strlcat, nul, if_false, List.filter_append, kept, List.length_take,
      List.take_append, room]

/-! The ends of messages, by cases. -/

theorem endLogin_granted {s : Session} (granted : env.optA = 0 ∨ env.password = s.client.ident) :
    endLogin env s = { s.act (.login s.client.ident true) with client := sendToClient env s.client } :=
  if_pos granted

theorem endLogin_denied {s : Session} (denied : ¬ (env.optA = 0 ∨ env.password = s.client.ident)) :
    endLogin env s = s.act (.login s.client.ident false) :=
  if_neg denied

theorem firstClientMessage_inside (id : ClientId) {s : Session} (first : s.client.firstMessage = true)
    (inside : ∀ slot ∈ parseStores (XapFrame.blank.load s.client.ident), slot < xapMsgElements) :
    firstClientMessage id s =
      match packetSource (parseMsgF (XapFrame.blank.load s.client.ident)) with
      | none => s
      | some source =>
        addFilterAction id "target" source
          { s with client := { s.client with firstMessage := false, source := some source } } :=
  (if_pos first).trans (if_pos inside)

theorem firstClientMessage_overrun (id : ClientId) {s : Session} (first : s.client.firstMessage = true)
    (outside : ¬ ∀ slot ∈ parseStores (XapFrame.blank.load s.client.ident), slot < xapMsgElements) :
    firstClientMessage id s = { s with overrun := true } :=
  (if_pos first).trans (if_neg outside)

theorem firstClientMessage_later (id : ClientId) {s : Session} (later : ¬ s.client.firstMessage = true) :
    firstClientMessage id s = s :=
  if_neg later

/-- What `firstClientMessage` can do: nothing, register the target filter, or store outside the
element table. -/
theorem firstClientMessage_cases (id : ClientId) (s : Session) :
    ((s.client.firstMessage = true →
          ∀ slot ∈ parseStores (XapFrame.blank.load s.client.ident), slot < xapMsgElements) ∧
        (firstClientMessage id s = s ∨
          ∃ source, firstClientMessage id s = addFilterAction id "target" source
            { s with client := { s.client with firstMessage := false, source := some source } })) ∨
      (s.client.firstMessage = true ∧
        (¬ ∀ slot ∈ parseStores (XapFrame.blank.load s.client.ident), slot < xapMsgElements) ∧
        firstClientMessage id s = { s with overrun := true }) := by
  by_cases first : s.client.firstMessage = true
  · by_cases inside : ∀ slot ∈ parseStores (XapFrame.blank.load s.client.ident), slot < xapMsgElements
    · refine .inl ⟨fun _ => inside, ?_⟩
      rw [firstClientMessage_inside id first inside]
      cases packetSource (parseMsgF (XapFrame.blank.load s.client.ident)) with
      | none => exact .inl rfl
      | some source => exact .inr ⟨source, rfl⟩
    · exact .inr ⟨first, inside, firstClientMessage_overrun id first inside⟩
  · exact .inl ⟨fun now => absurd now first, .inl (firstClientMessage_later id first)⟩

/-- An add filter command registers the filter if it is new, and may query its endpoint. -/
theorem endAddFilter_actions (env : Env) (id : ClientId) (filterType : Bytes) (s : Session) :
    ∃ query, (endAddFilter env id filterType s).actions =
      s.actions ++ (if uniqueFilter s id s.client.ident then [.addFilter filterType s.client.ident] else []) ++
        query := by
  simp only [endAddFilter]
  cases uniqueFilter s id s.client.ident with
  | true =>
    simp only [if_true]
    split_ifs
    · exact ⟨_, rfl⟩
    · exact ⟨[], by simp [addFilterAction, Session.act]⟩
  | false =>
    simp only [Bool.false_eq_true, if_false]
    split_ifs
    · exact ⟨_, by simp [broadcastPacket, Session.act]; rfl⟩
    · exact ⟨[], by simp⟩

section Settled

variable (s : Session) (state : ClientState)

@[simp] theorem goto_settled : (s.goto state).settled = s.settled := rfl

@[simp] theorem settled_dead : s.settled.dead ↔ s.dead := Iff.rfl

@[simp] theorem goto_state : (s.goto state).client.state = state := rfl

theorem settled_withIdent : s.settled.withIdent s.client.ident = s.goto .waitForMessage := rfl

@[simp] theorem goto_ident : (s.goto state).client.ident = s.client.ident := rfl

theorem firstClientMessage_goto (id : ClientId) :
    firstClientMessage id (s.goto state) = (firstClientMessage id s).goto state := by
  by_cases first : s.client.firstMessage = true
  · by_cases inside : ∀ slot ∈ parseStores (XapFrame.blank.load s.client.ident), slot < xapMsgElements
    · rw [firstClientMessage_inside id first inside, firstClientMessage_inside id (s := s.goto state) first inside,
        goto_ident]
      cases packetSource (parseMsgF (XapFrame.blank.load s.client.ident)) <;> rfl
    · rw [firstClientMessage_overrun id first inside,
        firstClientMessage_overrun id (s := s.goto state) first inside]
      rfl
  · rw [firstClientMessage_later id first, firstClientMessage_later id (s := s.goto state) first]

/-- What a message does does not depend on the state the machine is in. -/
theorem finish_goto (env : Env) (id : ClientId) (kind : MessageKind) :
    kind.finish env id (s.goto state) = (kind.finish env id s).goto state := by
  have add : ∀ filterType, endAddFilter env id filterType (s.goto state) =
      (endAddFilter env id filterType s).goto state := by
    intro filterType
    have unique : uniqueFilter (s.goto state) id (s.goto state).client.ident = uniqueFilter s id s.client.ident :=
      rfl
    simp only [endAddFilter, unique]
    cases uniqueFilter s id s.client.ident with
    | false =>
      simp only [Bool.false_eq_true, if_false, goto_ident]
      split_ifs <;> rfl
    | true =>
      simp only [if_true, addFilterAction, Session.act, goto_ident]
      split_ifs <;> rfl
  cases kind with
  | xap => exact firstClientMessage_goto (broadcastPacket s s.client.ident) state id
  | login =>
    by_cases granted : env.optA = 0 ∨ env.password = s.client.ident
    · simp only [MessageKind.finish, endLogin_granted granted]
      exact endLogin_granted granted
    · simp only [MessageKind.finish, endLogin_denied granted]
      exact endLogin_denied granted
  | addSource => exact add "source"
  | addClass => exact add "class"
  | delSource | delClass => rfl

end Settled

/-- One turn inside the text of a message. -/
theorem parseToken_body {s : Session} {kind : MessageKind} (live : ¬ s.dead)
    (state : s.client.state = kind.state) (t : Token) :
    parseToken env id s t =
      match t with
      | .ident c => s.collect c
      | t => if kind.ends t then (kind.finish env id s).goto .waitForMessage else s.goto .waitForMessage := by
  rw [parseToken, if_neg live, state]
  cases kind <;> cases t <;> rfl

/-- What one turn can do: change the machine's own variables, or finish a message. -/
theorem parseToken_cases (env : Env) (id : ClientId) (s : Session) (t : Token) :
    (∃ state ident, parseToken env id s t = { s with client := { s.client with state := state, ident := ident } }) ∨
      ∃ kind : MessageKind, parseToken env id s t = (kind.finish env id s).goto .waitForMessage := by
  by_cases dead : s.dead
  · exact .inl ⟨s.client.state, s.client.ident, if_pos dead⟩
  have place : s.client.state = .waitForMessage ∨ s.client.state = .cmd ∨ ∃ kind : MessageKind, s.client.state = kind.state := by
    cases s.client.state with
    | waitForMessage => exact .inl rfl
    | cmd => exact .inr (.inl rfl)
    | xap => exact .inr (.inr ⟨.xap, rfl⟩)
    | login => exact .inr (.inr ⟨.login, rfl⟩)
    | addSourceFilter => exact .inr (.inr ⟨.addSource, rfl⟩)
    | addClassFilter => exact .inr (.inr ⟨.addClass, rfl⟩)
    | delSourceFilter => exact .inr (.inr ⟨.delSource, rfl⟩)
    | delClassFilter => exact .inr (.inr ⟨.delClass, rfl⟩)
  rcases place with state | state | ⟨kind, state⟩
  · rw [parseToken, if_neg dead, state]
    cases t <;> exact .inl ⟨_, _, rfl⟩
  · rw [parseToken, if_neg dead, state]
    cases t <;> exact .inl ⟨_, _, rfl⟩
  · rw [parseToken_body dead state]
    cases t with
    | ident c => exact .inl ⟨_, _, rfl⟩
    | _ =>
      dsimp only
      split_ifs
      · exact .inr ⟨kind, rfl⟩
      · exact .inl ⟨_, _, rfl⟩

/-- **One turn**: the machine keeps its place in the message being read, and what else it
changes is the effect of the message that the token completes. -/
theorem parseToken_reads {s : Session} (live : ¬ s.dead) (at_r : ReadsAt r s) (t : Token) :
    ReadsAt (r.step t) (parseToken env id s t) ∧
      (parseToken env id s t).settled = (r.completes t).toList.foldl (perform env id) s.settled := by
  cases at_r with
  | outside state =>
    rw [parseToken, if_neg live, state]
    cases t with
    | startCmd => exact ⟨.command rfl rfl, rfl⟩
    | startXap => exact ⟨.body rfl rfl, rfl⟩
    | msgSequence i => exact ⟨.outside state, rfl⟩
    | _ => exact ⟨.outside rfl, rfl⟩
  | command state ident =>
    rw [parseToken, if_neg live, state]
    cases t with
    | login | addSourceFilter | addClassFilter | delSourceFilter | delClassFilter =>
      exact ⟨.body rfl ident, rfl⟩
    | _ => exact ⟨.outside rfl, rfl⟩
  | @body _ kind bytes state ident =>
    rw [parseToken_body live state]
    -- behind the text, either the message is complete or it is given up
    have leave : ReadsAt .outside
        (if kind.ends t then (kind.finish env id s).goto .waitForMessage else s.goto .waitForMessage) ∧
        (if kind.ends t then (kind.finish env id s).goto .waitForMessage else s.goto .waitForMessage).settled =
          ((Reading.body kind bytes).completes t).toList.foldl (perform env id) s.settled := by
      by_cases ends : kind.ends t = true
      · refine ⟨.outside (by rw [if_pos ends]; rfl), ?_⟩
        rw [Reading.completes, if_pos ends, if_pos ends]
        simp only [Option.toList_some, List.foldl_cons, List.foldl_nil, perform, settled_dead, if_neg live,
          ← ident, settled_withIdent, finish_goto, goto_settled]
      · refine ⟨.outside (by rw [if_neg ends]; rfl), ?_⟩
        rw [Reading.completes, if_neg ends, if_neg ends]
        rfl
    cases t with
    | ident c =>
      refine ⟨.body state ?_, ?_⟩
      · rw [← collected_snoc, ← ident]
        rfl
      · cases kind <;> rfl
    | _ => exact leave

theorem parseTokens_dead {s : Session} (dead : s.dead) (tokens : List Token) : parseTokens env id s tokens = s := by
  induction tokens with
  | nil => rfl
  | cons t tokens ih =>
    rw [parseTokens, List.foldl_cons, parseToken, if_pos dead]
    exact ih

theorem perform_dead {s : Session} (dead : s.dead) (ms : List ClientMessage) : ms.foldl (perform env id) s = s := by
  induction ms with
  | nil => rfl
  | cons m ms ih => rw [List.foldl_cons, perform, if_pos dead, ih]

theorem parseTokens_reads (tokens : List Token) {s : Session} (at_r : ReadsAt r s) :
    (parseTokens env id s tokens).settled = (messagesFrom r tokens).foldl (perform env id) s.settled := by
  induction tokens generalizing s r with
  | nil => rfl
  | cons t tokens ih =>
    by_cases dead : s.dead
    · rw [parseTokens_dead dead, perform_dead ((settled_dead s).2 dead)]
    · obtain ⟨next, done⟩ := parseToken_reads dead at_r t
      rw [messagesFrom, List.foldl_append, ← done]
      exact ih next

/-- A session that is still live stands where its tokens lead. -/
theorem parseTokens_place (tokens : List Token) {s : Session}
    (at_r : ReadsAt r s) (live : ¬ (parseTokens env id s tokens).dead) :
    ReadsAt (tokens.foldl Reading.step r) (parseTokens env id s tokens) := by
  induction tokens generalizing s r with
  | nil => exact at_r
  | cons t tokens ih =>
    by_cases dead : s.dead
    · exact absurd (by rwa [parseTokens_dead dead]) live
    · exact ih (parseToken_reads dead at_r t).1 live

/-- **The machine acts message by message**: from a session that waits, the tokens change the
filters, the actions and the client's record as their complete messages do. -/
theorem session_messages {s : Session} (waits : s.client.state = .waitForMessage) (tokens : List Token) :
    (parseTokens env id s tokens).settled = (messages tokens).foldl (perform env id) s.settled :=
  parseTokens_reads tokens (.outside waits)

/-- The buffers that `recv` fills are parsed one after the other. -/
theorem drainSocket_tokens (env : Env) (id : ClientId) (s : Session) (chunks : List Bytes) :
    drainSocket env id s chunks = parseTokens env id s (chunks.flatMap yylex) := by
  induction chunks generalizing s with
  | nil => rfl
  | cons chunk chunks ih =>
    rw [drainSocket, List.foldl_cons, List.flatMap_cons, parseTokens, List.foldl_append]
    exact ih _

end Hah.IServer
