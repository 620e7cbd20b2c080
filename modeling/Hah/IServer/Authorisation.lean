import Hah.IServer.Messages

/-!
# Authorisation

In authorisation mode a client is asked for a password. The answer decides what is sent
back and nothing else: packets are broadcast and filters registered from the first message
on. So a client acts only after it has logged in exactly when it chooses to
(`authorised_iff`).
-/

namespace Hah.IServer
open C Xap List

/-- What a client should be authorised for. -/
def Action.needsLogin : Action → Bool
  | .broadcast _ => true
  | .addFilter _ _ => true
  | _ => false

/-- Every broadcast and every filter registration comes after a login with the password. -/
def LoginFirst (password : Bytes) (actions : List Action) : Prop :=
  ∀ before a after, actions = before ++ a :: after → a.needsLogin = true →
    ∃ authorized, .login password authorized ∈ before

/-- Packets and filters to add. -/
def MessageKind.needsLogin : MessageKind → Bool
  | .xap | .addSource | .addClass => true
  | _ => false

/-- The client sends no packet and no filter to add before a login with the password. -/
def AsksFirst (password : Bytes) (ms : List ClientMessage) : Prop :=
  ∀ before m after, ms = before ++ m :: after → m.kind.needsLogin = true → ⟨.login, password⟩ ∈ before

/-! ## The order of actions and of messages -/

variable {password : Bytes} {id : ClientId} {s : Session}
  {m : ClientMessage} {more : List Action} {env : Env}

theorem asksFirst_cons {ms : List ClientMessage} :
    AsksFirst password (m :: ms) ↔
      m.kind.needsLogin = false ∧ (m = ⟨.login, password⟩ ∨ AsksFirst password ms) := by
  constructor
  · intro asks
    constructor
    · by_contra acts
      have := asks [] m ms rfl (by simpa using acts)
      simp at this
    · by_cases login : m = ⟨.login, password⟩
      · exact .inl login
      · right
        intro before m' after split acts
        have mem := asks (m :: before) m' after (by rw [split]; rfl) acts
        rcases mem_cons.1 mem with same | mem
        · exact absurd same.symm login
        · exact mem
  · rintro ⟨silent, first⟩ before m' after split acts
    cases before with
    | nil =>
      cases split
      simp [silent] at acts
    | cons m'' before =>
      obtain ⟨rfl, rest⟩ := List.cons.inj split
      rcases first with rfl | asks
      · exact mem_cons_self
      · exact mem_cons_of_mem _ (asks before m' after rest acts)

/-- Nothing in the log needs a login, and nothing is one. -/
def Idle (password : Bytes) (actions : List Action) : Prop :=
  ∀ a ∈ actions, a.needsLogin = false ∧ ∀ authorized, a ≠ .login password authorized

theorem loginFirst_of_login {authorized : Bool}
    (idle : Idle password actions) : LoginFirst password (actions ++ .login password authorized :: more) := by
  intro before a after split acts
  refine ⟨authorized, ?_⟩
  rcases append_eq_append_iff.1 split with ⟨gap, rfl, tail⟩ | ⟨gap, early, tail⟩
  · cases gap with
    | nil =>
      cases tail
      simp [Action.needsLogin] at acts
    | cons first gap =>
      cases tail
      simp
  · cases gap with
    | nil =>
      obtain ⟨rfl, -⟩ := List.cons.inj tail.symm
      simp [Action.needsLogin] at acts
    | cons first gap =>
      cases tail
      have := (idle a (by rw [early]; simp)).1
      simp [this] at acts

theorem not_loginFirst {a : Action} (idle : Idle password actions) (acts : a.needsLogin = true) :
    ¬ LoginFirst password (actions ++ a :: more) := by
  intro first
  obtain ⟨authorized, mem⟩ := first actions a more rfl acts
  exact (idle _ mem).2 authorized rfl

/-! ## What a message adds to the log -/

theorem firstClientMessage_actions (id : ClientId) (s : Session) : s.actions <+: (firstClientMessage id s).actions := by
  rcases firstClientMessage_cases id s with ⟨-, same | ⟨source, added⟩⟩ | ⟨-, -, overrun⟩
  · exact congrArg Session.actions same ▸ prefix_refl _
  · rw [added]
    exact prefix_append _ _
  · have same : (firstClientMessage id s).actions = s.actions := by rw [overrun]
    exact same ▸ prefix_refl _

/-- Actions are only ever added. -/
theorem finish_actions (env : Env) (id : ClientId) (kind : MessageKind) (s : Session) :
    s.actions <+: (kind.finish env id s).actions := by
  have add : ∀ filterType, s.actions <+: (endAddFilter env id filterType s).actions := by
    intro filterType
    obtain ⟨query, added⟩ := endAddFilter_actions env id filterType s
    rw [added, append_assoc]
    exact prefix_append _ _
  cases kind with
  | xap =>
    exact (prefix_append s.actions [.broadcast s.client.ident]).trans
      (firstClientMessage_actions id (broadcastPacket s s.client.ident))
  | login =>
    by_cases granted : env.optA = 0 ∨ env.password = s.client.ident
    · rw [MessageKind.finish, endLogin_granted granted]
      exact prefix_append _ _
    · rw [MessageKind.finish, endLogin_denied granted]
      exact prefix_append _ _
  | addSource => exact add "source"
  | addClass => exact add "class"
  | delSource | delClass => exact prefix_append _ _

theorem perform_actions (env : Env) (id : ClientId) (ms : List ClientMessage) (s : Session) :
    s.actions <+: (ms.foldl (perform env id) s).actions := by
  induction ms generalizing s with
  | nil => exact prefix_refl _
  | cons m ms ih =>
    apply List.IsPrefix.trans _ (ih (perform env id s m))
    unfold perform
    split_ifs
    · exact prefix_refl _
    · exact finish_actions env id m.kind (s.withIdent m.text)

def NoFilters (id : ClientId) (s : Session) : Prop := ∀ f ∈ s.filterList, f.userData ≠ id

/-- Without a login, packets and filters to add are acted on at once. -/
theorem finish_acts (env : Env) {kind : MessageKind} (none : NoFilters id s) (acts : kind.needsLogin = true) :
    ∃ a more, a.needsLogin = true ∧ (kind.finish env id s).actions = s.actions ++ a :: more := by
  have add : ∀ filterType, ∃ a more, a.needsLogin = true ∧
      (endAddFilter env id filterType s).actions = s.actions ++ a :: more := by
    intro filterType
    have unique : uniqueFilter s id s.client.ident = true := by
      simp only [uniqueFilter, Bool.not_eq_true', any_eq_false]
      intro f mem
      simp [none f mem]
    obtain ⟨query, added⟩ := endAddFilter_actions env id filterType s
    rw [unique] at added
    exact ⟨.addFilter filterType s.client.ident, query, rfl, by simpa using added⟩
  cases kind with
  | xap =>
    obtain ⟨more, added⟩ := firstClientMessage_actions id (broadcastPacket s s.client.ident)
    refine ⟨.broadcast s.client.ident, more, rfl, ?_⟩
    rw [MessageKind.finish, endXap, ← added]
    simp [broadcastPacket, Session.act]
  | addSource => exact add "source"
  | addClass => exact add "class"
  | login | delSource | delClass => cases acts

theorem endDelFilter_none (none : NoFilters id s) (filterType : Bytes) : endDelFilter id filterType s = s := by
  have kept : ∀ f ∈ s.filterList, deletes id filterType s.client.ident f = false := by
    intro f mem
    simp [deletes, none f mem]
  have all : s.filterList.filter (fun f => !deletes id filterType s.client.ident f) = s.filterList := by
    rw [filter_eq_self]
    intro f mem
    simp [kept f mem]
  have empty : s.filterList.filter (deletes id filterType s.client.ident) = [] := by
    rw [filter_eq_nil_iff]
    intro f mem
    simp [kept f mem]
  simp [endDelFilter, all, empty]

/-! ## Sessions -/

/-- Messages that need no login leave a session as it was, but for a denied login in the log. -/
theorem perform_silent (auth : env.optA ≠ 0) (live : ¬ s.dead) (none : NoFilters id s)
    (silent : m.kind.needsLogin = false) (other : m ≠ ⟨.login, env.password⟩) :
    ∃ denied, perform env id s m = { s.settled with actions := s.actions ++ denied } ∧
      Idle env.password denied := by
  have kept : NoFilters id (s.withIdent m.text) := none
  rw [perform, if_neg live]
  obtain ⟨kind, text⟩ := m
  cases kind with
  | login =>
    have wrong : env.password ≠ text := by
      rintro rfl
      exact other rfl
    have denied := not_or.2 ⟨auth, wrong⟩
    refine ⟨[.login text false], ?_, ?_⟩
    · rw [MessageKind.finish, endLogin_denied denied]
      rfl
    · intro a mem
      rw [mem_singleton.1 mem]
      refine ⟨rfl, fun authorized same => ?_⟩
      injection same with same
      exact wrong same.symm
  | delSource | delClass =>
    refine ⟨[], ?_, by simp [Idle]⟩
    rw [MessageKind.finish, endDelFilter_none kept, append_nil]
    rfl
  | xap | addSource | addClass => cases silent

theorem perform_loginFirst (auth : env.optA ≠ 0) (ms : List ClientMessage) (live : ¬ s.dead) (none : NoFilters id s)
    (idle : Idle env.password s.actions) :
    LoginFirst env.password (ms.foldl (perform env id) s).actions ↔ AsksFirst env.password ms := by
  induction ms generalizing s with
  | nil =>
    constructor
    · intro _ before m after split
      simp at split
    · intro _ before a after split acts
      have := (idle a (by rw [show s.actions = before ++ a :: after from split]; simp)).1
      simp [this] at acts
  | cons m ms ih =>
    rw [asksFirst_cons, foldl_cons]
    obtain ⟨more, grown⟩ := perform_actions env id ms (perform env id s m)
    cases acts : m.kind.needsLogin with
    | true =>
      obtain ⟨a, rest, needs, added⟩ := finish_acts env (s := s.withIdent m.text) none acts
      have now : (perform env id s m).actions = s.actions ++ a :: rest := by
        rw [perform, if_neg live]
        exact added
      rw [← grown, now, append_assoc, cons_append]
      simpa using not_loginFirst idle needs
    | false =>
      by_cases login : m = ⟨.login, env.password⟩
      · subst login
        have granted : env.optA = 0 ∨ env.password = (s.withIdent env.password).client.ident := .inr rfl
        have now : (perform env id s ⟨.login, env.password⟩).actions =
            s.actions ++ [.login env.password true] := by
          rw [perform, if_neg live, MessageKind.finish, endLogin_granted granted]
          rfl
        rw [← grown, now, append_assoc]
        simpa using loginFirst_of_login idle
      · obtain ⟨denied, now, harmless⟩ := perform_silent auth live none acts login
        rw [now, ih]
        · simp [login]
        · exact live
        · exact none
        · exact forall_mem_append.2 ⟨idle, harmless⟩

/-- **Authorisation is left to the client**: in authorisation mode, whatever the chunks, no
packet is broadcast and no filter registered before a login with the password exactly when
the client sends none before. -/
theorem authorised_iff (env : Env) (auth : env.optA ≠ 0) (id : ClientId) (filterList : List FilterCallback)
    (fresh : ∀ f ∈ filterList, f.userData ≠ id) (chunks : List Bytes) :
    LoginFirst env.password (drainSocket env id (newSession filterList) chunks).actions ↔
      AsksFirst env.password (messages (chunks.flatMap yylex)) := by
  have run : (parseTokens env id (newSession filterList) (chunks.flatMap yylex)).settled =
      (messages (chunks.flatMap yylex)).foldl (perform env id) (newSession filterList) :=
    session_messages rfl (chunks.flatMap yylex)
  have actions := congrArg Session.actions run
  rw [drainSocket_tokens, show (parseTokens env id (newSession filterList) (chunks.flatMap yylex)).actions = _
    from actions]
  apply perform_loginFirst auth
  · simp [Session.dead, newSession, newClient]
  · exact fresh
  · intro a mem
    cases mem

/-- A client that logs in before its packet. -/
theorem authorised_login_first :
    LoginFirst plainEnv.password
      (drainSocket plainEnv 0 (newSession []) [ascii "<cmd>log<code>pw</cmd>", ascii "<xap>x</xap>"]).actions := by
  have read : messages ([ascii "<cmd>log<code>pw</cmd>", ascii "<xap>x</xap>"].flatMap yylex) =
      [⟨.login, ascii "pw"⟩, ⟨.xap, ascii "x"⟩] := by decide +kernel
  apply (authorised_iff plainEnv (by decide) 0 [] (by simp) _).2
  rw [read, asksFirst_cons]
  exact ⟨rfl, .inl rfl⟩

/-- A packet and a filter of a client that never logged in. -/
theorem authorised_nothing :
    (drainSocket plainEnv 0 (newSession []) ["<xap>x</xap>", "<cmd><flt+>a</cmd>"]).actions =
        [.broadcast "x", .addFilter "source" "a"] ∧
      ¬ LoginFirst plainEnv.password
        (drainSocket plainEnv 0 (newSession []) ["<xap>x</xap>", "<cmd><flt+>a</cmd>"]).actions := by
  have actions :
      (drainSocket plainEnv 0 (newSession []) ["<xap>x</xap>", "<cmd><flt+>a</cmd>"]).actions =
        [.broadcast "x", .addFilter "source" "a"] := by decide +kernel
  refine ⟨actions, ?_⟩
  rw [actions]
  have idle : Idle plainEnv.password [] := by
    intro a mem
    cases mem
  exact not_loginFirst idle rfl

end Hah.IServer
