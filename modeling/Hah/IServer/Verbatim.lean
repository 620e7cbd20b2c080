import Hah.IServer.Segmentation
import Hah.Xap.Capacity

/-!
# Packets relayed verbatim

The text between `<xap>` and `</xap>` goes through the lexer of the protocol's own tags. It is
read between the two tags as it would be read alone (`packet_tokens`), since no token reaches
across a tag. So a payload is relayed as it is exactly when none of its parts is a token but a
single character, and, for a client's first packet, when its scan stays inside the element
table (`relayed_iff`). Any other token ends the packet: what is broadcast then, if anything,
is shorter than the payload (`messagesFrom_short`), or is a query of the server itself.
-/

namespace Hah.IServer
open C Xap List

/-- No part of the payload is a token but a single character. -/
def Plain (payload : Bytes) : Prop := Lexer.Letters word payload

def Action.packets : Action → List Bytes
  | .broadcast msg => [msg]
  | _ => []

/-- The packets that were handed to `broadcastPacket` for a client. -/
def Session.broadcasts (s : Session) : List Bytes := s.actions.flatMap Action.packets

/-- The payload was broadcast once and as it is, nothing else was, and the client waits again. -/
structure Relayed (s s' : Session) (payload : Bytes) : Prop where
  once : s'.broadcasts = s.broadcasts ++ [payload]
  waits : s'.client.state = .waitForMessage
  inside : s'.overrun = false

/-! ## The words of the lexer -/

/-- The texts of the tokens, in lower case; a message sequence and a character have none. -/
def tags : List Bytes :=
  ["<flt+>", "</flt+>", "<flt->", "</flt->", "<cflt+>", "</cflt+>",
    "<cflt->", "</cflt->", "<cmd>", "</cmd>", "<xap>", "</xap>",
    "log<code>"]

variable {w : Bytes} {t : Token} (id : ClientId) (env : Env)

/-- A word of more than a character is a message sequence or a tag. -/
theorem word_tag (token : word w = some t) (long : 1 < w.length) : isSequence w = true ∨ w.map tolower ∈ tags := by
  have spelled := word_spelled token
  cases t with
  | msgSequence i => exact .inl spelled.1
  | ident c =>
    rw [show w = [c] from spelled] at long
    simp at long
  | startXap | endXap =>
    rw [strcasecmpEq_iff.1 spelled]
    exact .inr (by decide)
  | _ =>
    rw [show w = _ from spelled]
    exact .inr (by decide)

/-- Neither angle bracket stands in a message sequence. -/
theorem isSequence_bytes (sequence : isSequence w = true) {c : UInt8} (mem : c ∈ w) : c ≠ 60 ∧ c ≠ 62 := by
  simp only [isSequence, Bool.and_eq_true, beq_iff_eq, all_eq_true] at sequence
  obtain ⟨⟨shape, -⟩, digits⟩ := sequence
  rw [shape, mem_append, mem_append] at mem
  have opens : ∀ c ∈ ascii "[[", c ≠ 60 ∧ c ≠ 62 := bytes_of_all (by decide)
  have closes : ∀ c ∈ ascii "]]", c ≠ 60 ∧ c ≠ 62 := bytes_of_all (by decide)
  rcases mem with (opening | digit) | closing
  · exact opens c opening
  · have isdigit := digits c digit
    constructor
    · rintro rfl
      exact absurd isdigit (by decide)
    · rintro rfl
      exact absurd isdigit (by decide)
  · exact closes c closing

/-- A bracket of either kind stands in every word of more than a character. -/
theorem word_bracket (token : word w = some t) (long : 1 < w.length) : 60 ∈ w ∨ 91 ∈ w := by
  rcases word_tag token long with sequence | tag
  · simp only [isSequence, Bool.and_eq_true, beq_iff_eq] at sequence
    rw [sequence.1.1]
    exact .inr (mem_append_left _ (mem_append_left _ (by decide)))
  · have opens := (by decide : ∀ tag ∈ tags, 60 ∈ tag) _ tag
    obtain ⟨c, mem, lower⟩ := mem_map.1 opens
    obtain rfl := (tolower_eq_iff (by decide)).1 lower
    exact .inl mem

/-- A word that is cut in two is a message sequence or a tag cut in two. -/
theorem straddle_tag {u v : Bytes} (token : word (u ++ v) = some t) (some_u : u ≠ []) (some_v : v ≠ []) :
    isSequence (u ++ v) = true ∨
      ∃ tag ∈ tags, ∃ i < tag.length, 0 < i ∧ u.map tolower = tag.take i ∧ v.map tolower = tag.drop i := by
  have positive := length_pos_of_ne_nil some_u
  have positive' := length_pos_of_ne_nil some_v
  rcases word_tag token (by rw [length_append]; omega) with sequence | tag
  · exact .inl sequence
  · refine .inr ⟨_, tag, u.length, ?_, positive, ?_, ?_⟩
    · rw [length_map, length_append]
      omega
    · rw [map_append, take_left' (by simp)]
    · rw [map_append, drop_left' (by simp)]

/-- No word goes on behind `<xap>`. -/
theorem opening_apart (s : Bytes) : Lexer.Apart word "<xap>" s := by
  intro u v some_u some_v ends begins
  by_contra known
  obtain ⟨t, token⟩ := Option.ne_none_iff_exists'.1 known
  rcases straddle_tag token some_u some_v with sequence | ⟨tag, mem, i, within, positive, front, -⟩
  · have last : 62 ∈ u := by
      obtain ⟨before, whole⟩ := ends
      have final := congrArg List.getLast? whole
      rw [getLast?_append_of_ne_nil _ some_u] at final
      exact mem_of_getLast? (final.trans (by decide))
    exact (isSequence_bytes sequence (mem_append_left v last)).2 rfl
  · have none_starts : ∀ tag ∈ tags, ∀ i < tag.length, 0 < i → ¬ tag.take i <:+ "<xap>" := by decide
    apply none_starts tag mem i within positive
    rw [← front]
    exact ends.map tolower

/-- No word goes on into `</xap>`. -/
theorem closing_apart (s : Bytes) : Lexer.Apart word s "</xap>" := by
  intro u v some_u some_v ends begins
  by_contra known
  obtain ⟨t, token⟩ := Option.ne_none_iff_exists'.1 known
  rcases straddle_tag token some_u some_v with sequence | ⟨tag, mem, i, within, positive, -, back⟩
  · have first : 60 ∈ v := by
      obtain ⟨rest, whole⟩ := begins
      have initial := congrArg List.head? whole
      rw [head?_append_of_ne_nil _ some_v] at initial
      exact mem_of_head? (initial.trans (by decide))
    exact (isSequence_bytes sequence (mem_append_right u first)).1 rfl
  · have none_ends : ∀ tag ∈ tags, ∀ i < tag.length, 0 < i → ¬ tag.drop i <+: "</xap>" := by decide
    apply none_ends tag mem i within positive
    rw [← back]
    exact begins.map tolower

/-- A payload is read between its tags as it is read alone. -/
theorem packet_tokens (payload : Bytes) :
    yylex ("<xap>" ++ payload ++ "</xap>") = .startXap :: (yylex payload ++ [.endXap]) := by
  have opening : word "<xap>" = some .startXap := by decide
  have closing : word "</xap>" = some .endXap := by decide
  rw [append_assoc, yylex, Lexer.tokens, Lexer.lex_append word_total (opening_apart _),
    Lexer.lex_append word_total (closing_apart payload), Lexer.lex_word word_total (by decide) opening,
    Lexer.lex_word word_total (by decide) closing, map_append, map_append]
  rfl

/-! ## Plain payloads -/

theorem Plain.tokens {payload : Bytes} (plain : Plain payload) : yylex payload = payload.map .ident := by
  rw [yylex, Lexer.tokens, Lexer.lex_eq word_total (Lexer.Letters.lexes word_char plain), map_map]
  rfl

theorem plain_iff_length (payload : Bytes) : Plain payload ↔ payload.length ≤ (yylex payload).length := by
  constructor
  · intro plain
    rw [plain.tokens, length_map]
  · intro many
    rw [yylex, Lexer.tokens, length_map] at many
    exact (Lexer.lex_lexes word_total payload).letters_of_length many

instance (payload : Bytes) : Decidable (Plain payload) := decidable_of_iff' _ (plain_iff_length payload)

/-- A payload that is not plain has a bracket. -/
theorem bracket_of_not_plain {payload : Bytes} (tagged : ¬ Plain payload) : 60 ∈ payload ∨ 91 ∈ payload := by
  simp only [Plain, Lexer.Letters, not_forall] at tagged
  obtain ⟨w, part, long, known⟩ := tagged
  obtain ⟨t, token⟩ := Option.ne_none_iff_exists'.1 known
  exact (word_bracket token long).imp (part.subset ·) (part.subset ·)

/-! ## The messages of a payload -/

/-- Characters inside a message only add to its text. -/
theorem messagesFrom_idents (kind : MessageKind) (bytes before : Bytes) (tokens : List Token) :
    messagesFrom (.body kind before) (bytes.map .ident ++ tokens) =
      messagesFrom (.body kind (before ++ bytes)) tokens := by
  induction bytes generalizing before with
  | nil => simp
  | cons c bytes ih =>
    have open_still : (Reading.body kind before).completes (.ident c) = none := by cases kind <;> rfl
    rw [map_cons, cons_append, messagesFrom, open_still, Option.toList_none, nil_append,
      Reading.step, ih, append_assoc, singleton_append]

theorem idents_place (kind : MessageKind) (bytes before : Bytes) :
    (bytes.map Token.ident).foldl Reading.step (.body kind before) = .body kind (before ++ bytes) := by
  induction bytes generalizing before with
  | nil => simp
  | cons c bytes ih => rw [map_cons, foldl_cons, Reading.step, ih, append_assoc, singleton_append]

/-- The bytes of the message being read. -/
def Reading.held : Reading → Nat
  | .body _ bytes => bytes.length
  | _ => 0

theorem Reading.step_held (r : Reading) (t : Token) : (r.step t).held ≤ r.held + 1 := by
  cases r with
  | outside => cases t <;> exact Nat.zero_le _
  | command =>
    simp only [Reading.step]
    cases commandKind t <;> exact Nat.zero_le _
  | body kind bytes =>
    cases t with
    | ident c => simp [Reading.step, Reading.held]
    | _ => exact Nat.zero_le _

/-- Every byte of a message is a token of its own, and one more token ends it. -/
theorem messagesFrom_short (tokens : List Token) (r : Reading) :
    ∀ m ∈ messagesFrom r tokens, m.text.length + 1 ≤ r.held + tokens.length := by
  induction tokens generalizing r with
  | nil => simp [messagesFrom]
  | cons t tokens ih =>
    intro m mem
    rw [messagesFrom, mem_append, Option.mem_toList] at mem
    rw [length_cons]
    rcases mem with now | later
    · cases r with
      | outside | command => cases now
      | body kind bytes =>
        obtain ⟨-, text⟩ := Option.ite_none_right_eq_some.1 now
        cases text
        have kept : (collected bytes).length ≤ bytes.length := by
          rw [collected, length_take]
          exact Nat.le_trans (Nat.min_le_right _ _) (length_filter_le _ _)
        simp only [Reading.held]
        omega
    · have := ih (r.step t) m later
      have := r.step_held t
      omega

/-! ## What messages broadcast -/

theorem act_broadcasts (s : Session) (a : Action) : (s.act a).broadcasts = s.broadcasts ++ a.packets := by
  simp only [Session.broadcasts, Session.act, flatMap_append, flatMap_singleton]

theorem settled_broadcasts (s : Session) : s.settled.broadcasts = s.broadcasts := rfl

theorem settled_overrun (s : Session) : s.settled.overrun = s.overrun := rfl

theorem settled_connected (s : Session) : s.settled.client.connected = s.client.connected := rfl

theorem addFilterAction_broadcasts (key value : Bytes) (s : Session) :
    (addFilterAction id key value s).broadcasts = s.broadcasts := by
  rw [addFilterAction, act_broadcasts]
  exact append_nil _

/-- The target filter of a first message is no packet. -/
theorem firstClientMessage_broadcasts (s : Session) :
    (firstClientMessage id s).broadcasts = s.broadcasts := by
  rcases firstClientMessage_cases id s with ⟨-, same | ⟨source, added⟩⟩ | ⟨-, -, overrun⟩
  · rw [same]
  · rw [added, addFilterAction_broadcasts]
    rfl
  · rw [overrun]
    rfl

theorem endXap_broadcasts (s : Session) :
    (endXap id s).broadcasts = s.broadcasts ++ [s.client.ident] := by
  rw [endXap, firstClientMessage_broadcasts, broadcastPacket, act_broadcasts]
  rfl

theorem endLogin_broadcasts (s : Session) : (endLogin env s).broadcasts = s.broadcasts := by
  by_cases granted : env.optA = 0 ∨ env.password = s.client.ident
  · rw [endLogin_granted granted]
    exact (act_broadcasts s _).trans (append_nil _)
  · rw [endLogin_denied granted, act_broadcasts]
    exact append_nil _

theorem endDelFilter_broadcasts (filterType : Bytes) (s : Session) :
    (endDelFilter id filterType s).broadcasts = s.broadcasts := by
  have none_sent : ∀ dropped : List FilterCallback,
      (dropped.map fun _ => Action.delFilter filterType s.client.ident).flatMap Action.packets = [] := by
    intro dropped
    simp [Action.packets]
  simp only [endDelFilter, Session.broadcasts, flatMap_append, none_sent, append_nil]

/-- What a message puts on the bus. -/
def ClientMessage.packets (m : ClientMessage) : List Bytes :=
  match m.kind with
  | .xap => [m.text]
  | .addSource => if colon ∈ m.text then [bscQuery env m.text] else []
  | _ => []

theorem mem_packets {m : ClientMessage} {msg : Bytes} (mem : msg ∈ m.packets env) :
    msg = m.text ∨ msg = bscQuery env m.text := by
  unfold ClientMessage.packets at mem
  split at mem
  · exact .inl (mem_singleton.1 mem)
  · split_ifs at mem
    · exact .inr (mem_singleton.1 mem)
    · cases mem
  · cases mem

theorem endAddFilter_packets (id : ClientId) (filterType : Bytes) (s : Session) :
    (endAddFilter env id filterType s).broadcasts = s.broadcasts ++
      if filterType = "source" ∧ colon ∈ s.client.ident then [bscQuery env s.client.ident] else [] := by
  have added : ∀ key, (addFilterAction id key s.client.ident s).client.ident = s.client.ident := fun _ => rfl
  by_cases query : filterType = "source" ∧ colon ∈ s.client.ident <;> unfold endAddFilter <;>
    cases uniqueFilter s id s.client.ident <;>
      simp [added, query, broadcastPacket, act_broadcasts, addFilterAction_broadcasts, Action.packets]

/-- **One message**. -/
theorem finish_packets (id : ClientId) (kind : MessageKind) (s : Session) :
    (kind.finish env id s).broadcasts = s.broadcasts ++ ClientMessage.packets env ⟨kind, s.client.ident⟩ := by
  have other : ascii "class" ≠ "source" := by decide
  cases kind with
  | xap => exact endXap_broadcasts id s
  | login => exact (endLogin_broadcasts env s).trans (append_nil _).symm
  | addSource => exact (endAddFilter_packets env id "source" s).trans (by simp [ClientMessage.packets])
  | addClass => exact (endAddFilter_packets env id "class" s).trans (by simp [ClientMessage.packets, other])
  | delSource | delClass => exact (endDelFilter_broadcasts id _ s).trans (append_nil _).symm

/-- What messages broadcast is the text of one of them, or a query for it. -/
theorem performed_broadcasts (id : ClientId) (ms : List ClientMessage) (s : Session) :
    ∃ more, (ms.foldl (perform env id) s).broadcasts = s.broadcasts ++ more ∧
      ∀ msg ∈ more, ∃ m ∈ ms, msg = m.text ∨ msg = bscQuery env m.text := by
  induction ms generalizing s with
  | nil => exact ⟨[], by simp, by simp⟩
  | cons m ms ih =>
    obtain ⟨more, added, known⟩ := ih (perform env id s m)
    by_cases dead : s.dead
    · rw [perform, if_pos dead] at added
      refine ⟨more, by rw [foldl_cons, perform, if_pos dead, added], fun msg mem => ?_⟩
      obtain ⟨m', mem', text⟩ := known msg mem
      exact ⟨m', mem_cons_of_mem m mem', text⟩
    · refine ⟨m.packets env ++ more, ?_, fun msg mem => ?_⟩
      · rw [foldl_cons, added, perform, if_neg dead, settled_broadcasts, finish_packets, append_assoc]
        rfl
      · rcases mem_append.1 mem with first | later
        · exact ⟨m, mem_cons_self, mem_packets env first⟩
        · obtain ⟨m', mem', text⟩ := known msg later
          exact ⟨m', mem_cons_of_mem m mem', text⟩

/-! ## Packets that are relayed -/

def packet (payload : Bytes) : Bytes := "<xap>" ++ payload ++ "</xap>"

theorem collected_whole {payload : Bytes} (text : 0 ∉ payload) (short : payload.length ≤ 1499) :
    collected payload = payload := by
  have kept : payload.filter (· ≠ 0) = payload := by
    refine filter_eq_self.2 fun c mem => ?_
    exact decide_eq_true fun nul => text (nul ▸ mem)
  rw [collected, kept]
  exact take_of_length_le short

/-- The end of a packet stays inside the element table unless it is the client's first and does
not fit. -/
theorem endXap_inside_iff {s : Session} (short : s.client.ident.length ≤ 1499) :
    (endXap id s).overrun = false ↔
      s.overrun = false ∧ (s.client.firstMessage = true → FitsTable s.client.ident) := by
  have room := Nat.le_succ_of_le short
  rcases firstClientMessage_cases id (broadcastPacket s s.client.ident) with
    ⟨inside, same | ⟨source, added⟩⟩ | ⟨first, outside, overrun⟩
  · rw [endXap, same]
    exact ⟨fun clear => ⟨clear, fun first => .of_stores (inside first) room⟩, And.left⟩
  · rw [endXap, added]
    exact ⟨fun clear => ⟨clear, fun first => .of_stores (inside first) room⟩, And.left⟩
  · rw [endXap, overrun]
    refine ⟨nofun, fun fits => absurd ((fits.2 first).within XapFrame.blank room).stores outside⟩

theorem endXap_connected (s : Session) : (endXap id s).client.connected = s.client.connected := by
  rcases firstClientMessage_cases id (broadcastPacket s s.client.ident) with
    ⟨-, same | ⟨source, added⟩⟩ | ⟨-, -, overrun⟩
  · rw [endXap, same]
    rfl
  · rw [endXap, added]
    rfl
  · rw [endXap, overrun]
    rfl

/-- A server whose `uid` fills the packets it makes itself. -/
def longUidEnv : Env := { plainEnv with uid := List.replicate xapDataLen 120 }

/-- The queries of such a server have no bracket, whatever they ask for. -/
theorem longUidEnv_query {target : Bytes} {c : UInt8} (mem : c ∈ bscQuery longUidEnv target) :
    c ≠ 60 ∧ c ≠ 91 := by
  have named : bscQuery longUidEnv target =
      ("xap-header\n\x7b\nv=12\nhop=1\nuid=" ++ longUidEnv.uid).take (xapDataLen - 1) := by
    have long : xapDataLen - 1 ≤ ("xap-header\n\x7b\nv=12\nhop=1\nuid=" ++ longUidEnv.uid).length := by
      simp only [longUidEnv, length_append, length_replicate]
      omega
    simp only [bscQuery, append_assoc]
    rw [← append_assoc, take_append_of_le_length long]
  rw [named] at mem
  have header : ∀ c ∈ ascii "xap-header\n\x7b\nv=12\nhop=1\nuid=", c ≠ 60 ∧ c ≠ 91 := bytes_of_all (by decide)
  rcases mem_append.1 (mem_of_mem_take mem) with head | name
  · exact header c head
  · rw [eq_of_mem_replicate name]
    decide

section Packet

variable {s : Session} {payload : Bytes}

theorem drainSocket_packet (env : Env) (id : ClientId) (s : Session) (payload : Bytes) :
    drainSocket env id s [packet payload] = parseTokens env id s (.startXap :: (yylex payload ++ [.endXap])) := by
  rw [drainSocket_tokens, flatMap_singleton, packet, packet_tokens]

/-- A plain payload is one message, with the payload as its text. -/
theorem Plain.settles (plain : Plain payload) (text : 0 ∉ payload) (short : payload.length ≤ 1499)
    (live : ¬ s.dead) (waits : s.client.state = .waitForMessage) (env : Env) (id : ClientId) :
    (drainSocket env id s [packet payload]).settled = (endXap id (s.settled.withIdent payload)).settled := by
  have one : messages (.startXap :: (payload.map .ident ++ [.endXap])) = [⟨.xap, collected payload⟩] :=
    messagesFrom_idents .xap payload [] [.endXap]
  rw [collected_whole text short] at one
  rw [drainSocket_packet, session_messages waits, plain.tokens, one, foldl_cons, foldl_nil, perform,
    if_neg ((settled_dead s).not.2 live)]
  rfl

/-- Behind a plain payload a live session waits. -/
theorem Plain.waits_again {env : Env} {id : ClientId} (plain : Plain payload)
    (waits : s.client.state = .waitForMessage) (alive : ¬ (drainSocket env id s [packet payload]).dead) :
    (drainSocket env id s [packet payload]).client.state = .waitForMessage := by
  rw [drainSocket_packet, plain.tokens] at alive ⊢
  have place := parseTokens_place _ (.outside waits) alive
  rw [foldl_cons, foldl_append, show Reading.outside.step .startXap = .body .xap [] from rfl,
    idents_place] at place
  cases place with
  | outside state => exact state

/-- A payload that is not plain is not among the packets of a server with such a `uid`. -/
theorem plain_of_broadcast {id : ClientId} (waits : s.client.state = .waitForMessage)
    (once : (drainSocket longUidEnv id s [packet payload]).broadcasts = s.broadcasts ++ [payload]) : Plain payload := by
  by_contra tagged
  obtain ⟨more, added, known⟩ := performed_broadcasts longUidEnv id
    (messages (.startXap :: (yylex payload ++ [.endXap]))) s.settled
  rw [← session_messages waits, ← drainSocket_packet, settled_broadcasts, settled_broadcasts, once] at added
  have sent : payload ∈ more := append_cancel_left added ▸ mem_singleton_self payload
  obtain ⟨m, mem, own | query⟩ := known payload sent
  · -- no message has more bytes than the payload has tokens, and these are fewer than its bytes
    have few := Nat.lt_of_not_le ((plain_iff_length payload).not.1 tagged)
    have short := messagesFrom_short (yylex payload ++ [Token.endXap]) (.body .xap []) m mem
    simp only [Reading.held, length_nil, length_append, length_singleton, ← own] at short
    omega
  · rcases bracket_of_not_plain tagged with angle | square
    · exact (longUidEnv_query (query ▸ angle)).1 rfl
    · exact (longUidEnv_query (query ▸ square)).2 rfl

end Packet

/-- **Verbatim relay**: every server relays the payload of a waiting client as it is exactly
when the payload is plain and, in the client's first packet, fits the element table. A
closing tag inside the payload is one of the tokens that a plain payload has none of. A single
server would not do: its query for a filter command inside the payload might be the payload. -/
theorem relayed_iff (id : ClientId) {s : Session} (live : ¬ s.dead) (waits : s.client.state = .waitForMessage)
    {payload : Bytes} (text : 0 ∉ payload) (short : payload.length ≤ 1499) :
    (∀ env, Relayed s (drainSocket env id s [packet payload]) payload) ↔
      Plain payload ∧ (s.client.firstMessage = true → FitsTable payload) := by
  constructor
  · intro relayed
    have plain := plain_of_broadcast waits (relayed longUidEnv).once
    have settled := plain.settles text short live waits longUidEnv id
    have inside := (relayed longUidEnv).inside
    rw [← settled_overrun, settled, settled_overrun] at inside
    exact ⟨plain, ((endXap_inside_iff id short).1 inside).2⟩
  · rintro ⟨plain, fits⟩ env
    have settled := plain.settles text short live waits env id
    simp only [Session.dead, not_or, Bool.not_eq_false, Bool.not_eq_true] at live
    have inside : (drainSocket env id s [packet payload]).overrun = false := by
      rw [← settled_overrun, settled, settled_overrun]
      exact (endXap_inside_iff id short).2 ⟨live.2, fits⟩
    have connected : (drainSocket env id s [packet payload]).client.connected = true := by
      rw [← settled_connected, settled, settled_connected, endXap_connected]
      exact live.1
    have once : (drainSocket env id s [packet payload]).broadcasts = s.broadcasts ++ [payload] := by
      rw [← settled_broadcasts, settled, settled_broadcasts, endXap_broadcasts]
      rfl
    exact ⟨once, plain.waits_again waits (by simp [Session.dead, inside, connected]), inside⟩

theorem relayed_hello :
    Relayed (newSession []) (drainSocket plainEnv 0 (newSession []) [packet "hello"]) "hello" :=
  (relayed_iff 0 (newSession_waiting []).live rfl (by decide) (by decide)).2
    ⟨by decide +kernel, fun _ => by decide +kernel⟩ plainEnv

/-- A payload with a bracketed number is dropped. -/
theorem sequence_dropped :
    Waiting (newSession []) ∧ 0 ∉ ascii "text=[[1]]" ∧ (ascii "text=[[1]]").length ≤ 1499 ∧
      (∀ i < (ascii "text=[[1]]").length,
        strcasecmpEq (((ascii "text=[[1]]").drop i).take 6) "</xap>" = false) ∧
      (drainSocket plainEnv 0 (newSession []) [packet "text=[[1]]"]).broadcasts = [] ∧
      ¬ Relayed (newSession []) (drainSocket plainEnv 0 (newSession []) [packet "text=[[1]]"])
        "text=[[1]]" := by
  have silent : (drainSocket plainEnv 0 (newSession []) [packet "text=[[1]]"]).broadcasts = [] := by
    decide +kernel
  refine ⟨newSession_waiting [], by decide, by decide, by decide, silent, fun relayed => ?_⟩
  have once := relayed.once
  rw [silent] at once
  exact absurd once (by decide)

end Hah.IServer
