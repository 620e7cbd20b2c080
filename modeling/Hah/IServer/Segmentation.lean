import Hah.IServer.Messages

/-!
# TCP segmentation

`clientListener` lexes every buffer that `recv` fills by itself. The state of the machine
and the identifier survive from one buffer to the next, a tag that is cut in two does not:
its bytes become identifier characters. A stream is immune to that exactly when it opens no
message at all (`segmentation_iff`), because any opening tag can be cut. Cuts between tokens
do no harm.
-/

namespace Hah.IServer
open C Xap List

def bufSize : Nat := 2048

/-- A stream as `recv` can deliver it. -/
structure Cutting (stream : Bytes) (chunks : List Bytes) : Prop where
  whole : chunks.flatten = stream
  sizes : ∀ chunk ∈ chunks, 1 ≤ chunk.length ∧ chunk.length ≤ bufSize

/-- What a client sees of a session: what was done for it, and where the machine stands. -/
def Session.outcome (s : Session) : List Action × ClientState × Bytes :=
  (s.actions, s.client.state, s.client.ident)

/-- The tags that open a command behind `<cmd>`. -/
def commandTags : List Bytes :=
  ["log<code>", "<flt+>", "<cflt+>", "<flt->", "<cflt->"]

/-- Somewhere in the stream a message is opened, or a command is about to be. -/
inductive OpensMessage : Bytes → Prop
  | packet (before after : Bytes) {tag : Bytes} (spelled : strcasecmpEq tag "<xap>" = true) :
      OpensMessage (before ++ tag ++ after)
  | command (before after : Bytes) {tag : Bytes} (known : tag ∈ commandTags) :
      OpensMessage (before ++ "<cmd>" ++ tag ++ after)
  | ends (before : Bytes) : OpensMessage (before ++ "<cmd>")

/-- Every chunk is made of whole tokens of the stream. -/
def WholeTokens (chunks : List Bytes) : Prop :=
  ∃ groups : List (List (Bytes × Token)),
    groups.flatten = Lexer.lex word chunks.flatten ∧ groups.map Lexer.text = chunks

/-! ## Tokens of chunks -/

variable {w stream : Bytes} {t : Token} {chunks : List Bytes} {s : Session} {env : Env} {id : ClientId}
  {kind : MessageKind}

theorem word_total (c : UInt8) : (word [c]).isSome := by
  rw [word_char]
  rfl

theorem yylex_word (nonempty : w ≠ []) (token : word w = some t) : yylex w = [t] := by
  rw [yylex, Lexer.tokens, Lexer.lex_word word_total nonempty token]
  rfl

def singles (s : Bytes) : List Bytes := s.map fun c => [c]

theorem singles_tokens (s : Bytes) : (singles s).flatMap yylex = s.map .ident := by
  induction s with
  | nil => rfl
  | cons c s ih =>
    rw [singles, map_cons, flatMap_cons, yylex_word (by simp) (word_char c)]
    exact congrArg (Token.ident c :: ·) ih

theorem singles_cutting (s : Bytes) : Cutting s (singles s) := by
  constructor
  · induction s with
    | nil => rfl
    | cons c s ih => exact congrArg (c :: ·) ih
  · intro chunk mem
    obtain ⟨c, -, rfl⟩ := mem_map.1 mem
    exact ⟨Nat.le_refl 1, Nat.le_of_ble_eq_true rfl⟩

theorem Cutting.append {stream' : Bytes} {chunks' : List Bytes} (h : Cutting stream chunks)
    (h' : Cutting stream' chunks') : Cutting (stream ++ stream') (chunks ++ chunks') := by
  constructor
  · rw [flatten_append, h.whole, h'.whole]
  · exact forall_mem_append.2 ⟨h.sizes, h'.sizes⟩

theorem Cutting.single {chunk : Bytes} (nonempty : 1 ≤ chunk.length) (short : chunk.length ≤ bufSize) :
    Cutting chunk [chunk] := by
  constructor
  · simp
  · intro c mem
    rw [mem_singleton.1 mem]
    exact ⟨nonempty, short⟩

/-- Whole tokens are read chunk by chunk as in the stream. -/
theorem WholeTokens.tokens (h : WholeTokens chunks) : chunks.flatMap yylex = yylex chunks.flatten := by
  obtain ⟨groups, whole, pieces⟩ := h
  have read := Lexer.lex_pieces word_total whole
  rw [pieces] at read
  unfold yylex Lexer.tokens
  rw [← read, map_flatMap]

/-! ## Streams that open no message -/

/-- A live session that waits with an empty identifier, as a new one does. -/
structure Waiting (s : Session) : Prop where
  live : ¬ s.dead
  state : s.client.state = .waitForMessage
  ident : s.client.ident = []

section

variable (h : Waiting s)
include h

theorem Waiting.goto_wait : s.goto .waitForMessage = s := by
  unfold Session.goto
  rw [← h.state]

theorem Waiting.clear : s.clearIdent = s := by
  unfold Session.clearIdent
  rw [← h.ident]

/-- Tokens that open nothing leave a waiting session alone. -/
theorem Waiting.idle (notCmd : t ≠ .startCmd) (notXap : t ≠ .startXap) : parseToken env id s t = s := by
  rw [parseToken, if_neg h.live, h.state]
  cases t with
  | startCmd => exact absurd rfl notCmd
  | startXap => exact absurd rfl notXap
  | msgSequence i => rfl
  | _ => exact h.goto_wait

theorem Waiting.startCmd (env : Env) (id : ClientId) : parseToken env id s .startCmd = s.goto .cmd := by
  rw [parseToken, if_neg h.live, h.state]
  exact congrArg (·.goto .cmd) h.clear

theorem Waiting.startXap (env : Env) (id : ClientId) : parseToken env id s .startXap = s.goto .xap := by
  rw [parseToken, if_neg h.live, h.state]
  exact congrArg (·.goto .xap) h.clear

/-- `<cmd>` and a token that opens no command bring a waiting session back. -/
theorem Waiting.false_command
    (noCommand : commandKind t = none) : parseToken env id (parseToken env id s .startCmd) t = s := by
  have back : (s.goto .cmd).goto .waitForMessage = s := h.goto_wait
  rw [h.startCmd, parseToken, if_neg (show ¬ (s.goto .cmd).dead from h.live), goto_state]
  cases t with
  | login | addSourceFilter | addClassFilter | delSourceFilter | delClassFilter => cases noCommand
  | _ => exact back

end

theorem commandKind_spelled (opens : commandKind t = some kind) (spelled : t.Spelled w) : w ∈ commandTags := by
  cases t with
  | login | addSourceFilter | addClassFilter | delSourceFilter | delClassFilter =>
    rw [show w = _ from spelled]
    decide
  | _ => cases opens

/-- The words of a stream that opens no message leave a waiting session alone. The induction is
on a bound of the words, since `<cmd>` is read with the word behind it. -/
theorem quiet_words (h : Waiting s) (n : Nat) :
    ∀ {pairs : List (Bytes × Token)} {before : Bytes}, pairs.length ≤ n →
      (∀ pair ∈ pairs, pair.2.Spelled pair.1) → ¬ OpensMessage (before ++ Lexer.text pairs) →
      parseTokens env id s (pairs.map (·.2)) = s := by
  induction n with
  | zero =>
    intro pairs before short spelled quiet
    obtain rfl : pairs = [] := by simpa using short
    rfl
  | succ n ih =>
    intro pairs before short spelled quiet
    cases pairs with
    | nil => rfl
    | cons pair pairs =>
    obtain ⟨w, t⟩ := pair
    have here := spelled (w, t) (by simp)
    have later : ∀ pair ∈ pairs, pair.2.Spelled pair.1 := fun pair mem => spelled pair (by simp [mem])
    have short' : pairs.length ≤ n := by simpa using short
    have text : before ++ Lexer.text ((w, t) :: pairs) = before ++ w ++ Lexer.text pairs := by
      simp [Lexer.text]
    rw [text] at quiet
    have notXap : t ≠ .startXap := by
      rintro rfl
      exact quiet (.packet before _ here)
    by_cases isCmd : t = .startCmd
    · subst isCmd
      obtain rfl : w = "<cmd>" := here
      cases pairs with
      | nil =>
        apply absurd (OpensMessage.ends before)
        simpa [Lexer.text] using quiet
      | cons pair pairs =>
        obtain ⟨w', t'⟩ := pair
        have noCommand : commandKind t' = none := by
          cases opens : commandKind t' with
          | none => rfl
          | some kind =>
            apply absurd (OpensMessage.command before (Lexer.text pairs)
              (commandKind_spelled opens (later (w', t') (by simp))))
            simpa [Lexer.text] using quiet
        have rest := ih (Nat.le_of_succ_le short')
          (fun pair mem => later pair (by simp [mem]))
          (show ¬ OpensMessage ((before ++ "<cmd>" ++ w') ++ _) by simpa [Lexer.text] using quiet)
        simp only [parseTokens, map_cons, foldl_cons, h.false_command noCommand]
        exact rest
    · have rest := ih short' later quiet
      simp only [parseTokens, map_cons, foldl_cons, h.idle isCmd notXap]
      exact rest

theorem chunks_words (chunks : List Bytes) :
    Lexer.text (chunks.flatMap (Lexer.lex word)) = chunks.flatten ∧
      ∀ pair ∈ chunks.flatMap (Lexer.lex word), pair.2.Spelled pair.1 := by
  constructor
  · induction chunks with
    | nil => rfl
    | cons chunk chunks ih =>
      have here := (Lexer.lex_lexes word_total chunk).text_eq
      rw [Lexer.text] at ih here
      rw [Lexer.text, flatMap_cons, flatMap_append, ih, here, flatten_cons]
  · intro pair mem
    obtain ⟨chunk, -, mem⟩ := mem_flatMap.1 mem
    exact word_spelled ((Lexer.lex_lexes word_total chunk).words pair mem)

/-- However it is cut, a stream that opens no message does nothing. -/
theorem quiet_drain (h : Waiting s) (quiet : ¬ OpensMessage stream) (cut : Cutting stream chunks) :
    drainSocket env id s chunks = s := by
  obtain ⟨text, spelled⟩ := chunks_words chunks
  have tokens : chunks.flatMap yylex = (chunks.flatMap (Lexer.lex word)).map (·.2) := by
    rw [map_flatMap]
    rfl
  rw [drainSocket_tokens, tokens]
  apply quiet_words h _ (Nat.le_refl _) spelled
  · rwa [text, cut.whole, nil_append]

/-! ## Streams that open a message -/

/-- Bytes read one by one inside a message stay inside it. -/
theorem idents_inside (bytes : Bytes) (live : ¬ s.dead) (state : s.client.state = kind.state) :
    (parseTokens env id s (bytes.map .ident)).client.state = kind.state := by
  induction bytes generalizing s with
  | nil => exact state
  | cons c bytes ih =>
    rw [map_cons, parseTokens, foldl_cons, parseToken_body live state]
    exact ih live state

/-- Cut into bytes, no text leads out of a message that has just been entered. -/
theorem Waiting.inside (h : Waiting s) (kind : MessageKind) (bytes : Bytes) :
    (drainSocket env id (s.goto kind.state) (singles bytes)).client.state ≠ .waitForMessage := by
  have entered : ¬ (s.goto kind.state).dead := h.live
  rw [drainSocket_tokens, singles_tokens, idents_inside bytes entered (goto_state s kind.state)]
  cases kind <;> decide

theorem drainSocket_append (env : Env) (id : ClientId) (s : Session) (chunks chunks' : List Bytes) :
    drainSocket env id s (chunks ++ chunks') = drainSocket env id (drainSocket env id s chunks) chunks' :=
  foldl_append

/-- A chunk that is one word is one turn of the machine. -/
theorem drainSocket_word (env : Env) (id : ClientId) (s : Session)
    (nonempty : w ≠ []) (token : word w = some t) : drainSocket env id s [w] = parseToken env id s t := by
  rw [drainSocket_tokens, flatMap_singleton, yylex_word nonempty token]
  rfl

/-- Cut into bytes, any text passes a waiting session by. -/
theorem Waiting.singles (h : Waiting s) (bytes : Bytes) : drainSocket env id s (singles bytes) = s := by
  rw [drainSocket_tokens, singles_tokens]
  induction bytes with
  | nil => rfl
  | cons c bytes ih =>
    rw [map_cons, parseTokens, foldl_cons, h.idle (by simp) (by simp)]
    exact ih

theorem commandTag_token {tag : Bytes} (known : tag ∈ commandTags) :
    ∃ t kind, word tag = some t ∧ commandKind t = some kind ∧ 1 ≤ tag.length ∧ tag.length ≤ bufSize := by
  simp only [commandTags, mem_cons, not_mem_nil, or_false] at known
  rcases known with rfl | rfl | rfl | rfl | rfl
  · exact ⟨.login, .login, by decide⟩
  · exact ⟨.addSourceFilter, .addSource, by decide⟩
  · exact ⟨.addClassFilter, .addClass, by decide⟩
  · exact ⟨.delSourceFilter, .delSource, by decide⟩
  · exact ⟨.delClassFilter, .delClass, by decide⟩

/-- A command tag behind `<cmd>` enters the text of the command. -/
theorem Waiting.command (h : Waiting s) (opens : commandKind t = some kind) :
    parseToken env id (s.goto .cmd) t = s.goto kind.state := by
  rw [parseToken, if_neg (show ¬ (s.goto .cmd).dead from h.live), goto_state]
  cases t with
  | login | addSourceFilter | addClassFilter | delSourceFilter | delClassFilter => cases opens; rfl
  | _ => cases opens

/-- A waiting session reaches `<cmd>` behind any text that is cut into bytes. -/
theorem Waiting.drain_cmd (h : Waiting s) (env : Env) (id : ClientId) (before : Bytes) :
    drainSocket env id s (IServer.singles before ++ [ascii "<cmd>"]) = s.goto .cmd := by
  have token : word "<cmd>" = some .startCmd := by decide
  rw [drainSocket_append, h.singles, drainSocket_word env id s (by decide) token, h.startCmd]

/-- A stream that opens a message can be cut so that the machine is left inside it: the opening
tags whole, everything else byte by byte. -/
theorem opened_drain (env : Env) (id : ClientId) (h : Waiting s) (opens : OpensMessage stream) :
    ∃ chunks, Cutting stream chunks ∧ (drainSocket env id s chunks).client.state ≠ .waitForMessage := by
  cases opens with
  | @packet before after tag spelled =>
    have size : tag.length = (ascii "<xap>").length := by
      simpa using congrArg List.length (strcasecmpEq_iff.1 spelled)
    have five : (ascii "<xap>").length = 5 := by decide
    have nonempty : tag ≠ [] := ne_nil_of_length_pos (by omega)
    have cutTag : Cutting tag [tag] := .single (by omega) (by unfold bufSize; omega)
    refine ⟨singles before ++ [tag] ++ singles after,
      ((singles_cutting before).append cutTag).append (singles_cutting after), ?_⟩
    rw [drainSocket_append, drainSocket_append, h.singles,
      drainSocket_word env id s nonempty (word_startXap spelled), h.startXap]
    exact h.inside .xap after
  | @command before after tag known =>
    obtain ⟨t, kind, token, opens, nonempty, short⟩ := commandTag_token known
    have cutCmd : Cutting "<cmd>" ["<cmd>"] := .single (by decide) (by decide)
    refine ⟨singles before ++ [ascii "<cmd>"] ++ [tag] ++ singles after,
      (((singles_cutting before).append cutCmd).append (.single nonempty short)).append
        (singles_cutting after), ?_⟩
    rw [drainSocket_append, drainSocket_append, h.drain_cmd,
      drainSocket_word env id _ (ne_nil_of_length_pos nonempty) token, h.command opens]
    exact h.inside kind after
  | ends before =>
    have cutCmd : Cutting "<cmd>" ["<cmd>"] := .single (by decide) (by decide)
    refine ⟨singles before ++ [ascii "<cmd>"], (singles_cutting before).append cutCmd, ?_⟩
    rw [h.drain_cmd, goto_state]
    decide

/-! ## Cuttings of a client's stream -/

theorem newSession_waiting (filterList : List FilterCallback) : Waiting (newSession filterList) := by
  constructor
  · simp [Session.dead, newSession, newClient]
  · rfl
  · rfl

/-- **Segmentation**: all cuttings of a client's stream have one outcome exactly when the stream
opens no message; and cuttings into whole tokens always leave the same session. -/
theorem segmentation_iff (env : Env) (id : ClientId) (filterList : List FilterCallback) (stream : Bytes) :
    ((∀ chunks chunks', Cutting stream chunks → Cutting stream chunks' →
        (drainSocket env id (newSession filterList) chunks).outcome =
          (drainSocket env id (newSession filterList) chunks').outcome) ↔ ¬ OpensMessage stream) ∧
      ∀ chunks chunks', Cutting stream chunks → Cutting stream chunks' → WholeTokens chunks → WholeTokens chunks' →
        drainSocket env id (newSession filterList) chunks = drainSocket env id (newSession filterList) chunks' := by
  have waiting := newSession_waiting filterList
  constructor
  · constructor
    · intro agree opens
      obtain ⟨chunks, cut, inside⟩ := opened_drain env id waiting opens
      have alone : drainSocket env id (newSession filterList) (singles stream) = newSession filterList :=
        waiting.singles stream
      have same := agree chunks (singles stream) cut (singles_cutting stream)
      rw [alone] at same
      exact inside (congrArg (·.2.1) same)
    · intro quiet chunks chunks' cut cut'
      rw [quiet_drain waiting quiet cut, quiet_drain waiting quiet cut']
  · intro chunks chunks' cut cut' tokens tokens'
    rw [drainSocket_tokens, drainSocket_tokens, tokens.tokens, tokens'.tokens, cut.whole, cut'.whole]

/-- `<xap>x</xap>` whole and cut behind its first tag. -/
theorem segmentation_whole_tokens :
    drainSocket plainEnv 0 (newSession []) ["<xap>x</xap>"] =
      drainSocket plainEnv 0 (newSession []) ["<xap>", "x</xap>"] := by
  apply (segmentation_iff plainEnv 0 [] "<xap>x</xap>").2
  · exact ⟨by decide, by decide⟩
  · exact ⟨by decide, by decide⟩
  · exact ⟨[[("<xap>", .startXap), ("x", .ident 120), ("</xap>", .endXap)]],
      by decide +kernel, by decide⟩
  · exact ⟨[[("<xap>", .startXap)], [("x", .ident 120), ("</xap>", .endXap)]], by decide +kernel,
      by decide⟩

/-- Cut inside its first tag, the packet is lost. -/
theorem segmentation_split_tag :
    Cutting "<xap>x</xap>" ["<xap>x</xap>"] ∧
      Cutting "<xap>x</xap>" ["<xa", "p>x</xap>"] ∧
      (drainSocket plainEnv 0 (newSession []) ["<xap>x</xap>"]).actions = [.broadcast "x"] ∧
      (drainSocket plainEnv 0 (newSession []) ["<xa", "p>x</xap>"]).actions = [] := by
  refine ⟨⟨by decide, by decide⟩, ⟨by decide, by decide⟩, by decide +kernel, by decide +kernel⟩

end Hah.IServer
