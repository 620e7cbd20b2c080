import Hah.C.Append
import Hah.Livebox.Control

/-!
# The connection of the web server: `svr_process` and `msg_handler` in `server.c`

`svr_process` receives into a buffer on its stack, takes what stands there for a request and sends
the reply, until `recv` returns 0. An error of `recv` is -1 and not 0, so the loop goes on with what
the last request has left in the buffer. `recv` stores no terminator either: a chunk without one is
read together with what stood behind it.

`msg_handler` cuts the request up in place and returns a string, except where it falls off its end,
runs through `NULL` or prints behind a buffer. `answered_iff` says for every request whether it has a
reply, and `svr_process_iff` when a connection is handled as it should be.
-/

namespace Hah.Livebox.WebServer
open C Bsc Xap List Option

/-! ## Requests -/

/-- `struct unassignedROMID`. -/
structure UnassignedROMID where
  romid : Bytes
  temperature : Bytes
  deriving DecidableEq, Repr

structure Web where
  box : Connector
  unassigned : List UnassignedROMID

inductive Command where
  | query
  | version
  | oneWireReset
  | oneWireRoms
  | action
  | avr
  | lcd
  | invalid
  deriving DecidableEq, Repr

def Command.of (cmd : Bytes) : Command :=
  if cmd = "query" then .query
  else if cmd = "version" then .version
  else if cmd = "1wirereset" then .oneWireReset
  else if cmd = "1wireroms" then .oneWireRoms
  else if cmd = "action" then .action
  else if cmd = "AVR" then .avr
  else if cmd = "lcd" then .lcd
  else .invalid

/-- `msg_query`. Without a name the list of endpoints is compared with `NULL`. -/
def msgQuery (list : List (Endpoint Handle)) (args : Option Bytes) : Option Bytes :=
  match args.bind (strtok isDot) with
  | none => if list = [] then some "bad endpoint" else none
  | some (name, rest) =>
    match bscFindEndpoint list name (strtokRest rest) with
    | none => some "bad endpoint"
    | some endpoint => if endpoint.type = .binary then some endpoint.state.text else endpoint.text

/-- What `msg_action` returns, for at most `n` words. -/
def actionReply : Nat → Bytes → Bytes
  | 0, _ => "ok"
  | n + 1, args =>
    match strtok isSpace args with
    | none => "ok"
    | some (word, rest) => if actionTuple word = none then "malformed argument" else actionReply n rest

def romHeader : Bytes := "Unassigned 1wire ROM ID's<table><tr><th>ROM ID</th><th>Temp</th></tr>"

def UnassignedROMID.row (u : UnassignedROMID) : Bytes :=
  "<tr><td>" ++ u.romid ++ "</td><td>" ++ u.temperature ++ "</td></tr>"

/-- The loop of `buildListOfUnassignedROMS`; a row that starts behind the buffer has no outcome. -/
def printRows (p : Printing) : List UnassignedROMID → Option Printing
  | [] => some p
  | u :: list => (p.inside 1024).bind fun p => printRows (p.append 1024 u.row) list

/-- `buildListOfUnassignedROMS`. The header fits, so that copying it is printing it. -/
def buildListOfUnassignedROMS (list : List UnassignedROMID) : Option Bytes :=
  if list = [] then some "All 1wire ROM ID's assigned"
  else
    (printRows (Printing.append ⟨fun _ => 0, 0⟩ 1024 romHeader) list).map fun p =>
      strlcat (strAt p.mem 1024 0) "</table>" 1024

/-- The branches of `msg_handler`: the reply and what the command leaves. -/
def answer (m : Allocator) (w : Around) (web : Web) (args : Option Bytes) : Command → Option (Bytes × Web)
  | .query => (msgQuery web.box.daemon.endpointList args).map fun reply => (reply, web)
  -- `rev` has 4 bytes
  | .version => if web.box.version.length < 4 then some (web.box.version, web) else none
  | .oneWireReset =>
    let daemon := resetOneWireEndpoints m web.box.daemon ⟨w.ini, web.box.major⟩
    if daemon.died then none
    else
      let unassigned := if 1 < web.box.major then [] else web.unassigned
      some ("ok", ⟨{ web.box with daemon := daemon, sensors := w.ini }, unassigned⟩)
  | .oneWireRoms => (buildListOfUnassignedROMS web.unassigned).map fun reply => (reply, web)
  -- `strtok_r` without a text goes on from a pointer that was never set
  | .action => args.map fun args => (actionReply args.length args, { web with box := msgAction w web.box args })
  -- nothing is returned
  | .avr => none
  | .lcd =>
    if (bscFindEndpoint web.box.daemon.endpointList "lcd" none).isNone then some ("ok", web)
    -- `strdup` of the arguments
    else args.map fun args => ("ok", { web with box := { web.box with daemon := { web.box.daemon with
      endpointList := modifyFirst (fun e => e.isNamed "lcd" none)
        (fun e => bscSendCmdEvent web.box.universalRf w (bscSetText e args)) web.box.daemon.endpointList } } })
  | .invalid => some ("fail", web)

/-- `msg_handler`; without a word `NULL` is compared. -/
def msgReply (m : Allocator) (w : Around) (web : Web) (request : Bytes) : Option (Bytes × Web) := do
  let (cmd, rest) ← strtok isSpace request
  answer m w web (strtokRest rest) (Command.of cmd)

/-! ## The buffer -/

/-- What `strtok` leaves of a text: the byte that ends the token is 0. `token` and `rest` say what
later calls leave of the two parts. -/
def cut (delimiter : UInt8 → Bool) (token rest : Bytes → Bytes) (s : Bytes) : Bytes :=
  let behind := s.dropWhile delimiter
  s.takeWhile delimiter ++ token (behind.takeWhile (!delimiter ·)) ++
    match behind.dropWhile (!delimiter ·) with
    | [] => []
    | _ :: behind => 0 :: rest behind

/-- A word of an `action` request afterwards. -/
def cutTuple : Bytes → Bytes := cut isDot id (cut isComma id (cut isSpace id id))

/-- The arguments of an `action` request afterwards, for at most `n` words. -/
def cutAction : Nat → Bytes → Bytes
  | 0, args => args
  | n + 1, args =>
    match strtok isSpace args with
    | none => args
    | some (word, _) => cut isSpace cutTuple (if actionTuple word = none then id else cutAction n) args

/-- A request as `msg_handler` leaves it. -/
def cutRequest (request : Bytes) : Bytes :=
  match strtok isSpace request with
  | none => request
  | some (cmd, _) =>
    cut isSpace id (fun rest =>
      match Command.of cmd with
      | .query => cut isDot id id rest
      | .action => cutAction rest.length rest
      | _ => rest) request

/-- The string in a buffer, `none` if no byte of it is 0. -/
def cString (buff : Bytes) : Option Bytes :=
  if 0 ∈ buff then some (buff.takeWhile fun c => c != 0) else none

/-! ## The connection -/

/-- What `recv` returns, other than 0 and -1. -/
structure Chunk where
  bytes : Bytes
  nonempty : bytes ≠ []
  fits : bytes.length ≤ 512

def Chunk.into (c : Chunk) (buff : Bytes) : Bytes := c.bytes ++ buff.drop c.bytes.length

def Chunk.text (c : Chunk) : Bytes := c.bytes.takeWhile fun c => c != 0

/-- How a connection ends: `recv` returns 0, or -1 again and again. -/
inductive Ending where
  | eof
  | error
  deriving DecidableEq, Repr

/-- A request that was executed, and what it leaves. -/
structure Executed where
  request : Bytes
  reply : Bytes
  web : Web
  buff : Bytes

def serve (m : Allocator) (w : Around) (web : Web) (buff : Bytes) : Option Executed := do
  let request ← cString buff
  let (reply, web) ← msgReply m w web request
  return ⟨request, reply, web, cutRequest request ++ buff.drop request.length⟩

/-- How far the loop gets, with the requests that it executed and their replies. -/
inductive Outcome where
  | ended (served : List (Bytes × Bytes))
  | running (served : List (Bytes × Bytes))
  | undefined
  deriving DecidableEq, Repr

def Outcome.after (request reply : Bytes) : Outcome → Outcome
  | .ended served => .ended ((request, reply) :: served)
  | .running served => .running ((request, reply) :: served)
  | .undefined => .undefined

/-- A turn of the loop, followed by `next`. -/
def turn (m : Allocator) (w : Around) (web : Web) (buff : Bytes) (next : Web → Bytes → Outcome) : Outcome :=
  match serve m w web buff with
  | none => .undefined
  | some s => (next s.web s.buff).after s.request s.reply

/-- `svr_process`, in at most `fuel` calls of `recv`; `w` is what each request finds. -/
def svrProcess (m : Allocator) (w : Nat → Around) (ending : Ending) : Nat → List Chunk → Nat → Bytes → Web → Outcome
  | 0, _, _, _, _ => .running []
  | fuel + 1, [], k, buff, web =>
    match ending with
    | .eof => .ended []
    | .error => turn m (w k) web buff fun web buff => svrProcess m w ending fuel [] (k + 1) buff web
  | fuel + 1, c :: chunks, k, buff, web =>
    turn m (w k) web (c.into buff) fun web buff => svrProcess m w ending fuel chunks (k + 1) buff web

/-- The connection is handled: the loop ends, and the requests that were executed are those of the
chunks, each one once. -/
def Handled (m : Allocator) (w : Nat → Around) (ending : Ending) (chunks : List Chunk) (k : Nat) (buff : Bytes)
    (web : Web) : Prop :=
  ∃ fuel served, svrProcess m w ending fuel chunks k buff web = .ended served ∧
    served.map Prod.fst = chunks.map Chunk.text

/-! ## When it is -/

/-- A query has a reply: without a name if there is no endpoint, with one if what it finds has a text
or needs none. -/
def QueryAnswered (list : List (Endpoint Handle)) (args : Option Bytes) : Prop :=
  (args.bind (strtok isDot) = none → list = []) ∧
    ∀ name rest, args.bind (strtok isDot) = some (name, rest) →
      ∀ e, bscFindEndpoint list name (strtokRest rest) = some e → e.type ≠ .binary → e.text.isSome

/-- The rows before the last one end inside the buffer or at its end. -/
def RowsFit (list : List UnassignedROMID) : Prop :=
  list ≠ [] → (romHeader ++ (list.map UnassignedROMID.row).dropLast.flatten).length ≤ 1024

def Answerable (m : Allocator) (w : Around) (web : Web) (args : Option Bytes) : Command → Prop
  | .query => QueryAnswered web.box.daemon.endpointList args
  | .version => web.box.version.length < 4
  | .oneWireReset => (resetOneWireEndpoints m web.box.daemon ⟨w.ini, web.box.major⟩).died = false
  | .oneWireRoms => RowsFit web.unassigned
  | .action => args ≠ none
  | .avr => False
  | .lcd => bscFindEndpoint web.box.daemon.endpointList "lcd" none ≠ none → args ≠ none
  | .invalid => True

/-- The request has a word, and that command has a reply. -/
def Answered (m : Allocator) (w : Around) (web : Web) (request : Bytes) : Prop :=
  ∃ cmd rest, strtok isSpace request = some (cmd, rest) ∧ Answerable m w web (strtokRest rest) (Command.of cmd)

/-- A zero stands in the chunk, or in the buffer right behind it. -/
def Terminated (c : Chunk) (buff : Bytes) : Prop := 0 ∈ c.bytes ∨ buff[c.bytes.length]? = some 0

/-- The chunks are terminated, and their requests have replies when their turn comes. -/
def AllAnswered (m : Allocator) (w : Nat → Around) : List Chunk → Nat → Bytes → Web → Prop
  | [], _, _, _ => True
  | c :: chunks, k, buff, web =>
    Terminated c buff ∧ Answered m (w k) web c.text ∧
      ∀ s, serve m (w k) web (c.into buff) = some s → AllAnswered m w chunks (k + 1) s.buff s.web

/-! ## Replies -/

section Replies

variable {m : Allocator} {w : Around} {web : Web} {request : Bytes}

theorem msgQuery_iff (list : List (Endpoint Handle)) (args : Option Bytes) :
    (msgQuery list args).isSome ↔ QueryAnswered list args := by
  unfold msgQuery QueryAnswered
  cases named : args.bind (strtok isDot) with
  | none =>
    by_cases empty : list = []
    · simp [empty]
    · simp [empty]
  | some found =>
    obtain ⟨name, rest⟩ := found
    dsimp only
    cases endpoint : bscFindEndpoint list name (strtokRest rest) with
    | none =>
      refine iff_of_true rfl ⟨fun h => absurd h (some_ne_none _), fun name' rest' same e found => ?_⟩
      cases same
      cases endpoint.symm.trans found
    | some e =>
      dsimp only
      constructor
      · refine fun shown => ⟨fun h => absurd h (some_ne_none _), fun name' rest' same e' found text => ?_⟩
        cases same
        obtain rfl := some.inj (endpoint.symm.trans found)
        rwa [if_neg text] at shown
      · rintro ⟨-, texts⟩
        split
        next => rfl
        next text => exact texts name rest rfl e endpoint text

theorem printRows_iff (list : List UnassignedROMID) (p : Printing) :
    (printRows p list).isSome ↔ (list ≠ [] → p.len + (list.map UnassignedROMID.row).dropLast.flatten.length ≤ 1024) := by
  induction list generalizing p with
  | nil => simp [printRows]
  | cons u list ih =>
    have next : (p.append 1024 u.row).len = p.len + u.row.length := rfl
    by_cases inside : p.len ≤ 1024
    · rw [printRows, Printing.inside, if_pos inside, bind_some, ih, next]
      cases list with
      | nil => simp [inside]
      | cons u' list =>
        simp only [map_cons, dropLast_cons_cons, flatten_cons, length_append, ne_eq,
          reduceCtorEq, not_false_eq_true, true_implies]
        omega
    · rw [printRows, Printing.inside, if_neg inside, bind_none]
      simp only [isSome_none, Bool.false_eq_true, false_iff, ne_eq, reduceCtorEq, not_false_eq_true, true_implies]
      omega

theorem buildList_iff (list : List UnassignedROMID) : (buildListOfUnassignedROMS list).isSome ↔ RowsFit list := by
  unfold buildListOfUnassignedROMS RowsFit
  by_cases empty : list = []
  · simp [empty]
  · have start : (Printing.append ⟨fun _ => 0, 0⟩ 1024 romHeader).len = romHeader.length := Nat.zero_add _
    rw [if_neg empty, isSome_map, printRows_iff, start, length_append]

/-- **A command** has a reply exactly if it can be answered. -/
theorem answer_iff (args : Option Bytes) (command : Command) :
    (answer m w web args command).isSome ↔ Answerable m w web args command := by
  cases command with
  | query =>
    rw [answer, isSome_map]
    exact msgQuery_iff _ _
  | version =>
    unfold answer Answerable
    by_cases short : web.box.version.length < 4 <;> simp [short]
  | oneWireReset =>
    unfold answer Answerable
    cases died : (resetOneWireEndpoints m web.box.daemon ⟨w.ini, web.box.major⟩).died <;> simp [died]
  | oneWireRoms =>
    rw [answer, isSome_map]
    exact buildList_iff _
  | action => simp [answer, Answerable, isSome_iff_ne_none]
  | avr => simp [answer, Answerable]
  | lcd =>
    unfold answer Answerable
    cases found : bscFindEndpoint web.box.daemon.endpointList "lcd" none with
    | none => simp
    | some e => simp [isSome_iff_ne_none]
  | invalid => simp [answer, Answerable]

theorem msgReply_word {cmd rest : Bytes} (word : strtok isSpace request = some (cmd, rest)) :
    msgReply m w web request = answer m w web (strtokRest rest) (Command.of cmd) := by
  rw [msgReply, word]
  rfl

/-- **A request** has a reply exactly if it has a command that can be answered. -/
theorem answered_iff (m : Allocator) (w : Around) (web : Web) (request : Bytes) :
    (msgReply m w web request).isSome ↔ Answered m w web request := by
  unfold Answered
  cases word : strtok isSpace request with
  | none => simp [msgReply, word]
  | some found =>
    obtain ⟨cmd, rest⟩ := found
    rw [msgReply_word word, answer_iff]
    constructor
    · exact fun answerable => ⟨cmd, rest, rfl, answerable⟩
    · rintro ⟨cmd', rest', same, answerable⟩
      cases same
      exact answerable

end Replies

/-! ## The loop -/

section Loop

variable {m : Allocator} {w : Nat → Around} {buff : Bytes} {web : Web}
  {s : Bytes} {around : Around} {served : List (Bytes × Bytes)}

theorem bytes_nonzero (clean : 0 ∉ s) : ∀ c ∈ s, (c != 0) = true :=
  fun _ mem => bne_iff_ne.2 fun zero => clean (zero ▸ mem)

theorem cString_append (clean : 0 ∉ s) (rest : Bytes) :
    cString (s ++ rest) = (cString rest).map (s ++ ·) := by
  unfold cString
  rw [takeWhile_append_of_pos (bytes_nonzero clean)]
  by_cases later : 0 ∈ rest
  · rw [if_pos (mem_append_right s later), if_pos later, map_some]
  · rw [if_neg fun mem => (mem_append.1 mem).elim clean later, if_neg later, map_none]

theorem cString_empty_iff (s : Bytes) : cString s = some [] ↔ s.head? = some 0 := by
  unfold cString
  cases s with
  | nil => simp
  | cons c s =>
    by_cases zero : c = 0
    · simp [zero]
    · simp [zero]

/-- **The buffer** shows the request of a chunk exactly if that is terminated. -/
theorem cString_into (c : Chunk) (buff : Bytes) : cString (c.into buff) = some c.text ↔ Terminated c buff := by
  unfold Terminated Chunk.into Chunk.text
  by_cases inside : 0 ∈ c.bytes
  · refine iff_of_true ?_ (.inl inside)
    obtain ⟨first, rest, split, clean⟩ := eq_append_cons_of_mem inside
    rw [split, takeWhile_append_of_pos (bytes_nonzero clean), append_assoc, cString_append clean,
      cons_append, (cString_empty_iff _).2 rfl]
    rfl
  · have whole := takeWhile_eq_self_iff.2 (bytes_nonzero inside)
    have behind : (buff.drop c.bytes.length).head? = buff[c.bytes.length]? := head?_drop
    rw [whole, cString_append inside, or_iff_right inside, ← behind, ← cString_empty_iff, map_eq_some_iff]
    constructor
    · rintro ⟨rest, shown, same⟩
      rw [shown, append_cancel_left (same.trans (append_nil _).symm)]
    · exact fun shown => ⟨[], shown, append_nil _⟩

/-- What the body of the loop executes. -/
theorem serve_spec {s : Executed} (served : serve m around web buff = some s) :
    cString buff = some s.request ∧ (msgReply m around web s.request).isSome := by
  obtain ⟨request, read, replied⟩ := bind_eq_some_iff.1 served
  obtain ⟨⟨reply, web'⟩, answered, made⟩ := bind_eq_some_iff.1 replied
  cases made
  exact ⟨read, by rw [answered]; rfl⟩

theorem serve_of_answered {request : Bytes} (read : cString buff = some request)
    (answered : Answered m around web request) : ∃ s, serve m around web buff = some s ∧ s.request = request := by
  obtain ⟨⟨reply, web'⟩, replied⟩ := isSome_iff_exists.1 ((answered_iff m around web request).2 answered)
  refine ⟨⟨request, reply, web', cutRequest request ++ buff.drop request.length⟩, ?_, rfl⟩
  rw [serve, read, bind_eq_bind, bind_some, replied]
  rfl

theorem after_ended {o : Outcome} {request reply : Bytes}
    (ended : o.after request reply = .ended served) : ∃ rest, o = .ended rest ∧ served = (request, reply) :: rest := by
  cases o with
  | ended rest => exact ⟨rest, rfl, (Outcome.ended.inj ended).symm⟩
  | running => cases ended
  | undefined => cases ended

/-- A turn that leads to the end executes its request, and what follows leads there. -/
theorem turn_ended {next : Web → Bytes → Outcome} (ended : turn m around web buff next = .ended served) :
    ∃ s rest, serve m around web buff = some s ∧ next s.web s.buff = .ended rest ∧
      served = (s.request, s.reply) :: rest := by
  unfold turn at ended
  split at ended
  next => cases ended
  next s executed =>
    obtain ⟨rest, next_ended, same⟩ := after_ended ended
    exact ⟨s, rest, executed, next_ended, same⟩

/-- **A persistent error** is never noticed. -/
theorem error_never_ends (fuel : Nat) (chunks : List Chunk) (k : Nat) (buff : Bytes) (web : Web)
    (served : List (Bytes × Bytes)) : svrProcess m w .error fuel chunks k buff web ≠ .ended served := by
  induction fuel generalizing chunks k buff web served with
  | zero =>
    intro ended
    cases ended
  | succ fuel ih =>
    intro ended
    cases chunks with
    | nil =>
      rw [svrProcess] at ended
      obtain ⟨s, rest, -, next_ended, -⟩ := turn_ended ended
      exact ih [] (k + 1) s.buff s.web rest next_ended
    | cons c chunks =>
      obtain ⟨s, rest, -, next_ended, -⟩ := turn_ended ended
      exact ih chunks (k + 1) s.buff s.web rest next_ended

/-- **Up to the end of file** the connection is handled exactly if all its requests are answered. -/
theorem handled_eof_iff (chunks : List Chunk) (k : Nat) (buff : Bytes) (web : Web) :
    Handled m w .eof chunks k buff web ↔ AllAnswered m w chunks k buff web := by
  induction chunks generalizing k buff web with
  | nil => exact iff_of_true ⟨1, [], rfl, rfl⟩ trivial
  | cons c chunks ih =>
    constructor
    · rintro ⟨fuel, served, ended, requests⟩
      cases fuel with
      | zero => cases ended
      | succ fuel =>
        obtain ⟨s, rest, executed, next_ended, rfl⟩ := turn_ended ended
        obtain ⟨same, others⟩ := List.cons.inj requests
        dsimp only at same
        obtain ⟨read, answered⟩ := serve_spec executed
        rw [same] at read answered
        refine ⟨(cString_into c buff).1 read, (answered_iff m (w k) web c.text).1 answered, fun s' executed' => ?_⟩
        obtain rfl := some.inj (executed.symm.trans executed')
        exact (ih (k + 1) s.buff s.web).1 ⟨fuel, rest, next_ended, others⟩
    · rintro ⟨terminated, answered, later⟩
      obtain ⟨s, executed, same⟩ := serve_of_answered ((cString_into c buff).2 terminated) answered
      obtain ⟨fuel, served, ended, requests⟩ := (ih (k + 1) s.buff s.web).2 (later s executed)
      refine ⟨fuel + 1, (s.request, s.reply) :: served, ?_, ?_⟩
      · rw [svrProcess, turn, executed]
        dsimp only
        rw [ended, Outcome.after]
      · rw [map_cons, map_cons, requests, same]

/-- **A connection** is handled, its requests executed once each and answered, exactly if it ends with
the end of file, every chunk is terminated and every request has a reply when its turn comes; and a request
has a reply exactly if it has a command that can be answered. -/
theorem svr_process_iff (m : Allocator) (w : Nat → Around) :
    (∀ ending chunks buff web, Handled m w ending chunks 0 buff web ↔ ending = .eof ∧ AllAnswered m w chunks 0 buff web) ∧
      ∀ k web request, (msgReply m (w k) web request).isSome ↔ Answered m (w k) web request := by
  refine ⟨fun ending chunks buff web => ?_, fun k web request => answered_iff m (w k) web request⟩
  cases ending with
  | eof => exact (handled_eof_iff chunks 0 buff web).trans ⟨fun answered => ⟨rfl, answered⟩, And.right⟩
  | error =>
    refine iff_of_false ?_ fun h => by cases h.1
    rintro ⟨fuel, served, ended, -⟩
    exact error_never_ends fuel chunks 0 buff web served ended

def versionChunk : Chunk := ⟨ascii "version" ++ [0], by decide, by decide⟩

theorem serve_version (around : Around) (short : web.box.version.length < 4) (buff : Bytes) :
    serve m around web (versionChunk.into buff) =
      some ⟨"version", web.box.version, web, versionChunk.into buff⟩ := by
  have text : versionChunk.text = "version" := by decide
  have read := (cString_into versionChunk buff).2 (.inl (by decide))
  have word : strtok isSpace "version" = some (ascii "version", []) := by decide
  have command : Command.of "version" = .version := by decide
  have replied : msgReply m around web "version" = some (web.box.version, web) := by
    rw [msgReply_word word, command]
    exact if_pos short
  have left : cutRequest "version" = "version" := by decide
  rw [text] at read
  rw [serve, read, bind_eq_bind, bind_some, replied, left]
  rfl

/-- **After an error** the last request is executed again and again. -/
theorem version_repeats (short : web.box.version.length < 4) (fuel k : Nat) (buff : Bytes) :
    svrProcess m w .error fuel [] k (versionChunk.into buff) web =
      .running (List.replicate fuel ("version", web.box.version)) := by
  induction fuel generalizing k with
  | zero => rfl
  | succ fuel ih =>
    rw [svrProcess, turn, serve_version (w k) short]
    dsimp only
    rw [ih, Outcome.after, replicate_succ]

end Loop

def emptySettings : Around := ⟨Ini.of [] [], Endpoint.text⟩

def plainWeb : Web :=
  ⟨startLivebox .rising (Ini.of [] []) (fun _ => 0) 1 0 "dbzoo.livebox.Controller" "10.0.0.1",
    []⟩

/-- A connection that breaks after a request keeps the daemon busy with it for ever, and a command for
the AVR has no reply. -/
theorem error_is_no_end :
    (∀ fuel buff, svrProcess .rising (fun _ => emptySettings) .error fuel [versionChunk] 0 buff plainWeb =
        .running (List.replicate fuel ("version", "1.0"))) ∧
      (∀ buff, ¬ Handled .rising (fun _ => emptySettings) .error [versionChunk] 0 buff plainWeb) ∧
      msgReply .rising emptySettings plainWeb "AVR on 1" = none := by
  have version : plainWeb.box.version = "1.0" := by decide +kernel
  have short : plainWeb.box.version.length < 4 := by
    rw [version]
    decide
  refine ⟨fun fuel buff => ?_, fun buff handled => ?_, ?_⟩
  · cases fuel with
    | zero => rfl
    | succ fuel =>
      rw [svrProcess, turn, serve_version emptySettings short]
      dsimp only
      rw [version_repeats short, version, Outcome.after, replicate_succ]
  · obtain ⟨fuel, served, ended, -⟩ := handled
    exact error_never_ends fuel [versionChunk] 0 buff plainWeb served ended
  · have word : strtok isSpace "AVR on 1" = some (ascii "AVR", ascii "on 1") := by decide
    have command : Command.of "AVR" = .avr := by decide
    rw [msgReply_word word, command]
    rfl

end Hah.Livebox.WebServer
