import Hah.Lua.Frame
import Hah.Bsc.Command

/-!
# Commands in the Lua library: `incomingCmd` in `xap/bsc.lua`

`incomingCmd` and `bscIncomingCmd` both walk the numbered sections of a command and obey
those that name the endpoint. Over both stands one account: the sections that are reached,
those of them that are obeyed, and the state and text that obeying them in order leaves
(`stateAfter`, `textAfter`). The libraries differ in how many sections they walk, in what
they take for a wildcard and in how they decode a state.

`commands_agree_iff` says exactly when the difference does not show.
-/

namespace Hah.Lua
open C Xap Bsc Bool
open List hiding lookup

/-! ## The model -/

structure LuaEndpoint where
  uid : Bytes
  direction : Io
  type : EndpointType
  state : BscState
  text : Option Bytes
  deriving DecidableEq, Repr

def stateMap : List (Bytes × StateCode) :=
  [("on", .on), ("off", .off), ("true", .on), ("false", .off), ("yes", .on),
    ("no", .off), ("1", .on), ("0", .off), ("toggle", .toggle)]

def decodeState (state : Bytes) : StateCode :=
  ((stateMap.find? fun v => v.1 == state).map Prod.snd).getD .unknown

def LuaEndpoint.setState (e : LuaEndpoint) (state : StateCode) : LuaEndpoint :=
  match state with
  | .toggle => { e with state := if e.state = .on then .off else .on }
  | .on => { e with state := .on }
  | .off => { e with state := .off }
  | .unknown => { e with state := .unknown }

/-- `id == "*" or id == e.uid:sub(-2)`. -/
def LuaEndpoint.answersTo (e : LuaEndpoint) (id : Bytes) : Bool :=
  id == "*" || id == e.uid.drop (e.uid.length - 2)

def LuaEndpoint.setValue (values : Values) (sectionKey : Bytes) (e : LuaEndpoint) : LuaEndpoint :=
  match e.type with
  | .binary => e
  | .level => { e with text := values sectionKey "level" }
  | .stream => { e with text := values sectionKey "text" }

/-- The loop of `incomingCmd`, `n` sections from `i` on, with the number of events so far. -/
def incomingLoop (values : Values) (cmdCB : LuaEndpoint → LuaEndpoint) :
    Nat → Nat → LuaEndpoint × Nat → LuaEndpoint × Nat
  | 0, _, done => done
  | n + 1, i, (e, sent) =>
    match values (commandSection i) "state", values (commandSection i) "id" with
    | some state, some id =>
      if e.answersTo id then
        incomingLoop values cmdCB n (i + 1)
          (cmdCB ((e.setState (decodeState state)).setValue values (commandSection i)), sent + 1)
      else incomingLoop values cmdCB n (i + 1) (e, sent)
    | _, _ => (e, sent)

/-- `incomingCmd`: the endpoint and the number of events sent. -/
def incomingCmd (values : Values) (cmdCB : LuaEndpoint → LuaEndpoint) (e : LuaEndpoint) : LuaEndpoint × Nat :=
  if e.direction = .input then (e, 0) else incomingLoop values cmdCB 9 1 (e, 0)

/-! ## What obeying sections leaves -/

section Account

variable (values : Values)

/-- The sections that are there, `n` of them from `i` on at most. -/
def reached : Nat → Nat → List Nat
  | 0, _ => []
  | n + 1, i =>
    if (values (commandSection i) "state").isSome && (values (commandSection i) "id").isSome then
      i :: reached n (i + 1)
    else []

def idOf (i : Nat) : Bytes := (values (commandSection i) "id").getD []

def stateOf (i : Nat) : Bytes := (values (commandSection i) "state").getD []

def valueOf (type : EndpointType) (i : Nat) : Option Bytes :=
  match type with
  | .binary => none
  | .level => values (commandSection i) "level"
  | .stream => values (commandSection i) "text"

/-- The state when the sections `is` have been obeyed. -/
def stateAfter (decode : Bytes → StateCode) (s : BscState) (is : List Nat) : BscState :=
  is.foldl (fun s i => nextState s (decode (stateOf values i))) s

/-- The text when the sections `is` have been obeyed. -/
def textAfter (type : EndpointType) (text : Option Bytes) (is : List Nat) : Option Bytes :=
  is.foldl (fun text i => if type = .binary then text else valueOf values type i) text

def cObeys {D : Type} (e : Endpoint D) : List Nat := (reached values 98 1).filter fun i => e.answersTo (idOf values i)

def luaObeys (e : LuaEndpoint) : List Nat := (reached values 9 1).filter fun i => e.answersTo (idOf values i)

end Account

section Loops

variable {D : Type} {values : Values} {n i : Nat}

theorem reached_here {state id : Bytes} (hasState : values (commandSection i) "state" = some state)
    (hasId : values (commandSection i) "id" = some id) :
    reached values (n + 1) i = i :: reached values n (i + 1) ∧ stateOf values i = state ∧ idOf values i = id := by
  refine ⟨?_, ?_, ?_⟩
  · rw [reached, hasState, hasId]
    rfl
  · rw [stateOf, hasState]
    rfl
  · rw [idOf, hasId]
    rfl

theorem reached_stop
    (missing : ∀ state id, values (commandSection i) "state" = some state →
      values (commandSection i) "id" = some id → False) : reached values (n + 1) i = [] := by
  rw [reached, if_neg]
  intro both
  obtain ⟨hasState, hasId⟩ := and_eq_true_iff.1 both
  obtain ⟨state, isState⟩ := Option.isSome_iff_exists.1 hasState
  obtain ⟨id, isId⟩ := Option.isSome_iff_exists.1 hasId
  exact missing state id isState isId

/-- The fields of an endpoint that a command reads and writes. -/
structure SameFields (e e' : Endpoint D) : Prop where
  id : e'.id = e.id
  type : e'.type = e.type
  state : e'.state = e.state
  text : e'.text = e.text

theorem SameFields.trans {e e' e'' : Endpoint D} (h : SameFields e e') (h' : SameFields e' e'') : SameFields e e'' :=
  ⟨h'.id.trans h.id, h'.type.trans h.type, h'.state.trans h.state, h'.text.trans h.text⟩

theorem setValue_fields {e : Endpoint D} (carried : e.type ≠ .binary → (valueOf values e.type i).isSome = true) :
    ∃ e', Bsc.setValue values (commandSection i) e = some e' ∧
      SameFields { e with text := if e.type = .binary then e.text else valueOf values e.type i } e' := by
  unfold Bsc.setValue valueOf at *
  cases type : e.type with
  | binary => exact ⟨e, rfl, rfl, type, rfl, rfl⟩
  | level =>
    rw [type] at carried
    obtain ⟨text, present⟩ := Option.isSome_iff_exists.1 (carried (by decide))
    dsimp only at present ⊢
    rw [present]
    exact ⟨_, rfl, rfl, type, rfl, rfl⟩
  | stream =>
    rw [type] at carried
    obtain ⟨text, present⟩ := Option.isSome_iff_exists.1 (carried (by decide))
    dsimp only at present ⊢
    rw [present]
    exact ⟨_, rfl, rfl, type, rfl, rfl⟩

/-- The endpoint when it has obeyed a section. -/
theorem obeyed_fields {e : Endpoint D} (code : StateCode)
    (carried : e.type ≠ .binary → (valueOf values e.type i).isSome = true) :
    ∃ e', Bsc.setValue values (commandSection i) (bscSetState e code) = some e' ∧
      SameFields { e with
        state := nextState e.state code
        text := if e.type = .binary then e.text else valueOf values e.type i } e' := by
  rw [bscSetState_eq]
  exact setValue_fields (e := { e with state := nextState e.state code }) carried

def Keeps (send : Endpoint D → Endpoint D) : Prop := ∀ e, SameFields e (send e)

/-- **The C loop** obeys its sections in order. -/
theorem commandLoop_account {send : Endpoint D → Endpoint D} (keeps : Keeps send) (n i : Nat) {e : Endpoint D}
    (sent : Nat) {obeyed : List Nat} (those : obeyed = (reached values n i).filter fun j => e.answersTo (idOf values j))
    (carried : ∀ j ∈ obeyed, e.type ≠ .binary → (valueOf values e.type j).isSome = true) :
    ∃ e', commandLoop values send n i (e, sent) = some (e', sent + obeyed.length) ∧
      e'.state = stateAfter values (fun s => bscDecodeState (some s)) e.state obeyed ∧
      e'.text = textAfter values e.type e.text obeyed := by
  induction n generalizing i e sent obeyed with
  | zero =>
    subst those
    exact ⟨e, rfl, rfl, rfl⟩
  | succ n ih =>
    rw [commandLoop]
    split
    next state id hasState hasId =>
      obtain ⟨here, isState, isId⟩ := reached_here (n := n) hasState hasId
      rw [here] at those
      by_cases answers : e.answersTo id = true
      · rw [filter_cons_of_pos (by rwa [isId])] at those
        subst those
        obtain ⟨first, later⟩ := forall_mem_cons.1 carried
        obtain ⟨e₁, stored, fields⟩ := obeyed_fields (bscDecodeState (some state)) first
        have now := fields.trans (keeps e₁)
        have type : (send e₁).type = e.type := now.type
        have named : (send e₁).answersTo = e.answersTo := by
          funext id
          unfold Endpoint.answersTo
          rw [show (send e₁).id = e.id from now.id]
        have rest : ((reached values n (i + 1)).filter fun j => e.answersTo (idOf values j)) =
            (reached values n (i + 1)).filter fun j => (send e₁).answersTo (idOf values j) := by
          rw [named]
        obtain ⟨e', ran, stateIs, textIs⟩ := ih (i + 1) (sent + 1) rest (by rwa [type])
        refine ⟨e', ?_, ?_, ?_⟩
        · rw [if_pos answers, stored, length_cons]
          refine Eq.trans ran ?_
          rw [Nat.add_assoc, Nat.add_comm 1]
        · rw [stateIs, now.state, stateAfter, stateAfter, foldl_cons, isState]
        · rw [textIs, type, now.text, textAfter, textAfter, foldl_cons]
      · rw [filter_cons_of_neg (by rwa [isId])] at those
        rw [if_neg answers]
        exact ih (i + 1) sent those carried
    next missing =>
      rw [reached_stop missing] at those
      subst those
      exact ⟨e, rfl, rfl, rfl⟩

theorem LuaEndpoint.setState_next (e : LuaEndpoint) (code : StateCode) :
    e.setState code = { e with state := nextState e.state code } := by
  cases code <;> rfl

theorem LuaEndpoint.setValue_text (e : LuaEndpoint) (i : Nat) :
    e.setValue values (commandSection i) =
      { e with text := if e.type = .binary then e.text else valueOf values e.type i } := by
  unfold LuaEndpoint.setValue valueOf
  split
  next type => rw [if_pos type]
  next type => simp [type]
  next type => simp [type]

/-- **The Lua loop** obeys its sections in order. -/
theorem incomingLoop_account {cmdCB : LuaEndpoint → LuaEndpoint} (keeps : ∀ e, cmdCB e = e) (n i : Nat)
    {e : LuaEndpoint} (sent : Nat) {obeyed : List Nat}
    (those : obeyed = (reached values n i).filter fun j => e.answersTo (idOf values j)) :
    ∃ e', incomingLoop values cmdCB n i (e, sent) = (e', sent + obeyed.length) ∧
      e'.state = stateAfter values decodeState e.state obeyed ∧ e'.text = textAfter values e.type e.text obeyed := by
  induction n generalizing i e sent obeyed with
  | zero =>
    subst those
    exact ⟨e, rfl, rfl, rfl⟩
  | succ n ih =>
    rw [incomingLoop]
    split
    next state id hasState hasId =>
      obtain ⟨here, isState, isId⟩ := reached_here (n := n) hasState hasId
      rw [here] at those
      by_cases answers : e.answersTo id = true
      · rw [filter_cons_of_pos (by rwa [isId])] at those
        subst those
        rw [if_pos answers, keeps, LuaEndpoint.setState_next, LuaEndpoint.setValue_text]
        obtain ⟨e', ran, stateIs, textIs⟩ := ih (i + 1) (sent + 1)
          (e := { e with
            state := nextState e.state (decodeState state)
            text := if e.type = .binary then e.text else valueOf values e.type i }) rfl
        refine ⟨e', ?_, ?_, ?_⟩
        · refine Eq.trans ran ?_
          rw [Nat.add_assoc, Nat.add_comm 1]
          rfl
        · rw [stateIs, stateAfter, stateAfter, foldl_cons, isState]
          rfl
        · rw [textIs, textAfter, textAfter, foldl_cons]
          rfl
      · rw [filter_cons_of_neg (by rwa [isId])] at those
        rw [if_neg answers]
        exact ih (i + 1) sent those
    next missing =>
      rw [reached_stop missing] at those
      subst those
      exact ⟨e, rfl, rfl, rfl⟩

theorem mem_reached {j : Nat} (mem : j ∈ reached values n i) : i ≤ j ∧ j < i + n := by
  induction n generalizing i with
  | zero => exact absurd mem not_mem_nil
  | succ n ih =>
    rw [reached] at mem
    split_ifs at mem
    · rcases mem_cons.1 mem with rfl | mem
      · omega
      · have later := ih mem
        omega
    · exact absurd mem not_mem_nil

/-- The sections reached in more turns are those reached in `n` and then some. -/
theorem reached_add (values : Values) (n m i : Nat) :
    ∃ rest, reached values (n + m) i = reached values n i ++ rest ∧ ∀ j ∈ rest, i + n ≤ j := by
  induction n generalizing i with
  | zero =>
    rw [Nat.zero_add]
    exact ⟨reached values m i, rfl, fun j mem => (mem_reached mem).1⟩
  | succ n ih =>
    obtain ⟨rest, split, far⟩ := ih (i + 1)
    rw [Nat.succ_add, reached, reached]
    split_ifs
    · refine ⟨rest, by rw [split, cons_append], fun j mem => ?_⟩
      have beyond := far j mem
      omega
    · exact ⟨[], rfl, fun j mem => absurd mem not_mem_nil⟩

end Loops

/-! ## Both libraries on one packet -/

section Agreement

variable {D : Type}

structure SameEndpoint (e : Endpoint D) (l : LuaEndpoint) : Prop where
  output : e.io = .output ∧ l.direction = .output
  type : l.type = e.type
  state : l.state = e.state
  text : l.text = e.text
  id : l.uid.drop (l.uid.length - 2) = hex02 e.id

/-- What Lua takes to be meant for an endpoint, C does too. -/
theorem SameEndpoint.answers {e : Endpoint D} {l : LuaEndpoint} (same : SameEndpoint e l) {id : Bytes}
    (answers : l.answersTo id = true) : e.answersTo id = true := by
  unfold LuaEndpoint.answersTo at answers
  unfold Endpoint.answersTo
  rw [same.id] at answers
  rcases or_eq_true_iff.1 answers with star | named
  · rw [eq_of_beq star]
    rfl
  · rw [eq_of_beq named, beq_self_eq_true, Bool.or_true]

variable {values : Values} {e : Endpoint D} {l : LuaEndpoint}

theorem luaObeys_sublist (same : SameEndpoint e l) : (luaObeys values l).Sublist (cObeys values e) := by
  obtain ⟨rest, split, -⟩ := reached_add values 9 89 1
  unfold luaObeys cObeys
  rw [show (98 : Nat) = 9 + 89 from rfl, split, filter_append]
  refine List.Sublist.trans ?_ (sublist_append_left _ _)
  exact monotone_filter_right _ fun i answers => same.answers answers

/-- **The libraries obey the same sections** exactly when C obeys none behind the ninth and none
under another wildcard. -/
theorem obeys_eq_iff (same : SameEndpoint e l) :
    luaObeys values l = cObeys values e ↔
      ∀ i ∈ cObeys values e, i ≤ 9 ∧ l.answersTo (idOf values i) = true := by
  constructor
  · intro equal i mem
    rw [← equal] at mem
    obtain ⟨there, answers⟩ := mem_filter.1 mem
    exact ⟨Nat.le_of_lt_succ (mem_reached there).2, answers⟩
  · intro only
    obtain ⟨rest, split, far⟩ := reached_add values 9 89 1
    have all : cObeys values e =
        (reached values 9 1).filter (fun i => e.answersTo (idOf values i)) ++
          rest.filter (fun i => e.answersTo (idOf values i)) := by
      unfold cObeys
      rw [show (98 : Nat) = 9 + 89 from rfl, split, filter_append]
    have none : rest.filter (fun i => e.answersTo (idOf values i)) = [] := by
      rw [filter_eq_nil_iff]
      intro i mem answers
      have near := (only i (all ▸ mem_append_right _ (mem_filter.2 ⟨mem, answers⟩))).1
      have beyond := far i mem
      omega
    rw [all, none, append_nil]
    refine filter_congr fun i mem => ?_
    rw [Bool.eq_iff_iff]
    refine ⟨same.answers, fun answers => (only i ?_).2⟩
    exact all ▸ mem_append_left _ (mem_filter.2 ⟨mem, answers⟩)

/-- C decodes a state in whatever case it is written. -/
theorem bscDecodeState_lower (state : Bytes) : bscDecodeState (some state) = decodeState (lower state) := by
  have folded : ∀ v ∈ stateMap, v.1.map tolower = v.1 := by decide
  unfold bscDecodeState decodeState
  dsimp only
  rw [← head?_filter, ← head?_filter]
  have first : stateValues.filter (fun v => strcasecmpEq state v.1) = stateMap.filter (fun v => v.1 == lower state) :=
    filter_congr fun v mem => by rw [strcasecmpEq, folded v mem, lower, beq_comm]
  rw [first]

/-- What `xapGetValue` finds in a packet. -/
def cValues (fr : XapFrame) (d : Bytes) : Values :=
  fun sectionName key => xapGetValueF (parseMsgF (fr.load d)) sectionName (some key)

/-- What `frame:getValue` finds in it. -/
def luaValues (d : Bytes) : Values := getValue (frame d)

/-- Both parsers read the packet as the same sections. -/
structure AcceptedByBoth (fr : XapFrame) (d : Bytes) (sections : List Section) : Prop where
  c : Shows (parseMsgF (fr.load d)) sections
  lua : frame d = tableOf sections

/-- The text of a message without blanks around its names and values is such a packet. -/
theorem accepted_layout (fr : XapFrame) {sections : List Section} (ok : ∀ s ∈ sections, s.Ok)
    (trimmed : ∀ s ∈ sections, Trimmed s) (room : (sections.flatMap Section.elements).length ≤ xapMsgElements)
    (fits : (layout sections).length ≤ xapDataLen) : AcceptedByBoth fr (layout sections) sections := by
  refine ⟨?_, frame_readable fun s mem => readable_of (ok s mem) (trimmed s mem)⟩
  have shown := parse_shows fr fits
  rwa [scan_layout ok room] at shown

theorem AcceptedByBoth.reads {fr : XapFrame} {d : Bytes} {sections : List Section}
    (accepted : AcceptedByBoth fr d sections) (distinct : NoRepeats sections) :
    cValues fr d = lookup sections ∧ luaValues d = lookup sections := by
  refine ⟨funext fun s => funext fun k => accepted.c.getValue s k, funext fun s => funext fun k => ?_⟩
  rw [luaValues, accepted.lua]
  exact getValue_lookup distinct s k

end Agreement

variable {requests : List (Bytes × Bytes)}

/-- **The libraries agree on a command** exactly when C obeys no section behind the ninth and
none under a wildcard other than `*`, and the spelling of the states does not tell. -/
theorem commands_agree_iff {D : Type} {fr : XapFrame} {d : Bytes} {sections : List Section}
    (accepted : AcceptedByBoth fr d sections) (distinct : NoRepeats sections) {e : Endpoint D} {l : LuaEndpoint}
    (same : SameEndpoint e l) {send : Endpoint D → Endpoint D} (keeps : Keeps send)
    {cmdCB : LuaEndpoint → LuaEndpoint} (quiet : ∀ l, cmdCB l = l)
    (carried : ∀ i ∈ cObeys (cValues fr d) e, e.type ≠ .binary → (valueOf (cValues fr d) e.type i).isSome = true) :
    ∃ e' sent, bscIncomingCmd (cValues fr d) send e = some (e', sent) ∧
      ((e'.state = (incomingCmd (luaValues d) cmdCB l).1.state ∧ e'.text = (incomingCmd (luaValues d) cmdCB l).1.text ∧
          sent = (incomingCmd (luaValues d) cmdCB l).2) ↔
        (∀ i ∈ cObeys (cValues fr d) e, i ≤ 9 ∧ l.answersTo (idOf (cValues fr d) i) = true) ∧
          stateAfter (cValues fr d) (fun s => decodeState (lower s)) e.state (cObeys (cValues fr d) e) =
            stateAfter (cValues fr d) decodeState e.state (cObeys (cValues fr d) e)) := by
  obtain ⟨cRead, luaRead⟩ := accepted.reads distinct
  rw [cRead] at carried ⊢
  rw [luaRead]
  obtain ⟨isOutput, isLuaOutput⟩ := same.output
  obtain ⟨e', ran, state, text⟩ := commandLoop_account keeps 98 1 0 rfl carried
  obtain ⟨l', luaRan, luaState, luaText⟩ := incomingLoop_account quiet 9 1 0 (rfl : luaObeys (lookup sections) l = _)
  rw [funext bscDecodeState_lower] at state
  rw [same.state] at luaState
  rw [same.type, same.text] at luaText
  have luaDone : incomingCmd (lookup sections) cmdCB l = (l', 0 + (luaObeys (lookup sections) l).length) := by
    rw [incomingCmd, isLuaOutput, if_neg (by decide)]
    exact luaRan
  refine ⟨e', 0 + (cObeys (lookup sections) e).length, ?_, ?_⟩
  · rw [bscIncomingCmd, isOutput, if_neg (by decide)]
    exact ran
  · rw [luaDone, ← obeys_eq_iff same]
    constructor
    · rintro ⟨sameState, -, counts⟩
      have obeyed := (luaObeys_sublist same).eq_of_length (Nat.add_left_cancel counts).symm
      rw [state, luaState, obeyed] at sameState
      exact ⟨obeyed, sameState⟩
    · rintro ⟨obeyed, sameState⟩
      refine ⟨?_, ?_, ?_⟩
      · rw [state, luaState, obeyed]
        exact sameState
      · rw [text, luaText, obeyed]
        rfl
      · rw [obeyed]

/-! ## Commands as programs write them -/

/-- The numbered section of a request: an identifier and a state. -/
def commandBlock (i : Nat) (r : Bytes × Bytes) : Section :=
  ⟨commandSection i, [("id", r.1), ("state", r.2)]⟩

def commandBlocks : Nat → List (Bytes × Bytes) → List Section
  | _, [] => []
  | i, r :: requests => commandBlock i r :: commandBlocks (i + 1) requests

def commandMessage (requests : List (Bytes × Bytes)) : List Section :=
  ⟨"xap-header", [("class", "xAPBSC.cmd"), ("target", "dbzoo.livebox.test:lamp")]⟩ ::
    commandBlocks 1 requests

structure Tidy (value : Bytes) : Prop where
  printable : ∀ x ∈ value, 32 ≤ x
  first : value.head? ≠ some 32
  last : value.getLast? ≠ some 32

def tidy (value : Bytes) : Bool :=
  value.all (32 ≤ ·) && value.head? != some 32 && value.getLast? != some 32

theorem tidy_iff {value : Bytes} : tidy value = true ↔ Tidy value := by
  rw [tidy, and_eq_true, and_eq_true, all_eq_true, bne_iff_ne, bne_iff_ne]
  constructor
  · rintro ⟨⟨printable, first⟩, last⟩
    exact ⟨fun x mem => of_decide_eq_true (printable x mem), first, last⟩
  · rintro ⟨printable, first, last⟩
    exact ⟨⟨fun x mem => decide_eq_true (printable x mem), first⟩, last⟩

instance (value : Bytes) : Decidable (Tidy value) := decidable_of_iff _ tidy_iff

/-- Requests whose command fits in a packet and in the table of the C parser. -/
@[mk_iff]
structure Sendable (requests : List (Bytes × Bytes)) : Prop where
  tidy : ∀ r ∈ requests, Tidy r.1 ∧ Tidy r.2
  room : ((commandMessage requests).flatMap Section.elements).length ≤ xapMsgElements
  fits : (layout (commandMessage requests)).length ≤ xapDataLen

instance (requests : List (Bytes × Bytes)) : Decidable (Sendable requests) :=
  decidable_of_iff' _ (sendable_iff requests)

theorem commandSection_bytes (i : Nat) : ∀ c ∈ commandSection i, 32 < c ∧ c ≠ 0 ∧ c ≠ lbrace ∧ tolower c = c := by
  refine forall_mem_append.2 ⟨bytes_of_all (by decide), fun c number => ?_⟩
  have digit := isdigit_decimal c number
  revert digit
  exact byte_cases (by decide +kernel) c

theorem commandSection_injective {i j : Nat} (same : commandSection i = commandSection j) : i = j := by
  have numbers := congrArg leadingNumber (append_cancel_left same)
  rwa [leadingNumber_decimal, leadingNumber_decimal] at numbers

theorem lower_commandSection (i : Nat) : lower (commandSection i) = commandSection i :=
  (map_congr_left fun c mem => (commandSection_bytes i c mem).2.2.2).trans (map_id' _)

theorem commandSection_ok (i : Nat) : NameOk (commandSection i) := by
  have visible := commandSection_bytes i
  refine ⟨⟨111, "utput.state." ++ decimal i, rfl, by decide, by decide, fun c mem => ?_⟩, ?_, ?_⟩
  · exact (visible c (mem_cons_of_mem 111 mem)).2.2.1
  · exact fun c mem => (visible c mem).2.1
  · exact fun filled => UInt8.le_of_lt (visible _ (getLast_mem filled)).1

theorem commandSection_trimmed (i : Nat) :
    (∀ c ∈ commandSection i, 32 ≤ c) ∧ (commandSection i).getLast? ≠ some 32 := by
  have above := fun c mem => (commandSection_bytes i c mem).1
  exact ⟨fun c mem => UInt8.le_of_lt (above c mem), fun last => absurd (above 32 (mem_of_getLast? last)) (by decide)⟩

theorem commandBlock_ok (i : Nat) {r : Bytes × Bytes} (tidy : Tidy r.1 ∧ Tidy r.2) :
    (commandBlock i r).Ok ∧ Trimmed (commandBlock i r) := by
  have keyId : KeyOk "id" := .of_plain (by decide)
  have keyState : KeyOk "state" := .of_plain (by decide)
  refine ⟨⟨commandSection_ok i, ?_⟩, (commandSection_trimmed i).1, (commandSection_trimmed i).2, ?_, ?_⟩
  · refine forall_mem_cons.2 ⟨⟨keyId, tidy.1.printable⟩, forall_mem_cons.2 ⟨⟨keyState, ?_⟩, by simp⟩⟩
    exact tidy.2.printable
  · have idEnd : (ascii "id").getLast? ≠ some 32 ∧ equals ∉ ascii "id" := by decide
    have stateEnd : (ascii "state").getLast? ≠ some 32 ∧ equals ∉ ascii "state" := by decide
    exact forall_mem_cons.2 ⟨idEnd, forall_mem_cons.2 ⟨stateEnd, by simp⟩⟩
  · refine forall_mem_cons.2 ⟨⟨tidy.1.first, tidy.1.last⟩, forall_mem_cons.2 ⟨?_, by simp⟩⟩
    exact ⟨tidy.2.first, tidy.2.last⟩

theorem commandBlocks_mem {i : Nat} {s : Section}
    (mem : s ∈ commandBlocks i requests) : ∃ j r, i ≤ j ∧ r ∈ requests ∧ s = commandBlock j r := by
  induction requests generalizing i with
  | nil => exact absurd mem not_mem_nil
  | cons r requests ih =>
    rcases mem_cons.1 mem with rfl | mem
    · exact ⟨i, r, Nat.le_refl i, mem_cons_self, rfl⟩
    · obtain ⟨j, r', later, there, rfl⟩ := ih mem
      exact ⟨j, r', Nat.le_of_succ_le later, mem_cons_of_mem r there, rfl⟩

theorem commandBlocks_names (i : Nat) (requests : List (Bytes × Bytes)) :
    ((commandBlocks i requests).map fun s => lower s.name).Nodup := by
  induction requests generalizing i with
  | nil => exact nodup_nil
  | cons r requests ih =>
    refine nodup_cons.2 ⟨fun mem => ?_, ih (i + 1)⟩
    obtain ⟨s, there, name⟩ := mem_map.1 mem
    obtain ⟨j, r', later, -, rfl⟩ := commandBlocks_mem there
    have same : lower (commandSection j) = lower (commandSection i) := name
    rw [lower_commandSection, lower_commandSection] at same
    have equal := commandSection_injective same
    omega

theorem commandMessage_noRepeats (requests : List (Bytes × Bytes)) : NoRepeats (commandMessage requests) := by
  refine ⟨nodup_cons.2 ⟨fun mem => ?_, commandBlocks_names 1 requests⟩, ?_⟩
  · obtain ⟨s, there, name⟩ := mem_map.1 mem
    obtain ⟨j, r, -, -, rfl⟩ := commandBlocks_mem there
    have same : lower (commandSection j) = lower "xap-header" := name
    rw [lower_commandSection] at same
    have first : (some 111 : Option UInt8) = some 120 := congrArg List.head? same
    exact absurd first (by decide)
  · refine forall_mem_cons.2 ⟨by decide, fun s there => ?_⟩
    obtain ⟨j, r, -, -, rfl⟩ := commandBlocks_mem there
    exact (by decide : ([lower "id", lower "state"] : List Bytes).Nodup)

/-- **Commands that can be sent are accepted by both parsers**. -/
theorem accepted_command (fr : XapFrame) (sendable : Sendable requests) :
    AcceptedByBoth fr (layout (commandMessage requests)) (commandMessage requests) := by
  have later : ∀ s ∈ commandBlocks 1 requests, s.Ok ∧ Trimmed s := by
    intro s mem
    obtain ⟨j, r, -, there, rfl⟩ := commandBlocks_mem mem
    exact commandBlock_ok j (sendable.tidy r there)
  have header : ∀ c ∈ ascii "xap-header", 32 ≤ c := bytes_of_all (by decide)
  refine accepted_layout fr (forall_mem_cons.2 ⟨⟨.of_plain (by decide), ?_⟩, fun s mem => (later s mem).1⟩)
    (forall_mem_cons.2 ⟨⟨?_, ?_, ?_, ?_⟩, fun s mem => (later s mem).2⟩) sendable.room
    sendable.fits
  · refine forall_mem_cons.2 ⟨⟨?_, bytes_of_all (by decide)⟩, forall_mem_cons.2 ⟨⟨?_, ?_⟩, by simp⟩⟩
    · exact .of_plain (by decide)
    · exact .of_plain (by decide)
    · exact bytes_of_all (by decide)
  · exact header
  · decide
  · exact forall_mem_cons.2 ⟨by decide, forall_mem_cons.2 ⟨by decide, by simp⟩⟩
  · exact forall_mem_cons.2 ⟨by decide, forall_mem_cons.2 ⟨by decide, by simp⟩⟩

/-! ## Four packets -/

def lamp : Endpoint Unit := ⟨"lamp", none, 1, .output, .binary, .off, none, ()⟩

def luaLamp : LuaEndpoint := ⟨"FF00DC01", .output, .binary, .off, none⟩

theorem lamp_same : SameEndpoint lamp luaLamp := ⟨⟨rfl, rfl⟩, rfl, rfl, rfl, by decide⟩

/-- Two requests to the lamp, and one to another endpoint between them. -/
def lampRequests : List (Bytes × Bytes) :=
  [("*", "on"), ("02", "off"), ("01", "toggle")]

theorem commands_agree_lamp :
    ∃ e', bscIncomingCmd (cValues .blank (layout (commandMessage lampRequests))) id lamp = some (e', 2) ∧
      e'.state = (incomingCmd (luaValues (layout (commandMessage lampRequests))) id luaLamp).1.state ∧
      e'.text = (incomingCmd (luaValues (layout (commandMessage lampRequests))) id luaLamp).1.text ∧
      2 = (incomingCmd (luaValues (layout (commandMessage lampRequests))) id luaLamp).2 := by
  have sendable : Sendable lampRequests := by decide +kernel
  have accepted := accepted_command .blank sendable
  have distinct := commandMessage_noRepeats lampRequests
  have quiet : ∀ l : LuaEndpoint, id l = l := fun _ => rfl
  obtain ⟨e', sent, ran, agree⟩ := commands_agree_iff accepted distinct lamp_same (fun _ => ⟨rfl, rfl, rfl, rfl⟩) quiet
    (fun _ _ other => absurd rfl other)
  obtain ⟨read, luaRead⟩ := accepted.reads distinct
  have both := agree.2 ⟨by rw [read]; decide +kernel, by rw [read]; decide +kernel⟩
  have two : sent = 2 := both.2.2.trans (by rw [luaRead]; decide +kernel)
  subst two
  exact ⟨e', ran, both⟩

/-- A packet that both parsers read as the same sections and that the lamp obeys differently. -/
def CommandsDiffer (requests : List (Bytes × Bytes)) : Prop :=
  AcceptedByBoth .blank (layout (commandMessage requests)) (commandMessage requests) ∧
    NoRepeats (commandMessage requests) ∧ SameEndpoint lamp luaLamp ∧
    (bscIncomingCmd (cValues .blank (layout (commandMessage requests))) id lamp).map (fun r => (r.1.state, r.2)) ≠
      some ((incomingCmd (luaValues (layout (commandMessage requests))) id luaLamp).1.state,
        (incomingCmd (luaValues (layout (commandMessage requests))) id luaLamp).2)

theorem differ_of (sendable : Sendable requests)
    (differ : (bscIncomingCmd (lookup (commandMessage requests)) id lamp).map (fun r => (r.1.state, r.2)) ≠
      some ((incomingCmd (lookup (commandMessage requests)) id luaLamp).1.state,
        (incomingCmd (lookup (commandMessage requests)) id luaLamp).2)) : CommandsDiffer requests := by
  have accepted := accepted_command .blank sendable
  have distinct := commandMessage_noRepeats requests
  obtain ⟨read, luaRead⟩ := accepted.reads distinct
  refine ⟨accepted, distinct, lamp_same, ?_⟩
  rw [read, luaRead]
  exact differ

/-- A command with a blank before an equals sign. -/
def spacedCommand : Bytes :=
  "xap-header\n\x7b\nclass=xAPBSC.cmd\n\x7d\noutput.state.1\n\x7b\nid=*\nstate =on\n\x7d\n"

/-- A state in capitals, a tenth section, a longer word that starts with the wildcard, and a
blank that only one of the parsers drops. -/
theorem commands_differ :
    CommandsDiffer [("*", "ON")] ∧ CommandsDiffer (List.replicate 10 ("01", "toggle")) ∧
      CommandsDiffer [("*2", "on")] ∧
      bscIncomingCmd (cValues .blank spacedCommand) id lamp = some (lamp, 0) ∧
      incomingCmd (luaValues spacedCommand) id luaLamp = ({ luaLamp with state := .on }, 1) := by
  refine ⟨?_, ?_, ?_, ?_, ?_⟩
  · exact differ_of (by decide +kernel) (by decide +kernel)
  · exact differ_of (by decide +kernel) (by decide +kernel)
  · exact differ_of (by decide +kernel) (by decide +kernel)
  · have shown := parse_shows .blank (d := spacedCommand) (by decide +kernel)
    have read : cValues .blank spacedCommand = lookup ((scan spacedCommand).blocks.map Block.text) :=
      funext fun s => funext fun k => shown.getValue s k
    rw [read]
    decide +kernel
  · decide +kernel

end Hah.Lua
