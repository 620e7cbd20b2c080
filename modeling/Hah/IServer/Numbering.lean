import Hah.C.Append
import Hah.IServer.Inject
import Hah.Xap.RawBounds

/-!
# The frame number that a client is sent: `xAPtoClient` of `iServer/main.c`

With `-e` the copy of a packet that a client is sent carries the number of the frame, counted by the
client. The copy is built once for a packet, in a static buffer, by the first callback of the pass, and
with the count of its client. The callbacks behind it send the same text and count on their own.

`Pass` has the buffer as memory, where `Delivery` has the text: `dispatch_refines` says that both
send the same texts where the pass stays inside the buffer. `frame_numbers_iff` says when each copy
has the number of the client that it is for.
-/

namespace Hah.IServer.Numbering
open C Xap List Option

/-! ## The code -/

def msgSize : Nat := xapDataLen + 12

/-- What a pass works on, with the static `msg` as memory. -/
structure Pass where
  frame : XapFrame
  lowerData : Bool
  msg : Mem
  clients : ClientId → Client
  sent : List (ClientId × Bytes)

/-- `parsedMsgToRaw(&msg[5], sizeof(msg)-5)`; `none` if the text does not fit. -/
def rawInto (frame : XapFrame) (msg : Mem) : Option Mem :=
  let raw := parsedMsgToRawF frame (fun j => msg (5 + j)) (msgSize - 5)
  if raw.2 < msgSize - 5 then some fun j => if j < 5 then msg j else raw.1 (j - 5) else none

/-- `strcat(msg, src)`; `none` if the text does not fit. -/
def strcatIn (size : Nat) (msg : Mem) (src : Bytes) : Option Mem :=
  let n := (strAt msg size 0).length
  if n + src.length < size then some (snprintf msg n (src.length + 1) src) else none

/-- The block of `xAPtoClient` under `lowerData == 0`. -/
def buildMessage (optE : Bool) (c : Client) (s : Pass) : Option Pass :=
  (xapLowerMessageF s.frame).bind fun frame =>
    (rawInto frame (snprintf s.msg 0 6 "<xap>")).bind fun msg =>
      (if optE then injectFrameSequenceIn msgSize msg (c.rxFrame + 1) else some msg).bind fun msg =>
        (strcatIn msgSize msg "</xap>").map fun msg =>
          { s with frame := frame, msg := msg, lowerData := true }

/-- `sendToClient(c, msg, msglen)`. -/
def Pass.send (env : Env) (c : ClientId) (s : Pass) : Pass :=
  { s with
    clients := fun k => if k = c then sendToClient env (s.clients c) else s.clients k
    sent := s.sent ++ [(c, strAt s.msg msgSize 0)] }

def xAPtoClient (env : Env) (optE : Bool) (c : ClientId) (s : Pass) : Option Pass :=
  if s.lowerData then some (s.send env c)
  else (buildMessage optE (s.clients c) s).map (Pass.send env c)

/-- `incomingXapPacket` on a received packet; a scan that stores behind `parsedMsg` has no outcome. -/
def incomingXapPacket (env : Env) (optE : Bool) (filterList : List (Registration ClientId)) (s : Pass)
    (packet : Bytes) : Option Pass :=
  let loaded := s.frame.load packet
  if filterList = [] then some { s with frame := loaded }
  else if ∀ slot ∈ parseStores loaded, slot < xapMsgElements then
    filterDispatch Pass.frame (xAPtoClient env optE) filterList
      { s with frame := parseMsgF loaded, lowerData := false }
  else none

/-! ## What is wanted -/

/-- The text of a packet before the number is inserted. -/
def opened (lowered : XapFrame) : Bytes := "<xap>" ++ rawText lowered

def copy (lowered : XapFrame) (frame : Nat) : Bytes :=
  injectFrameSequence (opened lowered) frame ++ "</xap>"

/-- The clients of a pass with the count that each one has when it is served. -/
def counted : (ClientId → Nat) → List ClientId → List (ClientId × Nat)
  | _, [] => []
  | count, c :: served => (c, count c) :: counted (fun k => if k = c then count c + 1 else count k) served

/-- The text has a closing brace and leaves room for a number, as `injectFrameSequence` wants it. -/
structure Injectable (lowered : XapFrame) : Prop where
  brace : rbrace ∈ rawText lowered
  short : 5 + (parsedMsgToRawF lowered (fun _ => 0) (msgSize - 5)).2 ≤ xapDataLen - 20

/-- The move of `injectFrameSequence` for this number stays inside the buffer. -/
def NumberFits (lowered : XapFrame) (number : Nat) : Prop :=
  2 * bracePlace (opened lowered) + (opened lowered).length + (sequenceText number).length ≤ msgSize

instance (lowered : XapFrame) (number : Nat) : Decidable (NumberFits lowered number) :=
  inferInstanceAs (Decidable (_ ≤ _))

/-- The number of the first client fits the buffer, and all the others have the same one. -/
def OneCount (lowered : XapFrame) (count : ClientId → Nat) (served : List ClientId) : Prop :=
  ∀ first ∈ served.head?, NumberFits lowered (count first + 1) ∧
    ∀ p ∈ counted count served, p.2 % 4294967296 = count first % 4294967296

/-! ## The message -/

variable {frame lowered : XapFrame} {msg msg' : Mem} {text : Bytes} {optE : Bool} {s t : Pass} {env : Env}

theorem opened_starts (lowered : XapFrame) : bracePlace (opened lowered) ≠ 0 := by
  rw [opened, bracePlace, show "<xap>" = 60 :: ascii "xap>" from rfl, cons_append,
    takeWhile_cons_of_pos (by decide)]
  exact Nat.succ_ne_zero _

/-- The text that is printed into any buffer. -/
theorem raw_text (frame : XapFrame) (msg : Mem) (fits : (parsedMsgToRawF frame msg (msgSize - 5)).2 < msgSize - 5) :
    CStr (parsedMsgToRawF frame msg (msgSize - 5)).1 0 (rawText frame) ∧
      (rawText frame).length = (parsedMsgToRawF frame msg (msgSize - 5)).2 := by
  obtain ⟨len, same⟩ := raw_twin frame (fun _ => 0) msg (msgSize - 5) none
  obtain ⟨text, blank, here, length⟩ := same fits
  have read : rawText frame = text := blank.strAt_eq (Nat.le_of_eq (length.trans len.symm))
  rw [read]
  exact ⟨here, length⟩

theorem rawInto_isSome (frame : XapFrame) (msg : Mem) :
    (rawInto frame msg).isSome ↔ (parsedMsgToRawF frame (fun _ => 0) (msgSize - 5)).2 < msgSize - 5 := by
  have same := (raw_twin frame (fun j => msg (5 + j)) (fun _ => 0) (msgSize - 5) none).1
  unfold rawInto parsedMsgToRawF
  dsimp only
  rw [same]
  split <;> simp_all

/-- The text behind the opening tag. -/
theorem rawInto_text (printed : rawInto frame (snprintf msg 0 6 "<xap>") = some msg') :
    CStr msg' 0 (opened frame) ∧ (opened frame).length < msgSize := by
  unfold rawInto at printed
  dsimp only at printed
  split at printed
  next fits =>
    cases printed
    obtain ⟨text, length⟩ := raw_text frame _ fits
    have five : (ascii "<xap>").length = 5 := rfl
    refine ⟨CStr.prepend (fun j hj => ?_) (bytes_of_all (by decide)) ?_, ?_⟩
    · rw [five] at hj
      rw [if_pos hj, snprintf, if_neg (by decide), if_pos ⟨Nat.zero_le _, by rw [five]; omega⟩]
      exact (getElem_eq_getD 0).symm
    · have behind : ∀ j, ¬ 5 + j < 5 := fun j => by omega
      simpa only [five, behind, if_false, Nat.add_sub_cancel_left] using text
    · rw [opened, length_append, length, five]
      omega
  next => exact absurd printed.symm (some_ne_none _)

/-- A number is inserted before a brace that stands behind the opening tag. -/
theorem inject_text {number : Nat} (text : CStr msg 0 (opened frame))
    (room : (opened frame).length < msgSize) (run : injectFrameSequenceIn msgSize msg number = some msg') :
    CStr msg' 0 (injectFrameSequence (opened frame) number) := by
  by_cases kept : rbrace ∉ opened frame ∨ xapDataLen - 20 < (opened frame).length
  · obtain ⟨same, wanted⟩ := inject_keeps text room number kept
    rwa [wanted, ← some.inj (same.symm.trans run)]
  · obtain ⟨brace, short⟩ := not_or.1 kept
    have here := Classical.not_not.1 brace
    have le := Nat.not_lt.1 short
    by_cases inside : 2 * bracePlace (opened frame) + (opened frame).length + (sequenceText number).length ≤ msgSize
    · obtain ⟨buf, same, held⟩ := inject_inside text room number here le inside
      rw [← some.inj (same.symm.trans run)]
      exact held.2 fun first => absurd first (opened_starts frame)
    · rw [inject_leaves text room number here le (Nat.lt_of_not_le inside)] at run
      exact absurd run.symm (some_ne_none _)

theorem strcatIn_text {size : Nat} {src : Bytes} (h : CStr msg 0 text)
    (clean : ∀ c ∈ src, c ≠ 0) (room : text.length ≤ size) (run : strcatIn size msg src = some msg') :
    CStr msg' 0 (text ++ src) ∧ (text ++ src).length < size := by
  have read := h.strAt_eq room
  unfold strcatIn at run
  rw [read] at run
  dsimp only at run
  split at run
  next fits =>
    have printed := h.snprintf clean (Nat.lt_succ_self src.length)
    rw [Nat.zero_add] at printed
    rw [← some.inj run, length_append]
    exact ⟨printed, fits⟩
  next => exact absurd run.symm (some_ne_none _)

theorem injected_short (short : text.length ≤ xapDataLen - 20) (number : Nat) :
    (injectFrameSequence text number).length < xapDataLen := by
  have size : xapDataLen = xapDataLen - 20 + 20 := rfl
  by_cases brace : rbrace ∈ text
  · have parts : text.takeWhile (· ≠ rbrace) ++ text.dropWhile (· ≠ rbrace) = text := takeWhile_append_dropWhile
    have lengths := congrArg List.length parts
    have digits := sequenceText_length number
    rw [length_append] at lengths
    rw [injectFrameSequence_parts number brace short, length_append, length_append]
    omega
  · rw [injectFrameSequence, if_neg (Nat.not_lt.2 short), if_pos brace]
    omega

theorem injected_length (room : text.length < msgSize) (number : Nat) :
    (injectFrameSequence text number).length < msgSize := by
  by_cases short : text.length ≤ xapDataLen - 20
  · exact Nat.lt_of_lt_of_le (injected_short short number) (Nat.le_add_right _ _)
  · rwa [injectFrameSequence, if_pos (Nat.lt_of_not_le short)]

def message (optE : Bool) (lowered : XapFrame) (number : Nat) : Bytes :=
  (if optE then injectFrameSequence (opened lowered) number else opened lowered) ++ "</xap>"

/-- **What the first callback of a pass builds**, with the count of its client. -/
theorem buildMessage_text {c : Client} (built : buildMessage optE c s = some t) :
    ∃ lowered, xapLowerMessageF s.frame = some lowered ∧
      t = { s with frame := lowered, msg := t.msg, lowerData := true } ∧
      strAt t.msg msgSize 0 = message optE lowered (c.rxFrame + 1) := by
  obtain ⟨lowered, lowers, built⟩ := bind_eq_some_iff.1 built
  obtain ⟨printed, prints, built⟩ := bind_eq_some_iff.1 built
  obtain ⟨numbered, numbers, built⟩ := bind_eq_some_iff.1 built
  obtain ⟨msg, closes, rfl⟩ := map_eq_some_iff.1 built
  obtain ⟨text, room⟩ := rawInto_text prints
  have clean : ∀ c ∈ ascii "</xap>", c ≠ 0 := bytes_of_all (by decide)
  refine ⟨lowered, lowers, rfl, ?_⟩
  cases optE with
  | false =>
    cases numbers
    obtain ⟨held, fits⟩ := strcatIn_text text clean (Nat.le_of_lt room) closes
    exact held.strAt_eq (Nat.le_of_lt fits)
  | true =>
    have inserted := inject_text text room numbers
    obtain ⟨held, fits⟩ := strcatIn_text inserted clean (Nat.le_of_lt (injected_length room _)) closes
    exact held.strAt_eq (Nat.le_of_lt fits)

/-- It is built exactly if the number fits the buffer, where the text can be injected. -/
theorem buildMessage_isSome {c : Client} (done : xapLowerMessageF s.frame = some lowered)
    (injectable : Injectable lowered) : (buildMessage true c s).isSome ↔ NumberFits lowered (c.rxFrame + 1) := by
  have size : msgSize - 5 = xapDataLen - 20 + 27 := rfl
  have short := injectable.short
  have fits : (parsedMsgToRawF lowered (fun _ => 0) (msgSize - 5)).2 < msgSize - 5 := by omega
  have le : (opened lowered).length ≤ xapDataLen - 20 := by
    rw [opened, length_append, (raw_text lowered _ fits).2]
    exact short
  have brace : rbrace ∈ opened lowered := mem_append_right _ injectable.brace
  obtain ⟨msg, printed⟩ := isSome_iff_exists.1 ((rawInto_isSome lowered (snprintf s.msg 0 6 "<xap>")).2 fits)
  obtain ⟨text, room⟩ := rawInto_text printed
  unfold buildMessage
  rw [done, bind_some, printed, bind_some, if_pos rfl]
  by_cases inside : NumberFits lowered (c.rxFrame + 1)
  · obtain ⟨buf, run, -⟩ := inject_inside text room (c.rxFrame + 1) brace le inside
    have read := (inject_text text room run).strAt_eq (Nat.le_of_lt (injected_length room _))
    have more : (injectFrameSequence (opened lowered) (c.rxFrame + 1)).length + (ascii "</xap>").length < msgSize := by
      have less := injected_short le (c.rxFrame + 1)
      have tag : (ascii "</xap>").length = 6 := rfl
      omega
    refine iff_of_true ?_ inside
    rw [run, bind_some, isSome_map, strcatIn, read, if_pos more]
    rfl
  · rw [inject_leaves text room _ brace le (Nat.lt_of_not_le inside)]
    exact iff_of_false (by simp) inside

/-! ## The pass -/

/-- The pass with the text of the buffer in place of the buffer. -/
def Pass.delivery (s : Pass) : Delivery := ⟨s.frame, s.lowerData, strAt s.msg msgSize 0, s.clients, s.sent⟩

theorem xAPtoClient_refines {c : ClientId} (called : xAPtoClient env optE c s = some t) :
    IServer.xAPtoClient env optE c s.delivery = some t.delivery := by
  unfold xAPtoClient at called
  unfold IServer.xAPtoClient
  split at called
  next built =>
    rw [if_pos (show s.delivery.lowerData = true from built), ← some.inj called]
    rfl
  next fresh =>
    obtain ⟨u, builds, rfl⟩ := map_eq_some_iff.1 called
    obtain ⟨lowered, lowers, shape, text⟩ := buildMessage_text builds
    have done : xapLowerMessageF s.delivery.frame = some lowered := lowers
    rw [if_neg (show ¬ s.delivery.lowerData = true from fresh), IServer.buildMessage, done]
    rw [shape] at text ⊢
    have same : (Pass.send env c { s with frame := lowered, msg := u.msg, lowerData := true }).delivery =
        Delivery.send env c ⟨lowered, true, message optE lowered ((s.clients c).rxFrame + 1), s.clients, s.sent⟩ := by
      rw [Delivery.send, ← text]
      rfl
    exact congrArg some same.symm

/-- **The pass of `Dispatch` is this one**: where the buffer suffices, the same texts go to the same
clients. -/
theorem dispatch_refines {filterList : List (Registration ClientId)}
    (pass : filterDispatch Pass.frame (xAPtoClient env optE) filterList s = some t) :
    dispatch env optE filterList s.delivery = some t.delivery := by
  induction filterList generalizing s with
  | nil => rw [← some.inj pass]; rfl
  | cons cb filterList ih =>
    unfold dispatch at ih ⊢
    unfold filterDispatch at pass ⊢
    split at pass
    next lets =>
      obtain ⟨u, calls, rest⟩ := bind_eq_some_iff.1 pass
      rw [if_pos (show xapCompareFilters s.delivery.frame cb.chain = true from lets), xAPtoClient_refines calls]
      exact ih rest
    next stops =>
      rw [if_neg (show ¬ xapCompareFilters s.delivery.frame cb.chain = true from stops)]
      exact ih pass

/-- A pass over `frame`: nobody has been served yet, or the frame has been lowered. -/
def InPass (frame : XapFrame) (s : Pass) : Prop :=
  (s.lowerData = false ∧ s.frame = frame) ∨ (s.lowerData = true ∧ xapLowerMessageF frame = some s.frame)

theorem xAPtoClient_inPass {c : ClientId} (inPass : InPass frame s) (called : xAPtoClient env optE c s = some t) :
    InPass frame t := by
  unfold xAPtoClient at called
  rcases inPass with ⟨fresh, rfl⟩ | ⟨built, done⟩
  · rw [fresh] at called
    obtain ⟨u, builds, rfl⟩ := map_eq_some_iff.1 called
    obtain ⟨lowered, lowers, shape, -⟩ := buildMessage_text builds
    rw [shape]
    exact .inr ⟨rfl, lowers⟩
  · rw [if_pos built] at called
    rw [← some.inj called]
    exact .inr ⟨built, done⟩

/-- **What a packet is sent as**: the calls for the clients whose filters match. -/
theorem pass_calls (env : Env) (optE : Bool) (filterList : List (Registration ClientId)) (frame : XapFrame) (s : Pass) :
    filterDispatch Pass.frame (xAPtoClient env optE) filterList { s with frame := frame, lowerData := false } =
      callAll (xAPtoClient env optE) (matching filterList frame) { s with frame := frame, lowerData := false } := by
  apply filterDispatch_eq_callAll (InPass frame)
  · rintro u (⟨-, same⟩ | ⟨-, done⟩)
    · rw [same]
      exact .refl _
    · exact lowerMessage_caseVariant done
  · exact fun c u t => xAPtoClient_inPass
  · exact .inl ⟨rfl, rfl⟩

theorem incomingXapPacket_sent (env : Env) (optE : Bool) (filterList : List (Registration ClientId)) (s : Pass)
    {packet : Bytes} (fits : ∀ slot ∈ parseStores (s.frame.load packet), slot < xapMsgElements) :
    (incomingXapPacket env optE filterList s packet).map Pass.sent =
      (callAll (xAPtoClient env optE) (matching filterList (parseMsgF (s.frame.load packet)))
        { s with frame := parseMsgF (s.frame.load packet), lowerData := false }).map Pass.sent := by
  unfold incomingXapPacket
  by_cases empty : filterList = []
  · subst empty
    rfl
  · dsimp only
    rw [if_neg empty, if_pos fits, pass_calls]

/-- A callback that comes back has sent something to its client. -/
theorem xAPtoClient_served {c : ClientId} (called : xAPtoClient env optE c s = some t) :
    t.sent.map Prod.fst = s.sent.map Prod.fst ++ [c] := by
  unfold xAPtoClient at called
  split at called
  next =>
    rw [← some.inj called]
    simp [Pass.send]
  next =>
    obtain ⟨u, builds, rfl⟩ := map_eq_some_iff.1 called
    obtain ⟨lowered, -, shape, -⟩ := buildMessage_text builds
    rw [shape]
    simp [Pass.send]

/-- **Who is served** in a pass that stays inside its buffers: the clients whose filters match the packet as
it was parsed. -/
theorem incomingXapPacket_served {filterList : List (Registration ClientId)} {packet : Bytes}
    (passes : incomingXapPacket env optE filterList s packet = some t) :
    t.sent.map Prod.fst = s.sent.map Prod.fst ++ matching filterList (parseMsgF (s.frame.load packet)) := by
  unfold incomingXapPacket at passes
  dsimp only at passes
  split_ifs at passes with empty fits
  · cases passes
    rw [empty]
    exact (append_nil _).symm
  rw [pass_calls] at passes
  revert passes
  generalize matching filterList (parseMsgF (s.frame.load packet)) = served
  suffices all : ∀ u : Pass, callAll (xAPtoClient env optE) served u = some t →
      t.sent.map Prod.fst = u.sent.map Prod.fst ++ served from all _
  induction served with
  | nil =>
    intro u done
    cases done
    exact (append_nil _).symm
  | cons c served ih =>
    intro u done
    obtain ⟨v, called, rest⟩ := bind_eq_some_iff.1 done
    rw [ih v rest, xAPtoClient_served called, append_assoc]
    rfl

/-- The callbacks behind the first one send what it has built. -/
theorem callAll_sends (env : Env) (optE : Bool) (served : List ClientId) (built : s.lowerData = true) :
    ∃ t, callAll (xAPtoClient env optE) served s = some t ∧
      t.sent = s.sent ++ served.map fun c => (c, strAt s.msg msgSize 0) := by
  induction served generalizing s with
  | nil => exact ⟨s, rfl, (append_nil _).symm⟩
  | cons c served ih =>
    obtain ⟨t, rest, sent⟩ := ih (s := s.send env c) built
    refine ⟨t, ?_, ?_⟩
    · rw [callAll, xAPtoClient, if_pos built, bind_some]
      exact rest
    · rw [sent]
      simp [Pass.send]

/-- **What a pass sends**: the number of its first client to all of them. -/
theorem callAll_first (fresh : s.lowerData = false) (done : xapLowerMessageF s.frame = some lowered)
    (injectable : Injectable lowered) (first : ClientId) (served : List ClientId) :
    (callAll (xAPtoClient env true) (first :: served) s).map Pass.sent =
      if NumberFits lowered ((s.clients first).rxFrame + 1) then
        some (s.sent ++ (first :: served).map fun c => (c, copy lowered ((s.clients first).rxFrame + 1)))
      else none := by
  have outcome := buildMessage_isSome (c := s.clients first) done injectable
  rw [callAll, xAPtoClient, fresh]
  cases built : buildMessage true (s.clients first) s with
  | none =>
    rw [built] at outcome
    have outside : ¬ NumberFits lowered ((s.clients first).rxFrame + 1) := fun inside => by simpa using outcome.2 inside
    rw [if_neg outside]
    rfl
  | some u =>
    rw [built] at outcome
    obtain ⟨lowered', lowers, shape, text⟩ := buildMessage_text built
    obtain rfl := some.inj (done.symm.trans lowers)
    have ready : (u.send env first).lowerData = true := by
      rw [shape]
      rfl
    obtain ⟨t, rest, sent⟩ := callAll_sends env true served ready
    have before : u.sent = s.sent := by rw [shape]
    have same : strAt (u.send env first).msg msgSize 0 = copy lowered ((s.clients first).rxFrame + 1) := text
    rw [if_pos (outcome.1 rfl)]
    simp only [Bool.false_eq_true, if_false, map_some, bind_some, rest, sent, same]
    rw [Pass.send, before, show strAt u.msg msgSize 0 = _ from text]
    simp [copy, message]

/-- Copies with different numbers differ, up to the width of the counter. -/
theorem copy_eq_iff (injectable : Injectable lowered) (m n : Nat) :
    copy lowered m = copy lowered n ↔ m % 4294967296 = n % 4294967296 := by
  have brace : rbrace ∈ opened lowered := mem_append_right _ injectable.brace
  have size : msgSize - 5 = xapDataLen - 20 + 27 := rfl
  have short := injectable.short
  have le : (opened lowered).length ≤ xapDataLen - 20 := by
    rw [opened, length_append, (raw_text lowered (fun _ => 0) (by omega)).2]
    exact short
  constructor
  · intro same
    rw [copy, copy, injectFrameSequence_parts m brace le, injectFrameSequence_parts n brace le] at same
    have inserted := append_cancel_left (append_cancel_right (append_cancel_right same))
    have digits := append_cancel_left (append_cancel_right inserted)
    rw [← leadingNumber_decimal (m % 4294967296), digits, leadingNumber_decimal]
  · intro same
    rw [copy, copy, injectFrameSequence_parts m brace le, injectFrameSequence_parts n brace le, sequenceText, same]
    rfl

/-- The copies with one number are those with the clients' own numbers iff these are all the same. -/
theorem copies_eq_iff (injectable : Injectable lowered) (n : Nat) (count : ClientId → Nat) (served : List ClientId) :
    (served.map fun c => (c, copy lowered (n + 1))) = (counted count served).map (fun p => (p.1, copy lowered (p.2 + 1))) ↔
      ∀ p ∈ counted count served, p.2 % 4294967296 = n % 4294967296 := by
  induction served generalizing count with
  | nil => simp [counted]
  | cons c served ih =>
    have here : (n + 1) % 4294967296 = (count c + 1) % 4294967296 ↔ count c % 4294967296 = n % 4294967296 := by omega
    rw [counted, map_cons, map_cons, List.cons.injEq, ih, forall_mem_cons, Prod.mk.injEq,
      eq_self, true_and, copy_eq_iff injectable, here]

/-- **Each client is sent its own frame number**, with the packet, exactly if the counts of all clients
of the pass are the same and the number fits the buffer. -/
theorem frame_numbers_iff (env : Env) (filterList : List (Registration ClientId)) (s : Pass) {packet : Bytes}
    {lowered : XapFrame} (fits : ∀ slot ∈ parseStores (s.frame.load packet), slot < xapMsgElements)
    (done : xapLowerMessageF (parseMsgF (s.frame.load packet)) = some lowered) (injectable : Injectable lowered) :
    (incomingXapPacket env true filterList s packet).map Pass.sent =
        some (s.sent ++ (counted (fun c => (s.clients c).rxFrame)
          (matching filterList (parseMsgF (s.frame.load packet)))).map fun p => (p.1, copy lowered (p.2 + 1))) ↔
      OneCount lowered (fun c => (s.clients c).rxFrame) (matching filterList (parseMsgF (s.frame.load packet))) := by
  rw [incomingXapPacket_sent env true filterList s fits]
  cases matching filterList (parseMsgF (s.frame.load packet)) with
  | nil => simp [callAll, counted, OneCount]
  | cons first served =>
    rw [callAll_first rfl done injectable]
    simp only [OneCount, head?_cons, mem_def, some.injEq, forall_eq']
    split
    next inside =>
      rw [some.injEq, append_cancel_left_eq, copies_eq_iff injectable, and_iff_right inside]
    next outside => exact iff_of_false (by simp) fun one => outside one.1

/-- Clients that have been sent `n 0`, `n 1`, .. frames. -/
def clientsAt (n : ClientId → Nat) : Pass where
  frame := XapFrame.blank
  lowerData := false
  msg := fun _ => 0
  clients c := { newClient with rxFrame := n c }
  sent := []

def pairPacket : Bytes := "a\x7bb=c\n\x7d"

def bothListen : List (Registration ClientId) :=
  [FilterCallback.registration ⟨0, "a", "b", "c"⟩, FilterCallback.registration ⟨1, "a", "b", "c"⟩]

theorem pairPacket_lowers :
    ∃ lowered, xapLowerMessageF (parseMsgF (XapFrame.blank.load pairPacket)) = some lowered ∧
      Injectable lowered ∧ NumberFits lowered 2 := by
  have checked : (xapLowerMessageF (parseMsgF (XapFrame.blank.load pairPacket))).any (fun lowered =>
      decide (rbrace ∈ rawText lowered) &&
        decide (5 + (parsedMsgToRawF lowered (fun _ => 0) (msgSize - 5)).2 ≤ xapDataLen - 20) &&
        decide (NumberFits lowered 2)) = true := by decide +kernel
  obtain ⟨lowered, done, all⟩ := (any_eq_true _ _).1 checked
  simp only [Bool.and_eq_true, decide_eq_true_eq] at all
  exact ⟨lowered, done, ⟨all.1.1, all.1.2⟩, all.2⟩

/-- Two clients with the same count are sent their number. -/
theorem frame_numbers_same : ∃ lowered,
    (incomingXapPacket plainEnv true bothListen (clientsAt fun _ => 1) pairPacket).map Pass.sent =
      some [(0, copy lowered 2), (1, copy lowered 2)] := by
  obtain ⟨lowered, done, injectable, fits⟩ := pairPacket_lowers
  have served : matching bothListen (parseMsgF ((clientsAt fun _ => 1).frame.load pairPacket)) = [0, 1] := by
    decide +kernel
  have stores : ∀ slot ∈ parseStores ((clientsAt fun _ => 1).frame.load pairPacket), slot < xapMsgElements := by
    decide +kernel
  have numbered := (frame_numbers_iff plainEnv bothListen (clientsAt fun _ => 1) stores done injectable).2
  rw [served] at numbered
  refine ⟨lowered, numbered ?_⟩
  rintro first head
  obtain rfl := some.inj head
  exact ⟨fits, by decide⟩

/-- The second of two clients, which has been sent five frames, gets the number of the first. -/
theorem second_client_misnumbered : ∃ lowered,
    xapLowerMessageF (parseMsgF (XapFrame.blank.load pairPacket)) = some lowered ∧
      (incomingXapPacket plainEnv true bothListen (clientsAt fun c => if c = 0 then 1 else 5) pairPacket).map Pass.sent =
        some [(0, ascii "<xap>a\n\x7b\nb=c\niseq=2\n\x7d\n</xap>"), (1, "<xap>a\n\x7b\nb=c\niseq=2\n\x7d\n</xap>")] ∧
      (counted (fun c => if c = 0 then 1 else 5) [0, 1]).map (fun p => (p.1, copy lowered (p.2 + 1))) =
        [(0, ascii "<xap>a\n\x7b\nb=c\niseq=2\n\x7d\n</xap>"), (1, "<xap>a\n\x7b\nb=c\niseq=6\n\x7d\n</xap>")] := by
  have wanted : (xapLowerMessageF (parseMsgF (XapFrame.blank.load pairPacket))).any (fun lowered =>
      decide ((counted (fun c => if c = 0 then 1 else 5) [0, 1]).map (fun p => (p.1, copy lowered (p.2 + 1))) =
        [(0, ascii "<xap>a\n\x7b\nb=c\niseq=2\n\x7d\n</xap>"),
          (1, "<xap>a\n\x7b\nb=c\niseq=6\n\x7d\n</xap>")])) = true := by decide +kernel
  obtain ⟨lowered, done, all⟩ := (any_eq_true _ _).1 wanted
  exact ⟨lowered, done, by decide +kernel, of_decide_eq_true all⟩

end Hah.IServer.Numbering
