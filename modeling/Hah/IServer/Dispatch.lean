import Hah.Xap.Lower
import Hah.IServer.Client

/-!
# A packet on its way to the clients of `iServer/main.c`

`incomingXapPacket` parses a packet and walks the filter list. The first callback of a
pass lowercases the shared frame and builds the text that every client of the pass is
sent, so the filters behind it are compared with other bytes than those before it.
`dispatch_calls` says that this makes no difference to who is served. Here the text is a value; the
pass with its buffer is in `Hah.IServer.Numbering`.
-/

namespace Hah.IServer
open C Xap

/-- `injectFrameSequence`: the string in the buffer afterwards. -/
def injectFrameSequence (buf : Bytes) (frame : Nat) : Bytes :=
  if xapDataLen - 20 < buf.length then buf
  else if rbrace ∉ buf then buf
  else
    let seq := "iseq=" ++ decimal (frame % 4294967296) ++ "\n"
    buf.takeWhile (· ≠ rbrace) ++ seq ++ buf.dropWhile (· ≠ rbrace)

/-- The string that `parsedMsgToRaw(&msg[5], sizeof(msg)-5)` leaves at `&msg[5]`. -/
def rawText (frame : XapFrame) : Bytes :=
  let (msg, len) := parsedMsgToRawF frame (fun _ => 0) (xapDataLen + 7)
  strAt msg len 0

/-- What a pass works on: the shared frame, `lowerData`, the static `msg` of `xAPtoClient`, the
clients, and the texts sent so far. -/
structure Delivery where
  frame : XapFrame
  lowerData : Bool
  msg : Bytes
  clients : ClientId → Client
  sent : List (ClientId × Bytes)

def Delivery.served (s : Delivery) : List ClientId := s.sent.map Prod.fst

/-- The block of `xAPtoClient` under `lowerData == 0`. -/
def buildMessage (optE : Bool) (c : Client) (s : Delivery) : Option Delivery := do
  let frame ← xapLowerMessageF s.frame
  let msg := "<xap>" ++ rawText frame
  let msg := if optE then injectFrameSequence msg (c.rxFrame + 1) else msg
  return { s with frame := frame, msg := msg ++ "</xap>", lowerData := true }

/-- `sendToClient(c, msg, msglen)` with the message of the pass. -/
def Delivery.send (env : Env) (c : ClientId) (s : Delivery) : Delivery :=
  { s with
    clients := fun k => if k = c then sendToClient env (s.clients c) else s.clients k
    sent := s.sent ++ [(c, s.msg)] }

def xAPtoClient (env : Env) (optE : Bool) (c : ClientId) (s : Delivery) : Option Delivery :=
  if s.lowerData then some (s.send env c)
  else (buildMessage optE (s.clients c) s).map (Delivery.send env c)

/-- A filter of a client as the list of `filter.c` holds it: a chain of one. -/
def FilterCallback.registration (f : FilterCallback) : Registration ClientId := ⟨f.userData, [f.filter]⟩

/-- The pass of `filterDispatch` over `gXAP->filterList`. -/
def dispatch (env : Env) (optE : Bool) (filterList : List (Registration ClientId)) (s : Delivery) :
    Option Delivery :=
  filterDispatch Delivery.frame (xAPtoClient env optE) filterList s

/-! ## The pass -/

/-- A pass over `frame`: nobody has been served yet, or the frame is the lowered one. -/
def InPass (frame lowered : XapFrame) (s : Delivery) : Prop :=
  (s.lowerData = false ∧ s.frame = frame) ∨ (s.lowerData = true ∧ s.frame = lowered)

variable {s : Delivery} {lowered : XapFrame}

theorem buildMessage_of_lowered (optE : Bool) (c : Client) (done : xapLowerMessageF s.frame = some lowered) :
    ∃ msg, buildMessage optE c s = some { s with frame := lowered, msg := msg, lowerData := true } := by
  unfold buildMessage
  rw [done]
  exact ⟨_, rfl⟩

theorem xAPtoClient_inPass {env : Env} {optE : Bool} {frame : XapFrame} (done : xapLowerMessageF frame = some lowered)
    (c : ClientId) (inPass : InPass frame lowered s) :
    ∃ t, xAPtoClient env optE c s = some t ∧ InPass frame lowered t ∧ t.served = s.served ++ [c] := by
  rcases inPass with ⟨fresh, rfl⟩ | ⟨built, same⟩
  · obtain ⟨msg, built⟩ := buildMessage_of_lowered optE (s.clients c) done
    refine ⟨Delivery.send env c { s with frame := lowered, msg := msg, lowerData := true }, ?_,
      .inr ⟨rfl, rfl⟩, ?_⟩
    · rw [xAPtoClient, fresh, built]
      rfl
    · simp [Delivery.served, Delivery.send]
  · refine ⟨s.send env c, ?_, .inr ⟨built, same⟩, ?_⟩
    · rw [xAPtoClient, if_pos built]
    · simp [Delivery.served, Delivery.send]

/-- **Who is served in a pass** is decided by the frame as it was parsed. -/
theorem dispatch_calls (env : Env) (optE : Bool) {frame : XapFrame} (done : xapLowerMessageF frame = some lowered)
    (filterList : List (Registration ClientId)) (inPass : InPass frame lowered s) :
    ∃ t, dispatch env optE filterList s = some t ∧ InPass frame lowered t ∧
      t.served = s.served ++ matching filterList frame := by
  apply filterDispatch_calls
  · rintro u (⟨-, rfl⟩ | ⟨-, rfl⟩)
    · exact .refl _
    · exact lowerMessage_caseVariant done
  · intro c u
    exact xAPtoClient_inPass done c
  · exact inPass

/-- **Filter outcomes depend neither on order nor on lowercasing**: the filters of a parsed packet
give the same answers before and after `xapLowerMessageF`, a chain may be permuted, and a pass
over a permuted list, begun before or after the frame was lowered, serves the same clients. -/
theorem filters_case_order_blind {old : XapFrame} {packet : Bytes} {lowered : XapFrame}
    (done : xapLowerMessageF (parseMsgF (old.load packet)) = some lowered) :
    (∀ chain, xapCompareFilters lowered chain = xapCompareFilters (parseMsgF (old.load packet)) chain) ∧
    (∀ chain chain' : List XapFilter, chain.Perm chain' →
      xapCompareFilters (parseMsgF (old.load packet)) chain =
          xapCompareFilters (parseMsgF (old.load packet)) chain' ∧
        xapCompareFilters lowered chain = xapCompareFilters lowered chain') ∧
    ∀ (env : Env) (optE : Bool) (filterList filterList' : List (Registration ClientId)) (s s' : Delivery),
      filterList.Perm filterList' → s.sent = [] → s'.sent = [] →
      InPass (parseMsgF (old.load packet)) lowered s → InPass (parseMsgF (old.load packet)) lowered s' →
      ∃ t t', dispatch env optE filterList s = some t ∧ dispatch env optE filterList' s' = some t' ∧
        ∀ c, (c ∈ t.served ↔ c ∈ t'.served) ∧
          (c ∈ t.served ↔ ∃ cb ∈ filterList, cb.userData = c ∧
            xapCompareFilters (parseMsgF (old.load packet)) cb.chain = true) := by
  refine ⟨(lowerMessage_caseVariant done).compareFilters, ?_, ?_⟩
  · intro chain chain' same
    exact ⟨compareFilters_perm _ same, compareFilters_perm _ same⟩
  · intro env optE filterList filterList' s s' same fresh fresh' inPass inPass'
    obtain ⟨t, pass, -, served⟩ := dispatch_calls env optE done filterList inPass
    obtain ⟨t', pass', -, served'⟩ := dispatch_calls env optE done filterList' inPass'
    refine ⟨t, t', pass, pass', fun c => ?_⟩
    have who : c ∈ t.served ↔ c ∈ matching filterList (parseMsgF (old.load packet)) := by
      rw [served]
      simp [Delivery.served, fresh]
    have who' : c ∈ t'.served ↔ c ∈ matching filterList' (parseMsgF (old.load packet)) := by
      rw [served']
      simp [Delivery.served, fresh']
    constructor
    · rw [who, who', mem_matching, mem_matching]
      simp only [same.mem_iff]
    · rw [who, mem_matching]

/-- A header with a mixed-case source is lowered, and filters on it stay as they were. -/
theorem filters_case_order_blind_header : ∃ lowered,
    xapLowerMessageF (parseMsgF (XapFrame.blank.load "xap-Header\n\x7b\nSource=A.b\n\x7d\n")) =
        some lowered ∧
      ∀ chain, xapCompareFilters lowered chain =
        xapCompareFilters (parseMsgF (XapFrame.blank.load "xap-Header\n\x7b\nSource=A.b\n\x7d\n")) chain := by
  obtain ⟨lowered, done⟩ := Option.isSome_iff_exists.1 (show (xapLowerMessageF (parseMsgF
    (XapFrame.blank.load "xap-Header\n\x7b\nSource=A.b\n\x7d\n"))).isSome = true by decide +kernel)
  exact ⟨lowered, done, (filters_case_order_blind done).1⟩

end Hah.IServer
