import Hah.IServer.Tokens
import Hah.Xap.Filter

/-!
# The client connection of `iServer/main.c`

`parseiServerMsg` feeds the tokens of every received buffer to a machine of eight states
that collects an identifier and acts when a message ends. A `Session` is what it can
touch on behalf of one client: the client's record, the filter list and the actions so far.

The reply to a login can fail to be sent: `Env.sendAll` gives the outcome of each send to
the client. `firstClientMessage` parses into a frame on the stack; when that stores behind
`parsedMsg`, nothing is known about the program any more and `overrun` stops the session.
-/

namespace Hah.IServer
open C Xap

inductive ClientState where
  | waitForMessage
  | cmd
  | addSourceFilter
  | addClassFilter
  | xap
  | login
  | delSourceFilter
  | delClassFilter
  deriving DecidableEq, Repr

/-- `Client *`, as the identity of an allocated client. -/
abbrev ClientId := Nat

/-- The fields of `Client` that the protocol uses; `ident` is the string in the buffer. -/
structure Client where
  connected : Bool
  txFrame : Nat
  rxFrame : Nat
  source : Option Bytes
  firstMessage : Bool
  state : ClientState
  ident : Bytes
  deriving DecidableEq, Repr

/-- `xAPFilterCallback` with the callback `xAPtoClient`; its chain is the one filter. -/
structure FilterCallback where
  userData : ClientId
  filter : XapFilter
  deriving DecidableEq, Repr

/-- What `sendAll` returns: 0, -1 or -2. -/
inductive SendResult where
  | sent
  | failed
  | gone
  deriving DecidableEq, Repr

/-- The options, the identity of the server, and the outcome of the `n`th send to the client. -/
structure Env where
  optA : Int
  password : Bytes
  uid : Bytes
  source : Bytes
  sendAll : Nat → SendResult

inductive Action where
  | broadcast (msg : Bytes)
  | addFilter (key value : Bytes)
  | delFilter (key value : Bytes)
  | login (text : Bytes) (authorized : Bool)
  deriving DecidableEq, Repr

structure Session where
  client : Client
  filterList : List FilterCallback
  actions : List Action
  overrun : Bool
  deriving DecidableEq, Repr

/-- A client as `addClient` sets it up, after its greeting. -/
def newClient : Client :=
  { connected := true, txFrame := 0, rxFrame := 1, source := none, firstMessage := true,
    state := .waitForMessage, ident := [] }

def newSession (filterList : List FilterCallback) : Session := ⟨newClient, filterList, [], false⟩

/-- A server in authorisation mode whose sends go through. -/
def plainEnv : Env :=
  { optA := 1, password := "pw", uid := [], source := [], sendAll := fun _ => .sent }

def Session.dead (s : Session) : Prop := s.client.connected = false ∨ s.overrun = true

instance (s : Session) : Decidable s.dead := inferInstanceAs (Decidable (_ ∨ _))

def Session.goto (s : Session) (state : ClientState) : Session :=
  { s with client := { s.client with state := state } }

/-- `c->ident[0] = 0`. -/
def Session.clearIdent (s : Session) : Session := { s with client := { s.client with ident := [] } }

/-- `strlcat(c->ident, yylval.s, XAP_DATA_LEN)`: a NUL byte is an empty `yylval.s`. -/
def Session.collect (s : Session) (c : UInt8) : Session :=
  { s with client := { s.client with
    ident := strlcat s.client.ident (if c = 0 then [] else [c]) xapDataLen } }

def Session.act (s : Session) (a : Action) : Session := { s with actions := s.actions ++ [a] }

def sendToClient (env : Env) (c : Client) : Client :=
  { c with
    rxFrame := c.rxFrame + 1
    connected := if env.sendAll c.rxFrame = .gone then false else c.connected }

def broadcastPacket (s : Session) (msg : Bytes) : Session := s.act (.broadcast msg)

/-- The text of `sendBscQuery`, in its buffer of `XAP_DATA_LEN` bytes. -/
def bscQuery (env : Env) (target : Bytes) : Bytes :=
  ("xap-header\n\x7b\nv=12\nhop=1\nuid=" ++ env.uid ++ "\nclass=xAPBSC.query\nsource=" ++ env.source ++
    "\ntarget=" ++ target ++ "\n\x7d\nrequest\n\x7b\n\x7d\n").take (xapDataLen - 1)

/-- `xapAddFilter` and `xapAddFilterAction(&xAPtoClient, f, c)`. -/
def addFilterAction (id : ClientId) (key value : Bytes) (s : Session) : Session :=
  ({ s with filterList := ⟨id, ⟨"xap-header", key, value⟩⟩ :: s.filterList }).act (.addFilter key value)

/-- The source address in a client's packet, as `firstClientMessage` looks it up. -/
def packetSource (f : XapFrame) : Option Bytes :=
  match xapGetValueF f "xap-hbeat" (some "source") with
  | some source => some source
  | none => xapGetValueF f "xap-header" (some "source")

def firstClientMessage (id : ClientId) (s : Session) : Session :=
  if s.client.firstMessage then
    let m := XapFrame.blank.load s.client.ident
    if ∀ slot ∈ parseStores m, slot < xapMsgElements then
      match packetSource (parseMsgF m) with
      | none => s
      | some source =>
        addFilterAction id "target" source
          { s with client := { s.client with firstMessage := false, source := some source } }
    else { s with overrun := true }
  else s

/-- `uniqueFilter`: it compares the key with "source", whatever filter is added. -/
def uniqueFilter (s : Session) (id : ClientId) (source : Bytes) : Bool :=
  !s.filterList.any fun f => f.userData == id && f.filter.key == "source" && f.filter.value == source

def endLogin (env : Env) (s : Session) : Session :=
  if env.optA = 0 ∨ env.password = s.client.ident then
    { s.act (.login s.client.ident true) with client := sendToClient env s.client }
  else s.act (.login s.client.ident false)

def endAddFilter (env : Env) (id : ClientId) (filterType : Bytes) (s : Session) : Session :=
  let s := if uniqueFilter s id s.client.ident then addFilterAction id filterType s.client.ident s else s
  if filterType = "source" ∧ colon ∈ s.client.ident then
    broadcastPacket s (bscQuery env s.client.ident)
  else s

def deletes (id : ClientId) (filterType ident : Bytes) (f : FilterCallback) : Bool :=
  f.userData == id && f.filter.sectionName == "xap-header" && f.filter.key == filterType &&
    f.filter.value == ident

def endDelFilter (id : ClientId) (filterType : Bytes) (s : Session) : Session :=
  { s with
    filterList := s.filterList.filter fun f => !deletes id filterType s.client.ident f
    actions := s.actions ++ (s.filterList.filter (deletes id filterType s.client.ident)).map fun _ =>
      .delFilter filterType s.client.ident }

def endXap (id : ClientId) (s : Session) : Session :=
  firstClientMessage id (broadcastPacket s s.client.ident)

/-! The cases of the outer `switch` of `parseiServerMsg`. -/

def onWaitForMessage (s : Session) : Token → Session
  | .msgSequence _ => s
  | .startCmd => s.clearIdent.goto .cmd
  | .startXap => s.clearIdent.goto .xap
  | _ => s.goto .waitForMessage

def onLogin (env : Env) (s : Session) : Token → Session
  | .ident c => s.collect c
  | .endCmd => (endLogin env s).goto .waitForMessage
  | _ => s.goto .waitForMessage

def onCmd (s : Session) : Token → Session
  | .login => s.goto .login
  | .addSourceFilter => s.goto .addSourceFilter
  | .addClassFilter => s.goto .addClassFilter
  | .delSourceFilter => s.goto .delSourceFilter
  | .delClassFilter => s.goto .delClassFilter
  | _ => s.goto .waitForMessage

def onAddFilter (env : Env) (id : ClientId) (filterType : Bytes) (s : Session) : Token → Session
  | .ident c => s.collect c
  | .addSourceFilterE | .addClassFilterE | .endCmd => (endAddFilter env id filterType s).goto .waitForMessage
  | _ => s.goto .waitForMessage

def onDelFilter (id : ClientId) (filterType : Bytes) (s : Session) : Token → Session
  | .ident c => s.collect c
  | .delSourceFilterE | .delClassFilterE | .endCmd => (endDelFilter id filterType s).goto .waitForMessage
  | _ => s.goto .waitForMessage

def onXap (id : ClientId) (s : Session) : Token → Session
  | .ident c => s.collect c
  | .endXap => (endXap id s).goto .waitForMessage
  | _ => s.goto .waitForMessage

/-- One turn of the loop of `parseiServerMsg`. -/
def parseToken (env : Env) (id : ClientId) (s : Session) (token : Token) : Session :=
  if s.dead then s
  else
    match s.client.state with
    | .waitForMessage => onWaitForMessage s token
    | .login => onLogin env s token
    | .cmd => onCmd s token
    | .addSourceFilter => onAddFilter env id "source" s token
    | .addClassFilter => onAddFilter env id "class" s token
    | .delSourceFilter => onDelFilter id "source" s token
    | .delClassFilter => onDelFilter id "class" s token
    | .xap => onXap id s token

/-- The loop of `parseiServerMsg`, on the tokens of its buffer. -/
def parseTokens (env : Env) (id : ClientId) (s : Session) (tokens : List Token) : Session :=
  tokens.foldl (parseToken env id) s

def parseiServerMsg (env : Env) (id : ClientId) (s : Session) (msg : Bytes) : Session :=
  parseTokens env id s (yylex msg)

/-- The loop of `clientListener`, on the buffers that `recv` fills. -/
def drainSocket (env : Env) (id : ClientId) (s : Session) (chunks : List Bytes) : Session :=
  chunks.foldl (parseiServerMsg env id) s

end Hah.IServer
