import Hah.Livebox.Control
import Hah.Livebox.Identity

/-!
# Who can set the state of an input

`bscIncomingCmd` refuses to control an input, but the `action` request of the web server
sets whatever endpoint it names. The endpoints are changed one at a time, so what an event
does to the inputs is read off the one endpoint that each of its handlers finds
(`Pointwise.modifyFirst`). An input must not change within an event either, behind a callback or
a tuple (`During`). `inputs_undriven_iff` says for which requests the inputs are left alone.
-/

namespace Hah.Livebox
open C Bsc Xap List Option

/-! ## The states of the inputs -/

/-- The input endpoints, by address, and their states. -/
def inputStates (l : List (Endpoint Handle)) : List (Nat × BscState) :=
  (l.filter fun e => e.io = .input).map fun e => (addrOf e, e.state)

def requestWord (text : Bytes) : Bytes := ((strtok isSpace text).map Prod.fst).getD []

/-- The events that may set an input: a line from the AVR, the check of a sensor, and a reset of
the sensors. -/
def LiveboxEvent.mayDrive : LiveboxEvent → Bool
  | .packet _ => false
  | .request text => requestWord text == "1wirereset"
  | .timeout callback _ => callback.callback == .timeoutCheck1wire
  | .line _ => true

/-- The arguments of an `action` request. -/
def LiveboxEvent.action : LiveboxEvent → Option Bytes
  | .request text => do
    let (cmd, rest) ← strtok isSpace text
    if cmd = "action" then strtokRest rest else none
  | _ => none

/-- The states that an event goes through: behind each callback for a packet, behind each tuple of
an action, and at its end. -/
inductive During (m : Allocator) (w : Around) (box : Connector) : LiveboxEvent → Connector → Prop
  | callback {data : Bytes} {front : List FilterCallback} {mid : Connector} (part : front <+: box.daemon.filterList)
      (ran : filterDispatch Connector.frame (callFilter w) (front.map fun f => ⟨f, filterChain box f⟩)
        { box with frame := parseMsgF (box.frame.load data) } = some mid) : During m w box (.packet data) mid
  | tuple {event : LiveboxEvent} {args : Bytes} {front : List ActionTuple} (asked : event.action = some args)
      (part : front <+: actionTuples args.length args) : During m w box event (box.act w front)
  | ended {event : LiveboxEvent} {mid : Connector} (ran : box.step m w event = some mid) : During m w box event mid

/-- No input changes, at no time, while an event is processed that may not set one. -/
def InputsUndriven (m : Allocator) (box : Connector) (events : List (Around × LiveboxEvent)) : Prop :=
  ∀ before w event after, events = before ++ (w, event) :: after → event.mayDrive = false →
    ∀ mid, box.run m before = some mid → mid.daemon.died = false → ∀ mid', During m w mid event mid' →
      inputStates mid'.daemon.endpointList = inputStates mid.daemon.endpointList

/-- The endpoint that a tuple finds is no input, or one that has the state it is to be set to. -/
def ActionTuple.LeavesInput (t : ActionTuple) (l : List (Endpoint Handle)) : Prop :=
  ∀ e, l.find? t.names = some e → e.io = .input → (bscSetState e (bscDecodeState (some t.state))).state = e.state

variable {box box' : Connector} {args : Bytes} {event : LiveboxEvent}

theorem inputStates_cons (e : Endpoint Handle) (l : List (Endpoint Handle)) :
    inputStates (e :: l) = (if e.io = .input then [(addrOf e, e.state)] else []) ++ inputStates l := by
  by_cases input : e.io = .input <;> simp [inputStates, input]

/-! ## Changes of one endpoint at a time -/

/-- The same endpoint, and if it is an input, in the same state. -/
structure Spares (e e' : Endpoint Handle) : Prop where
  same : SameIdentity e e'
  state : e.io = .input → e'.state = e.state

theorem Spares.refl (e : Endpoint Handle) : Spares e e := ⟨.refl e, fun _ => rfl⟩

theorem Spares.symm {e e' : Endpoint Handle} (h : Spares e e') : Spares e' e :=
  ⟨h.same.symm, fun input => (h.state (h.same.io.symm.trans input)).symm⟩

theorem Spares.trans {e e' e'' : Endpoint Handle} (h : Spares e e') (h' : Spares e' e'') : Spares e e'' :=
  ⟨h.same.trans h'.same, fun input => (h'.state (h.same.io.trans input)).trans (h.state input)⟩

/-- Endpoint by endpoint, at the same places. -/
abbrev Pointwise (R : Endpoint Handle → Endpoint Handle → Prop) (l l' : List (Endpoint Handle)) : Prop :=
  List.Forall₂ R l l'

section Pointwise

variable {R : Endpoint Handle → Endpoint Handle → Prop} {l l' l'' : List (Endpoint Handle)}

theorem Pointwise.refl (rel : ∀ e, R e e) (l : List (Endpoint Handle)) : Pointwise R l l :=
  forall₂_same.2 fun e _ => rel e

theorem Pointwise.trans (rel : ∀ {e e' e''}, R e e' → R e' e'' → R e e'') (h : Pointwise R l l')
    (h' : Pointwise R l' l'') : Pointwise R l l'' := by
  induction h generalizing l'' with
  | nil => exact h'
  | cons first _ ih =>
    cases h' with
    | cons first' rest' => exact .cons (rel first first') (ih rest')

theorem Pointwise.modifyFirst (rel : ∀ e, R e e) {p : Endpoint Handle → Bool} {f : Endpoint Handle → Endpoint Handle}
    (changed : ∀ e, l.find? p = some e → R e (f e)) : Pointwise R l (modifyFirst p f l) := by
  induction l with
  | nil => exact .nil
  | cons e l ih =>
    unfold Hah.Bsc.modifyFirst
    split_ifs with here
    · exact .cons (changed e (find?_cons_of_pos here)) (Pointwise.refl rel l)
    · exact .cons (rel e) (ih fun e' found => changed e' ((find?_cons_of_neg here).trans found))

theorem Pointwise.atAddr (rel : ∀ e, R e e) {s s' : Daemon} {addr : Nat}
    {change : Endpoint Handle → Option (Endpoint Handle)} (changed : ∀ e e', change e = some e' → R e e')
    (ran : s.atAddr addr change = some s') : Pointwise R s.endpointList s'.endpointList := by
  obtain ⟨e, found, ran⟩ := bind_eq_some_iff.1 ran
  obtain ⟨e', here, ran⟩ := bind_eq_some_iff.1 ran
  cases ran
  apply Pointwise.modifyFirst rel
  intro e'' found'
  cases found.symm.trans found'
  exact changed e e' here

theorem Pointwise.lift {box box' : Connector} {changed : Option Daemon}
    (ran : changed.map (fun daemon => { box with daemon := daemon }) = some box')
    (h : ∀ s', changed = some s' → Pointwise R box.daemon.endpointList s'.endpointList) :
    Pointwise R box.daemon.endpointList box'.daemon.endpointList := by
  obtain ⟨s', here, rfl⟩ := map_eq_some_iff.1 ran
  exact h s' here

end Pointwise

theorem Pointwise.identities {l l' : List (Endpoint Handle)} (h : Pointwise Spares l l') :
    Pointwise SameIdentity l l' :=
  h.imp fun _ _ spares => spares.same

/-- Endpoints that are spared show the same states of inputs. -/
theorem Pointwise.inputStates {l l' : List (Endpoint Handle)} (h : Pointwise Spares l l') :
    inputStates l' = inputStates l := by
  induction h with
  | nil => rfl
  | @cons e e' l l' first _ ih =>
    rw [inputStates_cons, inputStates_cons, ih, first.same.io]
    by_cases input : e.io = .input
    · rw [if_pos input, if_pos input, first.state input, addrOf, addrOf, first.same.device]
    · rw [if_neg input, if_neg input]

/-! ## Handlers -/

theorem cmdURF_identity (ini : Ini) (e : Endpoint Handle) : SameIdentity e (cmdURF ini e) := by
  unfold cmdURF
  dsimp only
  split_ifs
  · exact bscSetState_identity e .unknown
  · exact .refl e

theorem bscSendInfoEvent_identity (w : Around) (e : Endpoint Handle) : SameIdentity e (bscSendInfoEvent w e) := by
  unfold bscSendInfoEvent
  split_ifs <;> exact ⟨rfl, rfl, rfl, rfl, rfl, rfl⟩

theorem bscSendInfoEvent_state (w : Around) (e : Endpoint Handle) : (bscSendInfoEvent w e).state = e.state := by
  unfold bscSendInfoEvent
  split_ifs <;> rfl

theorem bscSendCmdEvent_identity (universalRf : Bool) (w : Around) (e : Endpoint Handle) :
    SameIdentity e (bscSendCmdEvent universalRf w e) := by
  refine SameIdentity.trans ?_ (bscSendInfoEvent_identity w _)
  unfold runCmd
  split_ifs
  · exact cmdURF_identity w.ini e
  · exact .refl e

theorem drive_identity (universalRf : Bool) (w : Around) (e : Endpoint Handle) (t : ActionTuple) :
    SameIdentity e (t.drive universalRf w e) :=
  (bscSetState_identity e _).trans (bscSendCmdEvent_identity universalRf w _)

theorem bscSendInfoEvent_spares (w : Around) (e : Endpoint Handle) : Spares e (bscSendInfoEvent w e) :=
  ⟨bscSendInfoEvent_identity w e, fun _ => bscSendInfoEvent_state w e⟩

/-! ## xAP messages and timeouts -/

theorem callFilter_spares {w : Around} {f : FilterCallback}
    (ran : callFilter w f box = some box') : Pointwise Spares box.daemon.endpointList box'.daemon.endpointList := by
  unfold callFilter at ran
  split at ran
  next addr _ _ =>
    apply Pointwise.lift ran
    intro s' here
    refine Pointwise.atAddr Spares.refl ?_ here
    intro e e' changed
    obtain ⟨⟨e'', sent⟩, command, rfl⟩ := map_eq_some_iff.1 changed
    obtain ⟨same, untouched⟩ := bscIncomingCmd_identity (bscSendCmdEvent_identity box.universalRf w) command
    exact ⟨same, fun input => congrArg Endpoint.state (untouched input)⟩
  next addr _ _ =>
    apply Pointwise.lift ran
    intro s' here
    refine Pointwise.atAddr Spares.refl ?_ here
    intro e e' changed
    cases changed
    exact bscSendInfoEvent_spares w e
  next =>
    cases ran
    exact .refl Spares.refl _
  next =>
    cases ran
    exact .refl Spares.refl _
  next => cases ran

theorem filterDispatch_spares {w : Around} (filterList : List (Registration FilterCallback))
    (ran : filterDispatch Connector.frame (callFilter w) filterList box = some box') :
    Pointwise Spares box.daemon.endpointList box'.daemon.endpointList := by
  induction filterList generalizing box with
  | nil =>
    cases ran
    exact .refl Spares.refl _
  | cons cb filterList ih =>
    unfold filterDispatch at ran
    split_ifs at ran
    · obtain ⟨next, here, rest⟩ := bind_eq_some_iff.1 ran
      exact (callFilter_spares here).trans Spares.trans (ih rest)
    · exact ih ran

/-- **An xAP message** sets no input. -/
theorem handleXapPacket_spares {w : Around} {packet : Bytes} (ran : handleXapPacket w box packet = some box') :
    Pointwise Spares box.daemon.endpointList box'.daemon.endpointList := by
  unfold handleXapPacket at ran
  dsimp only at ran
  split_ifs at ran
  · cases ran
    exact .refl Spares.refl _
  · have dispatched := filterDispatch_spares _ ran
    exact dispatched

/-- The check of a sensor keeps the endpoints, and other timeouts set no input. -/
theorem callTimeout_keeps {w : Around} {due : Bool} {c : TimeoutCallback} (ran : callTimeout w due box c = some box') :
    Pointwise SameIdentity box.daemon.endpointList box'.daemon.endpointList ∧
      (c.callback ≠ .timeoutCheck1wire → Pointwise Spares box.daemon.endpointList box'.daemon.endpointList) := by
  have spared : Pointwise Spares box.daemon.endpointList box'.daemon.endpointList →
      Pointwise SameIdentity box.daemon.endpointList box'.daemon.endpointList ∧
        (c.callback ≠ .timeoutCheck1wire → Pointwise Spares box.daemon.endpointList box'.daemon.endpointList) :=
    fun h => ⟨h.identities, fun _ => h⟩
  unfold callTimeout at ran
  split at ran
  next =>
    cases ran
    exact spared (.refl Spares.refl _)
  next =>
    cases ran
    exact spared (.refl Spares.refl _)
  next addr _ _ =>
    apply spared
    apply Pointwise.lift ran
    intro s' here
    refine Pointwise.atAddr Spares.refl ?_ here
    intro e e' changed
    split_ifs at changed
    · cases changed
      exact bscSendInfoEvent_spares w e
    · cases changed
      exact .refl _
  next check _ =>
    refine ⟨?_, fun other => absurd check other⟩
    apply Pointwise.lift ran
    intro s' here
    refine Pointwise.atAddr SameIdentity.refl ?_ here
    intro e e' changed
    split_ifs at changed
    · cases changed
      exact (bscSetState_identity e .unknown).trans (bscSetText_identity _ _)
    · cases changed
      exact .refl _
  next => cases ran

/-! ## Lines -/

theorem setBits_identities {found : Nat → Endpoint Handle → Bool} {shift : Nat} {old new : Int} (is : List Nat)
    (s : Endpoints Handle) : Pointwise SameIdentity s.list (is.foldl (setBit found shift old new) s).list := by
  induction is generalizing s with
  | nil => exact .refl SameIdentity.refl _
  | cons i is ih =>
    have first : Pointwise SameIdentity s.list (setBit found shift old new s i).list := by
      unfold setBit
      split_ifs
      · exact Pointwise.modifyFirst SameIdentity.refl fun e _ => bscSetState_identity e _
      · exact .refl SameIdentity.refl _
    exact first.trans SameIdentity.trans (ih _)

theorem onDevices_identities {f : Endpoints Device → Endpoints Device} {l : List (Endpoint Handle)}
    (keeps : (f ⟨l.map fun e => { e with device := e.device.device }, []⟩).list.length = l.length) :
    Pointwise SameIdentity l (onDevices f l) := by
  unfold onDevices
  dsimp only
  generalize (f ⟨l.map fun e => { e with device := e.device.device }, []⟩).list = l' at keeps
  induction l generalizing l' with
  | nil => exact .nil
  | cons e l ih =>
    cases l' with
    | nil => cases keeps
    | cons e' l' => exact .cons ⟨rfl, rfl, rfl, rfl, rfl, rfl⟩ (ih l' (Nat.succ.inj keeps))

/-- A line keeps the endpoints. -/
theorem processSerialCommand_identities {w : Around} {line : Bytes}
    (ran : processSerialCommand w box line = some box') :
    Pointwise SameIdentity box.daemon.endpointList box'.daemon.endpointList := by
  unfold processSerialCommand at ran
  split_ifs at ran
  split at ran
  next =>
    cases ran
    exact .refl SameIdentity.refl _
  next args _ =>
    cases ran
    exact setBits_identities (List.range 4) ⟨box.daemon.endpointList, []⟩
  next args _ =>
    cases ran
    apply Pointwise.modifyFirst SameIdentity.refl
    intro e _
    exact ((bscSetState_identity e .on).trans (bscSetText_identity _ _)).trans (bscSendInfoEvent_identity w _)
  next args _ =>
    cases ran
    have looks := congrArg List.length
      (serinPpe_looks ⟨box.daemon.endpointList.map fun e => { e with device := e.device.device }, []⟩ args)
    rw [length_map, length_map, length_map] at looks
    have devices : Pointwise SameIdentity _ (onDevices (serinPpe · args) box.daemon.endpointList) :=
      onDevices_identities looks
    exact devices
  next args _ =>
    cases ran
    exact .refl SameIdentity.refl _

/-! ## RF endpoints are outputs -/

/-- The endpoints with the only handler that sets a state, `cmdURF`, are outputs. -/
def RfOutputs (l : List (Endpoint Handle)) : Prop := ∀ e ∈ l, e.device.device = .rf → e.io = .output

theorem RfOutputs.sublist {l l' : List (Endpoint Handle)} (h : RfOutputs l) (part : l'.Sublist l) : RfOutputs l' :=
  fun e mem => h e (part.subset mem)

theorem RfOutputs.identities {l l' : List (Endpoint Handle)} (h : RfOutputs l)
    (same : List.Forall₂ SameIdentity l l') : RfOutputs l' := by
  induction same with
  | nil => exact h
  | cons first _ ih =>
    intro e mem
    rcases mem_cons.1 mem with rfl | later
    · rw [first.device, first.io]
      exact h _ mem_cons_self
    · exact ih (h.sublist (sublist_cons_self _ _)) e later

theorem RfOutputs.addEndpoint {s : Daemon} (h : RfOutputs s.endpointList) (m : Allocator) (name : Bytes)
    (subaddr : Option Bytes) {io : Io} (type : EndpointType) {device : Device}
    (rf : device = .rf → io = .output) : RfOutputs (s.addEndpoint m name subaddr io type device).endpointList := by
  obtain ⟨e, added, -, dir, -, is, -⟩ := addEndpoint_spec m s name subaddr io type device
  rw [added]
  intro e' mem
  rcases mem_cons.1 mem with rfl | old
  · rw [is, dir]
    exact rf
  · exact h e' old

theorem RfOutputs.foldl {β : Type} {f : Daemon → β → Daemon}
    (turn : ∀ s b, RfOutputs s.endpointList → RfOutputs (f s b).endpointList) (bs : List β) {s : Daemon}
    (h : RfOutputs s.endpointList) : RfOutputs (bs.foldl f s).endpointList :=
  List.foldlRecOn (motive := fun s => RfOutputs s.endpointList) bs f h fun s h b _ => turn s b h

section Start

variable (m : Allocator) (ini : Ini) (major : Int) {s : Daemon}

theorem addSensor_rfOutputs (mode : LoadMode) (i : Nat) (h : RfOutputs s.endpointList) :
    RfOutputs (addSensor m ini major mode s i).endpointList := by
  unfold addSensor
  split_ifs
  · exact h
  · have added : RfOutputs (s.addEndpoint m "1wire" (some (decimal i)) .input .stream .oneWire).endpointList :=
      h.addEndpoint m _ _ _ fun rf => nomatch rf
    dsimp only
    split
    · exact added
    · rw [(watchSensor_endpoints _ _ _ _).1]
      exact added

theorem addOneWire_rfOutputs (mode : LoadMode) (h : RfOutputs s.endpointList) :
    RfOutputs (addOneWireIniEndpoints m ini major mode s).endpointList := by
  have sensors : RfOutputs ((List.range' 1 (oneWireDevices ini major).toNat).foldl (addSensor m ini major mode)
      (s.setEndpointUID 128)).endpointList :=
    RfOutputs.foldl (fun _ i => addSensor_rfOutputs m ini major mode i) _ h
  unfold addOneWireIniEndpoints
  dsimp only
  split_ifs <;> exact sensors

theorem rfOutputs_lasting : Lasting m fun s => RfOutputs s.endpointList :=
  ⟨fun _ _ h => h, fun _ name subaddr _ type _ _ rf h => h.addEndpoint m name subaddr type rf⟩

theorem addSection_rfOutputs (stack : Bytes → Int) (section' : Bytes) (h : RfOutputs s.endpointList) :
    RfOutputs (addSection m ini stack major s section').endpointList := by
  unfold addSection
  split_ifs
  · exact (rfOutputs_lasting m).ppeEndpoints ini _ section' h
  · exact addOneWire_rfOutputs m ini major .delayed h
  · exact (rfOutputs_lasting m).rfEndpoints ini 30 h
  · exact (rfOutputs_lasting m).rfEndpoints ini 3 h
  · exact h

theorem startDaemon_rfOutputs (stack : Bytes → Int) : RfOutputs (startDaemon m ini stack major).endpointList := by
  have board := (rfOutputs_lasting m).boardEndpoints (s := Daemon.init) fun _ mem => absurd mem not_mem_nil
  have created : RfOutputs (createEndpoints m ini stack major).endpointList :=
    RfOutputs.foldl (fun _ section' => addSection_rfOutputs m ini _ stack section') ini.sectionNames board
  have registered : RfOutputs (bscAddEndpointFilterList (createEndpoints m ini stack major) 120).endpointList := by
    refine RfOutputs.foldl (fun s e h => ?_) _ created
    rw [(bscAddEndpointFilter_endpoints 120 s e).1]
    exact h
  unfold startDaemon addRfFilters
  split_ifs <;> exact registered

end Start

/-! ## Requests -/

theorem reset_rfOutputs (m : Allocator) {s : Daemon} (load : Load) (h : RfOutputs s.endpointList) :
    RfOutputs (resetOneWireEndpoints m s load).endpointList := by
  have dropped : ∀ es, RfOutputs ((es : List (Endpoint Handle)).foldl dropSensor s).endpointList := by
    intro es
    refine RfOutputs.foldl (fun s e h => ?_) es h
    unfold dropSensor
    split_ifs
    · exact h.sublist (eraseP_sublist)
    · exact h
  exact addOneWire_rfOutputs m load.ini load.major .immediate (dropped s.endpointList)

/-! ## Actions -/

section Action

variable (universalRf : Bool) (w : Around) (ts : List ActionTuple) {l l' : List (Endpoint Handle)}

theorem names_same {e e' : Endpoint Handle} (same : SameIdentity e e') (t : ActionTuple) : t.names e' = t.names e := by
  unfold ActionTuple.names Endpoint.isNamed
  rw [same.name, same.subaddr]

/-- What a tuple finds is found among endpoints that are spared, too. -/
theorem Pointwise.find (h : Pointwise Spares l l') (t : ActionTuple) {e : Endpoint Handle}
    (found : l.find? t.names = some e) : ∃ e', l'.find? t.names = some e' ∧ Spares e e' := by
  induction h with
  | nil => cases found
  | @cons e₁ e₁' l l' first _ ih =>
    by_cases here : t.names e₁ = true
    · rw [find?_cons_of_pos here] at found
      cases found
      exact ⟨e₁', find?_cons_of_pos ((names_same first.same t).trans here), first⟩
    · rw [find?_cons_of_neg here] at found
      rw [find?_cons_of_neg (by rwa [names_same first.same])]
      exact ih found

/-- A tuple leaves the inputs of endpoints that are spared alike. -/
theorem leavesInput_iff (h : Pointwise Spares l l') (t : ActionTuple) : t.LeavesInput l' ↔ t.LeavesInput l := by
  have back : ∀ {l l'}, Pointwise Spares l l' → t.LeavesInput l' → t.LeavesInput l := by
    intro l l' h leaves e found input
    obtain ⟨e', found', spares⟩ := h.find t found
    have kept := leaves e' found' (spares.same.io.trans input)
    rw [bscSetState_eq, spares.state input] at kept
    rw [bscSetState_eq]
    exact kept
  exact ⟨back h, back (h.flip.imp fun _ _ => Spares.symm)⟩

/-- An input has no handler that sets its state. -/
theorem bscSendCmdEvent_state {e : Endpoint Handle} (output : e.device.device = .rf → e.io = .output)
    (input : e.io = .input) : (bscSendCmdEvent universalRf w e).state = e.state := by
  rw [bscSendCmdEvent, bscSendInfoEvent_state, runCmd, if_neg]
  rintro ⟨-, isRf⟩
  rw [output isRf] at input
  cases input

theorem drive_state {e : Endpoint Handle} (output : e.device.device = .rf → e.io = .output) (input : e.io = .input)
    (t : ActionTuple) :
    (t.drive universalRf w e).state = (bscSetState e (bscDecodeState (some t.state))).state := by
  have same := bscSetState_identity e (bscDecodeState (some t.state))
  exact bscSendCmdEvent_state universalRf w (by rwa [same.device, same.io]) (same.io.trans input)

/-- **One tuple** keeps the states of the inputs exactly if it leaves the one that it finds. -/
theorem actOn_inputStates (rf : RfOutputs l) (t : ActionTuple) :
    inputStates (actOn universalRf w l t) = inputStates l ↔ t.LeavesInput l := by
  induction l with
  | nil => exact iff_of_true rfl fun _ found => nomatch found
  | cons e l ih =>
    rw [actOn, modifyFirst, ActionTuple.LeavesInput]
    by_cases here : t.names e = true
    · have same := drive_identity universalRf w e t
      rw [if_pos here, find?_cons_of_pos here, inputStates_cons, inputStates_cons, same.io]
      by_cases input : e.io = .input
      · rw [if_pos input, if_pos input, drive_state universalRf w (rf e mem_cons_self) input, addrOf, addrOf, same.device]
        simp [input]
      · simp [input]
    · rw [if_neg here, find?_cons_of_neg here, inputStates_cons, inputStates_cons, append_cancel_left_eq]
      exact ih (rf.sublist (sublist_cons_self e l))

theorem actOn_spares (rf : RfOutputs l) {t : ActionTuple} (leaves : t.LeavesInput l) :
    Pointwise Spares l (actOn universalRf w l t) := by
  apply Pointwise.modifyFirst Spares.refl
  intro e found
  refine ⟨drive_identity universalRf w e t, fun input => ?_⟩
  rw [drive_state universalRf w (rf e (mem_of_find?_eq_some found)) input, leaves e found input]

/-- **An action** keeps the states of the inputs at every tuple exactly if each tuple leaves the input
that it finds at the start. -/
theorem actions_inputStates (rf : RfOutputs l) :
    (∀ front, front <+: ts → inputStates (front.foldl (actOn universalRf w) l) = inputStates l) ↔
      ∀ t ∈ ts, t.LeavesInput l := by
  induction ts generalizing l with
  | nil => simp
  | cons t ts ih =>
    have step := actOn_inputStates universalRf w rf t
    constructor
    · intro kept
      have first : inputStates (actOn universalRf w l t) = inputStates l := kept [t] ⟨ts, rfl⟩
      have spares := actOn_spares universalRf w rf (step.1 first)
      refine forall_mem_cons.2 ⟨step.1 first, fun t' mem => (leavesInput_iff spares t').1 ?_⟩
      refine (ih (rf.identities spares.identities)).1 (fun front part => ?_) t' mem
      exact (kept (t :: front) (cons_prefix_cons.2 ⟨rfl, part⟩)).trans first.symm
    · intro leaves front part
      obtain ⟨first, later⟩ := forall_mem_cons.1 leaves
      have spares := actOn_spares universalRf w rf first
      cases front with
      | nil => rfl
      | cons t' front =>
        obtain ⟨rfl, behind⟩ := cons_prefix_cons.1 part
        have rest := (ih (rf.identities spares.identities)).2 fun t mem => (leavesInput_iff spares t).2 (later t mem)
        exact (rest front behind).trans (step.2 first)

end Action

theorem actions_identities (universalRf : Bool) (w : Around) (ts : List ActionTuple) (l : List (Endpoint Handle)) :
    Pointwise SameIdentity l (ts.foldl (actOn universalRf w) l) := by
  induction ts generalizing l with
  | nil => exact .refl SameIdentity.refl l
  | cons t ts ih =>
    have first : Pointwise SameIdentity l (actOn universalRf w l t) :=
      Pointwise.modifyFirst SameIdentity.refl fun e _ => drive_identity universalRf w e t
    exact first.trans SameIdentity.trans (ih _)

theorem msgHandler_action {m : Allocator} {w : Around} {text : Bytes}
    (asked : LiveboxEvent.action (.request text) = some args) :
    msgHandler m w box text = some (msgAction w box args) := by
  obtain ⟨⟨cmd, rest⟩, word, asked⟩ := bind_eq_some_iff.1 asked
  dsimp only at asked
  split_ifs at asked with action
  subst action
  unfold msgHandler
  rw [word]
  dsimp only [bind_eq_bind, bind_some]
  rw [if_neg (by decide), if_neg (by decide), if_neg (by decide), if_neg (by decide), if_pos rfl, asked]
  rfl

/-- A text for the display sets no input. -/
theorem display_spares {w : Around} {e : Endpoint Handle} (args : Bytes)
    (output : e.device.device = .rf → e.io = .output) :
    Spares e (bscSendCmdEvent box.universalRf w (bscSetText e args)) :=
  ⟨(bscSetText_identity e args).trans (bscSendCmdEvent_identity _ w _), bscSendCmdEvent_state (e := bscSetText e args) _ w output⟩

/-- Another request resets the sensors or sets no input. -/
theorem msgHandler_keeps {m : Allocator} {w : Around} {text : Bytes} (rf : RfOutputs box.daemon.endpointList)
    (noAction : LiveboxEvent.action (.request text) = none) (ran : msgHandler m w box text = some box') :
    (requestWord text = "1wirereset" ∧ box'.daemon = resetOneWireEndpoints m box.daemon ⟨w.ini, box.major⟩) ∨
      Pointwise Spares box.daemon.endpointList box'.daemon.endpointList := by
  obtain ⟨⟨cmd, rest⟩, word, ran⟩ := bind_eq_some_iff.1 ran
  dsimp only at ran
  split_ifs at ran with query version fits reset roms action avr lcd
  · obtain ⟨args, -, ran⟩ := bind_eq_some_iff.1 ran
    obtain ⟨name, -, ran⟩ := bind_eq_some_iff.1 ran
    cases ran
    exact .inr (.refl Spares.refl _)
  · cases ran
    exact .inr (.refl Spares.refl _)
  · cases ran
    left
    rw [requestWord, word]
    exact ⟨reset, rfl⟩
  · cases ran
    exact .inr (.refl Spares.refl _)
  · obtain ⟨args, given, ran⟩ := bind_eq_some_iff.1 ran
    have asked : LiveboxEvent.action (.request text) = some args := by
      rw [LiveboxEvent.action, word]
      exact (if_pos action).trans given
    rw [noAction] at asked
    cases asked
  · cases ran
    exact .inr (.refl Spares.refl _)
  · cases found : bscFindEndpoint box.daemon.endpointList "lcd" none with
    | none =>
      rw [found] at ran
      cases ran
      exact .inr (.refl Spares.refl _)
    | some e =>
      rw [found] at ran
      obtain ⟨args, -, ran⟩ := bind_eq_some_iff.1 ran
      cases ran
      right
      apply Pointwise.modifyFirst Spares.refl
      intro e' found'
      exact display_spares args (rf e' (mem_of_find?_eq_some found'))
  · cases ran
    exact .inr (.refl Spares.refl _)

/-! ## Runs -/

/-- **One event** keeps RF endpoints outputs, and sets an input only if it may or is an action. -/
theorem step_keeps {m : Allocator} {w : Around}
    (rf : RfOutputs box.daemon.endpointList) (ran : box.step m w event = some box') :
    RfOutputs box'.daemon.endpointList ∧
      (event.mayDrive = false → event.action = none →
        inputStates box'.daemon.endpointList = inputStates box.daemon.endpointList) := by
  unfold Connector.step at ran
  split_ifs at ran
  cases event with
  | packet data =>
    have spared := handleXapPacket_spares ran
    exact ⟨rf.identities spared.identities, fun _ _ => spared.inputStates⟩
  | request text =>
    cases asked : LiveboxEvent.action (.request text) with
    | none =>
      rcases msgHandler_keeps rf asked ran with ⟨reset, daemon⟩ | spared
      · rw [daemon]
        refine ⟨reset_rfOutputs m _ rf, fun undriven => ?_⟩
        simp [LiveboxEvent.mayDrive, reset] at undriven
      · exact ⟨rf.identities spared.identities, fun _ _ => spared.inputStates⟩
    | some args =>
      have acted := (msgHandler_action asked).symm.trans ran
      cases acted
      exact ⟨rf.identities (actions_identities _ w _ _), fun _ none => nomatch none⟩
  | timeout callback due =>
    dsimp only at ran
    split_ifs at ran
    obtain ⟨same, spared⟩ := callTimeout_keeps ran
    refine ⟨rf.identities same, fun undriven _ => (spared ?_).inputStates⟩
    simpa [LiveboxEvent.mayDrive] using undriven
  | line text => exact ⟨rf.identities (processSerialCommand_identities ran), fun driven => nomatch driven⟩

theorem run_rfOutputs {m : Allocator} (events : List (Around × LiveboxEvent)) (rf : RfOutputs box.daemon.endpointList)
    (ran : box.run m events = some box') : RfOutputs box'.daemon.endpointList := by
  induction events generalizing box with
  | nil =>
    cases ran
    exact rf
  | cons event events ih =>
    obtain ⟨w, event⟩ := event
    obtain ⟨next, step, rest⟩ := bind_eq_some_iff.1 ran
    exact ih (step_keeps rf step).1 rest

theorem startLivebox_rfOutputs (m : Allocator) (ini : Ini) (stack : Bytes → Int) (major minor : Int)
    (source ip : Bytes) : RfOutputs (startLivebox m ini stack major minor source ip).daemon.endpointList := by
  refine (startDaemon_rfOutputs m ini major stack).identities ?_
  exact Pointwise.modifyFirst SameIdentity.refl fun e _ => bscSetText_identity e ip

/-- An action is a request of its own word. -/
theorem action_mayDrive (asked : event.action = some args) : event.mayDrive = false := by
  cases event with
  | request text =>
    obtain ⟨⟨cmd, rest⟩, word, asked⟩ := bind_eq_some_iff.1 asked
    dsimp only at asked
    split_ifs at asked with action
    rw [LiveboxEvent.mayDrive, requestWord, word, map_some, getD_some, action]
    exact (by decide : (ascii "action" == "1wirereset") = false)
  | _ => cases asked

theorem step_action {m : Allocator} {w : Around} (alive : box.daemon.died = false) (asked : event.action = some args) :
    box.step m w event = some (msgAction w box args) := by
  cases event with
  | request text =>
    unfold Connector.step
    rw [if_neg (by simp [alive])]
    exact msgHandler_action asked
  | _ => cases asked

/-- **Inputs are driven by their lines, the checks and resets of sensors, and by `action` requests**:
over every run of the daemon, no other event changes the state of an input, not even for a while, if
and only if no tuple of an `action` request finds an input and has another state for it than it has
when the request comes. -/
theorem inputs_undriven_iff (m : Allocator) (ini : Ini) (stack : Bytes → Int) (major minor : Int)
    (source ip : Bytes) (events : List (Around × LiveboxEvent)) :
    InputsUndriven m (startLivebox m ini stack major minor source ip) events ↔
      ∀ before w event after args, events = before ++ (w, event) :: after → event.action = some args →
        ∀ mid, (startLivebox m ini stack major minor source ip).run m before = some mid → mid.daemon.died = false →
          ∀ t ∈ actionTuples args.length args, t.LeavesInput mid.daemon.endpointList := by
  have outputs : ∀ {before mid}, (startLivebox m ini stack major minor source ip).run m before = some mid →
      RfOutputs mid.daemon.endpointList :=
    fun reached => run_rfOutputs _ (startLivebox_rfOutputs m ini stack major minor source ip) reached
  constructor
  · intro undriven before w event after args split asked mid reached alive
    refine (actions_inputStates mid.universalRf w _ (outputs reached)).1 fun front part => ?_
    exact undriven before w event after split (action_mayDrive asked) mid reached alive _ (.tuple asked part)
  · intro leaves before w event after split undriven mid reached alive mid' during
    have rf := outputs reached
    have acts : ∀ {args front}, event.action = some args → front <+: actionTuples args.length args →
        inputStates (mid.act w front).daemon.endpointList = inputStates mid.daemon.endpointList := fun asked part =>
      (actions_inputStates _ w _ rf).2 (leaves before w event after _ split asked mid reached alive) _ part
    cases during with
    | callback _ ran =>
      have spared := filterDispatch_spares _ ran
      exact spared.inputStates
    | tuple asked part => exact acts asked part
    | ended ran =>
      cases asked : event.action with
      | none => exact (step_keeps rf ran).2 undriven asked
      | some args =>
        cases (step_action alive asked).symm.trans ran
        exact acts asked (prefix_refl _)

def plainAround : Around := ⟨Ini.of [] [], Endpoint.text⟩

def plainLivebox : Connector :=
  startLivebox .rising (Ini.of [] []) (fun _ => 0) 1 0 "dbzoo.livebox.Controller" "10.0.0.1"

/-- The web server switches an input on. -/
theorem input_driven_by_action :
    inputStates plainLivebox.daemon.endpointList = [(5, .unknown), (4, .unknown), (3, .unknown), (2, .unknown)] ∧
      (plainLivebox.step .rising plainAround (.request "action input.1,on")).map
        (fun box => inputStates box.daemon.endpointList) =
          some [(5, .unknown), (4, .unknown), (3, .unknown), (2, .on)] ∧
      ¬ InputsUndriven .rising plainLivebox [(plainAround, .request "action input.1,on")] := by
  have before : inputStates plainLivebox.daemon.endpointList =
      [(5, .unknown), (4, .unknown), (3, .unknown), (2, .unknown)] := by
    decide +kernel
  have after : (plainLivebox.step .rising plainAround (.request "action input.1,on")).map
      (fun box => inputStates box.daemon.endpointList) =
        some [(5, .unknown), (4, .unknown), (3, .unknown), (2, .on)] := by
    decide +kernel
  refine ⟨before, after, fun undriven => ?_⟩
  obtain ⟨box, step, states⟩ := map_eq_some_iff.1 after
  have same := undriven [] plainAround _ [] rfl (by decide +kernel) plainLivebox rfl (by decide +kernel) box (.ended step)
  rw [states, before] at same
  exact absurd same (by decide)

end Hah.Livebox
