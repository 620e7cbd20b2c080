import Mathlib.Data.List.Induction
import Hah.Lib.Registry
import Hah.Lib.Supply
import Hah.XapSerial.Escape

/-!
# The ports of `xap-serial/serial.c`

`Serial.Setup` opens a device, appends an entry to `serialList`, checks five settings and
registers a listener for the descriptor; `Serial.Close` undoes this. A setup that a check
rejects returns between the entry and the listener. `closeSerialPort` looks the listener up by
the descriptor and hands it to `xapDelSocketListener`, which reads through the pointer: for an
entry without a listener the program ends there, and the step is `none`.

`open`, `flock` and `fcntl` succeed. The descriptors come from a `Supply`, which never hands out
one that is open, and so do the addresses of the entries. The settings of the device, its
receive buffer and the log are left out.
-/

namespace Hah.XapSerial
open C Lib List

/-- `struct serialPort` at its address. -/
structure SerialPort where
  addr : Nat
  device : Bytes
  fd : Nat
  deriving DecidableEq, Repr

inductive SocketCallback where
  | handleXapPacket
  | xapSerialRx
  deriving DecidableEq, Repr

/-- `xAPSocketConnection`; no user data is `NULL`. -/
structure SocketConnection where
  fd : Nat
  callback : SocketCallback
  userData : Option Nat
  deriving DecidableEq, Repr

/-- `serialList`, `gXAP->connectionList`, and the number of ports opened so far. -/
structure Ports where
  serialList : List SerialPort
  connectionList : List SocketConnection
  opened : Nat
  deriving DecidableEq, Repr

/-- What a callback does besides: an error message on the bus, a line of the log, a write. -/
inductive Effect where
  | serialError (text : Bytes)
  | err (text : Bytes)
  | write (fd : Nat) (bytes : Bytes)
  deriving DecidableEq, Repr

/-- `open` and `malloc`. -/
structure System where
  descriptors : Supply Nat
  addresses : Supply Nat

/-- The ports when `xapInit` has registered the socket of the bus. -/
def Ports.start (rxSockfd : Nat) : Ports := ⟨[], [⟨rxSockfd, .handleXapPacket, none⟩], 0⟩

def Ports.descriptors (s : Ports) : List Nat := s.serialList.map (·.fd) ++ s.connectionList.map (·.fd)

def findDevice (s : Ports) (device : Bytes) : Option SerialPort :=
  s.serialList.find? (·.device == device)

def xapFindSocketListenerByFD (s : Ports) (fd : Nat) : Option SocketConnection :=
  s.connectionList.find? (·.fd == fd)

/-- `xapDelSocketListener`; `none` for a `NULL` listener. -/
def xapDelSocketListener (s : Ports) (cb : Option SocketConnection) : Option Ports :=
  cb.map fun cb => { s with connectionList := s.connectionList.erase cb }

def xapAddSocketListener (s : Ports) (fd : Nat) (callback : SocketCallback) (data : Option Nat) : Ports :=
  { s with connectionList := ⟨fd, callback, data⟩ :: s.connectionList }

def closeSerialPort (s : Ports) (port : Option Bytes) : Option Ports :=
  match port with
  | none => some s
  | some port =>
    match findDevice s port with
    | none => some s
    | some p =>
      (xapDelSocketListener s (xapFindSocketListenerByFD s p.fd)).map fun s =>
        { s with serialList := s.serialList.eraseP (·.addr == p.addr) }

/-! ## The checks of a setup -/

/-- The section of a `Serial.Setup`; the filter of its callback asks for all of them. -/
structure Setup where
  port : Bytes
  baud : Bytes
  stop : Bytes
  databits : Bytes
  parity : Bytes
  flow : Bytes
  deriving DecidableEq, Repr

/-- A check that reports the value it rejects. -/
def check (accepted : Bool) (complaint : Effect) : Option Effect := if accepted then none else some complaint

def baudRates : List Int :=
  [50, 75, 110, 134, 150, 200, 300, 600, 1200, 1800, 2400, 4800, 9600, 19200, 38400, 57600, 115200]

def checkBaud (m : Setup) : Option Effect :=
  check (atoi m.baud ∈ baudRates) (.serialError ("Invalid speed " ++ m.baud))

def checkFlow (m : Setup) : Option Effect :=
  check (strcasecmpEq "none" m.flow || strcasecmpEq "xonxoff" m.flow)
    (.serialError ("Invalid value flow=" ++ m.flow))

/-- This one is logged and not sent. -/
def checkParity (m : Setup) : Option Effect :=
  check (strcasecmpEq "none" m.parity || strcasecmpEq "even" m.parity ||
      strcasecmpEq "odd" m.parity)
    (.err ("Invalid parity '" ++ m.parity ++ "'"))

def checkStop (m : Setup) : Option Effect :=
  check (atoi m.stop ∈ [1, 2]) (.serialError ("Invalid value stop=" ++ m.stop))

def checkDatabits (m : Setup) : Option Effect :=
  check (atoi m.databits ∈ [5, 6, 7, 8]) (.serialError ("Invalid value databit=" ++ m.databits))

def Setup.rejection (m : Setup) : Option Effect :=
  (checkBaud m).or ((checkFlow m).or ((checkParity m).or ((checkStop m).or (checkDatabits m))))

/-! ## The callbacks -/

/-- `xapSerialSetup` behind `closeSerialPort`. -/
def openSerialPort (os : System) (s : Ports) (m : Setup) : Ports × List Effect :=
  let fd := os.descriptors.pick s.opened s.descriptors
  let p := { addr := os.addresses.pick s.opened (s.serialList.map (·.addr)), device := m.port, fd := fd }
  let s := { s with serialList := s.serialList ++ [p], opened := s.opened + 1 }
  match m.rejection with
  | some complaint => (s, [complaint])
  | none => (xapAddSocketListener s p.fd .xapSerialRx (some p.addr), [])

def xapSerialSetup (os : System) (s : Ports) (m : Setup) : Option (Ports × List Effect) :=
  (closeSerialPort s (some m.port)).map fun s => openSerialPort os s m

def xapSerialClose (s : Ports) (port : Bytes) : Option (Ports × List Effect) :=
  (closeSerialPort s (some port)).map fun s => (s, [])

def xapSerialTx (s : Ports) (port data : Bytes) : Ports × List Effect :=
  match findDevice s port with
  | none => (s, [.serialError ("Device " ++ port ++ " not configured")])
  | some p => (s, [.write p.fd (unescape data)])

inductive SerialMessage where
  | setup (m : Setup)
  | close (port : Bytes)
  | send (port data : Bytes)
  deriving DecidableEq, Repr

def serialStep (os : System) (s : Ports) : SerialMessage → Option (Ports × List Effect)
  | .setup m => xapSerialSetup os s m
  | .close port => xapSerialClose s port
  | .send port data => some (xapSerialTx s port data)

def serialRun (os : System) (s : Ports) : List SerialMessage → Option Ports
  | [] => some s
  | m :: messages => (serialStep os s m).bind fun done => serialRun os done.1 messages

/-! ## Ports and listeners -/

def SerialPort.listener (p : SerialPort) : SocketConnection := ⟨p.fd, .xapSerialRx, some p.addr⟩

/-- Every port has its listener and no other one for its descriptor, every serial listener has its
port, and no device has two ports. -/
structure Sound (s : Ports) : Prop where
  listened : ∀ p ∈ s.serialList, s.connectionList.filter (·.fd == p.fd) = [p.listener]
  owned : ∀ c ∈ s.connectionList, c.callback = .xapSerialRx → ∃ p ∈ s.serialList, c = p.listener
  distinct : (s.serialList.map (·.device)).Nodup

/-- Besides, no two ports are at one address. -/
structure Inv (s : Ports) : Prop extends Sound s where
  addrs : (s.serialList.map (·.addr)).Nodup

theorem Inv.start (rxSockfd : Nat) : Inv (Ports.start rxSockfd) where
  listened p mem := absurd mem not_mem_nil
  owned c mem serial := by
    rw [mem_singleton.1 mem] at serial
    cases serial
  distinct := nodup_nil
  addrs := nodup_nil

section Close

variable {s : Ports} {p : SerialPort}

theorem Sound.listener_mem (h : Sound s) (mem : p ∈ s.serialList) : p.listener ∈ s.connectionList := by
  have one : p.listener ∈ s.connectionList.filter (·.fd == p.fd) := by
    rw [h.listened p mem]
    exact mem_singleton.2 rfl
  exact mem_of_mem_filter one

/-- A connection with the descriptor of a port is its listener. -/
theorem Sound.listener_eq (h : Sound s) (mem : p ∈ s.serialList) {c : SocketConnection}
    (memC : c ∈ s.connectionList) (same : c.fd = p.fd) : c = p.listener := by
  have passes : c ∈ s.connectionList.filter (·.fd == p.fd) := mem_filter.2 ⟨memC, by simp [same]⟩
  rw [h.listened p mem] at passes
  exact mem_singleton.1 passes

/-- The listener that `closeSerialPort` finds. -/
theorem Sound.find_listener (h : Sound s) (mem : p ∈ s.serialList) :
    xapFindSocketListenerByFD s p.fd = some p.listener := by
  unfold xapFindSocketListenerByFD
  rw [← head?_filter, h.listened p mem]
  rfl

/-- Deleting the listener of a port leaves the connections with other descriptors. -/
theorem Sound.erase_listener (h : Sound s) (mem : p ∈ s.serialList) :
    s.connectionList.erase p.listener = s.connectionList.filter fun c => !(c.fd == p.fd) := by
  have isListener : ∀ c ∈ s.connectionList, (c == p.listener) = (c.fd == p.fd) := by
    intro c memC
    by_cases same : c.fd = p.fd
    · simp [h.listener_eq mem memC same, SerialPort.listener]
    · have other : c ≠ p.listener := fun equal => same (by rw [equal]; rfl)
      simp [same, other]
  have once : s.connectionList.countP (· == p.listener) ≤ 1 := by
    rw [countP_congr fun c memC => by rw [isListener c memC], countP_eq_length_filter,
      h.listened p mem]
    exact Nat.le_refl 1
  have erased := eraseP_iterate 1 s.connectionList once
  rw [Function.iterate_one] at erased
  rw [erase_eq_eraseP', erased]
  exact filter_congr fun c memC => by rw [isListener c memC]

/-- Ports with one descriptor have one listener, and its user data is the address of both. -/
theorem Inv.fd_inj (h : Inv s) {q : SerialPort} (memP : p ∈ s.serialList) (memQ : q ∈ s.serialList)
    (same : q.fd = p.fd) : q = p := by
  have listener := h.listener_eq memP (h.listener_mem memQ) same
  have addr := Option.some.inj (congrArg SocketConnection.userData listener)
  exact inj_on_of_nodup_map h.addrs memQ memP addr

theorem Inv.unlink (h : Inv s) :
    s.serialList.eraseP (·.addr == p.addr) = s.serialList.filter fun q => !(q.addr == p.addr) := by
  have once : s.serialList.countP (·.addr == p.addr) ≤ 1 := by
    rw [show s.serialList.countP (·.addr == p.addr) = (s.serialList.map (·.addr)).count p.addr by
      rw [List.count, countP_map]; rfl]
    exact nodup_iff_count_le_one.1 h.addrs p.addr
  have erased := eraseP_iterate 1 s.serialList once
  rwa [Function.iterate_one] at erased

/-- **Closing a port** takes its entry and its listener and no others. -/
theorem Inv.drop (h : Inv s) (mem : p ∈ s.serialList) :
    Inv { s with
      connectionList := s.connectionList.filter fun c => !(c.fd == p.fd)
      serialList := s.serialList.filter fun q => !(q.addr == p.addr) } where
  listened q memQ := by
    obtain ⟨old, other⟩ := mem_filter.1 memQ
    have different : q.fd ≠ p.fd := by
      intro same
      rw [h.fd_inj mem old same] at other
      simp at other
    rw [← h.listened q old, filter_filter]
    apply filter_congr
    intro c _
    by_cases here : c.fd = q.fd
    · simp [here, different]
    · simp [here]
  owned c memC serial := by
    obtain ⟨old, other⟩ := mem_filter.1 memC
    obtain ⟨q, memQ, rfl⟩ := h.owned c old serial
    refine ⟨q, mem_filter.2 ⟨memQ, ?_⟩, rfl⟩
    have different : q.addr ≠ p.addr := by
      intro same
      rw [inj_on_of_nodup_map h.addrs memQ mem same] at other
      simp [SerialPort.listener] at other
    simp [different]
  distinct := h.distinct.sublist (filter_sublist.map _)
  addrs := h.addrs.sublist (filter_sublist.map _)

theorem Inv.close (h : Inv s) (port : Bytes) :
    ∃ s', closeSerialPort s (some port) = some s' ∧ Inv s' ∧ port ∉ s'.serialList.map (·.device) := by
  cases found : findDevice s port with
  | none =>
    refine ⟨s, by simp [closeSerialPort, found], h, ?_⟩
    intro known
    obtain ⟨q, mem, same⟩ := mem_map.1 known
    have other := find?_eq_none.1 found q mem
    simp [same] at other
  | some p =>
    have mem := mem_of_find?_eq_some found
    have device : p.device = port := by simpa using find?_some found
    refine ⟨_, ?_, h.drop mem, ?_⟩
    · simp only [closeSerialPort, found, h.find_listener mem, xapDelSocketListener, Option.map_some,
        h.erase_listener mem, h.unlink]
    · intro known
      obtain ⟨q, memQ, same⟩ := mem_map.1 known
      obtain ⟨old, other⟩ := mem_filter.1 memQ
      rw [inj_on_of_nodup_map h.distinct old mem (same.trans device.symm)] at other
      simp at other

end Close

/-! ## Opening -/

section Open

variable {s : Ports} (os : System) (m : Setup)

def newPort (os : System) (s : Ports) (m : Setup) : SerialPort :=
  { addr := os.addresses.pick s.opened (s.serialList.map (·.addr))
    device := m.port
    fd := os.descriptors.pick s.opened s.descriptors }

theorem newPort_fd : (newPort os s m).fd ∉ s.serialList.map (·.fd) ∧
    (newPort os s m).fd ∉ s.connectionList.map (·.fd) := by
  have fresh := os.descriptors.fresh s.opened s.descriptors
  rw [Ports.descriptors, mem_append, not_or] at fresh
  exact fresh

theorem newPort_unheard : s.connectionList.filter (·.fd == (newPort os s m).fd) = [] := by
  rw [filter_eq_nil_iff]
  intro c mem same
  apply (newPort_fd os m).2
  rw [← show c.fd = _ from beq_iff_eq.1 same]
  exact mem_map_of_mem mem

/-- A setup that passes its checks adds a port with its listener. -/
theorem Inv.accept (h : Inv s) (unknown : m.port ∉ s.serialList.map (·.device)) (accepted : m.rejection = none) :
    Inv (openSerialPort os s m).1 := by
  obtain ⟨freshPort, freshConnection⟩ := newPort_fd (s := s) os m
  have opened : (openSerialPort os s m).1 =
      { serialList := s.serialList ++ [newPort os s m]
        connectionList := (newPort os s m).listener :: s.connectionList
        opened := s.opened + 1 } := by
    simp only [openSerialPort, accepted]
    rfl
  rw [opened]
  refine { listened := ?_, owned := ?_, distinct := ?_, addrs := ?_ }
  · intro p mem
    rcases mem_append.1 mem with old | new
    · have other : (newPort os s m).fd ≠ p.fd := fun same => freshPort (same ▸ mem_map_of_mem old)
      rw [filter_cons_of_neg (by simpa [SerialPort.listener] using other)]
      exact h.listened p old
    · rw [mem_singleton.1 new, filter_cons_of_pos (by simp [SerialPort.listener]), newPort_unheard]
  · intro c mem serial
    rcases mem_cons.1 mem with rfl | old
    · exact ⟨_, mem_append_right _ (mem_singleton.2 rfl), rfl⟩
    · obtain ⟨p, memP, same⟩ := h.owned c old serial
      exact ⟨p, mem_append_left _ memP, same⟩
  · rw [map_append, nodup_append]
    refine ⟨h.distinct, nodup_singleton _, ?_⟩
    rintro device known _ mem rfl
    have same : device = m.port := mem_singleton.1 mem
    exact unknown (same ▸ known)
  · rw [map_append, nodup_append]
    refine ⟨h.addrs, nodup_singleton _, ?_⟩
    rintro addr known _ mem rfl
    have same := mem_singleton.1 mem
    exact os.addresses.fresh _ _ (same ▸ known)

/-- A rejected setup leaves a port that nobody listens to. -/
theorem reject_unsound {complaint : Effect} (rejected : m.rejection = some complaint) :
    ¬ Sound (openSerialPort os s m).1 := by
  intro sound
  have opened : (openSerialPort os s m).1 =
      { s with serialList := s.serialList ++ [newPort os s m], opened := s.opened + 1 } := by
    simp only [openSerialPort, rejected]
    rfl
  rw [opened] at sound
  have listened := sound.listened (newPort os s m) (mem_append_right _ (mem_singleton.2 rfl))
  rw [newPort_unheard] at listened
  cases listened

end Open

/-! ## Runs -/

def SerialMessage.Accepted : SerialMessage → Prop
  | .setup m => m.rejection = none
  | _ => True

theorem Inv.step {s : Ports} (h : Inv s) (os : System) {message : SerialMessage} (accepted : message.Accepted) :
    ∃ done, serialStep os s message = some done ∧ Inv done.1 := by
  cases message with
  | setup m =>
    obtain ⟨s', closed, inv, unknown⟩ := h.close m.port
    exact ⟨openSerialPort os s' m, by simp [serialStep, xapSerialSetup, closed], inv.accept os m unknown accepted⟩
  | close port =>
    obtain ⟨s', closed, inv, -⟩ := h.close port
    exact ⟨(s', []), by simp [serialStep, xapSerialClose, closed], inv⟩
  | send port data =>
    have kept : (xapSerialTx s port data).1 = s := by
      unfold xapSerialTx
      split <;> rfl
    exact ⟨xapSerialTx s port data, rfl, by rwa [kept]⟩

theorem Inv.run {s : Ports} (h : Inv s) (os : System) {messages : List SerialMessage}
    (accepted : ∀ message ∈ messages, message.Accepted) : ∃ s', serialRun os s messages = some s' ∧ Inv s' := by
  induction messages generalizing s with
  | nil => exact ⟨s, rfl, h⟩
  | cons message messages ih =>
    obtain ⟨acceptedFirst, acceptedRest⟩ := forall_mem_cons.1 accepted
    obtain ⟨done, step, inv⟩ := h.step os acceptedFirst
    obtain ⟨s', run, inv'⟩ := ih inv acceptedRest
    exact ⟨s', by simp [serialRun, step, run], inv'⟩

theorem serialRun_append (os : System) (s : Ports) (front back : List SerialMessage) :
    serialRun os s (front ++ back) = (serialRun os s front).bind fun s => serialRun os s back := by
  induction front generalizing s with
  | nil => rfl
  | cons message front ih =>
    rw [cons_append, serialRun, serialRun]
    cases serialStep os s message with
    | none => rfl
    | some done => exact ih done.1

/-- What should hold after the messages `done`: the program runs, the registry is sound, and if the
last message was a setup that was rejected, there is no port for its device. -/
def InOrder (os : System) (rxSockfd : Nat) (done : List SerialMessage) : Prop :=
  ∃ s, serialRun os (Ports.start rxSockfd) done = some s ∧ Sound s ∧
    ∀ front m, done = front ++ [.setup m] → m.rejection ≠ none → m.port ∉ s.serialList.map (·.device)

theorem all_accepted {messages : List SerialMessage} (accepted : ∀ m, .setup m ∈ messages → m.rejection = none) :
    ∀ message ∈ messages, message.Accepted := by
  intro message mem
  cases message with
  | setup m => exact accepted m mem
  | close port => trivial
  | send port data => trivial

/-- A rejected setup behind accepted ones leaves disorder. -/
theorem InOrder.accepts {os : System} {rxSockfd : Nat} {done : List SerialMessage} {m : Setup}
    (h : InOrder os rxSockfd (done ++ [.setup m])) (accepted : ∀ message ∈ done, message.Accepted) :
    m.rejection = none := by
  cases rejected : m.rejection with
  | none => rfl
  | some complaint =>
    exfalso
    obtain ⟨s, run, inv⟩ := (Inv.start rxSockfd).run os accepted
    obtain ⟨s', closed, -, -⟩ := inv.close m.port
    obtain ⟨t, reached, sound, -⟩ := h
    have last : serialRun os (Ports.start rxSockfd) (done ++ [.setup m]) = some (openSerialPort os s' m).1 := by
      rw [serialRun_append, run]
      simp [serialRun, serialStep, xapSerialSetup, closed]
    rw [last, Option.some.injEq] at reached
    rw [← reached] at sound
    exact reject_unsound os m rejected sound

/-- **The registry stays in order if and only if no setup is rejected.** -/
theorem registry_in_order_iff (os : System) (rxSockfd : Nat) (messages : List SerialMessage) :
    (∀ done rest, messages = done ++ rest → InOrder os rxSockfd done) ↔
      ∀ m, .setup m ∈ messages → m.rejection = none := by
  constructor
  · intro inOrder
    induction messages using List.reverseRecOn with
    | nil => exact fun m mem => absurd mem not_mem_nil
    | append_singleton done last ih =>
      have earlier := ih fun front rest split =>
        inOrder front (rest ++ [last]) (by rw [split, append_assoc])
      intro m mem
      rcases mem_append.1 mem with before | now
      · exact earlier m before
      · have whole := inOrder _ [] (append_nil _).symm
        rw [← mem_singleton.1 now] at whole
        exact whole.accepts (all_accepted earlier)
  · intro accepted done rest split
    have all := all_accepted fun m mem => accepted m (by rw [split]; exact mem_append_left _ mem)
    obtain ⟨s, run, inv⟩ := (Inv.start rxSockfd).run os all
    refine ⟨s, run, inv.toSound, ?_⟩
    rintro front m rfl rejected
    exact absurd (all (.setup m) (by simp)) rejected

def ttyS0 : Setup :=
  { port := "/dev/ttyS0", baud := "9600", stop := "1", databits := "8",
    parity := "none", flow := "none" }

def rising : System := ⟨.rising, .rising⟩

/-- A setup with an unknown speed leaves a port without a listener, and the next message that closes
the device ends the program. -/
theorem rejected_setup_lingers :
    (serialRun rising (Ports.start 3) [.setup { ttyS0 with baud := "1" }] =
        some ⟨[⟨1, "/dev/ttyS0", 4⟩], [⟨3, .handleXapPacket, none⟩], 1⟩ ∧
      ¬ InOrder rising 3 [.setup { ttyS0 with baud := "1" }]) ∧
    serialRun rising (Ports.start 3) [.setup { ttyS0 with baud := "1" }, .close "/dev/ttyS0"] =
      none := by
  refine ⟨⟨by decide, ?_⟩, by decide⟩
  intro inOrder
  have behindNothing : InOrder rising 3 ([] ++ [.setup { ttyS0 with baud := "1" }]) := inOrder
  have accepted := behindNothing.accepts fun _ mem => absurd mem not_mem_nil
  revert accepted
  decide

end Hah.XapSerial
