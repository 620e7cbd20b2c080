import Hah.Lib.ByteStuffing

/-!
# `xAPSerial.cpp`

`unframeSerialMsg` takes a byte of the serial line at a time and collects a framed message
in the buffer of `setBuffer`. A byte may be looked at in two states within one call, a full
buffer is only noticed at the next call, and behind a frame the pointer is set back by the
four bytes of the checksum, possibly to before the buffer.

Addresses are integers and `NULL` is 0. `stores` records the addresses that are written.
The machine is a receiver of frames with escaped marks whose limit is the size of the buffer
(`Follows`): what it has collected lies at the start of the buffer, and the pointer behind it.
-/

namespace Hah.Arduino
open Lib List

def STX : UInt8 := 2
def ETX : UInt8 := 3
def ESC : UInt8 := 27

inductive UnframeState where
  | start
  | compile
  | compileEsc
  | finish
  deriving DecidableEq, Repr

/-- `XapSerial`, with the memory it points into. -/
structure XapSerial where
  state : UnframeState
  p : Int
  xapRaw : Int
  xapRawSize : Int
  mem : Int → UInt8
  stores : List Int

namespace XapSerial

def new (mem : Int → UInt8) : XapSerial :=
  { state := .start, p := 0, xapRaw := 0, xapRawSize := 0, mem := mem, stores := [] }

def setBuffer (x : XapSerial) (p s : Int) : XapSerial := { x with xapRaw := p, xapRawSize := s }

/-- `*p = c`. -/
def put (x : XapSerial) (c : UInt8) : XapSerial :=
  { x with mem := fun a => if a = x.p then c else x.mem a, stores := x.stores ++ [x.p] }

/-- One turn of the loop: what is returned, or nothing where the `switch` is left. -/
def pass (x : XapSerial) (ch : UInt8) : XapSerial × Option (Option Int) :=
  match x.state with
  | .start => (if ch = STX then { x with state := .compile, p := x.xapRaw } else x, some none)
  | .compile =>
    if ch = STX then ({ x with state := .start }, none)
    else if ch = ETX then ({ x with state := .finish }, none)
    else if ch = ESC then ({ x with state := .compileEsc }, some none)
    else ({ x.put ch with p := x.p + 1 }, some none)
  | .compileEsc => ({ x.put ch with p := x.p + 1, state := .compile }, some none)
  | .finish =>
    let ended := { x.put 0 with state := .start, p := x.p - 4 }
    if ended.p < ended.xapRaw then (ended, some none) else (ended.put 0, some (some x.xapRaw))

/-- `while(1)`, for as many turns. -/
def passes : Nat → XapSerial → UInt8 → Option (XapSerial × Option Int)
  | 0, _, _ => none
  | turns + 1, x, ch =>
    match x.pass ch with
    | (next, some result) => some (next, result)
    | (next, none) => passes turns next ch

/-- The check for an unset buffer or an over-run. -/
def restart (x : XapSerial) : XapSerial :=
  if x.xapRaw = 0 ∨ x.xapRaw + x.xapRawSize ≤ x.p then { x with state := .start } else x

/-- `unframeSerialMsg`; no state is looked at after two turns. -/
def unframeSerialMsg (x : XapSerial) (ch : UInt8) : Option (XapSerial × Option Int) := passes 2 x.restart ch

/-- The calls for a stream of bytes, and what each returned. -/
def feed : XapSerial → List UInt8 → Option (XapSerial × List (Option Int))
  | x, [] => some (x, [])
  | x, ch :: stream => do
    let (next, result) ← x.unframeSerialMsg ch
    let (last, results) ← feed next stream
    return (last, result :: results)

end XapSerial

/-! ## Frames -/

def serialMarks : Marks UInt8 where
  opening := STX
  closing := ETX
  escape := ESC
  opening_closing := by decide
  opening_escape := by decide
  closing_escape := by decide

section Buffer

variable {base : Int} {size : Nat}

def Begins (x : XapSerial) (data : List UInt8) : Prop :=
  ∀ i (hi : i < data.length), x.mem (x.xapRaw + i) = data[i]

/-- What is collected lies in the buffer, and the pointer behind it. -/
structure Collected (x : XapSerial) (size : Nat) (data : List UInt8) : Prop where
  pointer : x.p = x.xapRaw + data.length
  fits : data.length ≤ size
  begins : Begins x data

/-- The receiver that the machine is. -/
def Follows (size : Nat) (x : XapSerial) : Receiver UInt8 → Prop
  | .idle => x.state = .start
  | .taking data => x.state = .compile ∧ Collected x size data
  | .escaped data => x.state = .compileEsc ∧ Collected x size data

/-- The buffer is the one that was set, and nothing outside of it was written. -/
structure Safe (base : Int) (size : Nat) (x : XapSerial) : Prop where
  buffer : x.xapRaw = base ∧ x.xapRawSize = size
  stores : ∀ a ∈ x.stores, base ≤ a ∧ a < base + size

/-- What a call returns when the receiver hands out `out`: the buffer, without the last four
bytes, or `NULL`. -/
def Returns (x : XapSerial) (out : Option (List UInt8)) (result : Option Int) : Prop :=
  match out with
  | none => result = none
  | some data =>
    if data.length < 4 then result = none
    else result = some x.xapRaw ∧ x.p = x.xapRaw + (data.length - 4 : Nat) ∧
      Begins x (data.take (data.length - 4)) ∧ x.mem x.p = 0

variable {x : XapSerial} {data : List UInt8} {r : Receiver UInt8}

/-- A store at a place of the buffer. -/
theorem Safe.put (h : Safe base size x) (c : UInt8) (inside : base ≤ x.p ∧ x.p < base + size) :
    Safe base size (x.put c) := by
  refine ⟨h.buffer, fun a ha => ?_⟩
  rcases mem_append.1 ha with old | new
  · exact h.stores a old
  · rw [mem_singleton.1 new]
    exact inside

/-- Where the next byte goes. -/
theorem Collected.inside (h : Collected x size data) (safe : Safe base size x) (room : data.length < size) :
    base ≤ x.p ∧ x.p < base + size := by
  rw [h.pointer, safe.buffer.1]
  omega

/-- `*p++ = ch`. -/
theorem Collected.put (h : Collected x size data) (room : data.length < size) (ch : UInt8) (state : UnframeState) :
    Collected { x.put ch with p := x.p + 1, state := state } size (data ++ [ch]) := by
  have pointer := h.pointer
  refine ⟨?_, by simp; omega, fun i hi => ?_⟩
  · simp only [XapSerial.put, length_append, length_singleton]
    omega
  · simp only [XapSerial.put]
    rw [length_append, length_singleton] at hi
    rcases Nat.lt_or_ge i data.length with old | new
    · rw [if_neg (by omega), h.begins i old, getElem_append_left old]
    · rw [if_pos (by omega)]
      simp [show i = data.length by omega]

/-- The check at the start of a call gives up what has reached the end of the buffer. -/
theorem Follows.restart (h : Follows size x r) (safe : Safe base size x)
    (nonNull : 0 < base) : Follows size x.restart (r.giveUp size) ∧ Safe base size x.restart := by
  have set : ¬ x.xapRaw = 0 := by
    rw [safe.buffer.1]
    omega
  have full : ∀ data, Collected x size data → (x.xapRaw + x.xapRawSize ≤ x.p ↔ size ≤ data.length) := by
    intro data collected
    rw [collected.pointer, safe.buffer.2]
    omega
  have kept : Safe base size x.restart := by
    unfold XapSerial.restart
    split
    · exact ⟨safe.buffer, safe.stores⟩
    · exact safe
  refine ⟨?_, kept⟩
  unfold XapSerial.restart
  cases r with
  | idle =>
    split
    · exact rfl
    · exact h
  | taking data =>
    simp only [set, false_or, full data h.2, Receiver.giveUp]
    split
    · exact rfl
    · exact h
  | escaped data =>
    simp only [set, false_or, full data h.2, Receiver.giveUp]
    split
    · exact rfl
    · exact h

/-- The end of a frame. -/
theorem Collected.finish (h : Collected x size data) (safe : Safe base size x) (room : data.length < size)
    (ch : UInt8) : ∃ y result, ({ x with state := .finish } : XapSerial).pass ch = (y, some result) ∧
      Safe base size y ∧ y.state = .start ∧ Returns y (some data) result := by
  have pointer := h.pointer
  have buffer := safe.buffer.1
  have ended : Safe base size { x.put 0 with state := .start, p := x.p - 4 } := by
    obtain ⟨same, stores⟩ := safe.put 0 (h.inside safe room)
    exact ⟨same, stores⟩
  simp only [XapSerial.pass]
  by_cases short : data.length < 4
  · refine ⟨_, none, if_pos ?_, ended, rfl, ?_⟩
    · simp only [XapSerial.put]
      omega
    · simp only [Returns, if_pos short]
  · refine ⟨_, some x.xapRaw, if_neg ?_, ended.put 0 ?_, rfl, ?_⟩
    · simp only [XapSerial.put]
      omega
    · simp only
      omega
    · simp only [Returns, if_neg short]
      refine ⟨rfl, ?_, fun i hi => ?_, ?_⟩
      · simp only [XapSerial.put]
        omega
      · rw [length_take] at hi
        simp only [XapSerial.put]
        rw [if_neg (by omega), if_neg (by omega), h.begins i (by omega), getElem_take]
      · simp only [XapSerial.put]
        exact if_pos trivial

/-- A call as the receiver's step, behind the check. -/
theorem Follows.take (h : Follows size x r) (safe : Safe base size x) (room : r.data.length < size) (ch : UInt8) :
    ∃ y result, XapSerial.passes 2 x ch = some (y, result) ∧ Safe base size y ∧
      Follows size y (r.take serialMarks ch).1 ∧ Returns y (r.take serialMarks ch).2 result := by
  have opened : Follows size { x with state := .compile, p := x.xapRaw } (.taking []) :=
    ⟨rfl, by simp, Nat.zero_le size, fun i hi => absurd hi (Nat.not_lt_zero i)⟩
  have stored : ∀ data state, Collected x size data → data.length < size →
      Safe base size { x.put ch with p := x.p + 1, state := state } := by
    intro data state collected room
    obtain ⟨same, stores⟩ := safe.put ch (collected.inside safe room)
    exact ⟨same, stores⟩
  cases r with
  | idle =>
    have state : x.state = .start := h
    by_cases stx : ch = STX
    · have taken : Receiver.idle.take serialMarks ch = (.taking [], none) := by
        rw [stx]
        exact Receiver.idle_opening
      rw [taken]
      refine ⟨{ x with state := .compile, p := x.xapRaw }, none, ?_, ⟨safe.buffer, safe.stores⟩, opened, rfl⟩
      simp [XapSerial.passes, XapSerial.pass, state, stx]
    · have taken : Receiver.idle.take serialMarks ch = (.idle, none) := Receiver.idle_other stx
      rw [taken]
      refine ⟨x, none, ?_, safe, h, rfl⟩
      simp [XapSerial.passes, XapSerial.pass, state, stx]
  | taking data =>
    obtain ⟨state, collected⟩ := h
    by_cases stx : ch = STX
    · -- the byte is looked at again in the state `start`
      have taken : (Receiver.taking data).take serialMarks ch = (.taking [], none) := by
        rw [stx]
        exact Receiver.taking_opening data
      rw [taken]
      refine ⟨{ x with state := .compile, p := x.xapRaw }, none, ?_, ⟨safe.buffer, safe.stores⟩, opened, rfl⟩
      simp [XapSerial.passes, XapSerial.pass, state, stx]
    · by_cases etx : ch = ETX
      · have taken : (Receiver.taking data).take serialMarks ch = (.idle, some data) := by
          rw [etx]
          exact Receiver.taking_closing data
        obtain ⟨y, result, returned, kept, start, returns⟩ := collected.finish safe room ch
        rw [taken]
        refine ⟨y, result, ?_, kept, start, returns⟩
        rw [XapSerial.passes]
        simp only [XapSerial.pass, state, if_neg stx, if_pos etx]
        rw [XapSerial.passes, returned]
      · by_cases esc : ch = ESC
        · have taken : (Receiver.taking data).take serialMarks ch = (.escaped data, none) := by
            rw [esc]
            exact Receiver.taking_escape data
          rw [taken]
          refine ⟨{ x with state := .compileEsc }, none, ?_, ⟨safe.buffer, safe.stores⟩,
            ⟨rfl, collected.pointer, collected.fits, collected.begins⟩, rfl⟩
          simp only [XapSerial.passes, XapSerial.pass, state, if_neg stx, if_neg etx, if_pos esc]
        · have taken : (Receiver.taking data).take serialMarks ch = (.taking (data ++ [ch]), none) :=
            Receiver.taking_other data ⟨stx, etx, esc⟩
          rw [taken]
          refine ⟨{ x.put ch with p := x.p + 1, state := .compile }, none, ?_, stored data _ collected room,
            ⟨rfl, collected.put room ch .compile⟩, rfl⟩
          simp only [XapSerial.passes, XapSerial.pass, XapSerial.put, state, if_neg stx, if_neg etx, if_neg esc]
  | escaped data =>
    obtain ⟨state, collected⟩ := h
    refine ⟨{ x.put ch with p := x.p + 1, state := .compile }, none, ?_, stored data _ collected room,
      ⟨rfl, collected.put room ch .compile⟩, rfl⟩
    simp only [XapSerial.passes, XapSerial.pass, state]

/-- **One call is one step of the receiver.** -/
theorem Follows.step (h : Follows size x r) (safe : Safe base size x) (nonNull : 0 < base)
    (room : 1 ≤ size) (ch : UInt8) :
    ∃ y result, x.unframeSerialMsg ch = some (y, result) ∧ Safe base size y ∧
      Follows size y (r.receive serialMarks size ch).1 ∧ Returns y (r.receive serialMarks size ch).2 result := by
  obtain ⟨checked, kept⟩ := h.restart safe nonNull
  exact checked.take kept (r.giveUp_room room) ch

/-- **A stream**: the machine stays safe, follows the receiver, and its last call returns what
the receiver hands out last. -/
theorem Follows.feed (stream : List UInt8) : ∀ {x : XapSerial} {r : Receiver UInt8}, Follows size x r →
    Safe base size x → 0 < base → 1 ≤ size →
    ∃ y results, x.feed stream = some (y, results) ∧ Safe base size y ∧
      Follows size y (r.run serialMarks size stream).1 ∧
      ∀ outs last, (r.run serialMarks size stream).2 = List.replicate outs none ++ [last] →
        ∃ result, results = List.replicate outs none ++ [result] ∧ Returns y last result := by
  induction stream with
  | nil => exact fun h safe _ _ => ⟨_, [], rfl, safe, h, fun outs last none => by simp [Receiver.run] at none⟩
  | cons ch stream ih =>
    intro x r h safe nonNull room
    obtain ⟨y, result, call, kept, follows, returns⟩ := h.step safe nonNull room ch
    obtain ⟨z, results, rest, safe', follows', handed⟩ := ih follows kept nonNull room
    refine ⟨z, result :: results, ?_, safe', follows', fun outs last out => ?_⟩
    · simp [XapSerial.feed, call, rest]
    · rw [Receiver.run_cons] at out
      cases outs with
      | zero =>
        -- the last byte: nothing is left of the stream
        obtain ⟨same, ended⟩ := List.cons.inj out
        have length := Receiver.run_length serialMarks size (r.receive serialMarks size ch).1 stream
        rw [ended, length_nil] at length
        obtain rfl := eq_nil_of_length_eq_zero length.symm
        obtain ⟨rfl, rfl⟩ : y = z ∧ [] = results := by simpa [XapSerial.feed] using rest
        exact ⟨result, rfl, same ▸ returns⟩
      | succ outs =>
        rw [replicate_succ, cons_append] at out
        obtain ⟨nothing, later⟩ := List.cons.inj out
        obtain ⟨end_, rfl, returned⟩ := handed outs last later
        rw [nothing] at returns
        obtain rfl : result = none := returns
        exact ⟨end_, rfl, returned⟩

/-- Outside of an escape the machine follows no receiver that is in one. -/
theorem Follows.plain (h : Follows size x r) (plain : x.state ≠ .compileEsc) : ∀ data, r ≠ .escaped data := by
  rintro data rfl
  exact plain h.1

end Buffer

/-- **Unframing**: after any bytes only the buffer has been written, and unless they end in the
middle of an escape, a frame that fits is then returned at its last byte, without its trailer. -/
theorem unframe_inverts_frame (mem : Int → UInt8) (base : Int) (nonNull : 0 < base) (size : Nat)
    (room : 1 ≤ size) (earlier : List UInt8) :
    ∃ y results, ((XapSerial.new mem).setBuffer base size).feed earlier = some (y, results) ∧
      (∀ a ∈ y.stores, base ≤ a ∧ a < base + size) ∧
      (y.state ≠ .compileEsc → ∀ payload trailer : List UInt8, trailer.length = 4 →
        payload.length + 4 ≤ size - 1 →
        ∃ z, y.feed (serialMarks.frame (payload ++ trailer)) =
            some (z, List.replicate ((serialMarks.frame (payload ++ trailer)).length - 1) none ++ [some base]) ∧
          (∀ a ∈ z.stores, base ≤ a ∧ a < base + size) ∧
          (∀ i (hi : i < payload.length), z.mem (base + i) = payload[i]) ∧
          z.mem (base + payload.length) = 0 ∧ z.p = base + payload.length) := by
  have start : Follows size ((XapSerial.new mem).setBuffer base size) .idle := rfl
  have safe : Safe base size ((XapSerial.new mem).setBuffer base size) :=
    ⟨⟨rfl, rfl⟩, by simp [XapSerial.new, XapSerial.setBuffer]⟩
  obtain ⟨y, results, fed, kept, follows, -⟩ := start.feed earlier safe nonNull room
  refine ⟨y, results, fed, kept.stores, fun plain payload trailer four fits => ?_⟩
  have short : (payload ++ trailer).length < size := by
    rw [length_append]
    omega
  obtain ⟨z, results', fed', kept', -, handed⟩ :=
    follows.feed (serialMarks.frame (payload ++ trailer)) kept nonNull room
  obtain ⟨result, rfl, returned⟩ := handed _ _ (congrArg Prod.snd (Receiver.run_frame (follows.plain plain) short))
  have long : ¬ (payload ++ trailer).length < 4 := by
    rw [length_append]
    omega
  have cut : (payload ++ trailer).length - 4 = payload.length := by
    rw [length_append, four, Nat.add_sub_cancel]
  rw [Returns, if_neg long, cut, take_left, kept'.buffer.1] at returned
  obtain ⟨rfl, pointer, begins, ended⟩ := returned
  rw [pointer] at ended
  unfold Begins at begins
  rw [kept'.buffer.1] at begins
  exact ⟨z, fed', kept'.stores, begins, ended, pointer⟩

/-- A frame that begins inside of another one, with an escaped byte. -/
theorem unframe_inverts_frame_spurious :
    ∃ y results, ((XapSerial.new fun _ => 0).setBuffer 256 16).feed [STX, 65] = some (y, results) ∧
      y.state = .compile ∧
      ∃ z, y.feed [STX, ESC, 3, 66, 45, 45, 45, 45, ETX] = some (z, List.replicate 8 none ++ [some 256]) ∧
        z.mem 256 = 3 ∧ z.mem 257 = 66 ∧ z.mem 258 = 0 ∧ z.p = 258 := by
  obtain ⟨y, results, fed, -, frames⟩ := unframe_inverts_frame (fun _ => 0) 256 (by decide) 16 (by decide) [STX, 65]
  have reached : (some (y, results)).map (fun r => r.1.state) = some .compile :=
    congrArg (Option.map fun r : XapSerial × List (Option Int) => r.1.state) fed.symm
  have state : y.state = .compile := Option.some.inj reached
  obtain ⟨z, returned, -, begins, ended, pointer⟩ :=
    frames (by rw [state]; decide) [3, 66] [45, 45, 45, 45] rfl (by decide)
  exact ⟨y, results, fed, state, z, returned, begins 0 (by decide), begins 1 (by decide), ended, pointer⟩

end Hah.Arduino
