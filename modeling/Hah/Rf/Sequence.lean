import Hah.C.Numbers

/-!
# RF sequences: `UniversalRF.cpp` and `xap-urfrx/urfdecoder.c`

A sequence is a string of hexadecimal bytes: a version, the bits per frame, a table of
pulse timings, the bursts and the gap between them, the number of frames and the frames
themselves, packed into bytes from the high bits down. The transmitter on the AVR and
the receiver in the daemon read it with the same helpers, which are defined once here.

The receiver turns frames into durations while it reads. The transmitter first decodes
the packed bytes into the buffer that still holds the text, from its third character
on, and sends from there. Both are compared with `burst`, the pulses that a header and
a list of packed bytes stand for.
-/

namespace Hah.Rf
open C List Option

def maxEncBits : UInt8 := 4

/-! ## Reading hexadecimal text -/

def hexToByte (c : UInt8) : UInt8 :=
  if !isxdigit c then 0xff
  else if 48 ≤ c ∧ c ≤ 57 then c - 48
  else if 65 ≤ c ∧ c ≤ 90 then c - 65 + 10
  else c - 97 + 10

/-- `readByte` at `hexPtr`: the byte and the pointer behind it, `none` for the `longjmp` at the
end of the string. -/
def readByte (m : Mem) (hexPtr : Nat) : Option (UInt8 × Nat) :=
  if m hexPtr = 0 then none
  else if m (hexPtr + 1) = 0 then none
  else some (hexToByte (m hexPtr) <<< 4 ||| hexToByte (m (hexPtr + 1)), hexPtr + 2)

def readWord (m : Mem) (hexPtr : Nat) : Option (Nat × Nat) := do
  let (msb, p) ← readByte m hexPtr
  let (lsb, p) ← readByte m p
  return (msb.toNat <<< 8 ||| lsb.toNat, p)

/-- The timings of one pulse, in microseconds. -/
structure Pulse where
  hi : Nat
  lo : Nat
  deriving DecidableEq, Repr

/-- The loop that fills the table of pulse timings. -/
def readPulses (m : Mem) : Nat → Nat → Option (List Pulse × Nat)
  | 0, p => some ([], p)
  | n + 1, p => do
    let (hi, p) ← readWord m p
    let (lo, p) ← readWord m p
    let (pulse, p) ← readPulses m n p
    return (⟨hi, lo⟩ :: pulse, p)

/-- What stands before the packed frames. -/
structure Header where
  bitsPerFrame : UInt8
  pulse : List Pulse
  burstsToSend : Nat
  interburstRepeat : Nat
  interburstDelay : Nat
  frames : Nat
  deriving DecidableEq, Repr

def validBits (bitsPerFrame : UInt8) : Bool :=
  !(bitsPerFrame == 0 || maxEncBits < bitsPerFrame || 8 % bitsPerFrame != 0)

/-- The reads of `setupUniversalRF` and of `initDurationState` up to the number of frames. -/
def readHeader (m : Mem) (p : Nat) : Option (Header × Nat) := do
  let (bitsPerFrame, p) ← readByte m p
  if validBits bitsPerFrame then
    let enc : UInt8 := 1 <<< bitsPerFrame
    let (pulse, p) ← readPulses m enc.toNat p
    let (burstsToSend, p) ← readByte m p
    let (interburstRepeat, p) ← readByte m p
    let (interburstDelay, p) ← readWord m p
    let (frames, p) ← readByte m p
    return (⟨bitsPerFrame, pulse, burstsToSend.toNat, interburstRepeat.toNat, interburstDelay,
      frames.toNat⟩, p)
  else none

/-! ## Frames in a byte -/

def Header.framesPerByte (h : Header) : Nat := 8 / h.bitsPerFrame.toNat

/-- `bitMask[i]`, as both programs fill the table. -/
def bitMask (bitsPerFrame : UInt8) : Nat → UInt8
  | 0 => (1 <<< bitsPerFrame) - 1
  | i + 1 => bitMask bitsPerFrame i <<< bitsPerFrame

/-- `bitShift[i]`. -/
def bitShift (bitsPerFrame : UInt8) : Nat → UInt8
  | 0 => 0
  | i + 1 => bitShift bitsPerFrame i + bitsPerFrame

/-- `idx = (b & bitMask[j]) >> bitShift[j]`. -/
def frameIndex (bitsPerFrame b : UInt8) (j : Nat) : Nat :=
  ((b &&& bitMask bitsPerFrame j) >>> bitShift bitsPerFrame j).toNat

def Header.pulseAt (h : Header) (b : UInt8) (j : Nat) : Pulse :=
  h.pulse.getD (frameIndex h.bitsPerFrame b j) ⟨0, 0⟩

/-- `for(j = ..; j >= 0 && i > 0; j--, i--)`: the pulses of one byte, `j + 1` and `i` being the
frames left in the byte and in the burst. -/
def byteLoop (h : Header) (b : UInt8) : Nat → Nat → List Pulse
  | j + 1, i + 1 => h.pulseAt b j :: byteLoop h b j i
  | _, _ => []

/-! ## The receiver -/

/-- `URFContext`; `durState` is the allocated array. -/
structure URFContext (E : Type) where
  e : E
  state : Int
  durState : List Int
  durStateLen : Nat
  curState : Nat
  deriving DecidableEq, Repr

/-- `durState[durStatePos++] = pulse[idx].hi; durState[durStatePos++] = -pulse[idx].lo`. -/
def durations (pulses : List Pulse) : List Int := pulses.flatMap fun p => [(p.hi : Int), -(p.lo : Int)]

/-- The frame loop of `initDurationState`; every turn takes at least one of the `i` frames. -/
def decodeFrames (m : Mem) (h : Header) : (fuel p i : Nat) → Option (List Int)
  | 0, _, _ => some []
  | fuel + 1, p, i =>
    if i = 0 then some []
    else do
      let (b, p) ← readByte m p
      let rest ← decodeFrames m h fuel p (i - h.framesPerByte)
      return durations (byteLoop h b h.framesPerByte i) ++ rest

/-- `initDurationState`: the array it fills and its length. -/
def initDurationState (m : Mem) (pat : Nat) : Option (List Int × Nat) := do
  let (_, p) ← readByte m pat
  let (h, p) ← readHeader m p
  let frames ← decodeFrames m h h.frames p h.frames
  let gap : Int := -(h.interburstRepeat : Int) * h.interburstDelay
  return (gap :: (frames ++ [gap]), (h.frames + 1) * 2)

/-- `initURFContext`, `none` for `NULL`. -/
def initURFContext {E : Type} (m : Mem) (e : E) (pattern : Nat) (state : Int) : Option (URFContext E) := do
  let (durState, durStateLen) ← initDurationState m pattern
  return { e := e, state := state, durState := durState, durStateLen := durStateLen, curState := 0 }

/-! ## The transmitter -/

/-- The fields of `UniversalRF`; `bitStream` is an offset into `buffer`. -/
structure UniversalRF where
  header : Header
  interburstRepeat : Nat
  interburstDelay : Nat
  buffer : Mem
  bitStream : Nat

/-- The bytes that hold `frames` frames, rounded up for a partial one. -/
def streamBytes (framesPerByte frames : Nat) : Nat :=
  frames / framesPerByte + if 0 < frames % framesPerByte then 1 else 0

/-- `for (i=0; i<b; i++) bitStream[i] = readByte()`: the text and the stream share the memory. -/
def readStream (m : Mem) (bitStream : Nat) : (i n p : Nat) → Option Mem
  | _, 0, _ => some m
  | i, n + 1, p => do
    let (b, p) ← readByte m p
    readStream (store m (bitStream + i) b) bitStream (i + 1) n p

/-- Adjust for the limit of `delayMicroseconds`. The product is a 16-bit one. -/
def adjustGap (interburstRepeat interburstDelay : Nat) : Nat × Nat :=
  if 16383 < interburstDelay then
    let x := interburstRepeat * interburstDelay % 65536
    let interburstRepeat := x / 16383 + 1
    (interburstRepeat, x / interburstRepeat)
  else (interburstRepeat, interburstDelay)

/-- `setupUniversalRF` with `hexPtr` at `p`. -/
def setupUniversalRF (m : Mem) (p : Nat) : Option UniversalRF := do
  let bitStream := p
  let (h, p) ← readHeader m p
  let (interburstRepeat, interburstDelay) := adjustGap h.interburstRepeat h.interburstDelay
  let buffer ← readStream m bitStream 0 (streamBytes h.framesPerByte h.frames) p
  return ⟨h, interburstRepeat, interburstDelay, buffer, bitStream⟩

/-- The `while` of `xmitBurst`, with the frames `i` and the byte `k` it has reached. -/
def xmitLoop (h : Header) (stream : Nat → UInt8) : (fuel k i : Nat) → List Pulse
  | 0, _, _ => []
  | fuel + 1, k, i =>
    if i = 0 then []
    else byteLoop h (stream k) h.framesPerByte i ++ xmitLoop h stream fuel (k + 1) (i - h.framesPerByte)

/-- `xmitBurst`: the pulses it gives the pin. -/
def xmitBurst (rf : UniversalRF) : List Pulse :=
  xmitLoop rf.header (fun k => rf.buffer (rf.bitStream + k)) rf.header.frames 0 rf.header.frames

/-- The version and `setupUniversalRF`, as `transmit` calls them. -/
def transmitSetup (m : Mem) (rfSequence : Nat) : Option UniversalRF := do
  let (_, p) ← readByte m rfSequence
  setupUniversalRF m p

/-- `transmit`: the bursts with the delays behind each, `none` when it returns `false`. -/
def transmit (m : Mem) (rfSequence : Nat) : Option (List (List Pulse × List Nat)) := do
  let rf ← transmitSetup m rfSequence
  return List.replicate rf.header.burstsToSend
    (xmitBurst rf, List.replicate rf.interburstRepeat rf.interburstDelay)

/-! ## What a sequence stands for -/

/-- `n` bytes of the text and the pointer behind them. -/
def readBytes (m : Mem) : (n p : Nat) → Option Bytes
  | 0, _ => some []
  | n + 1, p => do
    let (b, p) ← readByte m p
    let bytes ← readBytes m n p
    return b :: bytes

/-- The pulses of all frames of a byte, from the high bits down. -/
def bytePulses (h : Header) (b : UInt8) : List Pulse :=
  ((List.range h.framesPerByte).map (h.pulseAt b)).reverse

/-- The first `frames` pulses of the packed bytes. -/
def burst (h : Header) (frames : Nat) (bytes : Bytes) : List Pulse :=
  (bytes.flatMap (bytePulses h)).take frames

/-- A list of bytes stored from `a` on. -/
def storeBytes (m : Mem) : Nat → Bytes → Mem
  | _, [] => m
  | a, b :: bytes => storeBytes (store m a b) (a + 1) bytes

/-- A transmitter that decodes the stream of the untouched text into a buffer of its own. -/
def separateSetup (m : Mem) (rfSequence : Nat) : Option UniversalRF := do
  let (_, p) ← readByte m rfSequence
  let (h, p) ← readHeader m p
  let (interburstRepeat, interburstDelay) := adjustGap h.interburstRepeat h.interburstDelay
  let bytes ← readBytes m (streamBytes h.framesPerByte h.frames) p
  return ⟨h, interburstRepeat, interburstDelay, storeBytes (fun _ => 0) 0 bytes, 0⟩

/-! ## Reading behind a store -/

variable {m : Mem} {p q n i start : Nat} {bytes : Bytes} {h : Header} {rf : UniversalRF}
  {m' : Mem} {a k framesPerByte fuel frames : Nat}

theorem readByte_inv {b : UInt8} (read : readByte m p = some (b, q)) : q = p + 2 := by
  unfold readByte at read
  split at read
  next => cases read
  next =>
    split at read
    next => cases read
    next => exact (Prod.mk.inj (some.inj read)).2.symm

theorem readByte_congr (same : ∀ a, p ≤ a → m' a = m a) : readByte m' p = readByte m p := by
  simp only [readByte, same p (Nat.le_refl p), same (p + 1) (Nat.le_succ p)]

theorem readBytes_congr (n : Nat) (same : ∀ a, p ≤ a → m' a = m a) : readBytes m' n p = readBytes m n p := by
  induction n generalizing p with
  | zero => rfl
  | succ n ih =>
    simp only [readBytes, readByte_congr same]
    cases read : readByte m p with
    | none => rfl
    | some got =>
      obtain ⟨b, q⟩ := got
      have behind := readByte_inv read
      have rest := ih (p := q) (fun a above => same a (by omega))
      simp only [bind_eq_bind, bind_some, rest]

theorem readBytes_length (read : readBytes m n p = some bytes) : bytes.length = n := by
  induction n generalizing p bytes with
  | zero =>
    cases read
    rfl
  | succ n ih =>
    obtain ⟨⟨b, q⟩, -, rest⟩ := bind_eq_some_iff.1 read
    obtain ⟨tail, readTail, result⟩ := bind_eq_some_iff.1 rest
    cases result
    rw [length_cons, ih readTail]

/-- **Decoding in place**: as long as the stream is written no later than the text is read, the
bytes are those of the untouched text. -/
theorem readStream_eq (m : Mem) (bitStream : Nat) (behind : bitStream + i ≤ p) :
    readStream m bitStream i n p = (readBytes m n p).map (storeBytes m (bitStream + i)) := by
  induction n generalizing m i p with
  | zero => rfl
  | succ n ih =>
    simp only [readStream, readBytes]
    cases read : readByte m p with
    | none => rfl
    | some got =>
      obtain ⟨b, q⟩ := got
      have ahead := readByte_inv read
      have untouched : ∀ a, q ≤ a → store m (bitStream + i) b a = m a := fun a above =>
        store_other (by omega)
      simp only [bind_eq_bind, bind_some]
      rw [ih _ (by omega), readBytes_congr n untouched]
      cases readBytes m n q with
      | none => rfl
      | some bytes => rfl

theorem storeBytes_below {j : Nat} (bytes : Bytes) (below : j < a) : storeBytes m a bytes j = m j := by
  induction bytes generalizing m a with
  | nil => rfl
  | cons b bytes ih =>
    rw [storeBytes, ih (by omega), store_other (by omega)]

theorem storeBytes_at (inside : k < bytes.length) : storeBytes m a bytes (a + k) = bytes.getD k 0 := by
  induction bytes generalizing m a k with
  | nil => simp at inside
  | cons b bytes ih =>
    cases k with
    | zero => rw [storeBytes, storeBytes_below _ (by omega), Nat.add_zero, store_same, getD_cons_zero]
    | succ k =>
      have later := ih (m := store m a b) (a := a + 1) (k := k) (by simpa using inside)
      rw [storeBytes, getD_cons_succ, ← later]
      congr 1
      omega

/-! ## What is read -/

/-- From `p` on, `readByte` finds these bytes. -/
def Spelled (m : Mem) : Nat → Bytes → Prop
  | _, [] => True
  | p, b :: bytes => readByte m p = some (b, p + 2) ∧ Spelled m (p + 2) bytes

/-- The number in two bytes, as `readWord` puts it together. -/
def wordOf (msb lsb : UInt8) : Nat := msb.toNat <<< 8 ||| lsb.toNat

theorem wordOf_lt (msb lsb : UInt8) : wordOf msb lsb < 65536 := by
  have high : msb.toNat <<< 8 < 2 ^ 16 := by
    have := msb.toNat_lt
    rw [Nat.shiftLeft_eq]
    omega
  have low : lsb.toNat < 2 ^ 16 := Nat.lt_trans lsb.toNat_lt (by decide)
  exact Nat.or_lt_two_pow high low

def pulsesOf : Bytes → List Pulse
  | a :: b :: c :: d :: table => ⟨wordOf a b, wordOf c d⟩ :: pulsesOf table
  | _ => []

def encodings (bitsPerFrame : UInt8) : Nat := ((1 : UInt8) <<< bitsPerFrame).toNat

theorem Spelled.append {a b : Bytes} (first : Spelled m p a)
    (second : Spelled m (p + 2 * a.length) b) : Spelled m p (a ++ b) := by
  induction a generalizing p with
  | nil => exact second
  | cons c a ih =>
    obtain ⟨here, rest⟩ := first
    refine ⟨here, ih rest ?_⟩
    rwa [show p + 2 + 2 * a.length = p + 2 * (c :: a).length by rw [length_cons]; omega]

theorem spelled_of_byte {b : UInt8} (read : readByte m p = some (b, q)) : Spelled m p [b] ∧ q = p + 2 := by
  obtain rfl := readByte_inv read
  exact ⟨⟨read, trivial⟩, rfl⟩

theorem spelled_of_word {w : Nat} (read : readWord m p = some (w, q)) :
    ∃ msb lsb, Spelled m p [msb, lsb] ∧ w = wordOf msb lsb ∧ q = p + 4 := by
  obtain ⟨⟨msb, p₁⟩, first, rest⟩ := bind_eq_some_iff.1 read
  obtain ⟨⟨lsb, p₂⟩, second, word⟩ := bind_eq_some_iff.1 rest
  obtain ⟨high, rfl⟩ := spelled_of_byte first
  obtain ⟨low, rfl⟩ := spelled_of_byte second
  cases word
  exact ⟨msb, lsb, high.append low, rfl, rfl⟩

theorem spelled_of_pulses {pulse : List Pulse} (read : readPulses m n p = some (pulse, q)) :
    ∃ table : Bytes, table.length = 4 * n ∧ Spelled m p table ∧ pulse = pulsesOf table ∧ q = p + 8 * n := by
  induction n generalizing p q pulse with
  | zero =>
    cases read
    exact ⟨[], rfl, trivial, rfl, rfl⟩
  | succ n ih =>
    obtain ⟨⟨hi, p₁⟩, readHi, rest⟩ := bind_eq_some_iff.1 read
    obtain ⟨⟨lo, p₂⟩, readLo, rest⟩ := bind_eq_some_iff.1 rest
    obtain ⟨⟨more, p₃⟩, readMore, result⟩ := bind_eq_some_iff.1 rest
    obtain ⟨a, b, first, rfl, rfl⟩ := spelled_of_word readHi
    obtain ⟨c, d, second, rfl, rfl⟩ := spelled_of_word readLo
    obtain ⟨table, length, third, rfl, rfl⟩ := ih readMore
    cases result
    refine ⟨[a, b] ++ ([c, d] ++ table), ?_, first.append (second.append third), rfl, by omega⟩
    simp only [length_append, length_cons, length_nil]
    omega

/-- **A header that was read** is spelled where it was read. -/
theorem spelled_of_header (read : readHeader m p = some (h, q)) :
    ∃ (bits bursts gapRepeat msb lsb frames : UInt8) (table : Bytes), validBits bits = true ∧
      table.length = 4 * encodings bits ∧ Spelled m p (bits :: (table ++ [bursts, gapRepeat, msb, lsb, frames])) ∧
      h = ⟨bits, pulsesOf table, bursts.toNat, gapRepeat.toNat, wordOf msb lsb, frames.toNat⟩ ∧
      q = p + 2 * (bits :: (table ++ [bursts, gapRepeat, msb, lsb, frames])).length := by
  obtain ⟨⟨bits, p₁⟩, readBits, rest⟩ := bind_eq_some_iff.1 read
  dsimp only at rest
  split at rest
  next valid =>
    obtain ⟨⟨pulse, p₂⟩, readTable, rest⟩ := bind_eq_some_iff.1 rest
    obtain ⟨⟨bursts, p₃⟩, readBursts, rest⟩ := bind_eq_some_iff.1 rest
    obtain ⟨⟨gapRepeat, p₄⟩, readRepeat, rest⟩ := bind_eq_some_iff.1 rest
    obtain ⟨⟨delay, p₅⟩, readDelay, rest⟩ := bind_eq_some_iff.1 rest
    obtain ⟨⟨frames, p₆⟩, readFrames, result⟩ := bind_eq_some_iff.1 rest
    obtain ⟨first, rfl⟩ := spelled_of_byte readBits
    obtain ⟨table, length, second, rfl, rfl⟩ := spelled_of_pulses readTable
    obtain ⟨third, rfl⟩ := spelled_of_byte readBursts
    obtain ⟨fourth, rfl⟩ := spelled_of_byte readRepeat
    obtain ⟨msb, lsb, fifth, rfl, rfl⟩ := spelled_of_word readDelay
    obtain ⟨sixth, rfl⟩ := spelled_of_byte readFrames
    cases result
    have tail := third.append (fourth.append (fifth.append sixth))
    refine ⟨bits, bursts, gapRepeat, msb, lsb, frames, table, valid, length, first.append (second.append ?_), rfl, ?_⟩
    · have place : p + 2 + 2 * table.length = p + 2 + 8 * ((1 : UInt8) <<< bits).toNat := by omega
      exact place ▸ tail
    · simp only [length_cons, length_append, length_nil, length]
      omega
  next => cases rest

/-- What a header that was read satisfies, and how far the pointer has come. -/
theorem readHeader_inv (read : readHeader m p = some (h, q)) : validBits h.bitsPerFrame = true ∧ p ≤ q := by
  obtain ⟨bits, bursts, gapRepeat, msb, lsb, frames, table, valid, -, -, rfl, rfl⟩ := spelled_of_header read
  exact ⟨valid, Nat.le_add_right _ _⟩

/-- What the fields of the gap can hold. -/
theorem readHeader_gap (read : readHeader m p = some (h, q)) :
    h.interburstRepeat < 256 ∧ h.interburstDelay < 65536 := by
  obtain ⟨bits, bursts, gapRepeat, msb, lsb, frames, table, -, -, -, rfl, rfl⟩ := spelled_of_header read
  exact ⟨gapRepeat.toNat_lt, wordOf_lt msb lsb⟩

theorem validBits_iff {bits : UInt8} : validBits bits = true ↔ bits = 1 ∨ bits = 2 ∨ bits = 4 :=
  byte_cases (by decide +kernel) bits

theorem framesPerByte_pos (valid : validBits h.bitsPerFrame = true) : 0 < h.framesPerByte := by
  unfold Header.framesPerByte
  rcases validBits_iff.1 valid with bits | bits | bits <;> rw [bits] <;> decide

/-! ## Both loops send the burst -/

theorem byteLoop_eq (h : Header) (b : UInt8) (j i : Nat) :
    byteLoop h b j i = (((List.range j).map (h.pulseAt b)).reverse).take i := by
  induction j generalizing i with
  | zero => simp [byteLoop]
  | succ j ih =>
    cases i with
    | zero => simp [byteLoop]
    | succ i =>
      rw [byteLoop, ih, range_succ, map_append, reverse_append]
      rfl

theorem bytePulses_length (h : Header) (b : UInt8) : (bytePulses h b).length = h.framesPerByte := by
  simp [bytePulses]

theorem burst_cons (h : Header) (i : Nat) (b : UInt8) (bytes : Bytes) :
    burst h i (b :: bytes) = byteLoop h b h.framesPerByte i ++ burst h (i - h.framesPerByte) bytes := by
  rw [burst, flatMap_cons, take_append, bytePulses_length, byteLoop_eq]
  rfl

theorem streamBytes_step (positive : 0 < framesPerByte) (some : i ≠ 0) :
    streamBytes framesPerByte i = streamBytes framesPerByte (i - framesPerByte) + 1 := by
  unfold streamBytes
  by_cases whole : framesPerByte ≤ i
  · rw [Nat.div_eq_sub_div positive whole, Nat.mod_eq_sub_mod whole]
    omega
  · have rounded : i - framesPerByte = 0 := by omega
    rw [rounded, Nat.div_eq_of_lt (by omega), Nat.mod_eq_of_lt (by omega), Nat.zero_div, Nat.zero_mod,
      if_pos (by omega), if_neg (by omega)]

/-- The receiver reads the bytes of the stream and keeps the durations of their burst. -/
theorem decodeFrames_eq (m : Mem) (positive : 0 < h.framesPerByte)
    (enough : i ≤ fuel) : decodeFrames m h fuel p i =
      (readBytes m (streamBytes h.framesPerByte i) p).map fun bytes => durations (burst h i bytes) := by
  induction fuel generalizing p i with
  | zero =>
    obtain rfl : i = 0 := by omega
    simp [decodeFrames, streamBytes, readBytes, burst, durations]
  | succ fuel ih =>
    by_cases done : i = 0
    · simp [decodeFrames, done, streamBytes, readBytes, burst, durations]
    · rw [decodeFrames, if_neg done, streamBytes_step positive done, readBytes]
      cases readByte m p with
      | none => rfl
      | some got =>
        obtain ⟨b, q⟩ := got
        simp only [bind_eq_bind, bind_some]
        rw [ih (by omega)]
        cases readBytes m (streamBytes h.framesPerByte (i - h.framesPerByte)) q with
        | none => rfl
        | some bytes =>
          have whole : durations (burst h i (b :: bytes)) = durations (byteLoop h b h.framesPerByte i) ++
              durations (burst h (i - h.framesPerByte) bytes) := by
            rw [burst_cons]
            exact flatMap_append
          exact (congrArg some whole).symm

/-- The transmitter sends the burst of the bytes in its stream. -/
theorem xmitLoop_eq (positive : 0 < h.framesPerByte) {stream : Nat → UInt8} (enough : i ≤ fuel)
    (length : bytes.length = streamBytes h.framesPerByte i)
    (holds : ∀ j < bytes.length, stream (k + j) = bytes.getD j 0) : xmitLoop h stream fuel k i = burst h i bytes := by
  induction fuel generalizing k i bytes with
  | zero =>
    obtain rfl : i = 0 := by omega
    simp [xmitLoop, burst]
  | succ fuel ih =>
    by_cases done : i = 0
    · simp [xmitLoop, done, burst]
    · rw [streamBytes_step positive done] at length
      obtain ⟨b, rest, rfl⟩ := exists_cons_of_length_eq_add_one length
      have here : stream k = b := holds 0 (by simp)
      have later : ∀ j < rest.length, stream (k + 1 + j) = rest.getD j 0 := by
        intro j inside
        have := holds (j + 1) (by simpa using inside)
        rwa [Nat.add_comm j 1, ← Nat.add_assoc, Nat.add_comm 1 j, getD_cons_succ] at this
      rw [xmitLoop, if_neg done, burst_cons, here, ih (by omega) (by simpa using length) later]

/-- A burst sent from a buffer that the stream was stored into. -/
theorem xmitBurst_storeBytes (positive : 0 < rf.header.framesPerByte)
    (length : bytes.length = streamBytes rf.header.framesPerByte rf.header.frames)
    (stored : rf.buffer = storeBytes m rf.bitStream bytes) : xmitBurst rf = burst rf.header rf.header.frames bytes := by
  apply xmitLoop_eq positive (Nat.le_refl _) length
  intro j inside
  rw [Nat.zero_add, stored]
  exact storeBytes_at inside

theorem burst_length (enough : frames ≤ bytes.length * h.framesPerByte) : (burst h frames bytes).length = frames := by
  have total : (bytes.flatMap (bytePulses h)).length = bytes.length * h.framesPerByte := by
    rw [length_flatMap, funext (bytePulses_length h), map_const', sum_replicate_nat]
  rw [burst, length_take, total]
  omega

theorem le_streamBytes_mul (positive : 0 < framesPerByte) :
    frames ≤ streamBytes framesPerByte frames * framesPerByte := by
  have split := Nat.div_add_mod frames framesPerByte
  have small := Nat.mod_lt frames positive
  unfold streamBytes
  split
  next =>
    rw [Nat.add_mul, Nat.one_mul, Nat.mul_comm]
    omega
  next =>
    rw [Nat.add_zero, Nat.mul_comm]
    omega

theorem durations_length (pulses : List Pulse) : (durations pulses).length = 2 * pulses.length := by
  induction pulses with
  | nil => rfl
  | cons p pulses ih =>
    rw [show durations (p :: pulses) = [(p.hi : Int), -(p.lo : Int)] ++ durations pulses from rfl,
      length_append, ih]
    simp only [length_cons, length_nil]
    omega

/-! ## The two programs agree -/

/-- What both programs find in a text: a header, and behind it the bytes of the stream. -/
structure Sequence (m : Mem) (start : Nat) (h : Header) (bytes : Bytes) : Prop where
  reads : ∃ version p q, readByte m start = some (version, p) ∧ readHeader m p = some (h, q) ∧
    readBytes m (streamBytes h.framesPerByte h.frames) q = some bytes

theorem Sequence.framesPerByte_pos (seq : Sequence m start h bytes) : 0 < h.framesPerByte := by
  obtain ⟨version, p, q, -, readH, -⟩ := seq.reads
  exact Rf.framesPerByte_pos (readHeader_inv readH).1

theorem Sequence.length (seq : Sequence m start h bytes) : bytes.length = streamBytes h.framesPerByte h.frames := by
  obtain ⟨version, p, q, -, -, readB⟩ := seq.reads
  exact readBytes_length readB

def durArray (h : Header) (bytes : Bytes) : List Int :=
  -(h.interburstRepeat : Int) * h.interburstDelay :: (durations (burst h h.frames bytes) ++
    [-(h.interburstRepeat : Int) * h.interburstDelay])

def readSequence (m : Mem) (start : Nat) : Option (Header × Bytes) := do
  let (_, p) ← readByte m start
  let (h, q) ← readHeader m p
  let bytes ← readBytes m (streamBytes h.framesPerByte h.frames) q
  return (h, bytes)

theorem readSequence_iff : readSequence m start = some (h, bytes) ↔ Sequence m start h bytes := by
  constructor
  · intro read
    obtain ⟨⟨version, p⟩, readV, rest⟩ := bind_eq_some_iff.1 read
    obtain ⟨⟨h, q⟩, readH, rest⟩ := bind_eq_some_iff.1 rest
    obtain ⟨bytes, readB, result⟩ := bind_eq_some_iff.1 rest
    cases result
    exact ⟨version, p, q, readV, readH, readB⟩
  · rintro ⟨version, p, q, readV, readH, readB⟩
    simp only [readSequence, readV, readH, readB, bind_eq_bind, bind_some]
    rfl

section Programs

variable {E : Type} (m : Mem) (e : E) (start : Nat) (state : Int)

theorem initURFContext_eq : initURFContext m e start state =
    (readSequence m start).map fun s => ⟨e, state, durArray s.1 s.2, (s.1.frames + 1) * 2, 0⟩ := by
  unfold initURFContext initDurationState readSequence
  cases readByte m start with
  | none => rfl
  | some version =>
    dsimp only [bind_eq_bind, bind_some]
    cases readH : readHeader m version.2 with
    | none => rfl
    | some header =>
      dsimp only [bind_eq_bind, bind_some]
      rw [decodeFrames_eq m (Rf.framesPerByte_pos (readHeader_inv readH).1) (Nat.le_refl _)]
      cases readBytes m (streamBytes header.1.framesPerByte header.1.frames) header.2 <;> rfl

theorem initURFContext_iff {ctx : URFContext E} : initURFContext m e start state = some ctx ↔
    ∃ h bytes, Sequence m start h bytes ∧ ctx = ⟨e, state, durArray h bytes, (h.frames + 1) * 2, 0⟩ := by
  rw [initURFContext_eq, map_eq_some_iff]
  simp only [Prod.exists, readSequence_iff, eq_comm (a := ctx)]

/-- The transmitter after its set-up, in the buffer of the text. -/
theorem transmitSetup_eq : transmitSetup m start = (readSequence m start).map fun s =>
    ⟨s.1, (adjustGap s.1.interburstRepeat s.1.interburstDelay).1,
      (adjustGap s.1.interburstRepeat s.1.interburstDelay).2, storeBytes m (start + 2) s.2, start + 2⟩ := by
  unfold transmitSetup setupUniversalRF readSequence
  cases readV : readByte m start with
  | none => rfl
  | some version =>
    obtain ⟨version, p⟩ := version
    obtain rfl := readByte_inv readV
    dsimp only [bind_eq_bind, bind_some]
    cases readH : readHeader m (start + 2) with
    | none => rfl
    | some header =>
      dsimp only [bind_eq_bind, bind_some]
      rw [readStream_eq m (start + 2) (readHeader_inv readH).2]
      cases readBytes m (streamBytes header.1.framesPerByte header.1.frames) header.2 <;> rfl

theorem separateSetup_eq : separateSetup m start = (readSequence m start).map fun s =>
    ⟨s.1, (adjustGap s.1.interburstRepeat s.1.interburstDelay).1,
      (adjustGap s.1.interburstRepeat s.1.interburstDelay).2, storeBytes (fun _ => 0) 0 s.2, 0⟩ := by
  unfold separateSetup readSequence
  cases readByte m start with
  | none => rfl
  | some version =>
    dsimp only [bind_eq_bind, bind_some]
    cases readHeader m version.2 with
    | none => rfl
    | some header =>
      dsimp only [bind_eq_bind, bind_some]
      cases readBytes m (streamBytes header.1.framesPerByte header.1.frames) header.2 <;> rfl

end Programs

section

variable (seq : Sequence m start h bytes)
include seq

/-- A text stands for one sequence. -/
theorem Sequence.unique {h' : Header} {bytes' : Bytes} (seq' : Sequence m start h' bytes') : h' = h ∧ bytes' = bytes := by
  have same := (readSequence_iff.2 seq').symm.trans (readSequence_iff.2 seq)
  cases same
  exact ⟨rfl, rfl⟩

theorem Sequence.burst_length : (burst h h.frames bytes).length = h.frames := by
  apply Rf.burst_length
  rw [seq.length]
  exact le_streamBytes_mul seq.framesPerByte_pos

/-- The entries of the array between the gaps. -/
theorem Sequence.middle :
    ((durArray h bytes).drop 1).take ((h.frames + 1) * 2 - 2) = durations (burst h h.frames bytes) := by
  have length := durations_length (burst h h.frames bytes)
  rw [seq.burst_length] at length
  rw [durArray, drop_one, tail_cons, take_append_of_le_length (by omega), take_of_length_le]
  omega

theorem Sequence.durArray_length : (durArray h bytes).length = (h.frames + 1) * 2 := by
  rw [durArray, length_cons, length_append, durations_length, seq.burst_length,
    length_singleton]
  omega

end

/-- **Transmitter and receiver read the same format.** On every text one accepts what the other
accepts; the durations between the gaps of the receiver's array are the pulses of a burst, with
the low ones negated; and decoding the stream into the text itself sends what decoding it into
a buffer of its own would send. -/
theorem transmit_agrees_with_context {E : Type} (m : Mem) (e : E) (pattern : Nat) (state : Int) :
    ((transmit m pattern).isSome = true ↔ (initURFContext m e pattern state).isSome = true) ∧
    (∀ bursts ctx, transmit m pattern = some bursts → initURFContext m e pattern state = some ctx →
      ∃ rf, transmitSetup m pattern = some rf ∧
        (∀ sent ∈ bursts, sent.1 = xmitBurst rf) ∧
        ctx.durStateLen = 2 * (rf.header.frames + 1) ∧ ctx.durState.length = ctx.durStateLen ∧
        (ctx.durState.drop 1).take (ctx.durStateLen - 2) = durations (xmitBurst rf)) ∧
    ((transmitSetup m pattern).isSome = true ↔ (separateSetup m pattern).isSome = true) ∧
    ∀ rf separate, transmitSetup m pattern = some rf → separateSetup m pattern = some separate →
      xmitBurst rf = xmitBurst separate := by
  have setup_isSome : (transmit m pattern).isSome = (transmitSetup m pattern).isSome := by
    unfold transmit
    cases transmitSetup m pattern <;> rfl
  refine ⟨?_, ?_, ?_, ?_⟩
  · rw [setup_isSome, transmitSetup_eq, initURFContext_eq, isSome_map, isSome_map]
  · intro bursts ctx sent context
    obtain ⟨rf, done, result⟩ := bind_eq_some_iff.1 sent
    obtain rfl := some.inj result
    refine ⟨rf, done, fun each mem => by rw [eq_of_mem_replicate mem], ?_⟩
    rw [transmitSetup_eq] at done
    rw [initURFContext_eq] at context
    obtain ⟨s, read, rfl⟩ := map_eq_some_iff.1 done
    have seq : Sequence m pattern s.1 s.2 := readSequence_iff.1 read
    rw [read] at context
    cases context
    refine ⟨Nat.mul_comm _ _, seq.durArray_length, ?_⟩
    rw [xmitBurst_storeBytes (m := m) seq.framesPerByte_pos seq.length rfl]
    exact seq.middle
  · rw [transmitSetup_eq, separateSetup_eq, isSome_map, isSome_map]
  · intro rf separate inPlace apart
    rw [transmitSetup_eq] at inPlace
    rw [separateSetup_eq] at apart
    obtain ⟨s, read, rfl⟩ := map_eq_some_iff.1 inPlace
    have seq : Sequence m pattern s.1 s.2 := readSequence_iff.1 read
    rw [read] at apart
    cases apart
    rw [xmitBurst_storeBytes (m := m) seq.framesPerByte_pos seq.length rfl,
      xmitBurst_storeBytes (m := fun _ => 0) seq.framesPerByte_pos seq.length rfl]

/-- The first sequence of `genurf.c` in memory. -/
def byrsonOff : Mem := fun j => (ascii "0101017A0437046001600101271018401014").getD j 0

/-- Both programs accept it, and the receiver waits for the pulses that the transmitter sends. -/
theorem transmit_agrees_byrson : ∃ rf ctx, transmitSetup byrsonOff 0 = some rf ∧
    initURFContext byrsonOff () 0 0 = some ctx ∧ rf.header.frames = 24 ∧
    (ctx.durState.drop 1).take (ctx.durStateLen - 2) = durations (xmitBurst rf) := by
  obtain ⟨accepted, durations, -⟩ := transmit_agrees_with_context byrsonOff () 0 0
  obtain ⟨bursts, sent⟩ := isSome_iff_exists.1 (show (transmit byrsonOff 0).isSome = true by decide +kernel)
  obtain ⟨ctx, context⟩ := isSome_iff_exists.1 (accepted.1 (isSome_iff_exists.2 ⟨bursts, sent⟩))
  obtain ⟨rf, setup, -, -, -, middle⟩ := durations bursts ctx sent context
  refine ⟨rf, ctx, setup, context, ?_, middle⟩
  have frames : (transmitSetup byrsonOff 0).map (fun rf => rf.header.frames) = some 24 := by decide +kernel
  rw [setup, map_some] at frames
  exact some.inj frames

end Hah.Rf
