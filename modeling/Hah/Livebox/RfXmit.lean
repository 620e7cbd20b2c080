import Hah.Rf.Hex
import Hah.Livebox.Undriven
import Hah.Xap.RoundTrip

/-!
# `rf.xmit` commands on their way to the transmitter

`rfXmit` packs the fields of a message into hexadecimal text and writes it to the serial
port, through a buffer of 256 bytes and a second one of 128. The gap between bursts, in
microseconds, is split into a repeat of two digits and a delay of four.

A command arrives intact exactly if its line fits the second buffer and the repeat fits its
two digits (`rf_xmit_intact_iff`). With frames of four bits the table alone is longer than
the buffer, so such a command never arrives.
-/

namespace Hah.Livebox
open C Bsc Xap Rf
open List hiding lookup

/-- The values of an `rf.xmit` message. -/
structure RfRequest where
  pulseDef : Bytes
  burstCount : Bytes
  interburstDelay : Bytes
  frames : Bytes
  stream : Bytes
  deriving DecidableEq, Repr

/-- The calls of `xapGetValue` in `rfXmit`. -/
def RfRequest.of (values : Values) : Option RfRequest := do
  let pulseDef ← values "rf" "pulsedef"
  let burstCount ← values "rf" "burstcount"
  let interburstDelay ← values "rf" "interburstDelay"
  let frames ← values "rf" "frames"
  let stream ← values "rf" "stream"
  return ⟨pulseDef, burstCount, interburstDelay, frames, stream⟩

/-- `unsigned char burst`. -/
def RfRequest.burst (r : RfRequest) : Nat := (atoi r.burstCount % 256).toNat

/-- `unsigned int interburstUs`. -/
def RfRequest.interburstUs (r : RfRequest) : Nat := (atoi r.interburstDelay % 4294967296).toNat

def RfRequest.interburstIter (r : RfRequest) : Nat := r.interburstUs / 0xFFFF + 1

/-- `interburstDelay`. -/
def RfRequest.delay (r : RfRequest) : Nat := r.interburstUs / r.interburstIter

/-- `unsigned char frames`. -/
def RfRequest.frameCount (r : RfRequest) : Nat := (atoi r.frames % 256).toNat

/-- What `rfXmit` prints behind `urf `, in full. -/
def RfRequest.packed (r : RfRequest) : Bytes :=
  "01" ++ r.pulseDef ++ hexPad 2 r.burst ++ hexPad 2 r.interburstIter ++ hexPad 4 r.delay ++
    hexPad 2 r.frameCount ++ r.stream

/-- `serialSend`: the bytes written. -/
def serialSend (serialfd : Int) (buf : Bytes) : Bytes :=
  if 0 < serialfd then ("\n" ++ buf ++ "\n").take 127 else []

/-- `rfXmit`; a value that is not there is read through `NULL`. -/
def rfXmit (serialfd : Int) (values : Values) : Option Bytes := do
  let r ← RfRequest.of values
  return serialSend serialfd (("urf " ++ r.packed).take 255)

/-! ## Intact commands -/

/-- The fields of a message that are as they should be, with the bytes of the table of pulses
and of the stream. -/
structure RfRequest.Valid (r : RfRequest) (bits : UInt8) (table stream : Bytes) : Prop where
  pulses : hexBytes r.pulseDef = some (bits :: table)
  width : validBits bits = true
  entries : table.length = 4 * encodings bits
  bursts : 0 ≤ atoi r.burstCount ∧ atoi r.burstCount ≤ 255
  gap : 0 ≤ atoi r.interburstDelay
  framed : 0 ≤ atoi r.frames ∧ atoi r.frames ≤ 255
  bytes : hexBytes r.stream = some stream
  filled : stream.length = streamBytes (8 / bits.toNat) (atoi r.frames).toNat

/-- A decoded sequence is the one that was asked for. -/
structure RfRequest.Carried (r : RfRequest) (bits : UInt8) (table stream : Bytes) (h : Header)
    (bytes : Bytes) : Prop where
  width : h.bitsPerFrame = bits
  pulses : h.pulse = pulsesOf table
  bursts : (h.burstsToSend : Int) = atoi r.burstCount
  framed : (h.frames : Int) = atoi r.frames
  bytes : bytes = stream
  gap : (h.interburstRepeat * h.interburstDelay : Int) ≤ atoi r.interburstDelay
  close : atoi r.interburstDelay - h.interburstRepeat * h.interburstDelay < (h.interburstRepeat : Int)

def RfRequest.line (r : RfRequest) : Bytes := "\nurf " ++ r.packed ++ "\n"

/-- Nothing was written, or the whole command was, and decodes to what was asked for. -/
def RfRequest.Intact (r : RfRequest) (bits : UInt8) (table stream out : Bytes) : Prop :=
  out = [] ∨ (out = r.line ∧
    ∀ m p, CStr m p r.packed → ∃ h bytes, Sequence m p h bytes ∧ r.Carried bits table stream h bytes)

/-! ## The numbers -/

namespace RfRequest.Valid

variable {r : RfRequest} {bits : UInt8} {table stream : Bytes}

theorem burst_eq (h : r.Valid bits table stream) : (r.burst : Int) = atoi r.burstCount ∧ r.burst < 256 := by
  have := h.bursts
  unfold RfRequest.burst
  omega

theorem frameCount_eq (h : r.Valid bits table stream) : (r.frameCount : Int) = atoi r.frames ∧ r.frameCount < 256 := by
  have := h.framed
  unfold RfRequest.frameCount
  omega

theorem interburstUs_eq (h : r.Valid bits table stream) : (r.interburstUs : Int) = atoi r.interburstDelay := by
  have nonnegative := h.gap
  have bounded : atoi r.interburstDelay ≤ 2147483647 := by
    unfold atoi
    dsimp only
    omega
  unfold RfRequest.interburstUs
  omega

end RfRequest.Valid

/-- The delay fits its four digits. -/
theorem RfRequest.delay_lt (r : RfRequest) : r.delay < 65536 := by
  have small : r.interburstUs < r.interburstIter * 65535 := by
    unfold RfRequest.interburstIter
    omega
  exact Nat.lt_trans (Nat.div_lt_of_lt_mul small) (by decide)

/-- The split of the gap loses less than one repeat. -/
theorem RfRequest.gap_close (r : RfRequest) :
    r.interburstIter * r.delay ≤ r.interburstUs ∧
      r.interburstUs < r.interburstIter * r.delay + r.interburstIter := by
  have positive : 0 < r.interburstIter := Nat.succ_pos _
  refine ⟨Nat.mul_div_le _ _, ?_⟩
  have rest := Nat.mod_lt r.interburstUs positive
  have whole := Nat.div_add_mod r.interburstUs r.interburstIter
  unfold RfRequest.delay
  omega

/-! ## The line -/

theorem RfRequest.line_length (r : RfRequest) : r.line.length = r.packed.length + 6 := by
  have prompt : (ascii "\nurf ").length = 5 := by decide
  have newline : (ascii "\n").length = 1 := by decide
  rw [RfRequest.line, length_append, length_append, prompt, newline]
  omega

theorem serialSend_whole {fd : Int} {r : RfRequest} (port : 0 < fd) (fits : r.line.length ≤ 127) :
    serialSend fd (("urf " ++ r.packed).take 255) = r.line := by
  have word : (ascii "urf ").length = 4 := by decide
  have short : ("urf " ++ r.packed).length ≤ 255 := by
    rw [r.line_length] at fits
    rw [length_append, word]
    omega
  have same : "\n" ++ ("urf " ++ r.packed) ++ "\n" = r.line := rfl
  rw [serialSend, if_pos port, take_of_length_le short, same, take_of_length_le fits]

/-- A longer line is cut. -/
theorem serialSend_cut {fd : Int} {r : RfRequest} (port : 0 < fd) (long : 127 < r.line.length) :
    (serialSend fd (("urf " ++ r.packed).take 255)).length = 127 := by
  have word : (ascii "urf ").length = 4 := by decide
  have newline : (ascii "\n").length = 1 := by decide
  rw [r.line_length] at long
  rw [serialSend, if_pos port, length_take, length_append, length_append, length_take,
    length_append, word, newline]
  omega

/-! ## Decoding -/

namespace RfRequest.Valid

variable {r : RfRequest} {bits : UInt8} {table stream : Bytes}

section

variable (h : r.Valid bits table stream)
include h

theorem packed_clean : ∀ c ∈ r.packed, c ≠ 0 := by
  intro c mem
  have version : ∀ c ∈ ascii "01", c ≠ 0 := bytes_of_all (by decide)
  simp only [RfRequest.packed, mem_append] at mem
  rcases mem with ((((((mem | mem) | mem) | mem) | mem) | mem) | mem)
  · exact version c mem
  · exact hexBytes_clean h.pulses c mem
  · exact hexPad_clean _ _ c mem
  · exact hexPad_clean _ _ c mem
  · exact hexPad_clean _ _ c mem
  · exact hexPad_clean _ _ c mem
  · exact hexBytes_clean h.bytes c mem

/-- The bytes of the command up to the bursts. -/
theorem head_bytes :
    hexBytes ("01" ++ r.pulseDef ++ hexPad 2 r.burst) = some ((1 :: bits :: table) ++ [r.burst.toUInt8]) := by
  have version : hexBytes "01" = some [1] := by decide
  exact hexBytes_append (hexBytes_append version h.pulses) (hexBytes_two h.burst_eq.2)

theorem packed_bytes (small : r.interburstIter < 256) :
    hexBytes r.packed = some (1 :: bits :: (table ++ r.burst.toUInt8 :: r.interburstIter.toUInt8 ::
      (r.delay / 256).toUInt8 :: (r.delay % 256).toUInt8 :: r.frameCount.toUInt8 :: stream)) := by
  have spelled := hexBytes_append (hexBytes_append (hexBytes_append (hexBytes_append h.head_bytes
    (hexBytes_two small)) (hexBytes_four r.delay_lt)) (hexBytes_two h.frameCount_eq.2)) h.bytes
  rw [RfRequest.packed, spelled]
  simp

/-- **A whole command** decodes to what was asked for. -/
theorem decoded (small : r.interburstIter < 256) {m : Mem} {p : Nat}
    (text : CStr m p r.packed) : ∃ hd bytes, Sequence m p hd bytes ∧ r.Carried bits table stream hd bytes := by
  rw [← append_nil r.packed] at text
  obtain ⟨version, rest⟩ := spelled_of_text (h.packed_bytes small) text
  obtain ⟨q, header, rest⟩ := Spelled.header h.width h.entries rest
  have framed : r.frameCount.toUInt8.toNat = r.frameCount := UInt8.toNat_ofNat_of_lt h.frameCount_eq.2
  have bursts : r.burst.toUInt8.toNat = r.burst := UInt8.toNat_ofNat_of_lt h.burst_eq.2
  have repeats : r.interburstIter.toUInt8.toNat = r.interburstIter := UInt8.toNat_ofNat_of_lt small
  rw [framed, bursts, repeats, wordOf_bytes r.delay_lt] at header
  have count : (atoi r.frames).toNat = r.frameCount := by
    have := h.frameCount_eq.1
    omega
  have gap := r.gap_close
  have us := h.interburstUs_eq
  refine ⟨_, stream, ⟨_, _, _, version, header, ?_⟩, rfl, rfl, h.burst_eq.1, h.frameCount_eq.1, rfl, ?_, ?_⟩
  · show readBytes m (streamBytes (8 / bits.toNat) r.frameCount) q = some stream
    rw [← count, ← h.filled]
    exact Spelled.bytes rest
  · show (r.interburstIter * r.delay : Int) ≤ atoi r.interburstDelay
    omega
  · show atoi r.interburstDelay - r.interburstIter * r.delay < (r.interburstIter : Int)
    omega

/-- A repeat of three digits is read as 16. -/
theorem gap_overflow (large : ¬ r.interburstIter < 256) {m : Mem} {p : Nat}
    (text : CStr m p r.packed) {hd : Header} {bytes : Bytes} (seq : Sequence m p hd bytes) :
    ¬ r.Carried bits table stream hd bytes := by
  intro carried
  obtain ⟨version, p₁, q, readVersion, readHeader, -⟩ := seq.reads
  obtain ⟨repeats, delay⟩ := readHeader_gap readHeader
  have us := h.interburstUs_eq
  have close := carried.close
  have within : hd.interburstRepeat * hd.interburstDelay + hd.interburstRepeat ≤ 255 * 65536 := by
    have both := Nat.mul_le_mul (Nat.le_of_lt_succ repeats) (Nat.succ_le_of_lt delay)
    rwa [Nat.mul_succ] at both
  have three : r.interburstIter = 256 := by
    unfold RfRequest.interburstIter at large ⊢
    omega
  have digits : hexPad 2 256 = "10" ++ "0" := by decide
  have spelled : hexBytes ("01" ++ r.pulseDef ++ hexPad 2 r.burst ++ "10") = some
      ((1 :: bits :: table) ++ [r.burst.toUInt8] ++ [16]) :=
    hexBytes_append h.head_bytes (by decide)
  have split : r.packed = ("01" ++ r.pulseDef ++ hexPad 2 r.burst ++ "10") ++
      ("0" ++ hexPad 4 r.delay ++ hexPad 2 r.frameCount ++ r.stream) := by
    rw [RfRequest.packed, three, digits]
    simp only [append_assoc]
  rw [split] at text
  obtain ⟨readOne, rest⟩ := spelled_of_text spelled text
  rw [readOne] at readVersion
  cases readVersion
  have entry : Spelled m (p + 2) (bits :: (table ++ [r.burst.toUInt8, 16])) := by
    simpa using rest
  have sixteen : hd.interburstRepeat = 16 := Spelled.gapRepeat h.entries entry readHeader
  unfold RfRequest.interburstIter at three
  rw [sixteen] at close within
  omega

end

end RfRequest.Valid

/-! ## Accepted messages -/

/-- A key in another case finds the same value. -/
theorem xapGetValueF_key {frame : XapFrame} {sectionName key key' : Bytes}
    (same : key.map tolower = key'.map tolower) :
    xapGetValueF frame sectionName (some key) = xapGetValueF frame sectionName (some key') := by
  have test : elementMatches sectionName (some key) = elementMatches sectionName (some key') := by
    funext e
    cases named : e.2.1 with
    | none => simp [elementMatches, named]
    | some k => simp [elementMatches, named, strcasecmpEq, same]
  simp only [xapGetValueF, test, reduceCtorEq, and_false]

/-- The filters of `rfXmit` ask for every value that it reads. -/
theorem request_accepted {box : Connector}
    (accepted : xapCompareFilters box.frame (filterChain box ⟨.rfXmit, none⟩) = true) :
    ∃ r, RfRequest.of box.values = some r := by
  have holds := (compareFilters_iff _ _).1 accepted
  have present : ∀ key ∈ [ascii "pulsedef", "burstcount", "interburstdelay", "frames",
      "stream"], ∃ value, box.values "rf" key = some value := by
    intro key mem
    have test := holds ⟨"rf", key, xapFilterAny⟩ (mem_append_right _ (mem_map_of_mem mem))
    have differs : xapFilterAny ≠ xapFilterAbsent := by decide
    rw [compareFilter, if_neg differs, if_pos rfl] at test
    exact Option.isSome_iff_exists.1 test
  obtain ⟨pulseDef, h₁⟩ := present "pulsedef" (by simp)
  obtain ⟨burstCount, h₂⟩ := present "burstcount" (by simp)
  obtain ⟨delay, h₃⟩ := present "interburstdelay" (by simp)
  obtain ⟨frames, h₄⟩ := present "frames" (by simp)
  obtain ⟨stream, h₅⟩ := present "stream" (by simp)
  have cased : box.values "rf" "interburstDelay" = some delay :=
    (xapGetValueF_key (by decide)).trans h₃
  refine ⟨⟨pulseDef, burstCount, delay, frames, stream⟩, ?_⟩
  simp only [RfRequest.of, h₁, h₂, cased, h₄, h₅, Option.bind_eq_bind, Option.bind_some]
  rfl

/-- **A command arrives intact** exactly if its line fits the buffer of `serialSend` and the
repeat of its gap has two digits. -/
theorem rf_xmit_intact_iff (box : Connector) (serialfd : Int)
    (accepted : xapCompareFilters box.frame (filterChain box ⟨.rfXmit, none⟩) = true) :
    ∃ r, RfRequest.of box.values = some r ∧ ∀ bits table stream, r.Valid bits table stream →
      ∃ out, rfXmit serialfd box.values = some out ∧ (r.Intact bits table stream out ↔
        serialfd ≤ 0 ∨ (r.line.length ≤ 127 ∧ atoi r.interburstDelay < 16711425)) := by
  obtain ⟨r, request⟩ := request_accepted accepted
  refine ⟨r, request, fun bits table stream valid => ?_⟩
  refine ⟨serialSend serialfd (("urf " ++ r.packed).take 255), ?_, ?_⟩
  · rw [rfXmit, request]
    rfl
  by_cases port : 0 < serialfd
  swap
  · exact iff_of_true (.inl (if_neg port)) (.inl (Int.not_lt.1 port))
  have short : r.interburstIter < 256 ↔ atoi r.interburstDelay < 16711425 := by
    have us := valid.interburstUs_eq
    unfold RfRequest.interburstIter
    omega
  constructor
  · rintro (nothing | ⟨whole, decodes⟩)
    · refine absurd nothing ?_
      rw [serialSend, if_pos port]
      exact fun h => nomatch h
    · right
      constructor
      · by_contra long
        have cut := serialSend_cut port (Nat.lt_of_not_le long)
        rw [whole] at cut
        omega
      · by_contra far
        have text := cstr_getD valid.packed_clean
        obtain ⟨hd, bytes, seq, carried⟩ := decodes _ _ text
        exact valid.gap_overflow (fun small => far (short.1 small)) text seq carried
  · rintro (closed | ⟨fits, near⟩)
    · exact absurd port (Int.not_lt.2 closed)
    · exact .inr ⟨serialSend_whole port fits, fun m p text => valid.decoded (short.2 near) text⟩

/-! ## Three messages -/

/-- An `rf.xmit` message to the plain board, with two bursts of four frames. -/
def rfMessage (pulseDef interburstDelay stream : Bytes) : List Section :=
  [⟨"xap-header", [("class", "rf.xmit"), ("target", "dbzoo.livebox.Controller")]⟩,
    ⟨"rf", [("pulsedef", pulseDef), ("burstcount", "2"),
      ("interburstdelay", interburstDelay), ("frames", "4"), ("stream", stream)]⟩]

/-- The plain board when such a message has been parsed. -/
def rfReceived (pulseDef interburstDelay stream : Bytes) : Connector :=
  { plainLivebox with
    frame := parseMsgF (XapFrame.blank.load (layout (rfMessage pulseDef interburstDelay stream))) }

section Received

variable (pulseDef interburstDelay stream : Bytes)

theorem rfReceived_shows (fits : (layout (rfMessage pulseDef interburstDelay stream)).length ≤ xapDataLen)
    (scanned : (scan (layout (rfMessage pulseDef interburstDelay stream))).blocks.map Block.text =
      rfMessage pulseDef interburstDelay stream) :
    Shows (rfReceived pulseDef interburstDelay stream).frame (rfMessage pulseDef interburstDelay stream) := by
  have shown := parse_shows XapFrame.blank fits
  rw [scanned] at shown
  dsimp only [rfReceived]
  exact shown

/-- Such a message is accepted, and `rfXmit` finds its values. -/
theorem rfReceived_request
    (shown : Shows (rfReceived pulseDef interburstDelay stream).frame (rfMessage pulseDef interburstDelay stream)) :
    xapCompareFilters (rfReceived pulseDef interburstDelay stream).frame
        (filterChain (rfReceived pulseDef interburstDelay stream) ⟨.rfXmit, none⟩) = true ∧
      RfRequest.of (rfReceived pulseDef interburstDelay stream).values =
        some ⟨pulseDef, "2", interburstDelay, "4", stream⟩ := by
  have values : (rfReceived pulseDef interburstDelay stream).values =
      lookup (rfMessage pulseDef interburstDelay stream) :=
    funext fun sectionName => funext fun key => shown.getValue sectionName key
  constructor
  · refine (compareFilters_iff _ _).2 fun f mem => ?_
    have chain : filterChain (rfReceived pulseDef interburstDelay stream) ⟨.rfXmit, none⟩ =
        [⟨"xap-header", "target", "dbzoo.livebox.Controller"⟩,
          ⟨"xap-header", "class", "rf.xmit"⟩, ⟨"rf", "pulsedef", xapFilterAny⟩,
          ⟨"rf", "burstcount", xapFilterAny⟩, ⟨"rf", "interburstdelay", xapFilterAny⟩,
          ⟨"rf", "frames", xapFilterAny⟩, ⟨"rf", "stream", xapFilterAny⟩] := rfl
    rw [chain] at mem
    simp only [mem_cons, not_mem_nil, or_false] at mem
    rcases mem with rfl | rfl | rfl | rfl | rfl | rfl | rfl
    all_goals rw [compareFilter, shown.getValue]; rfl
  · rw [values]
    rfl

end Received

/-- The table of a width of one bit: two entries. -/
def bitTable : Bytes := [1, 1, 2, 2, 3, 3, 4, 4]

theorem rf_xmit_short_intact :
    ∃ r out, RfRequest.of (rfReceived "010101020203030404" "70000" "a0").values = some r ∧
      r.Valid 1 bitTable [0xa0] ∧
      rfXmit 3 (rfReceived "010101020203030404" "70000" "a0").values = some out ∧
      out = "\nurf 01010101020203030404020288b804a0\n" ∧ r.Intact 1 bitTable [0xa0] out := by
  obtain ⟨accepted, values⟩ := rfReceived_request _ _ _ (rfReceived_shows "010101020203030404" "70000"
    "a0" (by decide +kernel) (by decide +kernel))
  obtain ⟨r, request, intact⟩ := rf_xmit_intact_iff _ 3 accepted
  rw [values] at request
  obtain rfl := Option.some.inj request
  have valid : RfRequest.Valid ⟨"010101020203030404", "2", "70000", "4", "a0"⟩ 1
      bitTable [0xa0] := by
    constructor <;> decide
  obtain ⟨out, sent, iff⟩ := intact _ _ _ valid
  have written : out = "\nurf 01010101020203030404020288b804a0\n" := by
    rw [rfXmit, values] at sent
    exact (Option.some.inj sent).symm.trans (by decide +kernel)
  exact ⟨_, out, values, valid, sent, written, iff.2 (.inr ⟨by decide +kernel, by decide⟩)⟩

/-- An accepted message with valid fields that does not arrive intact. -/
def ArrivesBroken (box : Connector) (bits : UInt8) (table stream : Bytes) : Prop :=
  xapCompareFilters box.frame (filterChain box ⟨.rfXmit, none⟩) = true ∧
    ∃ r out, RfRequest.of box.values = some r ∧ r.Valid bits table stream ∧ rfXmit 3 box.values = some out ∧
      ¬ r.Intact bits table stream out

/-- The table of a width of four bits: sixteen entries. -/
def nibbleTable : Bytes := (List.replicate 32 [0, 1]).flatten

/-- The line of a width of four bits is cut behind its pulses; the repeat of a gap of 16711425
microseconds has three digits. -/
theorem rf_xmit_broken :
    ArrivesBroken (rfReceived ("04" ++ nibbleTable.flatMap fun b => hexPad 2 b.toNat) "70000"
        "0123") 4 nibbleTable [0x01, 0x23] ∧
      ArrivesBroken (rfReceived "010101020203030404" "16711425" "a0") 1 bitTable [0xa0] := by
  constructor
  · obtain ⟨accepted, values⟩ := rfReceived_request _ _ _ (rfReceived_shows
      ("04" ++ nibbleTable.flatMap fun b => hexPad 2 b.toNat) "70000" "0123" (by decide +kernel)
      (by decide +kernel))
    refine ⟨accepted, _, _, values, by constructor <;> decide +kernel, by rw [rfXmit, values]; rfl, ?_⟩
    rintro (nothing | ⟨whole, -⟩)
    · exact absurd nothing (by decide +kernel)
    · exact absurd whole (by decide +kernel)
  · obtain ⟨accepted, values⟩ := rfReceived_request _ _ _ (rfReceived_shows "010101020203030404"
      "16711425" "a0" (by decide +kernel) (by decide +kernel))
    have valid : RfRequest.Valid ⟨"010101020203030404", "2", "16711425", "4", "a0"⟩ 1
        bitTable [0xa0] := by
      constructor <;> decide
    refine ⟨accepted, _, _, values, valid, by rw [rfXmit, values]; rfl, ?_⟩
    rintro (nothing | ⟨-, decodes⟩)
    · exact absurd nothing (by decide +kernel)
    · have text := cstr_getD valid.packed_clean
      obtain ⟨hd, bytes, seq, carried⟩ := decodes _ _ text
      exact valid.gap_overflow (by decide) text seq carried

end Hah.Livebox
