import Hah.Lib.Lines
import Hah.Xap.Parse

/-!
# Receiving lines: `xapSerialRx`

The callback of a port reads what has arrived and appends it byte by byte to `sBuff`. A CR or
LF hands the line to `processSerialCommand`. The buffer is doubled when it is full; once it is
longer than a packet, a full buffer stays as it is and the last byte is overwritten.

A store outside the buffer would be `none`. The contents of the buffer are a function of the
unfinished line (`Receives`), so that it does not matter how the stream is cut into reads.
-/

namespace Hah.XapSerial
open C Lines List
open Xap (xapDataLen)

/-! ## The code -/

/-- The receive buffer of `struct serialPort`. -/
structure RxBuffer where
  sBuff : Mem
  sLen : Nat
  sPos : Nat

/-- A port, and the port as it was at each call of `processSerialCommand`. -/
structure Receiver where
  port : RxBuffer
  handed : List RxBuffer

def RxBuffer.line (p : RxBuffer) : Bytes := bytesAt p.sBuff 0 p.sPos

/-- `p->sLen *= 2` and `realloc`, which keeps the old bytes; `fresh n` are the contents of a new
block of `n` bytes. -/
def RxBuffer.grow (fresh : Nat → Mem) (p : RxBuffer) : RxBuffer :=
  { p with
    sLen := p.sLen * 2
    sBuff := fun j => if j < p.sLen then p.sBuff j else fresh (p.sLen * 2) j }

/-- The receive buffer that `xapSerialSetup` makes. -/
def RxBuffer.setup (fresh : Nat → Mem) : RxBuffer := { sBuff := fresh 32, sLen := 32, sPos := 0 }

/-- A port that `xapSerialSetup` has just made. -/
def Receiver.setup (fresh : Nat → Mem) : Receiver := ⟨.setup fresh, []⟩

/-- The loop body of `xapSerialRx`. -/
def rxByte (fresh : Nat → Mem) (r : Receiver) (ch : UInt8) : Option Receiver := do
  let p := r.port
  let sBuff ← storeIn p.sLen p.sBuff p.sPos ch
  if crOrLf ch then
    let sBuff ← storeIn p.sLen sBuff p.sPos 0
    let p := { p with sBuff := sBuff }
    return { port := { p with sPos := 0 }, handed := if p.sPos ≠ 0 then r.handed ++ [p] else r.handed }
  else
    let p := { p with sBuff := sBuff, sPos := p.sPos + 1 }
    if p.sPos = p.sLen then
      -- a run away serial process: eat chars, don't keep expanding
      if xapDataLen < p.sLen then return { r with port := { p with sPos := p.sPos - 1 } }
      else return { r with port := p.grow fresh }
    else return { r with port := p }

/-- `xapSerialRx` with the bytes that `read` returns, at most 512 of them. -/
def xapSerialRx (fresh : Nat → Mem) (r : Receiver) (serialBuff : Bytes) : Option Receiver :=
  serialBuff.foldlM (rxByte fresh) r

/-! ## The buffer follows the unfinished line -/

def sizes : List Nat := [32, 64, 128, 256, 512, 1024, 2048]

/-- What a line is cut to: the largest buffer less its terminator. -/
def lineLimit : Nat := 2047

/-- A receiver that has seen the stream `s`. -/
structure Receives (s : Bytes) (r : Receiver) : Prop where
  size : r.port.sLen ∈ sizes
  room : r.port.sPos < r.port.sLen
  pos : r.port.sPos = min (pending crOrLf s).length lineLimit
  bytes : r.port.line = (pending crOrLf s).take lineLimit
  handed : r.handed.map RxBuffer.line = (nonempty crOrLf s).map (·.take lineLimit)
  ended : ∀ p ∈ r.handed, p.sBuff p.sPos = 0

theorem receives_setup (fresh : Nat → Mem) : Receives [] (.setup fresh) where
  size := mem_cons_self
  room := Nat.zero_lt_succ 31
  pos := by simp [Receiver.setup, RxBuffer.setup]
  bytes := by simp [Receiver.setup, RxBuffer.setup, RxBuffer.line, bytesAt]
  handed := by simp [Receiver.setup]
  ended := by simp [Receiver.setup]

namespace Receives

variable {s : Bytes} {r : Receiver}

section

variable (h : Receives s r)
include h

theorem pos_zero : r.port.sPos = 0 ↔ pending crOrLf s = [] := by
  rw [h.pos, ← length_eq_zero_iff, lineLimit]
  omega

theorem limit : r.port.sLen ≤ 2048 := by
  have size := h.size
  simp only [sizes, mem_cons, not_mem_nil, or_false] at size
  omega

/-- A CR or LF hands over the line. -/
theorem ends (fresh : Nat → Mem) {ch : UInt8} (isEnd : crOrLf ch = true) :
    ∃ r', rxByte fresh r ch = some r' ∧ Receives (s ++ [ch]) r' := by
  let p : RxBuffer := { r.port with sBuff := store (store r.port.sBuff r.port.sPos ch) r.port.sPos 0 }
  have line : p.line = (pending crOrLf s).take lineLimit := by
    rw [← h.bytes]
    have behind : 0 + r.port.sPos ≤ r.port.sPos := Nat.le_of_eq (Nat.zero_add _)
    exact (bytesAt_store_behind behind _).trans (bytesAt_store_behind behind _)
  refine ⟨{ port := { p with sPos := 0 }, handed := if r.port.sPos ≠ 0 then r.handed ++ [p] else r.handed }, ?_, ?_⟩
  · simp only [rxByte, storeIn_inside h.room, Option.bind_eq_bind, Option.bind_some, isEnd, if_true]
    rfl
  · have start := pending_end isEnd s
    refine ⟨h.size, Nat.zero_lt_of_lt h.room, by simp [start], by simp [start, RxBuffer.line, bytesAt], ?_, ?_⟩
    · by_cases empty : pending crOrLf s = []
      · rw [nonempty_end_empty isEnd empty, if_neg (not_not.2 (h.pos_zero.2 empty))]
        exact h.handed
      · rw [nonempty_end_line isEnd empty, if_pos (mt h.pos_zero.1 empty), map_append, map_append,
          h.handed, map_singleton, map_singleton, line]
    · intro q mem
      split at mem
      next =>
        rcases mem_append.1 mem with earlier | last
        · exact h.ended q earlier
        · rw [mem_singleton.1 last]
          exact store_same _ _ _
      next => exact h.ended q mem

/-- The stored byte extends the line, as long as the line is below the limit. -/
theorem line_store {ch : UInt8} (inside : crOrLf ch = false) :
    bytesAt (store r.port.sBuff r.port.sPos ch) 0 (min (r.port.sPos + 1) lineLimit) =
      (pending crOrLf (s ++ [ch])).take lineLimit := by
  have stored := bytesAt_store_end r.port.sBuff 0 r.port.sPos ch
  rw [Nat.zero_add] at stored
  have bytes : bytesAt r.port.sBuff 0 r.port.sPos = (pending crOrLf s).take lineLimit := h.bytes
  have pos := h.pos
  rw [pending_inside inside]
  by_cases short : (pending crOrLf s).length < lineLimit
  · have fits : (pending crOrLf s ++ [ch]).length ≤ lineLimit := by
      rw [length_append]
      exact short
    rw [Nat.min_eq_left (by omega), stored, bytes, take_of_length_le (Nat.le_of_lt short),
      take_of_length_le fits]
  · have full : r.port.sPos = lineLimit := by omega
    rw [Nat.min_eq_right (by omega), take_append_of_le_length (by omega), ← bytes, full]
    exact bytesAt_store_behind (Nat.le_of_eq (Nat.zero_add _)) ch

/-- A receiver whose line is the unfinished one. -/
theorem inside_line {ch : UInt8} (inside : crOrLf ch = false) {p : RxBuffer}
    (size : p.sLen ∈ sizes) (room : p.sPos < p.sLen) (pos : p.sPos = min (r.port.sPos + 1) lineLimit)
    (bytes : p.line = bytesAt (store r.port.sBuff r.port.sPos ch) 0 p.sPos) :
    Receives (s ++ [ch]) { r with port := p } := by
  refine ⟨size, room, ?_, ?_, ?_, h.ended⟩
  · have earlier := h.pos
    rw [pending_inside inside, length_append, length_singleton]
    change p.sPos = _
    omega
  · rw [← h.line_store inside, ← pos]
    exact bytes
  · rw [nonempty_inside inside]
    exact h.handed

/-- Any other byte is stored behind the line. -/
theorem inside (fresh : Nat → Mem) {ch : UInt8} (inside : crOrLf ch = false) :
    ∃ r', rxByte fresh r ch = some r' ∧ Receives (s ++ [ch]) r' := by
  have room := h.room
  have size := h.size
  simp only [sizes, mem_cons, not_mem_nil, or_false] at size
  simp only [rxByte, storeIn_inside h.room, Option.bind_eq_bind, Option.bind_some, inside, Bool.false_eq_true, if_false]
  by_cases full : r.port.sPos + 1 = r.port.sLen
  · rw [if_pos full]
    by_cases long : xapDataLen < r.port.sLen
    · -- the largest buffer: the position stays
      rw [if_pos long]
      have largest : r.port.sLen = 2048 := by
        simp only [xapDataLen] at long
        omega
      refine ⟨_, rfl, h.inside_line inside h.size ?_ ?_ rfl⟩
      · change r.port.sPos + 1 - 1 < r.port.sLen
        omega
      · change r.port.sPos + 1 - 1 = _
        simp only [lineLimit]
        omega
    · rw [if_neg long]
      simp only [xapDataLen] at long
      refine ⟨_, rfl, h.inside_line inside ?_ ?_ ?_ ?_⟩
      · change r.port.sLen * 2 ∈ sizes
        simp only [sizes, mem_cons, not_mem_nil, or_false]
        omega
      · change r.port.sPos + 1 < r.port.sLen * 2
        omega
      · change r.port.sPos + 1 = _
        simp only [lineLimit]
        omega
      · apply map_congr_left
        intro j mem
        have old : 0 + j < r.port.sLen := by
          have := mem_range.1 mem
          change j < r.port.sPos + 1 at this
          omega
        exact if_pos old
  · rw [if_neg full]
    refine ⟨_, rfl, h.inside_line inside h.size ?_ ?_ rfl⟩
    · change r.port.sPos + 1 < r.port.sLen
      omega
    · change r.port.sPos + 1 = _
      simp only [lineLimit]
      omega

theorem byte (fresh : Nat → Mem) (ch : UInt8) :
    ∃ r', rxByte fresh r ch = some r' ∧ Receives (s ++ [ch]) r' := by
  cases isEnd : crOrLf ch with
  | true => exact h.ends fresh isEnd
  | false => exact h.inside fresh isEnd

end

end Receives

/-- **Every run of reads.** -/
theorem reads_receive (fresh : Nat → Mem) (reads : List Bytes) :
    ∃ r, reads.foldlM (xapSerialRx fresh) (.setup fresh) = some r ∧ Receives reads.flatten r := by
  let Inv : Bytes → Option Receiver → Prop := fun s o => ∃ r, o = some r ∧ Receives s r
  have byte : ∀ s o b, Inv s o → Inv (s ++ [b]) (o.bind (rxByte fresh · b)) := by
    rintro s o b ⟨r, rfl, h⟩
    exact h.byte fresh b
  have read : ∀ s o c, Inv s o → Inv (s ++ id c) (o.bind (xapSerialRx fresh · c)) :=
    fun s o c start => symbols_keep Inv byte c start
  have run := calls_keep Inv read reads ⟨_, rfl, receives_setup fresh⟩
  rwa [nil_append, flatMap_id] at run

/-- **Lines are assembled whatever the reads are**: no byte is stored outside the buffer, the
position stays inside it, and the lines handed to `processSerialCommand` are the non-empty
lines of the stream up to their first 2047 bytes, each with a NUL behind it. -/
theorem rx_lines (fresh : Nat → Mem) (reads : List Bytes) :
    ∃ r, reads.foldlM (xapSerialRx fresh) (.setup fresh) = some r ∧ r.port.sPos < r.port.sLen ∧
      r.handed.map RxBuffer.line = (nonempty crOrLf reads.flatten).map (·.take 2047) ∧
      ∀ p ∈ r.handed, p.sBuff p.sPos = 0 := by
  obtain ⟨r, run, h⟩ := reads_receive fresh reads
  exact ⟨r, run, h.room, h.handed, h.ended⟩

end Hah.XapSerial
