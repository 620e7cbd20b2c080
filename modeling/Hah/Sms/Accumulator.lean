import Mathlib.Data.List.Infix
import Hah.C.Numbers
import Hah.Lib.Lines

/-!
# Lines from the modem: `xapSerialAccumulator`

The callback collects what one `read` returns in `i_serial_cmd` and hands every line that ends
in CR LF to `processSerialMsg`. The buffer is static, but the cursor into it and the flag for
a CR are locals of the call: what a read leaves over is lost, and a line that is cut by the end
of a read is handed on without its first part or not at all. `Aligned` says which ways of
cutting a stream into reads do no harm, and `accumulator_lines_iff` that these are the only
ones.
-/

namespace Hah.Sms
open C Lines List

/-! ## The code -/

def bufferLen : Nat := 250
def cmdLen : Nat := 1024

/-- `processSerialMsg(a_cmd, len)`: the buffer it leaves, and the number of the message that it
fetches with `getsms`. -/
def processSerialMsg (cmd : Mem) (len : Nat) : Mem × Option Int :=
  let cmd := store cmd (len - 1) 0
  let text := strAt cmd (cmdLen + 1) 0
  if text.take 6 = "+CMTI:" then
    match text.dropWhile (· ≠ 44) with
    -- the message begins as expected but has no comma
    | [] => (cmd, none)
    | _ :: number => (cmd, some (atoi number))
  else (cmd, none)

/-- The buffer and the locals of `xapSerialAccumulator`, the lines given to `processSerialMsg` and
the messages fetched. -/
structure Accumulator where
  cmd : Mem
  cursor : Nat
  flag : Bool
  handed : List Bytes
  fetched : List Int

def Accumulator.start : Accumulator :=
  { cmd := fun _ => 0, cursor := 0, flag := false, handed := [], fetched := [] }

/-- `processSerialMsg(i_serial_cmd, i_serial_cursor); i_serial_cursor = 0`. -/
def Accumulator.line (a : Accumulator) : Accumulator :=
  let (cmd, message) := processSerialMsg a.cmd a.cursor
  { a with
    cmd := cmd
    cursor := 0
    handed := a.handed ++ [bytesAt a.cmd 0 a.cursor]
    fetched := a.fetched ++ message.toList }

def accumulate (a : Accumulator) (c : UInt8) : Option Accumulator := do
  let a ← (storeIn (cmdLen + 1) a.cmd a.cursor c).map fun cmd => { a with cmd := cmd, cursor := a.cursor + 1 }
  if c = 13 then return { a with flag := true }
  else if a.flag = true ∧ c = 10 then return a.line
  else return { a with flag := false }

/-- `xapSerialAccumulator` with the bytes that `read` returns, at most `BUFFER_LEN` of them. -/
def xapSerialAccumulator (a : Accumulator) (serialBuff : Bytes) : Option Accumulator :=
  serialBuff.foldlM accumulate { a with cursor := 0, flag := false }

/-! ## Lines that end in CR LF -/

/-- The lines of a text, each with its CR LF, and what is left over. -/
structure Cut where
  lines : List Bytes
  rest : Bytes
  deriving DecidableEq, Repr

def Cut.byte (cut : Cut) (c : UInt8) : Cut :=
  if c = 10 ∧ cut.rest.getLast? = some 13 then ⟨cut.lines ++ [cut.rest ++ [c]], []⟩
  else ⟨cut.lines, cut.rest ++ [c]⟩

/-- The lines of `rest ++ s`, when `rest` holds no line. -/
def cutFrom (rest s : Bytes) : Cut := s.foldl Cut.byte ⟨[], rest⟩

def crlfLines (s : Bytes) : List Bytes := (cutFrom [] s).lines

/-- What a stream has behind its last line. -/
def crlfRest (s : Bytes) : Bytes := (cutFrom [] s).rest

variable {reads : List Bytes}

theorem Cut.byte_ends {cut : Cut} {c : UInt8} (ends : c = 10 ∧ cut.rest.getLast? = some 13) :
    cut.byte c = ⟨cut.lines ++ [cut.rest ++ [c]], []⟩ :=
  if_pos ends

theorem Cut.byte_inside {cut : Cut} {c : UInt8} (inside : ¬ (c = 10 ∧ cut.rest.getLast? = some 13)) :
    cut.byte c = ⟨cut.lines, cut.rest ++ [c]⟩ :=
  if_neg inside

theorem cutFrom_snoc (rest s : Bytes) (c : UInt8) : cutFrom rest (s ++ [c]) = (cutFrom rest s).byte c := by
  rw [cutFrom, foldl_append]
  rfl

/-- The lines found so far do not matter for the others. -/
theorem foldl_byte (lines : List Bytes) (rest s : Bytes) :
    s.foldl Cut.byte ⟨lines, rest⟩ = ⟨lines ++ (cutFrom rest s).lines, (cutFrom rest s).rest⟩ := by
  induction s using List.reverseRecOn with
  | nil => simp [cutFrom]
  | append_singleton s c ih =>
    rw [foldl_append, foldl_cons, foldl_nil, ih, cutFrom_snoc]
    by_cases ends : c = 10 ∧ (cutFrom rest s).rest.getLast? = some 13
    · simp only [Cut.byte, if_pos ends, append_assoc]
    · simp only [Cut.byte, if_neg ends]

theorem cutFrom_append (rest s t : Bytes) :
    cutFrom rest (s ++ t) =
      ⟨(cutFrom rest s).lines ++ (cutFrom (cutFrom rest s).rest t).lines, (cutFrom (cutFrom rest s).rest t).rest⟩ := by
  rw [← foldl_byte]
  exact foldl_append

theorem cutFrom_text (rest s : Bytes) : (cutFrom rest s).lines.flatten ++ (cutFrom rest s).rest = rest ++ s := by
  induction s using List.reverseRecOn with
  | nil => simp [cutFrom]
  | append_singleton s c ih =>
    rw [cutFrom_snoc, ← append_assoc, ← ih]
    by_cases ends : c = 10 ∧ (cutFrom rest s).rest.getLast? = some 13
    · rw [Cut.byte_ends ends]
      simp
    · rw [Cut.byte_inside ends]
      simp

/-- A line ends in CR LF. -/
theorem cutFrom_line {rest s line : Bytes} (mem : line ∈ (cutFrom rest s).lines) : line ≠ [10] := by
  induction s using List.reverseRecOn with
  | nil => simp [cutFrom] at mem
  | append_singleton s c ih =>
    rw [cutFrom_snoc] at mem
    by_cases ends : c = 10 ∧ (cutFrom rest s).rest.getLast? = some 13
    · rw [Cut.byte_ends ends] at mem
      rcases mem_append.1 mem with earlier | last
      · exact ih earlier
      · rintro rfl
        have text := congrArg List.length (mem_singleton.1 last)
        have empty : (cutFrom rest s).rest = [] := by
          apply eq_nil_of_length_eq_zero
          simp only [length_append, length_singleton] at text
          omega
        simp [empty] at ends
    · rw [Cut.byte_inside ends] at mem
      exact ih mem

/-! ## Beginning inside a line

A read that begins inside a line sees the same bytes without the part before. -/

/-- The cut of `rest ++ s` against that of `s`: as long as no line ends, there is nothing but text.
Behind the end of a line the first cut has no more left over than the second. -/
inductive Trails (rest s : Bytes) : Prop
  | open_ (lines : (cutFrom rest s).lines = []) (lines' : crlfLines s = []) (whole : (cutFrom rest s).rest = rest ++ s)
      (whole' : crlfRest s = s)
  | ended (lines : (cutFrom rest s).lines ≠ []) (part : Bytes) (longer : crlfRest s = part ++ (cutFrom rest s).rest)
      (fresh : (cutFrom rest s).rest = [] → (crlfRest s).getLast? ≠ some 13)

section Trails

variable {rest s : Bytes} {c : UInt8}

theorem crlfRest_ends (ends : c = 10 ∧ (cutFrom [] s).rest.getLast? = some 13) : crlfRest (s ++ [c]) = [] := by
  rw [crlfRest, cutFrom_snoc, Cut.byte_ends ends]

theorem crlfRest_inside (inside : ¬ (c = 10 ∧ (cutFrom [] s).rest.getLast? = some 13)) :
    crlfRest (s ++ [c]) = crlfRest s ++ [c] := by
  rw [crlfRest, cutFrom_snoc, Cut.byte_inside inside]
  rfl

/-- A line ends in the longer text, and what is left of the other does not end in CR. -/
theorem Trails.ends (ends : c = 10 ∧ (cutFrom rest s).rest.getLast? = some 13)
    (fresh : (crlfRest (s ++ [c])).getLast? ≠ some 13) : Trails rest (s ++ [c]) := by
  have cut := cutFrom_snoc rest s c
  rw [Cut.byte_ends ends] at cut
  refine .ended (by simp [cut]) (crlfRest (s ++ [c])) ?_ fun _ => fresh
  rw [cut, append_nil]

/-- Behind the end of a line both texts go on. -/
theorem Trails.goes_on (lines : (cutFrom rest s).lines ≠ []) {part : Bytes}
    (longer : crlfRest s = part ++ (cutFrom rest s).rest)
    (inside : ¬ (c = 10 ∧ (cutFrom rest s).rest.getLast? = some 13))
    (inside' : ¬ (c = 10 ∧ (cutFrom [] s).rest.getLast? = some 13)) : Trails rest (s ++ [c]) := by
  have cut := cutFrom_snoc rest s c
  rw [Cut.byte_inside inside] at cut
  refine .ended (by rw [cut]; exact lines) part ?_ (by simp [cut])
  rw [crlfRest_inside inside', cut, longer, append_assoc]

end Trails

theorem trails (rest s : Bytes) : Trails rest s := by
  induction s using List.reverseRecOn with
  | nil => exact .open_ rfl rfl (by simp [cutFrom]) rfl
  | append_singleton s c ih =>
    cases ih with
    | open_ lines lines' whole whole' =>
      have text : (cutFrom [] s).rest = s := whole'
      by_cases ends : c = 10 ∧ (cutFrom rest s).rest.getLast? = some 13
      · refine .ends ends ?_
        by_cases ends' : c = 10 ∧ (cutFrom [] s).rest.getLast? = some 13
        · simp [crlfRest_ends ends']
        · rw [crlfRest_inside ends', getLast?_concat, ends.1]
          decide
      · have inside' : ¬ (c = 10 ∧ (cutFrom [] s).rest.getLast? = some 13) := by
          rintro ⟨rfl, last⟩
          refine ends ⟨rfl, ?_⟩
          rw [text] at last
          rw [whole, getLast?_append_of_ne_nil rest (by rintro rfl; simp at last), last]
        have cut := cutFrom_snoc rest s c
        have cut' := cutFrom_snoc [] s c
        rw [Cut.byte_inside ends] at cut
        rw [Cut.byte_inside inside'] at cut'
        refine .open_ (by rw [cut]; exact lines) (by rw [crlfLines, cut']; exact lines') ?_ ?_
        · rw [cut, whole, append_assoc]
        · rw [crlfRest_inside inside', whole']
    | ended lines part longer fresh =>
      by_cases empty : (cutFrom rest s).rest = []
      · exact .goes_on lines longer (by simp [empty]) fun ends => fresh empty ends.2
      · -- the same last byte, so both lines end or none
        have same : (cutFrom [] s).rest.getLast? = (cutFrom rest s).rest.getLast? := by
          rw [← crlfRest, longer, getLast?_append_of_ne_nil part empty]
        by_cases ends : c = 10 ∧ (cutFrom rest s).rest.getLast? = some 13
        · exact .ends ends (by simp [crlfRest_ends (s := s) (by rwa [same])])
        · exact .goes_on lines longer ends (by rwa [same])

/-! ## What one read hears -/

/-- The locals of a call on lists: the lines handed on, the bytes since, and the flag. -/
structure Hearing where
  lines : List Bytes
  rest : Bytes
  flag : Bool
  deriving DecidableEq, Repr

def Hearing.byte (h : Hearing) (c : UInt8) : Hearing :=
  if c = 13 then ⟨h.lines, h.rest ++ [c], true⟩
  else if h.flag = true ∧ c = 10 then ⟨h.lines ++ [h.rest ++ [c]], [], h.flag⟩
  else ⟨h.lines, h.rest ++ [c], false⟩

def hear (s : Bytes) : Hearing := s.foldl Hearing.byte ⟨[], [], false⟩

theorem hear_snoc (s : Bytes) (c : UInt8) : hear (s ++ [c]) = (hear s).byte c := by
  rw [hear, foldl_append]
  rfl

/-- The CR LF LF that makes the flag of an ended line count again. -/
def staleFlag : Bytes := [13, 10, 10]

/-- A read hears its own lines, unless an LF follows the end of one. -/
theorem hear_lines {s : Bytes} (plain : ¬ staleFlag <:+: s) :
    (hear s).lines = crlfLines s ∧ (hear s).rest = crlfRest s ∧
      ((hear s).flag = true ↔ (crlfRest s).getLast? = some 13 ∨ crlfRest s = [] ∧ [13, 10] <:+ s) := by
  induction s using List.reverseRecOn with
  | nil => simp [hear, crlfLines, crlfRest, cutFrom]
  | append_singleton s c ih =>
    have shorter : ¬ staleFlag <:+: s := fun h => plain (h.trans (prefix_append s [c]).isInfix)
    obtain ⟨lines, rest, flag⟩ := ih shorter
    have cut := cutFrom_snoc [] s c
    rw [hear_snoc, Hearing.byte]
    simp only [crlfLines, crlfRest] at lines rest flag ⊢
    by_cases cr : c = 13
    · have inside : ¬ (c = 10 ∧ (cutFrom [] s).rest.getLast? = some 13) := by
        rintro ⟨lf, -⟩
        exact absurd (cr.symm.trans lf) (by decide)
      rw [if_pos cr, cut, Cut.byte_inside inside]
      exact ⟨lines, by rw [rest], by simp [cr]⟩
    · rw [if_neg cr]
      by_cases lf : c = 10
      · subst lf
        by_cases ends : (cutFrom [] s).rest.getLast? = some 13
        · rw [if_pos ⟨flag.2 (.inl ends), rfl⟩, cut, Cut.byte_ends ⟨rfl, ends⟩]
          have tail : [13, 10] <:+ s ++ [10] := by
            have text := cutFrom_text [] s
            obtain ⟨front, last⟩ := getLast?_eq_some_iff.1 ends
            refine ⟨(cutFrom [] s).lines.flatten ++ front, ?_⟩
            rw [nil_append, last] at text
            rw [show s ++ [10] = (cutFrom [] s).lines.flatten ++ (front ++ [13]) ++ [10] by rw [text]]
            simp
          exact ⟨by rw [lines, rest], rfl, by simp [flag.2 (.inl ends), tail]⟩
        · have noFlag : ¬ ((hear s).flag = true ∧ (10 : UInt8) = 10) := by
            rintro ⟨isSet, -⟩
            rcases flag.1 isSet with last | ⟨-, front, tail⟩
            · exact ends last
            · refine plain ⟨front, [], ?_⟩
              rw [← tail]
              simp [staleFlag]
          rw [if_neg noFlag, cut, Cut.byte_inside (fun h => ends h.2)]
          refine ⟨lines, by rw [rest], ?_⟩
          simp
      · rw [if_neg (fun h => lf h.2), cut, Cut.byte_inside (fun h => lf h.1)]
        refine ⟨lines, by rw [rest], ?_⟩
        simp [cr]

theorem hear_append_lines (s t : Bytes) : ∃ more, (hear (s ++ t)).lines = (hear s).lines ++ more := by
  induction t using List.reverseRecOn with
  | nil => exact ⟨[], by simp⟩
  | append_singleton t c ih =>
    obtain ⟨more, longer⟩ := ih
    rw [← append_assoc, hear_snoc, Hearing.byte]
    split_ifs
    · exact ⟨more, longer⟩
    · exact ⟨more ++ [_], by rw [longer, append_assoc]⟩
    · exact ⟨more, longer⟩

/-- An LF behind the end of a line is handed on as a line. -/
theorem hear_staleFlag {s : Bytes} (stale : staleFlag <:+: s) : [10] ∈ (hear s).lines := by
  obtain ⟨before, after, rfl⟩ := stale
  obtain ⟨more, longer⟩ := hear_append_lines (before ++ staleFlag) after
  rw [longer]
  refine mem_append_left _ ?_
  have split : before ++ staleFlag = before ++ [13] ++ [10] ++ [10] := by simp [staleFlag]
  rw [split, hear_snoc, hear_snoc, hear_snoc]
  simp [Hearing.byte]

/-! ## A call in memory -/

/-- The number of the message that a line announces. -/
def notified (line : Bytes) : Option Int :=
  let text := line.dropLast.takeWhile (· ≠ 0)
  if text.take 6 = "+CMTI:" then
    match text.dropWhile (· ≠ 44) with
    | [] => none
    | _ :: number => some (atoi number)
  else none

theorem bytesAt_dropLast (m : Mem) (n : Nat) : (bytesAt m 0 (n + 1)).dropLast = bytesAt m 0 n := by
  rw [bytesAt, range_succ, map_append, map_singleton, dropLast_concat]
  rfl

theorem processSerialMsg_notified (cmd : Mem) {n : Nat} (short : n ≤ cmdLen) :
    (processSerialMsg cmd (n + 1)).2 = notified (bytesAt cmd 0 (n + 1)) := by
  have bytes : bytesAt (store cmd n 0) 0 (bytesAt cmd 0 n).length = bytesAt cmd 0 n := by
    rw [bytesAt_length]
    exact bytesAt_store_behind (Nat.le_of_eq (Nat.zero_add n)) 0
  have nul : store cmd n 0 (0 + (bytesAt cmd 0 n).length) = 0 := by
    rw [bytesAt_length, Nat.zero_add, store_same]
  have text : strAt (store cmd n 0) (cmdLen + 1) 0 = (bytesAt cmd 0 n).takeWhile (· ≠ 0) := by
    apply (cstr_of_bytesAt bytes nul).strAt_eq
    have := (List.takeWhile_prefix (l := bytesAt cmd 0 n) fun c => decide (c ≠ 0)).length_le
    rw [bytesAt_length] at this
    omega
  rw [notified, bytesAt_dropLast, processSerialMsg, Nat.add_sub_cancel, text]
  split
  next => cases ((bytesAt cmd 0 n).takeWhile (· ≠ 0)).dropWhile (· ≠ 44) <;> rfl
  next => rfl

/-- A call that began in `base` and has seen `s`. -/
structure Hears (base : Accumulator) (s : Bytes) (a : Accumulator) : Prop where
  cursor : a.cursor = (hear s).rest.length
  size : (hear s).rest.length ≤ s.length
  bytes : bytesAt a.cmd 0 a.cursor = (hear s).rest
  flag : a.flag = (hear s).flag
  handed : a.handed = base.handed ++ (hear s).lines
  fetched : a.fetched = base.fetched ++ (hear s).lines.filterMap notified

theorem Hears.byte {base a : Accumulator} {s : Bytes} (h : Hears base s a) (c : UInt8) (room : s.length ≤ cmdLen) :
    ∃ a', accumulate a c = some a' ∧ Hears base (s ++ [c]) a' := by
  have inside : a.cursor < cmdLen + 1 := by
    have cursor := h.cursor
    have size := h.size
    omega
  have stored : bytesAt (store a.cmd a.cursor c) 0 (a.cursor + 1) = (hear s).rest ++ [c] := by
    have added := bytesAt_store_end a.cmd 0 a.cursor c
    rwa [Nat.zero_add, h.bytes] at added
  have counted : a.cursor + 1 = ((hear s).rest ++ [c]).length := by
    rw [length_append, h.cursor]
    rfl
  have longer : ((hear s).rest ++ [c]).length ≤ (s ++ [c]).length := by
    have size := h.size
    simp only [length_append]
    omega
  have heard := hear_snoc s c
  simp only [accumulate, storeIn_inside inside, Option.map_some, Option.bind_eq_bind, Option.bind_some]
  by_cases cr : c = 13
  · rw [Hearing.byte, if_pos cr] at heard
    rw [if_pos cr]
    exact ⟨_, rfl, by rw [heard]; exact counted, by rw [heard]; exact longer, by rw [heard]; exact stored,
      by rw [heard], by rw [heard]; exact h.handed, by rw [heard]; exact h.fetched⟩
  · rw [Hearing.byte, if_neg cr] at heard
    rw [if_neg cr]
    by_cases ends : a.flag = true ∧ c = 10
    · rw [if_pos (h.flag ▸ ends)] at heard
      rw [if_pos ends]
      refine ⟨_, rfl, by rw [heard]; rfl, by rw [heard]; exact Nat.zero_le _, by rw [heard]; rfl,
        by rw [heard]; exact h.flag, ?_, ?_⟩
      · rw [heard]
        simp only [Accumulator.line, stored, h.handed, append_assoc]
      · rw [heard]
        have number := processSerialMsg_notified (store a.cmd a.cursor c) (Nat.le_of_lt_succ inside)
        rw [stored] at number
        simp only [Accumulator.line, number, h.fetched, filterMap_append, append_assoc]
        cases call : notified ((hear s).rest ++ [c]) <;> simp [call]
    · rw [if_neg (h.flag ▸ ends)] at heard
      rw [if_neg ends]
      exact ⟨_, rfl, by rw [heard]; exact counted, by rw [heard]; exact longer, by rw [heard]; exact stored,
        by rw [heard], by rw [heard]; exact h.handed, by rw [heard]; exact h.fetched⟩

/-- **One call.** -/
theorem call_hears (a : Accumulator) {read : Bytes} (short : read.length ≤ bufferLen) :
    ∃ a', xapSerialAccumulator a read = some a' ∧ a'.handed = a.handed ++ (hear read).lines ∧
      a'.fetched = a.fetched ++ (hear read).lines.filterMap notified := by
  let Inv : Bytes → Option Accumulator → Prop :=
    fun s o => s.length ≤ cmdLen → ∃ a', o = some a' ∧ Hears a s a'
  have next : ∀ s o c, Inv s o → Inv (s ++ [c]) (o.bind (accumulate · c)) := by
    intro s o c inv room
    rw [length_append, length_singleton] at room
    obtain ⟨a', rfl, h⟩ := inv (by omega)
    exact h.byte c (by omega)
  have start : Inv [] (some { a with cursor := 0, flag := false }) :=
    fun _ => ⟨_, rfl, rfl, Nat.le_refl _, rfl, rfl, by simp [hear], by simp [hear]⟩
  have room : read.length ≤ cmdLen := Nat.le_trans short (by decide)
  obtain ⟨a', run, h⟩ := symbols_keep Inv next read start (by rwa [nil_append])
  rw [nil_append] at h
  exact ⟨a', run, h.handed, h.fetched⟩

/-- **Every run of reads.** -/
theorem calls_hear (a : Accumulator) (short : ∀ read ∈ reads, read.length ≤ bufferLen) :
    ∃ a', reads.foldlM xapSerialAccumulator a = some a' ∧
      a'.handed = a.handed ++ reads.flatMap (fun read => (hear read).lines) ∧
      a'.fetched = a.fetched ++ (reads.flatMap fun read => (hear read).lines).filterMap notified := by
  induction reads generalizing a with
  | nil => exact ⟨a, rfl, by simp, by simp⟩
  | cons read reads ih =>
    obtain ⟨first, others⟩ := forall_mem_cons.1 short
    obtain ⟨b, call, handed, fetched⟩ := call_hears a first
    obtain ⟨a', run, handed', fetched'⟩ := ih b others
    refine ⟨a', ?_, ?_, ?_⟩
    · rw [foldlM_cons, call]
      exact run
    · rw [handed', handed, flatMap_cons, append_assoc]
    · rw [fetched', fetched, flatMap_cons, filterMap_append, append_assoc]

/-! ## Aligned reads -/

/-- The ways of cutting a stream that lose nothing: a read begins inside a line only if that line
never ends, and no LF follows the end of a line in the same read. -/
structure Aligned (reads : List Bytes) : Prop where
  plain : ∀ read ∈ reads, ¬ staleFlag <:+: read
  whole : ∀ before read after, reads = before ++ read :: after →
    crlfRest before.flatten = [] ∨ crlfLines reads.flatten = crlfLines before.flatten

/-- When no line ends in `rest ++ reads`, none ends in a read. -/
theorem reads_open {rest : Bytes} (none : (cutFrom rest reads.flatten).lines = []) :
    (cutFrom rest reads.flatten).rest = rest ++ reads.flatten ∧ reads.flatMap crlfLines = [] ∧
      reads.flatMap crlfRest = reads.flatten := by
  induction reads generalizing rest with
  | nil => simp [cutFrom]
  | cons read reads ih =>
    rw [flatten_cons, cutFrom_append] at none ⊢
    obtain ⟨first, others⟩ := append_eq_nil_iff.1 none
    cases trails rest read with
    | open_ lines lines' whole whole' =>
      rw [whole] at others
      obtain ⟨left, later, rests⟩ := ih others
      simp only [whole, left, flatMap_cons, lines', later, whole', rests, append_assoc, append_nil,
        and_self]
    | ended lines => exact absurd first lines

/-- Behind the end of a line, no more is left over than the reads lose. -/
theorem reads_ended {rest : Bytes} (some : (cutFrom rest reads.flatten).lines ≠ []) :
    (cutFrom rest reads.flatten).rest.length ≤ (reads.flatMap crlfRest).length := by
  induction reads generalizing rest with
  | nil => exact absurd rfl some
  | cons read reads ih =>
    rw [flatten_cons, cutFrom_append] at some ⊢
    rw [flatMap_cons, length_append]
    cases trails rest read with
    | open_ lines lines' whole whole' =>
      rw [lines, nil_append] at some
      have later := ih some
      simp only
      omega
    | ended lines part longer fresh =>
      have size := congrArg List.length longer
      rw [length_append] at size
      by_cases none : (cutFrom (cutFrom rest read).rest reads.flatten).lines = []
      · obtain ⟨left, -, rests⟩ := reads_open none
        simp only [left, rests, length_append]
        omega
      · have later := ih none
        simp only
        omega

theorem crlfRest_length_le (reads : List Bytes) :
    (crlfRest reads.flatten).length ≤ (reads.flatMap crlfRest).length := by
  by_cases none : (cutFrom [] reads.flatten).lines = []
  · obtain ⟨left, -, rests⟩ := reads_open none
    rw [crlfRest, left, rests, nil_append]
  · exact reads_ended none

theorem reads_length (reads : List Bytes) :
    reads.flatten.length = (reads.flatMap crlfLines).flatten.length + (reads.flatMap crlfRest).length := by
  induction reads with
  | nil => rfl
  | cons read reads ih =>
    have text := congrArg List.length (cutFrom_text [] read)
    simp only [nil_append, length_append] at text
    simp only [flatten_cons, flatMap_cons, flatten_append, length_append, ih, crlfLines, crlfRest]
    omega

theorem crlfLines_append (s t : Bytes) : crlfLines (s ++ t) = crlfLines s ++ (cutFrom (crlfRest s) t).lines := by
  rw [crlfLines, cutFrom_append]
  rfl

theorem crlfRest_append (s t : Bytes) : crlfRest (s ++ t) = (cutFrom (crlfRest s) t).rest := by
  rw [crlfRest, cutFrom_append]
  rfl

/-- Reads with whole lines give the lines of the stream. -/
theorem lines_of_whole
    (whole : ∀ before read after, reads = before ++ read :: after →
      crlfRest before.flatten = [] ∨ crlfLines reads.flatten = crlfLines before.flatten) :
    reads.flatMap crlfLines = crlfLines reads.flatten := by
  induction reads with
  | nil => rfl
  | cons read reads ih =>
    rw [flatMap_cons, flatten_cons, crlfLines_append]
    by_cases empty : crlfRest read = []
    · rw [empty]
      refine congrArg (crlfLines read ++ ·) (ih fun before read' after split => ?_)
      have cut := whole (read :: before) read' after (by rw [split, cons_append])
      rw [flatten_cons, flatten_cons, crlfRest_append, crlfLines_append, crlfLines_append, empty,
        append_cancel_left_eq] at cut
      exact cut
    · have none : (cutFrom (crlfRest read) reads.flatten).lines = [] := by
        cases reads with
        | nil => rfl
        | cons next reads =>
          rcases whole [read] next reads rfl with ended | same
          · rw [flatten_singleton] at ended
            exact absurd ended empty
          · rw [flatten_singleton, flatten_cons, crlfLines_append] at same
            exact append_right_eq_self.1 same
      rw [none, (reads_open none).2.1]

/-- Reads that give the lines of the stream have whole lines: otherwise bytes of a line are lost,
and the lines are shorter in all. -/
theorem whole_of_lines (same : reads.flatMap crlfLines = crlfLines reads.flatten)
    {before after : List Bytes} {read : Bytes} (split : reads = before ++ read :: after) :
    crlfRest before.flatten = [] ∨ crlfLines reads.flatten = crlfLines before.flatten := by
  by_cases none : (cutFrom (crlfRest before.flatten) (read :: after).flatten).lines = []
  · right
    rw [split, flatten_append, crlfLines_append, none, append_nil]
  · left
    have lost := reads_ended none
    have left := crlfRest_length_le before
    have all := reads_length reads
    have text := congrArg List.length (cutFrom_text [] reads.flatten)
    rw [same] at all
    have rest : (cutFrom [] reads.flatten).rest = (cutFrom (crlfRest before.flatten) (read :: after).flatten).rest := by
      rw [split, flatten_append]
      exact crlfRest_append _ _
    have pieces : (reads.flatMap crlfRest).length =
        (before.flatMap crlfRest).length + ((read :: after).flatMap crlfRest).length := by
      rw [split, flatMap_append, length_append]
    rw [nil_append, length_append, rest] at text
    apply eq_nil_of_length_eq_zero
    simp only [crlfLines] at all
    omega

/-- **The lines of the stream are handed on exactly if the reads are aligned.** -/
theorem heard_iff_aligned (reads : List Bytes) :
    reads.flatMap (fun read => (hear read).lines) = crlfLines reads.flatten ↔ Aligned reads := by
  constructor
  · intro same
    have plain : ∀ read ∈ reads, ¬ staleFlag <:+: read := by
      intro read mem stale
      have heard : [10] ∈ crlfLines reads.flatten := same ▸ mem_flatMap.2 ⟨read, mem, hear_staleFlag stale⟩
      exact cutFrom_line heard rfl
    have own := flatMap_congr fun read mem => (hear_lines (plain read mem)).1
    exact ⟨plain, fun before read after split => whole_of_lines (own ▸ same) split⟩
  · rintro ⟨plain, whole⟩
    have own := flatMap_congr fun read mem => (hear_lines (plain read mem)).1
    rw [own]
    exact lines_of_whole whole

/-- Reads that end where lines end. -/
theorem aligned_of_ended (plain : ∀ read ∈ reads, ¬ staleFlag <:+: read)
    (ended : ∀ read ∈ reads, crlfRest read = []) : Aligned reads := by
  have ends : ∀ before : List Bytes, (∀ read ∈ before, crlfRest read = []) → crlfRest before.flatten = [] := by
    intro before
    induction before with
    | nil => exact fun _ => rfl
    | cons read before ih =>
      intro all
      obtain ⟨first, others⟩ := forall_mem_cons.1 all
      rw [flatten_cons, crlfRest_append, first]
      exact ih others
  refine ⟨plain, fun before read after split => .inl (ends before fun r mem => ended r ?_)⟩
  rw [split]
  exact mem_append_left _ mem

/-- **A way of cutting a stream gives the same lines as an aligned one exactly if it is aligned
too**, and the lines decide which messages are fetched. -/
theorem accumulator_lines_iff {reads reads' : List Bytes} (short : ∀ read ∈ reads, read.length ≤ 250)
    (short' : ∀ read ∈ reads', read.length ≤ 250) (same : reads.flatten = reads'.flatten) (aligned : Aligned reads') :
    ∃ a a', reads.foldlM xapSerialAccumulator .start = some a ∧
      reads'.foldlM xapSerialAccumulator .start = some a' ∧ (a.handed = a'.handed ↔ Aligned reads) ∧
      (Aligned reads → a.fetched = a'.fetched) := by
  obtain ⟨a, run, handed, fetched⟩ := calls_hear .start short
  obtain ⟨a', run', handed', fetched'⟩ := calls_hear .start short'
  have lines : a'.handed = crlfLines reads.flatten := by
    rw [handed', (heard_iff_aligned reads').2 aligned, same]
    rfl
  have exact : a.handed = a'.handed ↔ Aligned reads := by
    rw [lines, handed, ← heard_iff_aligned]
    rfl
  refine ⟨a, a', run, run', exact, fun aligned => ?_⟩
  have equal := exact.2 aligned
  rw [handed, handed'] at equal
  rw [fetched, fetched', append_cancel_left equal]

/-- Two notifications, in two reads and in one. -/
theorem accumulator_lines_notified :
    ∃ a a', [ascii "+CMTI: \"MT\",3\r\n", ascii "+CMTI: \"MT\",4\r\n"].foldlM xapSerialAccumulator .start = some a ∧
      [ascii "+CMTI: \"MT\",3\r\n+CMTI: \"MT\",4\r\n"].foldlM xapSerialAccumulator .start = some a' ∧
      a.handed = a'.handed ∧ a.fetched = a'.fetched := by
  have short : ∀ read ∈ [ascii "+CMTI: \"MT\",3\r\n", ascii "+CMTI: \"MT\",4\r\n"], read.length ≤ 250 := by decide
  have aligned : Aligned ["+CMTI: \"MT\",3\r\n", "+CMTI: \"MT\",4\r\n"] :=
    aligned_of_ended (by decide) (by decide)
  have short' : ∀ read ∈ [ascii "+CMTI: \"MT\",3\r\n+CMTI: \"MT\",4\r\n"], read.length ≤ 250 := by decide
  have aligned' : Aligned ["+CMTI: \"MT\",3\r\n+CMTI: \"MT\",4\r\n"] :=
    aligned_of_ended (by decide) (by decide)
  obtain ⟨a, a', run, run', lines, messages⟩ := accumulator_lines_iff short short' (by decide) aligned'
  exact ⟨a, a', run, run', lines.2 aligned, messages aligned⟩

/-- A notification that arrives in two reads is lost. -/
theorem split_notification_lost :
    ([ascii "+CMTI: \"MT\",3\r\n"].foldlM xapSerialAccumulator .start).map
        (fun a => (a.handed, a.fetched)) = some ([ascii "+CMTI: \"MT\",3\r\n"], [3]) ∧
      ([ascii "+CMTI: \"M", ascii "T\",3\r\n"].foldlM xapSerialAccumulator .start).map
        (fun a => (a.handed, a.fetched)) = some ([ascii "T\",3\r\n"], []) := by
  decide +kernel

end Hah.Sms
