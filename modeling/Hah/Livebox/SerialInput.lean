import Hah.Lib.Lines
import Hah.Livebox.Serial

/-!
# Serial input: `serialInputHandler`

The bytes from the AVR are collected in `cmd`, a CR or LF hands the line to
`processSerialCommand`, and that one cuts the line in place and fills `argv`. Both arrays are
guarded by a test behind the store: byte 129 of a line and word 9 of a command are stored
outside, and the result is `none`. A line that begins with the prompt of the AVR ends the
daemon.

`serialCommand` says on lists what `processSerialCommand` does in memory; they are joined by
`processSerialCommand_words`.
-/

namespace Hah.Livebox.Input
open C Lines List Option

/-! ## The code -/

/-- `sizeof(cmd)`. -/
def cmdSize : Nat := 128

def argvSize : Nat := 8

/-- The inner loop of the tokenizer: where the word at `p` ends. -/
def wordEnd (cmd : Mem) : Nat → Nat → Nat
  | 0, p => p
  | room + 1, p => if cmd p = 0 ∨ separates (cmd p) = true then p else wordEnd cmd room (p + 1)

/-- `argv[argc++] = p`; `argc` is the length. -/
def storeArgv (argv : List Nat) (p : Nat) : Option (List Nat) :=
  if argv.length < argvSize then some (argv ++ [p]) else none

/-- What the tokenizer leaves. -/
structure Arguments where
  cmd : Mem
  argv : List Nat
  tooMany : Bool

/-- The loop of the tokenizer, at most `n` turns. -/
def fillArgv : Nat → Mem → List Nat → Nat → Option Arguments
  | 0, cmd, argv, _ => some ⟨cmd, argv, false⟩
  | n + 1, cmd, argv, p =>
    if cmd p = 0 then some ⟨cmd, argv, false⟩
    else do
      let argv ← storeArgv argv p
      if argvSize < argv.length then return ⟨cmd, argv, true⟩
      let q := wordEnd cmd (cmdSize - p) p
      if cmd q = 0 then fillArgv n cmd argv q
      else
        let cmd ← storeIn cmdSize cmd q 0
        fillArgv n cmd argv (q + 1)

def dispatch : List Bytes → Option (Handler × List Bytes)
  | [] => none
  | name :: args =>
    match cmdTable.find? fun entry => entry.1 == name with
    | none => none
    | some (_, handler, least) => if args.length < least then none else some (handler, args)

inductive Served where
  | died
  | done (call : Option (Handler × List Bytes))
  deriving DecidableEq, Repr

/-- `processSerialCommand(cmd)`: the buffer and the handler that is called. -/
def processSerialCommand (cmd : Mem) : Option (Mem × Served) :=
  -- the '>' character is the AVR command line prompt
  if cmd 0 = 62 then some (cmd, .died)
  else do
    let args ← fillArgv cmdSize cmd [] 0
    if args.tooMany then return (args.cmd, .done none)
    return (args.cmd, .done (dispatch (args.argv.map (strAt args.cmd cmdSize))))

/-- The static variables of `serialInputHandler`, the lines given to `processSerialCommand`, the
handlers that were called, and whether the daemon still runs. -/
structure SerialInput where
  cmd : Mem
  pos : Nat
  processed : List Bytes
  calls : List (Handler × List Bytes)
  alive : Bool

def SerialInput.start : SerialInput := { cmd := fun _ => 0, pos := 0, processed := [], calls := [], alive := true }

/-- `processSerialCommand(cmd); pos = 0`. -/
def SerialInput.command (s : SerialInput) (cmd : Mem) : Option SerialInput := do
  let (cmd', served) ← processSerialCommand cmd
  let processed := s.processed ++ [bytesAt cmd 0 s.pos]
  match served with
  | .died => return { s with cmd := cmd', processed := processed, alive := false }
  | .done call => return { s with cmd := cmd', pos := 0, processed := processed, calls := s.calls ++ call.toList }

/-- The loop body of `serialInputHandler`. -/
def inputByte (s : SerialInput) (c : UInt8) : Option SerialInput :=
  if s.alive = false then some s
  else do
    let cmd ← storeIn cmdSize s.cmd s.pos c
    if crOrLf c then
      let cmd ← storeIn cmdSize cmd s.pos 0
      if s.pos ≠ 0 then s.command cmd else return { s with cmd := cmd }
    else if s.pos < cmdSize then return { s with cmd := cmd, pos := s.pos + 1 }
    else return { s with cmd := cmd }

/-- `serialInputHandler` with the bytes that `read` returns, at most 128 of them. -/
def serialInputHandler (s : SerialInput) (serialBuff : Bytes) : Option SerialInput :=
  serialBuff.foldlM inputByte s

/-! ## Words in memory -/

def Plain (w : Bytes) : Prop := ∀ c ∈ w, separates c = false

variable {cmd : Mem} {w line : Bytes} {p : Nat}

/-- A text is read word by word. -/
theorem words_induction {P : Bytes → Prop} (nil : P []) (last : ∀ w, w ≠ [] → Plain w → P w)
    (word : ∀ w sep rest, Plain w → separates sep = true → P rest → P (w ++ sep :: rest)) (s : Bytes) : P s := by
  induction size : s.length using Nat.strongRecOn generalizing s with
  | ind n ih =>
    have split := takeWhile_append_dropWhile (p := fun c => !separates c) (l := s)
    have plain : Plain (s.takeWhile fun c => !separates c) := by
      intro c mem
      simpa using mem_takeWhile_imp mem
    cases rest : s.dropWhile fun c => !separates c with
    | nil =>
      rw [rest, append_nil] at split
      by_cases empty : s = []
      · rw [empty]
        exact nil
      · exact last s empty (split ▸ plain)
    | cons sep rest' =>
      have ends : separates sep = true := by
        have head := head_dropWhile_not (fun c => !separates c) (l := s) (by simp [rest])
        simpa [rest] using head
      rw [rest] at split
      have shorter : rest'.length < n := by
        rw [← size, ← split]
        simp only [length_append, length_cons]
        omega
      rw [← split]
      exact word _ sep rest' plain ends (ih _ shorter rest' rfl)

theorem wordEnd_word {rest : Bytes} (plain : Plain w) (h : CStr cmd p (w ++ rest))
    (ends : cmd (p + w.length) = 0 ∨ separates (cmd (p + w.length)) = true) {room : Nat}
    (enough : w.length ≤ room) : wordEnd cmd room p = p + w.length := by
  induction w generalizing p room with
  | nil =>
    cases room with
    | zero => rfl
    | succ room => exact if_pos ends
  | cons c w ih =>
    obtain ⟨room, rfl⟩ : ∃ k, room = k + 1 := ⟨room - 1, by simp only [length_cons] at enough; omega⟩
    have here : cmd p = c := h.bytes 0 (by simp)
    have nonzero : c ≠ 0 := h.clean c (by simp)
    have inside : ¬ (cmd p = 0 ∨ separates (cmd p) = true) := by
      rw [here, plain c (by simp)]
      simp [nonzero]
    have shift : p + (c :: w).length = p + 1 + w.length := by
      simp only [length_cons]
      omega
    rw [wordEnd, if_neg inside, shift]
    exact ih (fun d mem => plain d (mem_cons_of_mem c mem)) h.tail (shift ▸ ends) (by simpa using enough)

/-- A turn at a word; the test behind the store never holds. -/
theorem fillArgv_succ {n : Nat} (here : cmd p ≠ 0) (argv : List Nat) : fillArgv (n + 1) cmd argv p =
    (storeArgv argv p).bind fun argv =>
      if cmd (wordEnd cmd (cmdSize - p) p) = 0 then fillArgv n cmd argv (wordEnd cmd (cmdSize - p) p)
      else (storeIn cmdSize cmd (wordEnd cmd (cmdSize - p) p) 0).bind fun cmd' =>
        fillArgv n cmd' argv (wordEnd cmd (cmdSize - p) p + 1) := by
  rw [fillArgv, if_neg here, storeArgv]
  by_cases room : argv.length < argvSize
  · have few : ¬ argvSize < (argv ++ [p]).length := by
      rw [length_append, length_singleton]
      omega
    simp only [if_pos room, bind_eq_bind, bind_some, if_neg few]
  · simp only [if_neg room, bind_eq_bind, bind_none]

theorem fillArgv_nul (n : Nat) (nul : cmd p = 0) (argv : List Nat) : fillArgv n cmd argv p = some ⟨cmd, argv, false⟩ := by
  cases n with
  | zero => rfl
  | succ n => rw [fillArgv, if_pos nul]

/-- One turn of the tokenizer on the last word. -/
theorem fillArgv_last {n : Nat} (h : CStr cmd p w) (nonempty : w ≠ [])
    (plain : Plain w) (inside : p + w.length < cmdSize) (argv : List Nat) :
    fillArgv (n + 1) cmd argv p = (storeArgv argv p).map fun argv => ⟨cmd, argv, false⟩ := by
  have whole : CStr cmd p (w ++ []) := by rwa [append_nil]
  have ends := wordEnd_word plain whole (.inl h.nul) (show w.length ≤ cmdSize - p by omega)
  rw [fillArgv_succ (h.head_ne nonempty), ends, map_eq_bind]
  simp only [if_pos h.nul, fillArgv_nul n h.nul]
  rfl

theorem fillArgv_word {n : Nat} {rest : Bytes} {sep : UInt8}
    (h : CStr cmd p (w ++ sep :: rest)) (plain : Plain w) (isSep : separates sep = true)
    (inside : p + (w ++ sep :: rest).length < cmdSize) (argv : List Nat) :
    fillArgv (n + 1) cmd argv p =
      (storeArgv argv p).bind fun argv => fillArgv n (store cmd (p + w.length) 0) argv (p + w.length + 1) := by
  have at_sep : cmd (p + w.length) = sep := by
    rw [h.bytes w.length (by simp)]
    simp
  have nonzero : cmd (p + w.length) ≠ 0 := by
    rw [at_sep]
    exact h.clean sep (by simp)
  simp only [length_append, length_cons] at inside
  have ends := wordEnd_word plain h (.inr (at_sep ▸ isSep)) (show w.length ≤ cmdSize - p by omega)
  rw [fillArgv_succ (h.head_ne (by simp)), ends]
  simp only [if_neg nonzero, storeIn_inside (show p + w.length < cmdSize by omega), bind_some]

/-- **`argv` points at the words**, when there is room for them; one too many is stored behind it. -/
theorem fillArgv_words (s : Bytes) : ∀ {n : Nat} {cmd : Mem} {p : Nat} (argv : List Nat), CStr cmd p s →
    p + s.length < cmdSize → s.length ≤ n → argv.length ≤ argvSize →
    ∃ cmd' more, fillArgv n cmd argv p =
        (if argv.length + (tokenize none s).length ≤ argvSize then some ⟨cmd', argv ++ more, false⟩ else none) ∧
      (∀ j < p, cmd' j = cmd j) ∧
      List.Forall₂ (fun q w => CStr cmd' q w ∧ w.length ≤ cmdSize) more (tokenize none s) := by
  induction s using words_induction with
  | nil =>
    intro n cmd p argv h inside enough room
    refine ⟨cmd, [], ?_, fun j before => rfl, .nil⟩
    rw [fillArgv_nul n (by simpa using h.nul), append_nil]
    exact (if_pos room).symm
  | last w nonempty plain =>
    intro n cmd p argv h inside enough room
    obtain ⟨n, rfl⟩ : ∃ k, n = k + 1 := ⟨n - 1, by have := length_pos_of_ne_nil nonempty; omega⟩
    rw [tokenize_single plain nonempty]
    refine ⟨cmd, [p], ?_, fun j before => rfl, .cons ⟨h, by omega⟩ .nil⟩
    rw [fillArgv_last h nonempty plain inside, storeArgv, length_singleton, apply_ite (Option.map _)]
    rfl
  | word w sep rest plain isSep ih =>
    intro n cmd p argv h inside enough room
    rw [tokenize_word plain isSep]
    simp only [length_append, length_cons] at inside enough ⊢
    obtain ⟨n, rfl⟩ : ∃ k, n = k + 1 := ⟨n - 1, by omega⟩
    obtain ⟨first, later⟩ := CStr.cut h
    rw [fillArgv_word h plain isSep (by simpa using inside), storeArgv]
    obtain ⟨cmd', more, run, kept, points⟩ := ih (n := n) ((argv ++ [p]).take argvSize) later (by omega) (by omega)
      (length_take_le _ _)
    refine ⟨cmd', p :: more, ?_, ?_, ?_⟩
    · by_cases full : argv.length < argvSize
      · rw [take_of_length_le (by rw [length_append]; exact full), length_append, append_assoc] at run
        rw [if_pos full, bind_some, run, Nat.add_assoc, Nat.add_comm [p].length]
        rfl
      · rw [if_neg full, if_neg (by omega)]
        rfl
    · intro j before
      rw [kept j (by omega), store_other (by omega)]
    · refine .cons ⟨?_, ?_⟩ points <;> rw [getD_none, nil_append]
      on_goal 2 => omega
      apply first.keep
      · intro j low high
        exact kept j (by omega)
      · rw [kept _ (by omega)]
        exact first.nul

/-! ## Commands -/

/-- A line that begins with the prompt of the AVR. -/
def Prompt (line : Bytes) : Prop := line.head? = some 62

instance (line : Bytes) : Decidable (Prompt line) := inferInstanceAs (Decidable (_ = _))

/-- The words of a line, which as a C string ends at its first NUL. -/
def words (line : Bytes) : List Bytes := tokenize none (line.takeWhile (· ≠ 0))

def lineCall (line : Bytes) : Option (Handler × List Bytes) := serialCommand (line.takeWhile (· ≠ 0))

/-- A line in `cmd`, with its terminator. -/
structure LineIn (cmd : Mem) (line : Bytes) : Prop where
  bytes : bytesAt cmd 0 line.length = line
  nul : cmd line.length = 0

theorem LineIn.cstr (h : LineIn cmd line) : CStr cmd 0 (line.takeWhile (· ≠ 0)) :=
  cstr_of_bytesAt h.bytes (by rw [Nat.zero_add, h.nul])

theorem LineIn.prompt (h : LineIn cmd line) (nonempty : line ≠ []) : cmd 0 = 62 ↔ Prompt line := by
  obtain ⟨c, line, rfl⟩ := exists_cons_of_ne_nil nonempty
  have first := bytesAt_getElem cmd 0 (c :: line).length (j := 0) (by simp)
  simp only [h.bytes, getElem_cons_zero, Nat.zero_add] at first
  rw [← first, Prompt, head?_cons, some.injEq]

theorem takeWhile_length_le (line : Bytes) : (line.takeWhile (· ≠ 0)).length ≤ line.length :=
  (List.takeWhile_prefix _).length_le

/-- **A command in memory is the command on its words.** -/
theorem processSerialCommand_words (h : LineIn cmd line) (nonempty : line ≠ [])
    (short : line.length < cmdSize) (noPrompt : ¬ Prompt line) (few : (words line).length ≤ argvSize) :
    ∃ cmd', processSerialCommand cmd = some (cmd', .done (lineCall line)) := by
  have length := takeWhile_length_le line
  obtain ⟨cmd', argv, run, -, points⟩ := fillArgv_words (n := cmdSize) _ [] h.cstr (by omega) (by omega) (Nat.zero_le _)
  rw [length_nil, Nat.zero_add, if_pos (show (tokenize none _).length ≤ argvSize from few)] at run
  refine ⟨cmd', ?_⟩
  rw [processSerialCommand, if_neg (mt (h.prompt nonempty).1 noPrompt), run, lineCall,
    show serialCommand _ = dispatch _ from if_neg (Nat.not_lt.2 few)]
  have texts : ∀ {argv : List Nat} {ws : List Bytes},
      List.Forall₂ (fun q w => CStr cmd' q w ∧ w.length ≤ cmdSize) argv ws → argv.map (strAt cmd' cmdSize) = ws := by
    intro argv ws all
    induction all with
    | nil => rfl
    | cons first later ih => rw [map_cons, first.1.strAt_eq first.2, ih]
  simp only [bind_eq_bind, bind_some, nil_append, Bool.false_eq_true, if_false, texts points]
  rfl

theorem processSerialCommand_overflow (h : LineIn cmd line) (nonempty : line ≠ []) (short : line.length < cmdSize)
    (noPrompt : ¬ Prompt line) (many : argvSize < (words line).length) : processSerialCommand cmd = none := by
  have length := takeWhile_length_le line
  obtain ⟨_, _, run, -⟩ := fillArgv_words (n := cmdSize) _ [] h.cstr (by omega) (by omega) (Nat.zero_le _)
  rw [length_nil, Nat.zero_add, if_neg (Nat.not_le.2 (show argvSize < (tokenize none _).length from many))] at run
  rw [processSerialCommand, if_neg (mt (h.prompt nonempty).1 noPrompt), run]
  rfl

/-! ## Streams -/

/-- A line that is served like any other. -/
structure Fine (line : Bytes) : Prop where
  short : line.length < cmdSize
  noPrompt : ¬ Prompt line
  few : (words line).length ≤ argvSize

/-- A daemon that has served all lines of the stream. -/
structure Serving (stream : Bytes) (s : SerialInput) : Prop where
  alive : s.alive = true
  room : s.pos ≤ cmdSize
  pos : s.pos = (pending crOrLf stream).length
  bytes : bytesAt s.cmd 0 s.pos = pending crOrLf stream
  fine : ∀ line ∈ nonempty crOrLf stream, Fine line
  processed : s.processed = nonempty crOrLf stream
  calls : s.calls = (nonempty crOrLf stream).filterMap lineCall

structure Stopped (stream : Bytes) (s : SerialInput) : Prop where
  alive : s.alive = false
  split : ∃ before line after, nonempty crOrLf stream = before ++ line :: after ∧ (∀ l ∈ before, Fine l) ∧
    line.length < cmdSize ∧ Prompt line ∧ s.processed = before ++ [line]

/-- A line that makes the daemon store outside its arrays. -/
def Harmful (line : Bytes) : Prop :=
  cmdSize ≤ line.length ∨ ¬ Prompt line ∧ argvSize < (words line).length

/-- A stream that makes the daemon store outside its arrays, in a line or in the unfinished one. -/
inductive Overruns (stream : Bytes) : Prop
  | line {before after : List Bytes} {line : Bytes}
      (split : nonempty crOrLf stream = before ++ line :: after) (quiet : ∀ l ∈ before, ¬ Prompt l)
      (harmful : Harmful line)
  | unfinished (quiet : ∀ l ∈ nonempty crOrLf stream, ¬ Prompt l)
      (long : cmdSize < (pending crOrLf stream).length)

inductive Status (stream : Bytes) : Option SerialInput → Prop
  | serving {s : SerialInput} (h : Serving stream s) : Status stream (some s)
  | stopped {s : SerialInput} (h : Stopped stream s) : Status stream (some s)
  | outside (h : Overruns stream) : Status stream none

theorem serving_start : Serving [] .start where
  alive := rfl
  room := Nat.zero_le _
  pos := by simp [SerialInput.start]
  bytes := by simp [SerialInput.start, bytesAt]
  fine := by simp
  processed := by simp [SerialInput.start]
  calls := by simp [SerialInput.start]

theorem Stopped.byte {stream : Bytes} {s : SerialInput} (h : Stopped stream s) (c : UInt8) :
    inputByte s c = some s ∧ Stopped (stream ++ [c]) s := by
  refine ⟨if_pos h.alive, h.alive, ?_⟩
  obtain ⟨before, line, after, split, rest⟩ := h.split
  obtain ⟨more, longer⟩ := nonempty_snoc stream c
  exact ⟨before, line, after ++ more, by rw [← longer, split, append_assoc, cons_append], rest⟩

/-- What was stored outside stays so. -/
theorem Overruns.byte {stream : Bytes} (h : Overruns stream) (c : UInt8) : Overruns (stream ++ [c]) := by
  cases h with
  | line split quiet harmful =>
    obtain ⟨more, longer⟩ := nonempty_snoc stream c
    exact .line (by rw [← longer, split, append_assoc, cons_append]) quiet harmful
  | unfinished quiet long =>
    cases isEnd : crOrLf c with
    | false =>
      refine .unfinished (by rwa [nonempty_inside isEnd]) ?_
      rw [pending_inside isEnd, length_append]
      omega
    | true =>
      have line : pending crOrLf stream ≠ [] := ne_nil_of_length_pos (by omega)
      exact .line (nonempty_end_line isEnd line) quiet (.inl (Nat.le_of_lt long))

namespace Serving

variable {stream : Bytes} {s : SerialInput} {c : UInt8}

section

variable (h : Serving stream s)
include h

theorem quiet : ∀ line ∈ nonempty crOrLf stream, ¬ Prompt line :=
  fun line mem => (h.fine line mem).noPrompt

/-- A byte inside a line. -/
theorem inside (inside : crOrLf c = false) : Status (stream ++ [c]) (inputByte s c) := by
  rw [inputByte, if_neg (by simp [h.alive])]
  by_cases room : s.pos < cmdSize
  · simp only [storeIn_inside room, bind_eq_bind, bind_some, inside, Bool.false_eq_true, if_false,
      if_pos room]
    have stored := bytesAt_store_end s.cmd 0 s.pos c
    rw [Nat.zero_add, h.bytes] at stored
    refine .serving ⟨h.alive, room, ?_, ?_, ?_, ?_, ?_⟩
    · rw [pending_inside inside, length_append, ← h.pos]
      rfl
    · rw [pending_inside inside]
      exact stored
    · rw [nonempty_inside inside]
      exact h.fine
    · rw [nonempty_inside inside]
      exact h.processed
    · rw [nonempty_inside inside]
      exact h.calls
  · simp only [storeIn_outside (Nat.not_lt.1 room), bind_eq_bind, bind_none]
    refine .outside (.unfinished ?_ ?_)
    · rw [nonempty_inside inside]
      exact h.quiet
    · have pos := h.pos
      rw [pending_inside inside, length_append, length_singleton]
      omega

/-- The end of an empty line. -/
theorem ends_empty (isEnd : crOrLf c = true)
    (empty : pending crOrLf stream = []) : Status (stream ++ [c]) (inputByte s c) := by
  have pos : s.pos = 0 := by rw [h.pos, empty, length_nil]
  have room : s.pos < cmdSize := by rw [pos]; decide
  have lines := nonempty_end_empty isEnd empty
  rw [inputByte, if_neg (by simp [h.alive])]
  simp only [storeIn_inside room, bind_eq_bind, bind_some, isEnd, if_true]
  rw [if_neg (not_not.2 pos)]
  refine .serving ⟨h.alive, h.room, ?_, ?_, ?_, ?_, ?_⟩
  · rw [pending_end isEnd, length_nil]
    exact pos
  · rw [pending_end isEnd, pos]
    rfl
  · rw [lines]
    exact h.fine
  · rw [lines]
    exact h.processed
  · rw [lines]
    exact h.calls

theorem lineIn (c : UInt8) :
    LineIn (store (store s.cmd s.pos c) s.pos 0) (pending crOrLf stream) := by
  have behind : 0 + s.pos ≤ s.pos := Nat.le_of_eq (Nat.zero_add _)
  constructor
  · rw [← h.pos, bytesAt_store_behind behind, bytesAt_store_behind behind, h.bytes]
  · rw [← h.pos, store_same]

/-- The end of a line with text. -/
theorem ends_line (isEnd : crOrLf c = true)
    (text : pending crOrLf stream ≠ []) : Status (stream ++ [c]) (inputByte s c) := by
  have lines := nonempty_end_line isEnd text
  have begun : s.pos ≠ 0 := by
    rw [h.pos]
    exact Nat.ne_of_gt (length_pos_of_ne_nil text)
  rw [inputByte, if_neg (by simp [h.alive])]
  by_cases room : s.pos < cmdSize
  · have inCmd := h.lineIn c
    have bytes : bytesAt (store (store s.cmd s.pos c) s.pos 0) 0 s.pos = pending crOrLf stream := by
      rw [h.pos]
      exact h.pos ▸ inCmd.bytes
    have short : (pending crOrLf stream).length < cmdSize := h.pos ▸ room
    simp only [storeIn_inside room, bind_eq_bind, bind_some, isEnd, if_true, begun, ne_eq,
      not_false_eq_true, SerialInput.command, bytes]
    by_cases prompt : Prompt (pending crOrLf stream)
    · rw [processSerialCommand, if_pos ((inCmd.prompt text).2 prompt)]
      refine .stopped ⟨rfl, nonempty crOrLf stream, _, [], lines, h.fine, short, prompt, ?_⟩
      exact congrArg (· ++ [_]) h.processed
    · by_cases few : (words (pending crOrLf stream)).length ≤ argvSize
      · obtain ⟨cmd', run⟩ := processSerialCommand_words inCmd text short prompt few
        rw [run]
        refine .serving ⟨h.alive, Nat.zero_le _, ?_, ?_, ?_, ?_, ?_⟩
        · rw [pending_end isEnd]
          rfl
        · rw [pending_end isEnd]
          rfl
        · rw [lines]
          exact forall_mem_append.2 ⟨h.fine, forall_mem_singleton.2 ⟨short, prompt, few⟩⟩
        · rw [lines]
          exact congrArg (· ++ [_]) h.processed
        · rw [lines, filterMap_append, ← h.calls]
          cases call : lineCall (pending crOrLf stream) <;> simp [call]
      · rw [processSerialCommand_overflow inCmd text short prompt (Nat.not_le.1 few)]
        exact .outside (.line lines h.quiet (.inr ⟨prompt, Nat.not_le.1 few⟩))
  · simp only [storeIn_outside (Nat.not_lt.1 room), bind_eq_bind, bind_none]
    exact .outside (.line lines h.quiet (.inl (h.pos ▸ Nat.not_lt.1 room)))

end

end Serving

/-- **One byte.** -/
theorem Status.byte {stream : Bytes} {o : Option SerialInput} (h : Status stream o) (c : UInt8) :
    Status (stream ++ [c]) (o.bind (inputByte · c)) := by
  cases h with
  | @serving s h =>
    cases isEnd : crOrLf c with
    | false => exact h.inside isEnd
    | true =>
      by_cases empty : pending crOrLf stream = []
      · exact h.ends_empty isEnd empty
      · exact h.ends_line isEnd empty
  | stopped h =>
    obtain ⟨same, later⟩ := h.byte c
    rw [bind_some, same]
    exact .stopped later
  | outside h => exact .outside (h.byte c)

/-- **Every run of reads.** -/
theorem reads_status (reads : List Bytes) : Status reads.flatten (reads.foldlM serialInputHandler .start) := by
  have read : ∀ s o c, Status s o → Status (s ++ id c) (o.bind (serialInputHandler · c)) :=
    fun s o c start => symbols_keep Status (fun s o b h => h.byte b) c start
  have run := calls_keep Status read reads (.serving serving_start)
  rwa [nil_append, flatMap_id] at run

/-- The streams that are served in full: no line is longer than 127 bytes or has more than 8 words,
no line but the last begins with the prompt, and the unfinished line fits the buffer. -/
structure Orderly (stream : Bytes) : Prop where
  short : ∀ line ∈ nonempty crOrLf stream, line.length < cmdSize
  few : ∀ line ∈ nonempty crOrLf stream, ¬ Prompt line → (words line).length ≤ argvSize
  quiet : ∀ line ∈ (nonempty crOrLf stream).dropLast, ¬ Prompt line
  unfinished : (∀ line ∈ nonempty crOrLf stream, ¬ Prompt line) → (pending crOrLf stream).length ≤ cmdSize

theorem Serving.orderly {stream : Bytes} {s : SerialInput} (h : Serving stream s) : Orderly stream where
  short := fun line mem => (h.fine line mem).short
  few := fun line mem _ => (h.fine line mem).few
  quiet := fun line mem => h.quiet line (dropLast_subset _ mem)
  unfinished := fun _ => h.pos ▸ h.room

/-- A daemon that stopped has served all lines exactly if it stopped at the last one. -/
theorem Stopped.orderly_iff {stream : Bytes} {s : SerialInput} (h : Stopped stream s) :
    s.processed = nonempty crOrLf stream ↔ Orderly stream := by
  obtain ⟨before, line, after, split, fine, short, prompt, processed⟩ := h.split
  have last : s.processed = nonempty crOrLf stream ↔ after = [] := by
    rw [processed, split, append_cancel_left_eq, List.cons.injEq]
    exact ⟨fun same => same.2.symm, fun none => ⟨rfl, none.symm⟩⟩
  rw [last]
  constructor
  · rintro rfl
    refine ⟨?_, ?_, ?_, ?_⟩
    · rw [split]
      exact forall_mem_append.2 ⟨fun l mem => (fine l mem).short, forall_mem_singleton.2 short⟩
    · rw [split]
      exact forall_mem_append.2 ⟨fun l mem _ => (fine l mem).few,
        forall_mem_singleton.2 fun noPrompt => absurd prompt noPrompt⟩
    · rw [split, dropLast_concat]
      exact fun l mem => (fine l mem).noPrompt
    · exact fun quiet => absurd prompt (quiet line (split ▸ mem_append_right _ mem_cons_self))
  · intro orderly
    by_contra more
    have inner : line ∈ (nonempty crOrLf stream).dropLast := by
      rw [split, dropLast_append_of_ne_nil (cons_ne_nil _ _), dropLast_cons_of_ne_nil more]
      exact mem_append_right _ mem_cons_self
    exact orderly.quiet line inner prompt

theorem Overruns.not_orderly {stream : Bytes} (h : Overruns stream) : ¬ Orderly stream := by
  intro orderly
  cases h with
  | line split quiet harmful =>
    have mem := split ▸ mem_append_right _ mem_cons_self
    rcases harmful with long | ⟨noPrompt, many⟩
    · exact absurd (orderly.short _ mem) (Nat.not_lt.2 long)
    · exact absurd (orderly.few _ mem noPrompt) (Nat.not_le.2 many)
  | unfinished quiet long => exact absurd (orderly.unfinished quiet) (Nat.not_le.2 long)

/-- **The serial input is served in full exactly for orderly streams**, however it is cut into
reads: nothing is stored outside `cmd` and `argv`, and the lines that reach
`processSerialCommand` are the non-empty lines of the stream. -/
theorem input_served_iff (reads : List Bytes) :
    (∃ s, reads.foldlM serialInputHandler .start = some s ∧ s.processed = nonempty crOrLf reads.flatten) ↔
      Orderly reads.flatten := by
  cases run : reads.foldlM serialInputHandler .start with
  | none =>
    have status := run ▸ reads_status reads
    cases status with
    | outside h => exact iff_of_false (fun ⟨s, absurd, _⟩ => nomatch absurd) h.not_orderly
  | some s =>
    have status := run ▸ reads_status reads
    have unique : (∃ s', some s = some s' ∧ s'.processed = nonempty crOrLf reads.flatten) ↔
        s.processed = nonempty crOrLf reads.flatten :=
      ⟨fun ⟨s', same, processed⟩ => some.inj same ▸ processed, fun processed => ⟨s, rfl, processed⟩⟩
    rw [unique]
    cases status with
    | serving h => exact iff_of_true h.processed h.orderly
    | stopped h => exact h.orderly_iff

/-- A line of 128 bytes, and one of nine words. -/
theorem input_overruns :
    ([List.replicate 128 97 ++ [13]].foldlM serialInputHandler .start).isNone = true ∧
      ([ascii "input 1 2 3 4 5 6 7 8\n"].foldlM serialInputHandler .start).isNone = true := by
  decide +kernel

end Hah.Livebox.Input
