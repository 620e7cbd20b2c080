import Mathlib.Data.List.Forall2
import Hah.Lib.Lines
import Hah.Rf.Recognition

/-!
# The numbers of the receiver: `processSerial`

The durations reach `xap-urfrx` as decimal numbers in a stream of bytes. `processSerial`
collects digits and minus signs in a buffer of ten bytes, converts what it has at the next
other byte and hands the number to all decoders. The buffer is guarded by a test behind the
store, and a text that `sscanf` cannot convert is handed on as the number that `durState`
happens to hold, since only the answer `EOF` is taken for a failure.
-/

namespace Hah.Rf
open C Lines List Option

section Stream

variable {E : Type}

/-! ## The code -/

/-- `sizeof(buff)`. -/
def tokenSize : Nat := 10

/-- `isdigit(c) || c == '-'`. -/
def tokenByte (c : UInt8) : Bool := isdigit c || c == 45

/-- The variables of `processSerial`, the contexts of `decoderList`, and the numbers that were
handed to them. `durState` is a local: it keeps its value within a call only. -/
structure NumberReader (E : Type) where
  buff : Mem
  buffCnt : Nat
  durState : Int
  decoders : List (URFContext E)
  handed : List Int

def NumberReader.start (decoders : List (URFContext E)) : NumberReader E :=
  { buff := fun _ => 0, buffCnt := 0, durState := 0, decoders := decoders, handed := [] }

/-- Hand `durState` to each decoder state machine. -/
def NumberReader.hand (r : NumberReader E) : NumberReader E :=
  { r with
    decoders := r.decoders.map fun ctx => (URFConsumer ctx r.durState).1
    handed := r.handed ++ [r.durState] }

/-- The end of a token: `buff[buff_cnt] = 0` and what follows. -/
def NumberReader.finish (r : NumberReader E) : Option (NumberReader E) := do
  let buff ← storeIn tokenSize r.buff r.buffCnt 0
  let r := { r with buff := buff, buffCnt := 0 }
  match sscanfInt (strAt buff tokenSize 0) with
  | .eof => return r
  | .nothing => return r.hand
  | .value v => return { r with durState := v }.hand

/-- The loop body of `processSerial`. -/
def numberByte (r : NumberReader E) (c : UInt8) : Option (NumberReader E) :=
  if tokenByte c then do
    let buff ← storeIn tokenSize r.buff r.buffCnt c
    let r := { r with buff := buff, buffCnt := r.buffCnt + 1 }
    return if tokenSize < r.buffCnt then { r with buffCnt := r.buffCnt - 1 } else r
  else if r.buffCnt = 0 then some r
  else r.finish

/-- A call of `processSerial`: its data, and what the uninitialised `durState` holds. -/
structure SerialData where
  durState : Int
  data : Bytes
  deriving DecidableEq, Repr

def processSerial (r : NumberReader E) (call : SerialData) : Option (NumberReader E) :=
  call.data.foldlM numberByte { r with durState := call.durState }

/-! ## Tokens -/

def gap (c : UInt8) : Bool := !tokenByte c

/-- The value of a decimal integer of at most nine characters. -/
def numeral (token : Bytes) : Option Int :=
  let digits := if token.head? = some 45 then token.drop 1 else token
  if token.length ≤ 9 ∧ digits ≠ [] ∧ digits.all isdigit = true then
    some (if token.head? = some 45 then -(leadingNumber digits : Int) else leadingNumber digits)
  else none

theorem tokenByte_plain {c : UInt8} (h : tokenByte c = true) : isspace c = false ∧ c ≠ 43 ∧ c ≠ 0 := by
  simp only [tokenByte, Bool.or_eq_true, beq_iff_eq] at h
  rcases h with digit | rfl
  · obtain ⟨space, -, plus⟩ := digit_plain digit
    refine ⟨space, plus, ?_⟩
    rintro rfl
    exact absurd digit (by decide)
  · decide

/-- A token is converted, or there is no number in it; it is never the end of the text. -/
theorem sscanfInt_token {token : Bytes} (nonempty : token ≠ []) (all : ∀ c ∈ token, tokenByte c = true) :
    (∃ v, sscanfInt token = .value v ∧ ∀ n, numeral token = some n → v = n) ∨
      sscanfInt token = .nothing ∧ numeral token = none := by
  obtain ⟨c, rest, rfl⟩ := exists_cons_of_ne_nil nonempty
  obtain ⟨space, plus, -⟩ := tokenByte_plain (all c mem_cons_self)
  have spaces : (c :: rest).dropWhile isspace = c :: rest := dropWhile_cons_of_neg (by simp [space])
  have sign : ((c :: rest).head? = some 45 ∨ (c :: rest).head? = some 43) ↔ (c :: rest).head? = some 45 := by
    simp [plus]
  simp only [sscanfInt, spaces, if_neg (cons_ne_nil c rest), sign, numeral]
  generalize (if (c :: rest).head? = some 45 then (c :: rest).drop 1 else c :: rest) = digits
  by_cases none : digits.takeWhile isdigit = []
  · refine .inr ⟨if_pos none, if_neg ?_⟩
    rintro ⟨-, some, every⟩
    rw [takeWhile_eq_self_iff.2 (all_eq_true.1 every)] at none
    exact some none
  · refine .inl ⟨_, if_neg none, fun n value => ?_⟩
    exact some.inj (ite_none_right_eq_some.1 value).2

/-! ## Streams -/

/-- The numbers handed on for tokens: that of a numeral is its value. -/
def Converted (tokens : List Bytes) (handed : List Int) : Prop :=
  List.Forall₂ (fun token v => ∀ n, numeral token = some n → v = n) tokens handed

/-- A reader that has stored nothing outside its buffer. -/
structure Reading (decoders : List (URFContext E)) (stream : Bytes) (r : NumberReader E) : Prop where
  count : r.buffCnt = (pending gap stream).length
  room : r.buffCnt ≤ tokenSize
  bytes : bytesAt r.buff 0 r.buffCnt = pending gap stream
  short : ∀ token ∈ nonempty gap stream, token.length < tokenSize
  handed : Converted (nonempty gap stream) r.handed
  decoders : r.decoders = decoders.map (consume · r.handed)

/-- A stream with a token that does not fit the buffer. -/
def Overflows (stream : Bytes) : Prop :=
  (∃ token ∈ nonempty gap stream, tokenSize ≤ token.length) ∨ tokenSize < (pending gap stream).length

inductive ReaderStatus (decoders : List (URFContext E)) (stream : Bytes) : Option (NumberReader E) → Prop
  | reading {r : NumberReader E} (h : Reading decoders stream r) : ReaderStatus decoders stream (some r)
  | outside (h : Overflows stream) : ReaderStatus decoders stream none

theorem reading_start (decoders : List (URFContext E)) : Reading decoders [] (.start decoders) where
  count := by simp [NumberReader.start]
  room := Nat.zero_le _
  bytes := by simp [NumberReader.start, bytesAt]
  short := by simp
  handed := by rw [nonempty_nil]; exact .nil
  decoders := by simp [NumberReader.start, consume]

theorem Overflows.byte {stream : Bytes} (h : Overflows stream) (c : UInt8) : Overflows (stream ++ [c]) := by
  cases isGap : gap c with
  | false =>
    rcases h with ⟨token, mem, long⟩ | long
    · exact .inl ⟨token, by rwa [nonempty_inside isGap], long⟩
    · refine .inr ?_
      rw [pending_inside isGap, length_append]
      omega
  | true =>
    refine .inl ?_
    rcases h with ⟨token, mem, long⟩ | long
    · exact ⟨token, (nonempty_snoc stream c).subset mem, long⟩
    · rw [nonempty_end_line isGap (ne_nil_of_length_pos (by omega))]
      exact ⟨_, mem_append_right _ (mem_singleton_self _), Nat.le_of_lt long⟩

namespace Reading

variable {decoders : List (URFContext E)} {stream : Bytes} {r : NumberReader E}

/-- A digit or a minus sign. -/
theorem token (h : Reading decoders stream r) {c : UInt8} (inside : gap c = false) :
    ReaderStatus decoders (stream ++ [c]) (numberByte r c) := by
  have isToken : tokenByte c = true := by simpa [gap] using inside
  rw [numberByte, if_pos isToken]
  by_cases room : r.buffCnt < tokenSize
  · have few := Nat.not_lt.2 room
    simp only [storeIn_inside room, bind_eq_bind, bind_some, if_neg few]
    have stored := bytesAt_store_end r.buff 0 r.buffCnt c
    rw [Nat.zero_add, h.bytes] at stored
    refine .reading ⟨?_, room, ?_, ?_, ?_, h.decoders⟩
    · rw [pending_inside inside, length_append, ← h.count]
      rfl
    · rw [pending_inside inside]
      exact stored
    · rw [nonempty_inside inside]
      exact h.short
    · rw [nonempty_inside inside]
      exact h.handed
  · simp only [storeIn_outside (Nat.not_lt.1 room), bind_eq_bind, bind_none]
    refine .outside (.inr ?_)
    have count := h.count
    rw [pending_inside inside, length_append, length_singleton]
    omega

theorem hand (h : Reading decoders stream r) {c : UInt8} (isGap : gap c = true) (text : pending gap stream ≠ [])
    (room : r.buffCnt < tokenSize) {v : Int} (value : ∀ n, numeral (pending gap stream) = some n → v = n) (buff : Mem) :
    Reading decoders (stream ++ [c]) { r with buff := buff, buffCnt := 0, durState := v }.hand := by
  have tokens := nonempty_end_line isGap text
  refine ⟨?_, Nat.zero_le _, ?_, ?_, ?_, ?_⟩
  · rw [pending_end isGap]
    rfl
  · rw [pending_end isGap]
    rfl
  · rw [tokens]
    exact forall_mem_append.2 ⟨h.short, forall_mem_singleton.2 (h.count ▸ room)⟩
  · rw [tokens]
    exact rel_append h.handed (.cons value .nil)
  · simp only [NumberReader.hand, h.decoders, List.map_map]
    apply map_congr_left
    intro ctx _
    unfold consume
    rw [foldl_append]
    rfl

/-- Any other byte. -/
theorem gapByte (h : Reading decoders stream r) {c : UInt8} (isGap : gap c = true) :
    ReaderStatus decoders (stream ++ [c]) (numberByte r c) := by
  have notToken : tokenByte c = false := by simpa [gap] using isGap
  rw [numberByte, if_neg (by simp [notToken])]
  by_cases empty : pending gap stream = []
  · have zero : r.buffCnt = 0 := by rw [h.count, empty, length_nil]
    rw [if_pos zero]
    have tokens := nonempty_end_empty isGap empty
    have fresh : pending gap (stream ++ [c]) = pending gap stream := by rw [pending_end isGap, empty]
    exact .reading ⟨fresh ▸ h.count, h.room, fresh ▸ h.bytes, tokens ▸ h.short, tokens ▸ h.handed, h.decoders⟩
  · have begun : r.buffCnt ≠ 0 := by
      rw [h.count]
      exact Nat.ne_of_gt (length_pos_of_ne_nil empty)
    rw [if_neg begun, NumberReader.finish]
    by_cases room : r.buffCnt < tokenSize
    · have all : ∀ b ∈ pending gap stream, tokenByte b = true := by
        intro b mem
        simpa [gap] using pending_mem mem
      have clean : (pending gap stream).takeWhile (· ≠ 0) = pending gap stream := by
        rw [takeWhile_eq_self_iff]
        intro b mem
        simpa using (tokenByte_plain (all b mem)).2.2
      have bytes : bytesAt (store r.buff r.buffCnt 0) 0 (pending gap stream).length = pending gap stream := by
        rw [← h.count, bytesAt_store_behind (Nat.le_of_eq (Nat.zero_add _)), h.bytes]
      have nul : store r.buff r.buffCnt 0 (0 + (pending gap stream).length) = 0 := by
        rw [Nat.zero_add, ← h.count, store_same]
      have string := cstr_of_bytesAt bytes nul
      rw [clean] at string
      have scanned : strAt (store r.buff r.buffCnt 0) tokenSize 0 = pending gap stream :=
        string.strAt_eq (h.count ▸ h.room)
      simp only [storeIn_inside room, bind_eq_bind, bind_some, scanned]
      rcases sscanfInt_token empty all with ⟨v, read, value⟩ | ⟨read, none⟩
      · simp only [read]
        exact .reading (h.hand isGap empty room value _)
      · -- the stale value is handed on
        simp only [read]
        exact .reading (h.hand isGap empty room (v := r.durState) (fun n value => by simp [none] at value) _)
    · simp only [storeIn_outside (Nat.not_lt.1 room), bind_eq_bind, bind_none]
      refine .outside (.inl ⟨pending gap stream, ?_, h.count ▸ Nat.not_lt.1 room⟩)
      rw [nonempty_end_line isGap empty]
      exact mem_append_right _ (mem_singleton_self _)

end Reading

theorem ReaderStatus.byte {decoders : List (URFContext E)} {stream : Bytes} {o : Option (NumberReader E)}
    (h : ReaderStatus decoders stream o) (c : UInt8) :
    ReaderStatus decoders (stream ++ [c]) (o.bind (numberByte · c)) := by
  cases h with
  | reading h =>
    cases isGap : gap c with
    | false => exact h.token isGap
    | true => exact h.gapByte isGap
  | outside h => exact .outside (h.byte c)

/-- A call begins with any value in `durState`. -/
theorem ReaderStatus.call {decoders : List (URFContext E)} {stream : Bytes} {o : Option (NumberReader E)}
    (h : ReaderStatus decoders stream o) (call : SerialData) :
    ReaderStatus decoders (stream ++ call.data) (o.bind (processSerial · call)) := by
  have begun : ReaderStatus decoders stream (o.map fun r => { r with durState := call.durState }) := by
    cases h with
    | reading h => exact .reading ⟨h.count, h.room, h.bytes, h.short, h.handed, h.decoders⟩
    | outside h => exact .outside h
  have run := symbols_keep (ReaderStatus decoders) (fun s o b h => h.byte b) call.data begun
  cases o with
  | none => exact run
  | some r => exact run

/-- **Every run of calls.** -/
theorem calls_status (decoders : List (URFContext E)) (calls : List SerialData) :
    ReaderStatus decoders (calls.flatMap SerialData.data) (calls.foldlM processSerial (.start decoders)) := by
  have run := calls_keep (ReaderStatus decoders) (fun s o c h => h.call c) calls
    (.reading (reading_start decoders))
  rwa [nil_append] at run

theorem Converted.eq_numerals {tokens : List Bytes} {handed : List Int} (h : Converted tokens handed) :
    handed = tokens.filterMap numeral ↔ ∀ token ∈ tokens, (numeral token).isSome = true := by
  constructor
  · intro same
    have sizes : (tokens.filterMap numeral).length = tokens.length := by rw [← same, h.length_eq]
    exact filterMap_length_eq_length.1 sizes
  · intro all
    induction h with
    | nil => rfl
    | @cons token v tokens handed value rest ih =>
      obtain ⟨first, later⟩ := forall_mem_cons.1 all
      obtain ⟨n, isNumeral⟩ := isSome_iff_exists.1 first
      rw [filterMap_cons_some isNumeral, ← ih later, value n isNumeral]

/-- **The numbers of the stream reach the decoders exactly if all tokens are numerals**, and the
unfinished one fits the buffer. -/
theorem numbers_handed_iff (decoders : List (URFContext E)) (calls : List SerialData) :
    (∃ r, calls.foldlM processSerial (.start decoders) = some r ∧
        r.handed = (nonempty gap (calls.flatMap SerialData.data)).filterMap numeral ∧
        r.decoders = decoders.map (consume · r.handed)) ↔
      (∀ token ∈ nonempty gap (calls.flatMap SerialData.data), (numeral token).isSome = true) ∧
        (pending gap (calls.flatMap SerialData.data)).length ≤ 10 := by
  have status := calls_status decoders calls
  cases run : calls.foldlM processSerial (.start decoders) with
  | none =>
    rw [run] at status
    cases status with
    | outside h =>
      refine iff_of_false (fun ⟨r, absurd, _⟩ => nomatch absurd) ?_
      rintro ⟨numerals, short⟩
      rcases h with ⟨token, mem, long⟩ | long
      · obtain ⟨n, isNumeral⟩ := isSome_iff_exists.1 (numerals token mem)
        exact absurd (ite_none_right_eq_some.1 isNumeral).1.1 (Nat.not_le.2 long)
      · exact absurd short (Nat.not_le.2 long)
  | some r =>
    rw [run] at status
    cases status with
    | reading h =>
      constructor
      · rintro ⟨r', same, handed, -⟩
        obtain rfl := some.inj same
        exact ⟨h.handed.eq_numerals.1 handed, h.count ▸ h.room⟩
      · rintro ⟨numerals, -⟩
        exact ⟨r, rfl, h.handed.eq_numerals.2 numerals, h.decoders⟩

end Stream

/-- A lone minus sign hands on what `durState` held, a sign inside a number cuts it, and ten digits
are terminated behind the buffer. -/
theorem malformed_handed :
    ([⟨7, "-,"⟩].foldlM processSerial (NumberReader.start ([] : List (URFContext Unit)))).map
        NumberReader.handed = some [7] ∧
      ([⟨0, "1-2,"⟩].foldlM processSerial (NumberReader.start ([] : List (URFContext Unit)))).map
        NumberReader.handed = some [1] ∧
      ([⟨0, "1234567890,"⟩].foldlM processSerial
        (NumberReader.start ([] : List (URFContext Unit)))).isNone = true := by
  decide +kernel

end Hah.Rf
