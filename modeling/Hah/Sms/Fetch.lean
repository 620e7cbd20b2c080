import Hah.Lib.Search
import Hah.Sms.Accumulator

/-!
# A short message on the SIM: `getsms`

The number in a notification is the place of a message on the SIM. The modem is asked for it, and two
lines of its answer are kept: the header and the text. `processSerialMsg` does not look at what
`getsms` returns, and relays the structure on its stack in any case.
-/

namespace Hah.Sms.Fetch
open C Search List Option

/-! ## The code

An array from some place to its end is a list, where a place behind the end has no value. -/

/-- What `put_command` copies to `answer`. -/
structure Answer where
  bytes : Bytes
  short : bytes.length < 512

/-- The loop that looks for a CR: what is before it and behind it. -/
def crLine (start : Bytes) : Option (Bytes × Bytes) :=
  match start.dropWhile fun c => c ≠ 0 ∧ c ≠ 13 with
  | c :: behind => if c = 13 then some (start.takeWhile fun c => c ≠ 0 ∧ c ≠ 13, behind) else none
  | [] => none

/-- The two lines that are kept, from `beginning`. -/
def twoLines (beginning : Bytes) : Option (Bytes × Bytes) :=
  (crLine beginning).bind fun header =>
    if header.1.length < 4 then none else (crLine header.2).map fun second => (header.1, second.1)

/-- `position + 7`, if there is an answer that is not empty. -/
def beginning (answer : Answer) : Option Nat :=
  let text := answer.bytes.takeWhile (· ≠ 0)
  if (find ",,0\r" text).isSome then none else (find "+CMGR:" text).map (· + 7)

/-- The lines that `fetchsms` finds in an answer. -/
def extract (answer : Answer) : Option (Bytes × Bytes) :=
  (beginning answer).bind fun start => twoLines ((answer.bytes ++ [0]).drop start)

/-- The string at the beginning of an array. -/
def cstr (a : Bytes) : Option Bytes := if 0 ∈ a then some (a.takeWhile (· ≠ 0)) else none

/-- `strcpy` to an array of `size` bytes. -/
def copied (size : Nat) (text : Bytes) : Option Bytes := if text.length < size then some text else none

/-- `fetchsms`: what it returns and what it copies to `pdu`. Undefined if the number is too long for
`command`, or if the answer ends with `+CMGR:` and what is behind its terminator is read. -/
def fetchsms (sim : Int) (answer : Answer) : Option (Int × Bytes) :=
  if (decimalInt sim).length ≤ 6 ∧ ∀ start ∈ beginning answer, start ≤ answer.bytes.length then
    match extract answer with
    | some (header, second) => (copied 512 (header ++ 13 :: second)).map fun pdu => (sim, pdu)
    | none => some (0, [])
  else none

/-- `struct inbound_sms`. -/
structure InboundSms where
  sender : Bytes
  name : Bytes
  date : Bytes
  time : Bytes
  ascii : Bytes
  userdatalength : Nat
  deriving DecidableEq, Repr

/-- The date and the time: `%c%c-%c%c-%c%c` and `%c%c:%c%c:%c%c`. -/
def stamp (sep : UInt8) (start : Bytes) : Option Bytes := do
  let a ← start[0]?
  let b ← start[1]?
  let c ← start[3]?
  let d ← start[4]?
  let e ← start[6]?
  let f ← start[7]?
  return [a, b, sep, c, d, sep, e, f]

def stamped (sms : InboundSms) (start : Bytes) : Option InboundSms := do
  let date ← stamp 45 start
  let time ← stamp 58 (start.drop 9)
  return { sms with date := date, time := time }

/-- A field that ends before `",`, and what comes next with it, three bytes behind its end. -/
def field (size : Nat) (sms : InboundSms) (start : Bytes)
    (next : Bytes → Bytes → Option InboundSms) : Option InboundSms :=
  (cstr start).bind fun text =>
    match find "\"," text with
    | none => some sms
    | some e => (copied size (text.take e)).bind fun value => next value (start.drop (e + 3))

/-- The name, if it is not the date that comes next, and the date and the time. -/
def nameAndDate (sms : InboundSms) (start : Bytes) : Option InboundSms :=
  start[2]?.bind fun slash =>
    if slash = 47 then stamped sms start
    else field 64 sms start fun name rest => stamped { sms with name := name } rest

/-- The sender, and what stands behind it with or without a quote. -/
def senderFrom (sms : InboundSms) (start : Bytes) : Option InboundSms :=
  field 31 sms start fun sender rest =>
    rest[0]?.bind fun quote =>
      nameAndDate { sms with sender := sender } (if quote = 34 then rest.drop 1 else rest)

def splitascii (source : Bytes) : Option InboundSms :=
  (cstr source).bind fun text =>
    match text.dropWhile (· ≠ 10) with
    | [] => some ⟨[], [], [], [], [], 0⟩
    | _ :: start =>
      (copied 500 start).bind fun body =>
        match find "\",\"" text with
        | none => some ⟨[], [], [], [], body, body.length⟩
        | some k => senderFrom ⟨[], [], [], [], body, body.length⟩ (source.drop (k + 3))

/-- The array `pdu` with a text; `old` is what the stack held before. -/
def pduOf (old : Mem) (text : Bytes) : Bytes :=
  text ++ 0 :: bytesAt old (text.length + 1) (512 - (text.length + 1))

/-- What is given to `xap_relay_sms`. -/
inductive Relayed where
  | sms (msg : InboundSms)
  | uninitialised
  deriving DecidableEq, Repr

/-- The number that is deleted from the SIM, and what is relayed. -/
structure Effect where
  deleted : Option Int
  relayed : Option Relayed
  deriving DecidableEq, Repr

/-- `getsms` and `xap_relay_sms` behind it. -/
def getsms (sim : Int) (answer : Answer) (old : Mem) : Option Effect :=
  (fetchsms sim answer).bind fun fetched =>
    if fetched.1 = 0 then some ⟨none, some .uninitialised⟩
    else (splitascii (pduOf old fetched.2)).map fun msg => ⟨some fetched.1, some (.sms msg)⟩

/-- `processSerialMsg` with the answer that it gets to `AT+CMGR`. -/
def processSerialMsg (cmd : Mem) (len : Nat) (answer : Answer) (old : Mem) : Option Effect :=
  match (Sms.processSerialMsg cmd len).2 with
  | none => some ⟨none, none⟩
  | some sim => getsms sim answer old

/-! ## What is wanted -/

/-- The text behind a header: what follows the line break, which is a CR or a CR LF. -/
def behindBreak (second : Bytes) : Bytes := if second.head? = some 10 then second.drop 1 else second

/-- A notification names a message, and `fetchsms` extracts it from the answer. -/
def Extracts (cmd : Mem) (len : Nat) (answer : Answer) (text : Bytes) : Prop :=
  ∃ sim header second, (Sms.processSerialMsg cmd len).2 = some sim ∧ sim ≠ 0 ∧
    extract answer = some (header, second) ∧ text = behindBreak second

/-- A message is relayed only if one was extracted, and then its text. Otherwise nothing is done. -/
def RelaysFetched (cmd : Mem) (len : Nat) (answer : Answer) (old : Mem) : Prop :=
  ∃ effect, processSerialMsg cmd len answer old = some effect ∧
    (∀ relayed, effect.relayed = some relayed →
      ∃ msg, relayed = .sms msg ∧ Extracts cmd len answer msg.ascii) ∧
    ((∀ text, ¬ Extracts cmd len answer text) → effect = ⟨none, none⟩)

/-- The number fits the command, the answer has a header of one line and a text behind it, and the
fields of the header have room. -/
structure Fetchable (sim : Int) (answer : Answer) (old : Mem) (header second : Bytes) : Prop where
  number : sim ≠ 0 ∧ (decimalInt sim).length ≤ 6
  lines : extract answer = some (header, second)
  oneLine : 10 ∉ header
  broken : second = [] ∨ second.head? = some 10
  fields : (splitascii (pduOf old (header ++ 13 :: second))).isSome

/-! ## The lines -/

variable {start header second text : Bytes} {answer : Answer} {sms msg : InboundSms}

theorem crLine_parts {line behind : Bytes} (found : crLine start = some (line, behind)) :
    start = line ++ 13 :: behind ∧ 0 ∉ line := by
  unfold crLine at found
  split at found
  · rename_i c rest left
    split at found
    · rename_i cr
      cases found
      have parts := takeWhile_append_dropWhile (p := fun c : UInt8 => decide (c ≠ 0 ∧ c ≠ 13)) (l := start)
      rw [left, cr] at parts
      refine ⟨parts.symm, fun zero => ?_⟩
      simpa using mem_takeWhile_imp zero
    · cases found
  · cases found

theorem twoLines_parts {beginning : Bytes} (found : twoLines beginning = some (header, second)) :
    0 ∉ header ++ 13 :: second ∧ (header ++ 13 :: second).length < beginning.length := by
  obtain ⟨⟨line, rest⟩, first, found⟩ := bind_eq_some_iff.1 found
  split at found
  · cases found
  · obtain ⟨⟨line', rest'⟩, next, found⟩ := map_eq_some_iff.1 found
    cases found
    obtain ⟨rfl, clean⟩ := crLine_parts first
    obtain ⟨rfl, clean'⟩ := crLine_parts next
    simp only [mem_append, mem_cons, length_append, length_cons]
    exact ⟨by simp [clean, clean'], by omega⟩

/-- A message is extracted from the answer as it was written, is clean and fits `pdu`. -/
theorem extract_fits (lines : extract answer = some (header, second)) :
    (∀ start ∈ beginning answer, start ≤ answer.bytes.length) ∧
      0 ∉ header ++ 13 :: second ∧ (header ++ 13 :: second).length < 512 := by
  obtain ⟨start, begins, found⟩ := bind_eq_some_iff.1 lines
  obtain ⟨clean, short⟩ := twoLines_parts found
  have room := answer.short
  have whole : (answer.bytes ++ [0]).length = answer.bytes.length + 1 := length_append
  rw [length_drop, whole] at short
  refine ⟨fun start' mem => ?_, clean, by omega⟩
  cases mem_unique mem begins
  omega

/-! ## The fields -/

theorem stamped_ascii (done : stamped sms start = some msg) : msg.ascii = sms.ascii := by
  obtain ⟨date, -, done⟩ := bind_eq_some_iff.1 done
  obtain ⟨time, -, done⟩ := bind_eq_some_iff.1 done
  cases done
  rfl

theorem field_ascii {size : Nat} {next : Bytes → Bytes → Option InboundSms}
    (keeps : ∀ value rest, next value rest = some msg → msg.ascii = sms.ascii)
    (done : field size sms start next = some msg) : msg.ascii = sms.ascii := by
  obtain ⟨text, -, done⟩ := bind_eq_some_iff.1 done
  split at done
  · cases done
    rfl
  · obtain ⟨value, -, done⟩ := bind_eq_some_iff.1 done
    exact keeps _ _ done

theorem nameAndDate_ascii (done : nameAndDate sms start = some msg) : msg.ascii = sms.ascii := by
  obtain ⟨slash, -, done⟩ := bind_eq_some_iff.1 done
  split at done
  · exact stamped_ascii done
  · exact field_ascii (fun _ _ named => by rw [stamped_ascii named]) done

theorem senderFrom_ascii (done : senderFrom sms start = some msg) : msg.ascii = sms.ascii := by
  refine field_ascii (fun sender rest named => ?_) done
  obtain ⟨quote, -, named⟩ := bind_eq_some_iff.1 named
  rw [nameAndDate_ascii named]

theorem copied_eq {size : Nat} {copy : Bytes} (done : copied size text = some copy) : copy = text := by
  unfold copied at done
  split at done
  · cases done
    rfl
  · cases done

theorem cstr_eq (clean : 0 ∉ text) (rest : Bytes) : cstr (text ++ 0 :: rest) = some text := by
  have letters : ∀ c ∈ text, (decide (c ≠ 0)) = true := fun c mem => decide_eq_true fun zero => clean (zero ▸ mem)
  rw [cstr, if_pos (by simp), takeWhile_append_of_pos letters]
  simp

/-- Whatever the header has, the text is what stands behind the first LF. -/
theorem splitascii_ascii (clean : 0 ∉ text) {rest : Bytes}
    (done : splitascii (text ++ 0 :: rest) = some msg) : msg.ascii = (text.dropWhile (· ≠ 10)).drop 1 := by
  rw [splitascii, cstr_eq clean, bind_some] at done
  split at done
  · rename_i none_left
    cases done
    rw [none_left]
    rfl
  · rename_i c start left
    rw [left]
    obtain ⟨body, copy, done⟩ := bind_eq_some_iff.1 done
    rw [copied_eq copy] at done
    split at done
    · cases done
      rfl
    · exact senderFrom_ascii done

theorem behindBreak_length (second : Bytes) : (behindBreak second).length ≤ second.length := by
  unfold behindBreak
  split
  · exact (drop_sublist 1 second).length_le
  · exact Nat.le_refl _

/-- The text behind the first LF is the text behind the header, if that is one line. -/
theorem behind_lf_iff (header second : Bytes) :
    ((header ++ 13 :: second).dropWhile (· ≠ 10)).drop 1 = behindBreak second ↔
      10 ∉ header ∧ (second = [] ∨ second.head? = some 10) := by
  have passes {text : Bytes} (clean : 10 ∉ text) : ∀ c ∈ text, (decide (c ≠ 10)) = true :=
    fun c mem => decide_eq_true fun lf => clean (lf ▸ mem)
  by_cases lf : 10 ∈ header
  · -- The rest of the header is taken for text, and is too long for it.
    obtain ⟨before, rest, rfl, clean⟩ := eq_append_cons_of_mem lf
    refine iff_of_false (fun same => ?_) fun one => one.1 lf
    rw [append_assoc, dropWhile_append_of_pos (passes clean), cons_append,
      dropWhile_cons_of_neg (by decide), drop_one, tail_cons] at same
    have longer := congrArg List.length same
    have short := behindBreak_length second
    rw [length_append, length_cons] at longer
    omega
  · rw [dropWhile_append_of_pos (passes lf), dropWhile_cons_of_pos (by decide), and_iff_right lf]
    rcases second with - | ⟨c, text⟩
    · exact iff_of_true rfl (.inl rfl)
    · by_cases breaks : c = 10
      · subst breaks
        exact iff_of_true rfl (.inr rfl)
      · -- Behind a CR alone the text is lost, at least its first letter.
        have kept : behindBreak (c :: text) = c :: text := if_neg (by simpa using breaks)
        have lost := (dropWhile_suffix (l := text) (fun c : UInt8 => decide (c ≠ 10))).length_le
        rw [kept, dropWhile_cons_of_pos (by simpa using breaks)]
        refine iff_of_false (fun same => ?_) (by simpa using breaks)
        have longer := congrArg List.length same
        rw [length_drop, length_cons] at longer
        omega

/-! ## The message -/

theorem fetchsms_found {sim : Int} (short : (decimalInt sim).length ≤ 6)
    (lines : extract answer = some (header, second)) : fetchsms sim answer = some (sim, header ++ 13 :: second) := by
  obtain ⟨written, -, fits⟩ := extract_fits lines
  rw [fetchsms, if_pos ⟨short, written⟩, lines]
  simp only [copied, if_pos fits, map_some]

/-- What `getsms` can do. -/
theorem getsms_cases {sim : Int} {old : Mem} {effect : Effect} (done : getsms sim answer old = some effect) :
    effect = ⟨none, some .uninitialised⟩ ∨ ∃ header second msg,
      sim ≠ 0 ∧ (decimalInt sim).length ≤ 6 ∧ extract answer = some (header, second) ∧
        splitascii (pduOf old (header ++ 13 :: second)) = some msg ∧ effect = ⟨some sim, some (.sms msg)⟩ := by
  obtain ⟨⟨found, pdu⟩, fetched, done⟩ := bind_eq_some_iff.1 done
  split at done
  · cases done
    exact .inl rfl
  · rename_i number
    right
    unfold fetchsms at fetched
    split at fetched
    · rename_i room
      split at fetched
      · rename_i header second lines
        obtain ⟨copy, copies, pair⟩ := map_eq_some_iff.1 fetched
        cases pair
        cases copied_eq copies
        obtain ⟨msg, split, rfl⟩ := map_eq_some_iff.1 done
        exact ⟨header, second, msg, number, room.1, lines, split, rfl⟩
      · cases fetched
        exact absurd rfl number
    · cases fetched

/-- **Only what was fetched is relayed** iff a notified message is there to be fetched. -/
theorem fetched_relayed_iff (cmd : Mem) (len : Nat) (answer : Answer) (old : Mem) :
    RelaysFetched cmd len answer old ↔
      ∀ sim, (Sms.processSerialMsg cmd len).2 = some sim → ∃ header second, Fetchable sim answer old header second := by
  constructor
  · rintro ⟨effect, done, relays, -⟩ sim named
    rw [processSerialMsg, named] at done
    rcases getsms_cases done with rfl | ⟨header, second, msg, number, short, lines, split, rfl⟩
    · obtain ⟨msg, same, -⟩ := relays .uninitialised rfl
      cases same
    · obtain ⟨msg', same, -, header', second', -, -, lines', text⟩ := relays (.sms msg) rfl
      cases same
      cases lines.symm.trans lines'
      rw [splitascii_ascii (extract_fits lines).2.1 split, behind_lf_iff] at text
      exact ⟨header, second, ⟨number, short⟩, lines, text.1, text.2, by rw [split]; rfl⟩
  · intro fetchable
    cases named : (Sms.processSerialMsg cmd len).2 with
    | none =>
      refine ⟨⟨none, none⟩, by rw [processSerialMsg, named], fun _ relayed => ?_, fun _ => rfl⟩
      cases relayed
    | some sim =>
      obtain ⟨header, second, able⟩ := fetchable sim named
      obtain ⟨msg, split⟩ := isSome_iff_exists.1 able.fields
      have text : msg.ascii = behindBreak second := by
        rw [splitascii_ascii (extract_fits able.lines).2.1 split, behind_lf_iff]
        exact ⟨able.oneLine, able.broken⟩
      have extracted : Extracts cmd len answer msg.ascii :=
        ⟨sim, header, second, named, able.number.1, able.lines, text⟩
      refine ⟨⟨some sim, some (.sms msg)⟩, ?_, ?_, fun nothing => absurd extracted (nothing _)⟩
      · rw [processSerialMsg, named]
        simp only [getsms, fetchsms_found able.number.2 able.lines, bind_some, if_neg able.number.1, split,
          map_some]
      · rintro relayed same
        cases same
        exact ⟨msg, rfl, extracted⟩

example :
    splitascii (pduOf (fun _ => 0) "\"REC UNREAD\",\"+4412\",,\"08/03/23,12:01:02+00\"\r\nLight on") =
      some ⟨"+4412", [], "08-03-23", "12:01:02", "Light on", 8⟩ := by
  decide +kernel

/-- A message that is not on the SIM: what the stack holds is relayed. -/
theorem error_relayed :
    ¬ RelaysFetched (fun i => (ascii "+CMTI: \"MT\",3\r\n").getD i 0) 15 ⟨"\r\nERROR\r\n", by decide⟩ fun _ => 0 := by
  rintro ⟨effect, done, relays, -⟩
  have uninitialised : processSerialMsg (fun i => (ascii "+CMTI: \"MT\",3\r\n").getD i 0) 15
      ⟨"\r\nERROR\r\n", by decide⟩ (fun _ => 0) = some ⟨none, some .uninitialised⟩ := by decide
  cases uninitialised.symm.trans done
  obtain ⟨msg, same, -⟩ := relays .uninitialised rfl
  cases same

end Hah.Sms.Fetch
