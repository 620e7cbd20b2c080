import Mathlib.Data.List.GetD
import Mathlib.Data.List.TakeWhile
import Hah.Sms.Modem

/-!
# Where `put_command` stops

Behind each read only the new bytes and as many before them as the marker has are searched. For a
marker of one piece that is as good as a search of all bytes (`findFrom_window`). An answer that
ends in `ERROR`, some text and CR LF has a marker of two pieces: the window holds no more than the
first piece has, so an `ERROR` that came with an earlier read is not seen any more, and a later
one is taken in its place. `Caught` says when that does no harm.

The loop is first brought to its reads: `readRun` is what is left of it when everything arrives
before the time-out.
-/

namespace Hah.Sms
open C Search List Option

/-! ## The loop over its reads -/

/-- The bytes of one turn: those that are there at once, or else those after the sleep. -/
def Poll.read (p : Poll) : Bytes := if p.arrived = [] then p.later else p.arrived

/-- Nothing is there at once. -/
def Poll.sleeps (p : Poll) : Bool := p.arrived.isEmpty

/-- A port where nothing happens behind some turns. -/
def portOf (polls : List Poll) (k : Nat) : Poll := polls.getD k ⟨[], [], false⟩

def reply (polls : List Poll) : Bytes := (polls.map Poll.read).flatten

/-- What the loop has read when it finds the end, and where that is. -/
def readRun (expEnd : Option Bytes) (old : Bytes) : List Bytes → Bytes × Option Nat
  | [] => (old, none)
  | new :: rest =>
    if new = [] then readRun expEnd old rest
    else
      match answerEnd expEnd (old ++ new) new.length with
      | some e => (old ++ new, some e)
      | none => readRun expEnd (old ++ new) rest

/-- The state of a loop that has read `old` and slept `slept` times. -/
def hearing (old : Bytes) (slept : Nat) : Reading := ⟨old, [], slept, none⟩

variable {old buf word new : Bytes} {k e : Nat} {expEnd : Option Bytes} {reads : List Bytes}
  (c : Command)

/-- Waiting for the bytes of one turn. -/
theorem wait_hearing (old : Bytes) (slept : Nat) (p : Poll) :
    (hearing old slept).wait p = { hearing old (slept + p.sleeps.toNat) with queue := p.read } := by
  unfold Reading.wait Poll.read Poll.sleeps hearing
  cases p.arrived with
  | nil => rfl
  | cons b bs => rfl

/-- A turn reads all that is there, as long as the buffer has room for it. -/
theorem turn_hearing (slept : Nat) {p : Poll} (healthy : p.error = false)
    (room : old.length + p.read.length < maxBuf) :
    (hearing old slept).turn c p =
      some ((hearing (old ++ p.read) (slept + p.sleeps.toNat)).search c p.read.length) := by
  unfold Reading.turn
  rw [wait_hearing]
  by_cases nothing : p.read = []
  · rw [if_pos nothing, nothing, append_nil]
    rfl
  · have space : Reading.space { hearing old (slept + p.sleeps.toNat) with queue := p.read } = p.read.length :=
      Nat.min_eq_left (by change p.read.length ≤ maxBuf - old.length - 1; omega)
    rw [if_neg nothing, healthy, if_neg Bool.false_ne_true, space]
    unfold Reading.fill
    rw [space, take_length, drop_length]
    rfl

def turns (c : Command) (l : ReadLoop) (polls : List Poll) : ReadLoop := polls.foldl (fun l p => l.next c p) l

theorem turns_ended (s : Reading) (polls : List Poll) : turns c (.ended s) polls = .ended s := by
  induction polls with
  | nil => rfl
  | cons p polls ih => exact ih

/-- The turns of a port, in a list. -/
theorem after_eq_turns (port : Nat → Poll) (k : Nat) :
    after c port k = turns c (.running .start) ((List.range k).map port) := by
  induction k with
  | zero => rfl
  | succ k ih =>
    rw [range_succ, map_append, turns, foldl_append, after, ih]
    rfl

/-- What a loop has found: it has ended with it, or goes on. -/
inductive Found (c : Command) (slept : Nat) (found : Bytes × Option Nat) : ReadLoop → Prop
  | ended (s : Reading) (buf : s.buf = found.1) (answer : s.answerE = found.2) (some_end : found.2.isSome = true) :
      Found c slept found (.ended s)
  | running (none_end : found.2 = none) : Found c slept found (.running (hearing found.1 slept))

/-- Some turns in which everything arrives in time: the loop does what `readRun` says. -/
theorem turns_found {polls : List Poll} (healthy : ∀ p ∈ polls, p.error = false) (old : Bytes)
    (slept : Nat) (soon : slept + polls.countP Poll.sleeps < c.timeout)
    (room : old.length + (reply polls).length < maxBuf) :
    Found c (slept + polls.countP Poll.sleeps) (readRun c.expEnd old (polls.map Poll.read))
      (turns c (.running (hearing old slept)) polls) := by
  induction polls generalizing old slept with
  | nil => exact .running rfl
  | cons p polls ih =>
    have size : (reply (p :: polls)).length = p.read.length + (reply polls).length := length_append
    have slept' : slept + (p :: polls).countP Poll.sleeps =
        slept + p.sleeps.toNat + polls.countP Poll.sleeps := by
      rw [countP_cons]
      cases p.sleeps with
      | false => rfl
      | true => exact Nat.add_right_comm slept _ 1
    rw [slept'] at soon ⊢
    have turned := turn_hearing c slept (healthy p mem_cons_self) (show old.length + p.read.length < maxBuf by omega)
    have later := fun (old' : Bytes) (fits : old'.length + (reply polls).length < maxBuf) =>
      ih (fun q mem => healthy q (mem_cons_of_mem p mem)) old' _ soon fits
    have room' : (old ++ p.read).length + (reply polls).length < maxBuf := by
      rw [length_append]
      omega
    have next : ∀ s, (hearing old slept).turn c p = some s → s = hearing (old ++ p.read) (slept + p.sleeps.toNat) →
        turns c (.running (hearing old slept)) (p :: polls) =
          turns c (.running (hearing (old ++ p.read) (slept + p.sleeps.toNat))) polls := by
      rintro s turned rfl
      change turns c (.test c ((hearing old slept).turn c p)) polls = _
      rw [turned, ReadLoop.test, if_pos (by change slept + p.sleeps.toNat < c.timeout; omega)]
    rw [map_cons, readRun]
    by_cases nothing : p.read = []
    · rw [if_pos nothing, next _ turned (by rw [nothing]; rfl), nothing, append_nil]
      exact later old (by omega)
    · have positive : p.read.length ≠ 0 := fun zero => nothing (length_eq_zero_iff.1 zero)
      rw [if_neg nothing]
      cases found : answerEnd c.expEnd (old ++ p.read) p.read.length with
      | none =>
        rw [next _ turned (Reading.search_nothing c _ found)]
        exact later _ room'
      | some e =>
        rw [Reading.search_found c _ positive found] at turned
        change Found c _ _ (turns c (.test c ((hearing old slept).turn c p)) polls)
        rw [turned, ReadLoop.test, if_neg (Nat.lt_irrefl _), turns_ended]
        exact .ended _ rfl rfl rfl

/-- In silence the loop runs into its time-out. -/
theorem turns_silence (old : Bytes) {slept : Nat} (soon : slept < c.timeout) {n : Nat}
    (long : c.timeout ≤ slept + n) :
    turns c (.running (hearing old slept)) (List.replicate n ⟨[], [], false⟩) = .ended (hearing old c.timeout) := by
  induction n generalizing slept with
  | zero => omega
  | succ n ih =>
    rw [replicate_succ]
    change turns c (.test c (some (hearing old (slept + 1)))) _ = _
    rw [ReadLoop.test]
    by_cases more : slept + 1 < c.timeout
    · rw [if_pos (by exact more)]
      exact ih more (by omega)
    · rw [if_neg (by exact more), turns_ended, show c.timeout = slept + 1 by omega]

theorem portOf_turns (polls : List Poll) (n : Nat) :
    (List.range (polls.length + n)).map (portOf polls) = polls ++ List.replicate n ⟨[], [], false⟩ := by
  apply ext_getElem
  · simp
  · intro i here there
    rw [getElem_map, getElem_range, portOf]
    by_cases inside : i < polls.length
    · rw [getD_eq_getElem _ _ inside, getElem_append_left inside]
    · rw [getD_eq_default _ _ (Nat.not_lt.1 inside), getElem_append_right (Nat.not_lt.1 inside),
        getElem_replicate]

/-- **A reply that arrives before the time-out**: the loop ends with what `readRun` finds. -/
theorem loop_ends (polls : List Poll) (healthy : ∀ p ∈ polls, p.error = false)
    (soon : polls.countP Poll.sleeps < c.timeout) (short : (reply polls).length < maxBuf) :
    ∃ k s, after c (portOf polls) k = .ended s ∧ (s.buf, s.answerE) = readRun c.expEnd [] (polls.map Poll.read) := by
  have found := turns_found c healthy [] 0 (by omega) (by simpa using short)
  rw [Nat.zero_add] at found
  have run : after c (portOf polls) (polls.length + c.timeout) =
      turns c (turns c (.running .start) polls) (List.replicate c.timeout ⟨[], [], false⟩) := by
    rw [after_eq_turns, portOf_turns, turns, foldl_append]
    rfl
  change Found c _ _ (turns c (.running .start) polls) at found
  refine ⟨polls.length + c.timeout, ?_⟩
  rw [run]
  cases stop : turns c (.running .start) polls with
  | ended s =>
    rw [stop] at found
    cases found with
    | ended s buf answer some_end => exact ⟨s, turns_ended c s _, Prod.ext buf answer⟩
  | running s =>
    rw [stop] at found
    cases found with
    | running none_end =>
      exact ⟨_, turns_silence c _ soon (Nat.le_add_left _ _), Prod.ext rfl none_end.symm⟩
  | failed =>
    rw [stop] at found
    cases found

/-! ## The end of an answer -/

/-- The end condition: the expected end; or `OK` and CR LF; or `ERROR`, and CR LF later on. -/
def Complete : Option Bytes → Bytes → Prop
  | none, buf => "OK\r\n" <:+: buf ∨ ∃ i, "ERROR" <+: buf.drop i ∧ "\r\n" <:+: buf.drop (i + 5)
  | some e, buf => e <:+: buf

/-- The end of an answer with an `ERROR` at or behind place `k`. -/
def errorEnd (buf : Bytes) (k : Nat) : Option Nat :=
  (findFrom "ERROR" buf k).bind fun foo => (findFrom "\r\n" buf (foo + 5)).map (· + 2)

theorem errorEnd_eq_some_iff :
    errorEnd buf k = some e ↔
      ∃ p q, findFrom "ERROR" buf k = some p ∧ findFrom "\r\n" buf (p + 5) = some q ∧ q + 2 = e := by
  simp only [errorEnd, bind_eq_some_iff, map_eq_some_iff]
  constructor
  · rintro ⟨p, error, q, crlf, last⟩
    exact ⟨p, q, error, crlf, last⟩
  · rintro ⟨p, q, error, crlf, last⟩
    exact ⟨p, error, q, crlf, last⟩

theorem errorEnd_isSome_iff :
    (errorEnd buf k).isSome = true ↔
      ∃ i, k ≤ i ∧ "ERROR" <+: buf.drop i ∧ "\r\n" <:+: buf.drop (i + 5) := by
  rw [isSome_iff_exists]
  constructor
  · rintro ⟨e, found⟩
    obtain ⟨p, q, error, crlf, -⟩ := errorEnd_eq_some_iff.1 found
    obtain ⟨behind, stands, -⟩ := findFrom_eq_some_iff.1 error
    obtain ⟨later, stands', -⟩ := findFrom_eq_some_iff.1 crlf
    refine ⟨p, behind, stands, infix_iff_drop.2 ⟨q - (p + 5), ?_⟩⟩
    rwa [drop_drop, show p + 5 + (q - (p + 5)) = q by omega]
  · rintro ⟨i, behind, stands, crlf⟩
    obtain ⟨p, first, error⟩ := exists_findFrom behind stands
    obtain ⟨d, stands'⟩ := infix_iff_drop.1 crlf
    rw [drop_drop] at stands'
    obtain ⟨q, -, found⟩ := exists_findFrom (show p + 5 ≤ i + 5 + d by omega) stands'
    exact ⟨q + 2, errorEnd_eq_some_iff.2 ⟨p, q, error, found, rfl⟩⟩

theorem errorEnd_le (found : errorEnd buf k = some e) : e ≤ buf.length := by
  obtain ⟨p, q, -, crlf, rfl⟩ := errorEnd_eq_some_iff.1 found
  exact stands_le (findFrom_eq_some_iff.1 crlf).2.1 (by decide)

theorem errorEnd_append (found : errorEnd buf k = some e) (t : Bytes) : errorEnd (buf ++ t) k = some e := by
  obtain ⟨p, q, error, crlf, last⟩ := errorEnd_eq_some_iff.1 found
  exact errorEnd_eq_some_iff.2
    ⟨p, q, findFrom_append error (by decide) t, findFrom_append crlf (by decide) t, last⟩

instance (expEnd : Option Bytes) (buf : Bytes) : Decidable (Complete expEnd buf) :=
  match expEnd with
  | none =>
    decidable_of_iff ((find "OK\r\n" buf).isSome = true ∨ (errorEnd buf 0).isSome = true) (by
      rw [find_isSome_iff, errorEnd_isSome_iff]
      simp only [Nat.zero_le, true_and, Complete])
  | some e => decidable_of_iff ((find e buf).isSome = true) find_isSome_iff

theorem Complete.append (complete : Complete expEnd buf) (t : Bytes) : Complete expEnd (buf ++ t) := by
  have longer := (prefix_append buf t).isInfix
  cases expEnd with
  | some e => exact List.IsInfix.trans complete longer
  | none =>
    rcases complete with ok | ⟨i, error, crlf⟩
    · exact Or.inl (ok.trans longer)
    · refine Or.inr ⟨i, ?_, ?_⟩
      · exact (prefix_drop_append (stands_le error (by decide))).2 error
      · have inside : i + 5 ≤ buf.length := stands_le error (by decide)
        rw [drop_append_of_le_length inside]
        exact crlf.trans (prefix_append _ t).isInfix

/-! ## The search in a window -/

/-- Without a NUL `strstr` searches all of the buffer. -/
theorem strstr_text (text : 0 ∉ buf) (i : Nat) (word : Bytes) :
    strstr buf i word = findFrom word buf i := by
  have whole : (buf.drop i).takeWhile (· ≠ 0) = buf.drop i := by
    apply takeWhile_eq_self_iff.2
    intro b mem
    have nonzero : b ≠ 0 := fun zero => text (zero ▸ mem_of_mem_drop mem)
    exact decide_eq_true nonzero
  rw [strstr, whole, findFrom]

theorem optz_append (old new : Bytes) (l : Nat) : optz (old ++ new) new.length l = old.length - l := by
  rw [optz, length_append]
  omega

/-- The search behind a read of `new`, for an answer without an expected end. -/
theorem answerEnd_none (old new : Bytes) (text : 0 ∉ old ++ new) :
    answerEnd none (old ++ new) new.length =
      ((findFrom "OK\r\n" (old ++ new) (old.length - 4)).map (· + 4)).or
        (errorEnd (old ++ new) (old.length - 5)) := by
  simp only [answerEnd, strstr_text text, optz_append, errorEnd]
  cases findFrom "OK\r\n" (old ++ new) (old.length - 4) with
  | some pos => rfl
  | none =>
    cases findFrom "ERROR" (old ++ new) (old.length - 5) with
    | some foo => rfl
    | none => rfl

/-- The search behind a read of `new`, for an expected end. -/
theorem answerEnd_some (old new e : Bytes) (text : 0 ∉ old ++ new) :
    answerEnd (some e) (old ++ new) new.length =
      (findFrom e (old ++ new) (old.length - e.length)).map (· + e.length) := by
  rw [answerEnd, strstr_text text, optz_append]

/-- An end that is found is one, and inside the buffer. -/
theorem answerEnd_sound (nonempty : expEnd ≠ some []) (old new : Bytes)
    (text : 0 ∉ old ++ new) (found : answerEnd expEnd (old ++ new) new.length = some e) :
    Complete expEnd (old ++ new) ∧ e ≤ (old ++ new).length := by
  cases expEnd with
  | some word =>
    rw [answerEnd_some _ _ _ text, map_eq_some_iff] at found
    obtain ⟨i, found, rfl⟩ := found
    obtain ⟨-, stands, -⟩ := findFrom_eq_some_iff.1 found
    exact ⟨infix_iff_drop.2 ⟨i, stands⟩, stands_le stands fun empty => nonempty (by rw [empty])⟩
  | none =>
    rw [answerEnd_none _ _ text, or_eq_some_iff, map_eq_some_iff] at found
    rcases found with ⟨i, found, rfl⟩ | ⟨-, found⟩
    · obtain ⟨-, stands, -⟩ := findFrom_eq_some_iff.1 found
      exact ⟨Or.inl (infix_iff_drop.2 ⟨i, stands⟩), stands_le stands (by decide)⟩
    · obtain ⟨i, -, error⟩ := errorEnd_isSome_iff.1 (isSome_of_eq_some found)
      exact ⟨Or.inr ⟨i, error⟩, errorEnd_le found⟩

/-- The end that is found when all of `buf` is one read. -/
def wholeEnd (expEnd : Option Bytes) (buf : Bytes) : Option Nat := answerEnd expEnd buf buf.length

theorem wholeEnd_none (text : 0 ∉ buf) :
    wholeEnd none buf = ((find "OK\r\n" buf).map (· + 4)).or (errorEnd buf 0) := by
  have window := answerEnd_none [] buf text
  rwa [nil_append, length_nil, Nat.zero_sub, findFrom_zero] at window

theorem wholeEnd_some (text : 0 ∉ buf) (e : Bytes) :
    wholeEnd (some e) buf = (find e buf).map (· + e.length) := by
  have window := answerEnd_some [] buf e text
  rwa [nil_append, length_nil, Nat.zero_sub, findFrom_zero] at window

/-- All bytes in one read: the end is found if there is one. -/
theorem wholeEnd_isSome_iff (text : 0 ∉ buf) : (wholeEnd expEnd buf).isSome = true ↔ Complete expEnd buf := by
  cases expEnd with
  | some e => rw [wholeEnd_some text, isSome_map, find_isSome_iff, Complete]
  | none =>
    rw [wholeEnd_none text, isSome_or, Bool.or_eq_true, isSome_map, find_isSome_iff, errorEnd_isSome_iff]
    simp only [Nat.zero_le, true_and, Complete]

theorem wholeEnd_le (nonempty : expEnd ≠ some [])
    (text : 0 ∉ buf) : (wholeEnd expEnd buf).getD buf.length ≤ buf.length := by
  cases found : wholeEnd expEnd buf with
  | none => exact Nat.le_refl _
  | some e => exact (answerEnd_sound nonempty [] buf text found).2

/-! ## The read that completes the answer -/

/-- `new` completes the answer, and the search behind it comes to the same end as one of all bytes
would: it sees an `OK`; or there is none in the whole reply, and an `ERROR` in the window stands
before the first CR LF behind the first `ERROR`. -/
def CaughtAt (expEnd : Option Bytes) (old new all : Bytes) : Prop :=
  expEnd = none → "OK\r\n" <:+: old ++ new ∨
    ¬ "OK\r\n" <:+: all ∧ ∃ p e, old.length ≤ p + 5 ∧ "ERROR" <+: (old ++ new).drop p ∧
      errorEnd (old ++ new) 0 = some e ∧ p + 7 ≤ e

/-- The window of an `OK`. -/
theorem findFrom_ok (absent : ¬ word <:+: old) (new : Bytes) :
    findFrom word (old ++ new) (old.length - word.length) = find word (old ++ new) :=
  findFrom_window absent (by omega) new

theorem find_append (nonempty : word ≠ []) (stands : word <:+: buf) (t : Bytes) :
    ∃ i, find word buf = some i ∧ find word (buf ++ t) = some i := by
  obtain ⟨i, found⟩ := isSome_iff_exists.1 (find_isSome_iff.2 stands)
  rw [← findFrom_zero] at found
  refine ⟨i, by rwa [← findFrom_zero], ?_⟩
  rw [← findFrom_zero]
  exact findFrom_append found nonempty t

/-- An expected end is caught by the window. -/
theorem caught_some (rest : Bytes) (text : 0 ∉ old ++ new ++ rest)
    (nonempty : word ≠ []) (absent : ¬ word <:+: old) (complete : word <:+: old ++ new) :
    ∃ e, answerEnd (some word) (old ++ new) new.length = some e ∧ wholeEnd (some word) (old ++ new ++ rest) = some e := by
  have text' : 0 ∉ old ++ new := fun mem => text (mem_append_left rest mem)
  obtain ⟨i, found, found'⟩ := find_append nonempty complete rest
  refine ⟨i + word.length, ?_, ?_⟩
  · rw [answerEnd_some _ _ _ text', findFrom_ok absent, found, map_some]
  · rw [wholeEnd_some text, found', map_some]

/-- The same for `OK`, when there is no expected end. -/
theorem caught_ok (rest : Bytes) (text : 0 ∉ old ++ new ++ rest)
    (absent : ¬ "OK\r\n" <:+: old) (ok : "OK\r\n" <:+: old ++ new) :
    ∃ e, answerEnd none (old ++ new) new.length = some e ∧ wholeEnd none (old ++ new ++ rest) = some e := by
  have text' : 0 ∉ old ++ new := fun mem => text (mem_append_left rest mem)
  obtain ⟨i, found, found'⟩ := find_append (by decide) ok rest
  have window : findFrom "OK\r\n" (old ++ new) (old.length - 4) = some i := (findFrom_ok absent new).trans found
  refine ⟨i + 4, ?_, ?_⟩
  · rw [answerEnd_none _ _ text', window]
    rfl
  · rw [wholeEnd_none text, found']
    rfl

/-- Without an `OK`, both searches are for an `ERROR`. -/
theorem answerEnd_error (text : 0 ∉ old ++ new) (absent : ¬ "OK\r\n" <:+: old ++ new) :
    answerEnd none (old ++ new) new.length = errorEnd (old ++ new) (old.length - 5) := by
  have nothing : findFrom "OK\r\n" (old ++ new) (old.length - 4) = none := by
    rw [eq_none_iff_forall_ne_some]
    intro i found
    exact absent (infix_iff_drop.2 ⟨i, (findFrom_eq_some_iff.1 found).2.1⟩)
  rw [answerEnd_none _ _ text, nothing, map_none, none_or]

theorem wholeEnd_error (text : 0 ∉ buf) (absent : ¬ "OK\r\n" <:+: buf) :
    wholeEnd none buf = errorEnd buf 0 := by
  have nothing : find "OK\r\n" buf = none := by
    rw [← not_isSome_iff_eq_none, find_isSome_iff]
    exact absent
  rw [wholeEnd_none text, nothing, map_none, none_or]

/-- An `ERROR` further on gives the same end exactly if it stands before that end. -/
theorem errorEnd_later (first : errorEnd buf 0 = some e) :
    errorEnd buf k = some e ↔ ∃ p, k ≤ p ∧ "ERROR" <+: buf.drop p ∧ p + 7 ≤ e := by
  obtain ⟨p₀, q₀, error, crlf, rfl⟩ := errorEnd_eq_some_iff.1 first
  obtain ⟨-, -, earliest⟩ := findFrom_eq_some_iff.1 error
  constructor
  · intro later
    obtain ⟨p, q, error', crlf', last⟩ := errorEnd_eq_some_iff.1 later
    obtain ⟨behind, stands, -⟩ := findFrom_eq_some_iff.1 error'
    have := (findFrom_eq_some_iff.1 crlf').1
    exact ⟨p, behind, stands, by omega⟩
  · rintro ⟨p, behind, stands, before⟩
    obtain ⟨p₁, le, error'⟩ := exists_findFrom behind stands
    have stands₁ := (findFrom_eq_some_iff.1 error').2.1
    have order := Nat.not_lt.1 fun early => earliest p₁ (Nat.zero_le _) early stands₁
    have crlf₁ := (findFrom_later crlf (show p₀ + 5 ≤ p₁ + 5 by omega)).2 (by omega)
    exact errorEnd_eq_some_iff.2 ⟨p₁, q₀, error', crlf₁, rfl⟩

/-- A reply whose end is inside the buffer has no `OK` further on. -/
theorem no_ok_of_inside {rest : Bytes} (text : 0 ∉ buf ++ rest) (absent : ¬ "OK\r\n" <:+: buf)
    (whole : wholeEnd none (buf ++ rest) = some e) (inside : e ≤ buf.length) : ¬ "OK\r\n" <:+: buf ++ rest := by
  intro later
  obtain ⟨j, found⟩ := isSome_iff_exists.1 (find_isSome_iff.2 later)
  rw [wholeEnd_none text, found, map_some, some_or, some.injEq] at whole
  have stands := (find_eq_some_iff.1 found).1
  rw [prefix_drop_append (by change j + 4 ≤ _; omega)] at stands
  exact absent (infix_iff_drop.2 ⟨j, stands⟩)

/-- The search behind the completing read comes to the end of the whole reply exactly if it is
caught. -/
theorem caughtAt_iff (nonempty : expEnd ≠ some []) (rest : Bytes) (text : 0 ∉ old ++ new ++ rest)
    (absent : ¬ Complete expEnd old) (complete : Complete expEnd (old ++ new)) :
    CaughtAt expEnd old new (old ++ new ++ rest) ↔
      ∃ e, answerEnd expEnd (old ++ new) new.length = some e ∧ wholeEnd expEnd (old ++ new ++ rest) = some e := by
  have text' : 0 ∉ old ++ new := fun mem => text (mem_append_left rest mem)
  cases expEnd with
  | some word =>
    refine iff_of_true (fun given => absurd given (by simp)) ?_
    exact caught_some rest text (fun empty => nonempty (by rw [empty])) absent complete
  | none =>
    by_cases ok : "OK\r\n" <:+: old ++ new
    · exact iff_of_true (fun _ => Or.inl ok) (caught_ok rest text (fun earlier => absent (Or.inl earlier)) ok)
    · -- the buffer has an `ERROR` with its CR LF, and so an end by it
      obtain ⟨i, error⟩ := complete.resolve_left ok
      obtain ⟨e, first⟩ := isSome_iff_exists.1 (errorEnd_isSome_iff.2 ⟨i, Nat.zero_le i, error⟩)
      rw [answerEnd_error text' ok]
      constructor
      · intro caught
        obtain ⟨never, p, e', window, stands, first', before⟩ := (caught rfl).resolve_left ok
        refine ⟨e', (errorEnd_later first').2 ⟨p, by omega, stands, before⟩, ?_⟩
        rw [wholeEnd_error text never]
        exact errorEnd_append first' rest
      · rintro ⟨e', here, whole⟩ -
        have never := no_ok_of_inside text ok whole (errorEnd_le here)
        rw [wholeEnd_error text never, errorEnd_append first rest, some.injEq] at whole
        subst whole
        obtain ⟨p, behind, stands, before⟩ := (errorEnd_later first).1 here
        exact Or.inr ⟨never, p, e, by omega, stands, first, before⟩

/-! ## The whole reply -/

/-- The shortest prefix of the reads that is complete, or all of them. -/
def firstComplete (expEnd : Option Bytes) (old : Bytes) : List Bytes → Bytes
  | [] => old
  | new :: rest => if Complete expEnd (old ++ new) then old ++ new else firstComplete expEnd (old ++ new) rest

/-- The read that completes the answer, if there is one, is caught by the search. -/
def Caught (expEnd : Option Bytes) (old : Bytes) : List Bytes → Prop
  | [] => True
  | new :: rest =>
    if Complete expEnd (old ++ new) then CaughtAt expEnd old new (old ++ new ++ rest.flatten)
    else Caught expEnd (old ++ new) rest

theorem readRun_longer
    (found : (readRun expEnd old reads).2 = some e) : old.length < (readRun expEnd old reads).1.length := by
  induction reads generalizing old with
  | nil => exact absurd found (by simp [readRun])
  | cons new rest ih =>
    rw [readRun] at found ⊢
    by_cases nothing : new = []
    · rw [if_pos nothing] at found ⊢
      exact ih found
    · rw [if_neg nothing] at found ⊢
      have positive := length_pos_of_ne_nil nothing
      cases here : answerEnd expEnd (old ++ new) new.length with
      | some e' =>
        rw [length_append]
        omega
      | none =>
        simp only [here] at found ⊢
        have longer := ih found
        rw [length_append] at longer
        omega

/-- What is read is the beginning of the reply, and an end that is found is inside it. -/
theorem readRun_inside (nonempty : expEnd ≠ some []) (text : 0 ∉ old ++ reads.flatten) :
    (readRun expEnd old reads).1 <+: old ++ reads.flatten ∧
      (readRun expEnd old reads).2.getD (readRun expEnd old reads).1.length ≤ (readRun expEnd old reads).1.length := by
  induction reads generalizing old with
  | nil =>
    rw [flatten_nil, append_nil]
    exact ⟨prefix_rfl, Nat.le_refl _⟩
  | cons new rest ih =>
    rw [flatten_cons, ← append_assoc] at text ⊢
    rw [readRun]
    by_cases nothing : new = []
    · rw [nothing, append_nil] at text ⊢
      rw [if_pos rfl]
      exact ih text
    · rw [if_neg nothing]
      cases here : answerEnd expEnd (old ++ new) new.length with
      | some e =>
        have text' : 0 ∉ old ++ new := fun mem => text (mem_append_left _ mem)
        exact ⟨prefix_append _ _, (answerEnd_sound nonempty old new text' here).2⟩
      | none => exact ih text

/-- The reads are stopped at the right place, with the end of the whole reply. -/
def StopsRight (expEnd : Option Bytes) (old : Bytes) (reads : List Bytes)
    (found : Bytes × Option Nat) : Prop :=
  found.1 = firstComplete expEnd old reads ∧ (found.2.isSome = true ↔ Complete expEnd found.1) ∧
    found.2.getD found.1.length =
      (wholeEnd expEnd (old ++ reads.flatten)).getD (old ++ reads.flatten).length

/-- The completing read: the loop stops there with the right end exactly if it is caught. -/
theorem stopsRight_completing (nonempty : expEnd ≠ some [])
    {rest : List Bytes} (text : 0 ∉ old ++ new ++ rest.flatten) (absent : ¬ Complete expEnd old)
    (complete : Complete expEnd (old ++ new)) :
    StopsRight expEnd old (new :: rest) (readRun expEnd old (new :: rest)) ↔
      CaughtAt expEnd old new (old ++ new ++ rest.flatten) := by
  have something : new ≠ [] := by
    rintro rfl
    rw [append_nil] at complete
    exact absent complete
  have whole := (wholeEnd_isSome_iff text).2 (complete.append rest.flatten)
  obtain ⟨e₁, whole⟩ := isSome_iff_exists.1 whole
  rw [caughtAt_iff nonempty rest.flatten text absent complete, readRun, if_neg something, StopsRight, firstComplete,
    if_pos complete, flatten_cons, ← append_assoc, whole]
  cases here : answerEnd expEnd (old ++ new) new.length with
  | some e =>
    constructor
    · rintro ⟨-, -, same⟩
      exact ⟨e, rfl, congrArg some (Eq.symm same)⟩
    · rintro ⟨e', same, same'⟩
      refine ⟨rfl, iff_of_true rfl complete, ?_⟩
      change e = e₁
      rw [some.inj same, some.inj same']
  | none =>
    refine iff_of_false ?_ (fun ⟨e, missed, _⟩ => absurd missed (by simp))
    rintro ⟨stopped, ends, -⟩
    -- the loop has gone on: if it found an end, it has read more
    rw [stopped] at ends
    obtain ⟨e, found⟩ := isSome_iff_exists.1 (ends.2 complete)
    have longer := readRun_longer found
    rw [stopped] at longer
    exact absurd longer (Nat.lt_irrefl _)

/-- The loop over the reads stops right exactly if the completing read is caught. -/
theorem readRun_stopsRight_iff (nonempty : expEnd ≠ some []) (text : 0 ∉ old ++ reads.flatten)
    (absent : ¬ Complete expEnd old) :
    StopsRight expEnd old reads (readRun expEnd old reads) ↔ Caught expEnd old reads := by
  induction reads generalizing old with
  | nil =>
    refine iff_of_true ⟨rfl, iff_of_false Bool.false_ne_true absent, ?_⟩ trivial
    rw [flatten_nil, append_nil] at text ⊢
    have nothing : wholeEnd expEnd old = none := by
      rw [← not_isSome_iff_eq_none, wholeEnd_isSome_iff text]
      exact absent
    rw [nothing]
    rfl
  | cons new rest ih =>
    have text' := text
    rw [flatten_cons, ← append_assoc] at text'
    by_cases complete : Complete expEnd (old ++ new)
    · rw [Caught, if_pos complete]
      exact stopsRight_completing nonempty text' absent complete
    · have missed : answerEnd expEnd (old ++ new) new.length = none := by
        rw [eq_none_iff_forall_ne_some]
        intro e found
        exact complete (answerEnd_sound nonempty old new (fun mem => text' (mem_append_left _ mem)) found).1
      have next : readRun expEnd old (new :: rest) = readRun expEnd (old ++ new) rest := by
        rw [readRun, missed]
        by_cases nothing : new = []
        · rw [if_pos nothing, nothing, append_nil]
        · rw [if_neg nothing]
      rw [next, Caught, if_neg complete, ← ih text' complete]
      unfold StopsRight
      rw [firstComplete, if_neg complete, flatten_cons, append_assoc]

/-- Answers out of one reply are the same exactly if they have the same length. -/
theorem answers_eq_iff (s one : Reading) (part : s.buf <+: one.buf) (inside : s.length ≤ s.buf.length)
    (inside' : one.length ≤ one.buf.length) : (∀ max, s.answer max = one.answer max) ↔ s.length = one.length := by
  have whole : ∀ n, n ≤ s.buf.length → s.buf.take n = one.buf.take n := by
    intro n short
    obtain ⟨t, equal⟩ := part
    rw [← equal, take_append_of_le_length short]
  constructor
  · intro same
    have copied := same (max s.length one.length + 1)
    rw [Reading.answer, Reading.answer, if_neg (Nat.succ_ne_zero _), if_neg (Nat.succ_ne_zero _),
      Nat.add_sub_cancel, Nat.min_eq_right (Nat.le_max_left _ _), Nat.min_eq_right (Nat.le_max_right _ _)] at copied
    have lengths := congrArg List.length (some.inj copied)
    rwa [length_take, length_take, Nat.min_eq_left inside, Nat.min_eq_left inside'] at lengths
  · intro same max
    rw [Reading.answer, Reading.answer, ← same, whole _ (Nat.le_trans (Nat.min_le_right _ _) inside)]

theorem not_complete_nil (nonempty : expEnd ≠ some []) : ¬ Complete expEnd [] := by
  cases expEnd with
  | none => decide
  | some e => exact fun complete => nonempty (by rw [infix_nil.1 complete])

def oneRead (all : Bytes) : List Poll := if all = [] then [] else [⟨all, [], false⟩]

theorem readRun_single (expEnd : Option Bytes) {all : Bytes} (something : all ≠ []) :
    readRun expEnd [] [all] = (all, wholeEnd expEnd all) := by
  rw [readRun, if_neg something, nil_append, wholeEnd]
  cases answerEnd expEnd all all.length with
  | some e => rfl
  | none => rfl

/-- The loop over the reply in one read. -/
theorem oneRead_ends (nonempty : c.expEnd ≠ some []) (patient : 0 < c.timeout) {all : Bytes}
    (text : 0 ∉ all) (short : all.length < maxBuf) :
    ∃ k one, after c (portOf (oneRead all)) k = .ended one ∧ one.buf = all ∧ one.answerE = wholeEnd c.expEnd all := by
  by_cases nothing : all = []
  · have absent : wholeEnd c.expEnd all = none := by
      rw [← not_isSome_iff_eq_none, wholeEnd_isSome_iff text, nothing]
      exact not_complete_nil nonempty
    obtain ⟨k, one, run, found⟩ := loop_ends c [] (fun p mem => absurd mem not_mem_nil) patient
      (Nat.zero_lt_succ _)
    rw [oneRead, if_pos nothing, absent, nothing]
    exact ⟨k, one, run, congrArg Prod.fst found, congrArg Prod.snd found⟩
  · have read : (⟨all, [], false⟩ : Poll).read = all := if_neg nothing
    have awake : (⟨all, [], false⟩ : Poll).sleeps = false := by
      cases all with
      | nil => exact absurd rfl nothing
      | cons b bs => rfl
    have whole : reply [⟨all, [], false⟩] = all := by
      rw [reply, map_singleton, read, flatten_singleton]
    have soon : [(⟨all, [], false⟩ : Poll)].countP Poll.sleeps < c.timeout := by
      rw [countP_singleton, awake]
      exact patient
    obtain ⟨k, one, run, found⟩ := loop_ends c [⟨all, [], false⟩]
      (fun p mem => by rw [mem_singleton.1 mem]) soon (by rw [whole]; exact short)
    rw [map_singleton, read, readRun_single c.expEnd nothing] at found
    rw [oneRead, if_neg nothing]
    exact ⟨k, one, run, congrArg Prod.fst found, congrArg Prod.snd found⟩

/-- **The search in a window stops where a full search does exactly if the completing read is
caught**: the loop stops at the first read with which the buffer has the end condition, and copies
the answer that it would copy from the reply in one read. -/
theorem reply_heard_iff (c : Command) (polls : List Poll) (healthy : ∀ p ∈ polls, p.error = false)
    (soon : polls.countP Poll.sleeps < c.timeout) (short : (reply polls).length < 2048)
    (text : 0 ∉ reply polls) (nonempty : c.expEnd ≠ some []) :
    ∃ k s k' one, after c (portOf polls) k = .ended s ∧ after c (portOf (oneRead (reply polls))) k' = .ended one ∧
      ((s.buf = firstComplete c.expEnd [] (polls.map Poll.read) ∧ (s.answerE.isSome = true ↔ Complete c.expEnd s.buf) ∧
          ∀ max, s.answer max = one.answer max) ↔ Caught c.expEnd [] (polls.map Poll.read)) := by
  obtain ⟨k, s, run, found⟩ := loop_ends c polls healthy soon short
  obtain ⟨k', one, run', buf', answer'⟩ := oneRead_ends c nonempty (by omega) text short
  refine ⟨k, s, k', one, run, run', ?_⟩
  have reads : 0 ∉ [] ++ (polls.map Poll.read).flatten := text
  have stops := readRun_stopsRight_iff nonempty reads (not_complete_nil nonempty)
  obtain ⟨part, inside⟩ := readRun_inside nonempty reads
  rw [← found] at stops part inside
  have inside' : one.length ≤ one.buf.length := by
    rw [Reading.length, answer', buf']
    exact wholeEnd_le nonempty text
  have answers := answers_eq_iff s one (buf' ▸ part) inside inside'
  rw [answers, ← stops, StopsRight, Reading.length, Reading.length, answer', buf']
  rfl

/-- A reply with `OK` that is cut inside the marker. -/
def okInPieces : List Poll := [⟨"+CSQ: 17,0\r\n", [], false⟩, ⟨[], "\r\nOK", false⟩, ⟨"\r\n", [], false⟩]

theorem okInPieces_heard :
    ∃ k s k' one, after ⟨5, none, fun _ given => absurd given (by simp)⟩ (portOf okInPieces) k = .ended s ∧
      after ⟨5, none, fun _ given => absurd given (by simp)⟩ (portOf (oneRead (reply okInPieces))) k' = .ended one ∧
      s.buf = "+CSQ: 17,0\r\n\r\nOK\r\n" ∧ s.answerE.isSome = true ∧ ∀ max, s.answer max = one.answer max := by
  obtain ⟨k, s, k', one, run, run', heard⟩ := reply_heard_iff ⟨5, none, fun _ given => absurd given (by simp)⟩
    okInPieces (by decide) (by decide) (by decide) (by decide) (by simp)
  have caught : Caught none [] (okInPieces.map Poll.read) := by
    change Caught none [] ["+CSQ: 17,0\r\n", "\r\nOK", "\r\n"]
    rw [Caught, if_neg (by decide +kernel), Caught, if_neg (by decide +kernel), Caught, if_pos (by decide +kernel)]
    exact fun _ => Or.inl (find_isSome_iff.1 (by decide +kernel))
  obtain ⟨buf, found, answers⟩ := heard.2 caught
  have heard : firstComplete none [] (okInPieces.map Poll.read) = "+CSQ: 17,0\r\n\r\nOK\r\n" := by decide +kernel
  refine ⟨k, s, k', one, run, run', buf.trans heard, found.2 ?_, answers⟩
  rw [buf.trans heard]
  decide +kernel

/-- `ERROR`, CR and LF in three reads: the loop goes on to its time-out. And an error that is
followed by the `OK` of another answer, in two reads and in one. -/
theorem error_missed :
    (after probe (portOf [⟨"ERROR", [], false⟩, ⟨"\r", [], false⟩, ⟨"\n", [], false⟩]) 3 =
        .running ⟨"ERROR\r\n", [], 0, none⟩ ∧
      after probe (portOf (oneRead "ERROR\r\n")) 1 = .ended ⟨"ERROR\r\n", [], 1, some 7⟩) ∧
    (after probe (portOf [⟨"ERROR\r\n", [], false⟩, ⟨"OK\r\n", [], false⟩]) 1 =
        .ended ⟨"ERROR\r\n", [], 1, some 7⟩ ∧
      after probe (portOf (oneRead "ERROR\r\nOK\r\n")) 1 = .ended ⟨"ERROR\r\nOK\r\n", [], 1, some 11⟩) := by
  decide +kernel

end Hah.Sms
