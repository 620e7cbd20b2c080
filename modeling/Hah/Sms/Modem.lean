import Hah.C.Strings
import Hah.Lib.Search

/-!
# The dialogue with the modem: `put_command`

Once the command is written, a loop polls the port, reads what is available into `buf` and looks
for the end of the answer in the last bytes of it. The time-out counter grows only in a turn that
finds nothing available, and a full buffer is read into with length 0. So each turn counts, or
makes the buffer longer, or is one of a full buffer and a port with bytes left, after which
nothing changes any more (`Jammed`). `read_loop_ends_iff` says that the loop ends in all other
cases.
-/

namespace Hah.Sms
open C Search

/-! ## The code -/

def maxBuf : Nat := 2048

/-- The arguments `timeout` and `exp_end` of `put_command`; `exp_end` is a C string. -/
structure Command where
  timeout : Nat
  expEnd : Option Bytes
  text : ∀ e ∈ expEnd, 0 ∉ e

/-- What happens at the port in one turn: the bytes that arrive before the first `ioctl`, those that
arrive during the sleep (if there is one), and whether `read` fails. -/
structure Poll where
  arrived : Bytes
  later : Bytes
  error : Bool
  deriving DecidableEq, Repr

/-- The first `buf_len` bytes of `buf`, the bytes that wait at the port, and the two other variables
of the loop; `answer_e` as an offset. -/
structure Reading where
  buf : Bytes
  queue : Bytes
  timeoutcounter : Nat
  answerE : Option Nat
  deriving DecidableEq, Repr

def Reading.start : Reading := { buf := [], queue := [], timeoutcounter := 0, answerE := none }

/-- `optz(n, l)` as an offset: the last `n + l` bytes. -/
def optz (buf : Bytes) (n l : Nat) : Nat := buf.length - min (n + l) buf.length

/-- `strstr(buf + i, word)` as an offset; it stops at a NUL. -/
def strstr (buf : Bytes) (i : Nat) (word : Bytes) : Option Nat :=
  (find word ((buf.drop i).takeWhile (· ≠ 0))).map (i + ·)

/-- The end of the answer behind the `n` bytes of the last read. -/
def answerEnd (expEnd : Option Bytes) (buf : Bytes) (n : Nat) : Option Nat :=
  match expEnd with
  | none =>
    match strstr buf (optz buf n 4) "OK\r\n" with
    | some pos => some (pos + 4)
    | none =>
      match strstr buf (optz buf n 5) "ERROR" with
      | some foo => (strstr buf (foo + 5) "\r\n").map (· + 2)
      | none => none
  | some e => (strstr buf (optz buf n e.length) e).map (· + e.length)

/-- The first `ioctl`, and the sleep with the second one. -/
def Reading.wait (s : Reading) (p : Poll) : Reading :=
  if s.queue ++ p.arrived = [] then { s with queue := p.later, timeoutcounter := s.timeoutcounter + 1 }
  else { s with queue := s.queue ++ p.arrived }

def Reading.space (s : Reading) : Nat := min s.queue.length (maxBuf - s.buf.length - 1)

/-- `read(g_serial_fd, buf+buf_len, n)`. -/
def Reading.fill (s : Reading) : Reading :=
  { s with buf := s.buf ++ s.queue.take s.space, queue := s.queue.drop s.space }

/-- The search for the end, behind a read of `n` bytes. -/
def Reading.search (c : Command) (s : Reading) (n : Nat) : Reading :=
  if n = 0 then s
  else
    match answerEnd c.expEnd s.buf n with
    | some e => { s with answerE := some e, timeoutcounter := c.timeout }
    | none => s

/-- The body of the loop; a failed `read` leaves it by `goto error`. -/
def Reading.turn (c : Command) (s : Reading) (p : Poll) : Option Reading :=
  if (s.wait p).queue = [] then some (s.wait p)
  else if p.error then none
  else some ((s.wait p).fill.search c (s.wait p).space)

inductive ReadLoop where
  | running (s : Reading)
  | ended (s : Reading)
  | failed
  deriving DecidableEq, Repr

/-- `while(timeoutcounter < timeout)`. -/
def ReadLoop.test (c : Command) : Option Reading → ReadLoop
  | none => .failed
  | some s => if s.timeoutcounter < c.timeout then .running s else .ended s

def ReadLoop.next (c : Command) (p : Poll) : ReadLoop → ReadLoop
  | .running s => .test c (s.turn c p)
  | l => l

def after (c : Command) (port : Nat → Poll) : Nat → ReadLoop
  | 0 => .running .start
  | k + 1 => (after c port k).next c (port k)

def ReadLoop.isOver : ReadLoop → Bool
  | .running _ => false
  | _ => true

/-- `answer_e - answer_s`, which is returned. -/
def Reading.length (s : Reading) : Nat := s.answerE.getD s.buf.length

/-- What is copied to `answer`, with a NUL behind it; nothing if `max` is 0. -/
def Reading.answer (s : Reading) (max : Nat) : Option Bytes :=
  if max = 0 then none else some (s.buf.take (min (max - 1) s.length))

/-! ## One turn -/

/-- The buffer is full and the port has more. -/
def Jammed (s : Reading) (p : Poll) : Prop := s.buf.length + 1 = maxBuf ∧ s.queue ++ p.arrived ≠ []

variable {n k : Nat} {c : Command} {s s' : Reading} {p : Poll} {o : Option Reading} {port : Nat → Poll}

theorem Reading.fill_length (s : Reading) : s.fill.buf.length = s.buf.length + s.space := by
  rw [fill, List.length_append, List.length_take, Nat.min_eq_left (show s.space ≤ s.queue.length from Nat.min_le_left _ _)]

@[simp] theorem Reading.wait_buf (s : Reading) (p : Poll) : (s.wait p).buf = s.buf := by
  unfold wait
  split <;> rfl

/-- The search leaves the buffer alone. -/
@[simp] theorem Reading.search_buf (c : Command) (s : Reading) (n : Nat) : (s.search c n).buf = s.buf := by
  unfold search
  split
  · rfl
  · split <;> rfl

theorem Reading.search_found (c : Command) (s : Reading) {e : Nat} (read : n ≠ 0)
    (found : answerEnd c.expEnd s.buf n = some e) :
    s.search c n = { s with answerE := some e, timeoutcounter := c.timeout } := by
  rw [search, if_neg read, found]

theorem Reading.search_nothing (c : Command) (s : Reading) (nothing : answerEnd c.expEnd s.buf n = none) :
    s.search c n = s := by
  rw [search, nothing, ite_self]

theorem Reading.search_running (running : (s.search c n).timeoutcounter < c.timeout) : s.search c n = s := by
  by_cases read : n = 0
  · exact if_pos read
  · cases found : answerEnd c.expEnd s.buf n with
    | none => exact search_nothing c s found
    | some e =>
      rw [search_found c s read found] at running
      exact absurd running (Nat.lt_irrefl _)

/-- What the turns still have to do. -/
def Reading.rank (c : Command) (s : Reading) : Nat := (c.timeout - s.timeoutcounter) + (maxBuf - 1 - s.buf.length)

/-- A turn that does not fail waits, and reads and searches what is there. -/
theorem Reading.turn_eq_some (turned : s.turn c p = some s') :
    (s.wait p).queue = [] ∧ s' = s.wait p ∨
      (s.wait p).queue ≠ [] ∧ s' = (s.wait p).fill.search c (s.wait p).space := by
  unfold turn at turned
  split at turned
  · exact Or.inl ⟨by assumption, (Option.some.inj turned).symm⟩
  · split at turned
    · exact absurd turned (by simp)
    · exact Or.inr ⟨by assumption, (Option.some.inj turned).symm⟩

theorem Reading.turn_eq_none (failed : s.turn c p = none) : p.error = true := by
  unfold turn at failed
  split at failed
  · exact absurd failed (by simp)
  · split at failed
    · assumption
    · exact absurd failed (by simp)

/-- The buffer keeps a place for the NUL. -/
theorem Reading.turn_room (room : s.buf.length < maxBuf) (turned : s.turn c p = some s') : s'.buf.length < maxBuf := by
  rcases turn_eq_some turned with ⟨-, rfl⟩ | ⟨-, rfl⟩
  · rwa [wait_buf]
  · have space : (s.wait p).space ≤ maxBuf - (s.wait p).buf.length - 1 := Nat.min_le_right _ _
    rw [wait_buf] at space
    rw [search_buf, fill_length, wait_buf]
    omega

/-- A turn that sleeps counts. -/
theorem Reading.turn_sleeps (nothing : s.queue ++ p.arrived = [])
    (turned : s.turn c p = some s') (running : s'.timeoutcounter < c.timeout) :
    s'.timeoutcounter = s.timeoutcounter + 1 ∧ s.buf.length ≤ s'.buf.length := by
  have waited : s.wait p = { s with queue := p.later, timeoutcounter := s.timeoutcounter + 1 } := if_pos nothing
  rcases turn_eq_some turned with ⟨-, rfl⟩ | ⟨-, rfl⟩
  · rw [waited]
    exact ⟨rfl, Nat.le_refl _⟩
  · rw [search_running running, fill_length, wait_buf]
    refine ⟨?_, Nat.le_add_right _ _⟩
    change (s.wait p).timeoutcounter = _
    rw [waited]

/-- A turn that finds bytes at once reads some of them, as long as there is room. -/
theorem Reading.turn_reads (something : s.queue ++ p.arrived ≠ [])
    (room : s.buf.length + 1 < maxBuf) (turned : s.turn c p = some s') (running : s'.timeoutcounter < c.timeout) :
    s'.timeoutcounter = s.timeoutcounter ∧ s.buf.length < s'.buf.length := by
  have waited : s.wait p = { s with queue := s.queue ++ p.arrived } := if_neg something
  rcases turn_eq_some turned with ⟨empty, -⟩ | ⟨available, rfl⟩
  · rw [waited] at empty
    exact absurd empty something
  · have space : 0 < (s.wait p).space := by
      unfold Reading.space
      rw [wait_buf]
      exact Nat.lt_min.2 ⟨List.length_pos_of_ne_nil available, by omega⟩
    rw [search_running running, fill_length, wait_buf]
    refine ⟨?_, by omega⟩
    change (s.wait p).timeoutcounter = _
    rw [waited]

/-- A turn that stays in the loop has counted or read something, or the loop is jammed. -/
theorem Reading.turn_rank (room : s.buf.length < maxBuf) (turned : s.turn c p = some s')
    (running : s'.timeoutcounter < c.timeout) : Jammed s p ∨ s'.rank c < s.rank c := by
  unfold rank
  by_cases nothing : s.queue ++ p.arrived = []
  · have := turn_sleeps nothing turned running
    omega
  · by_cases full : s.buf.length + 1 = maxBuf
    · exact Or.inl ⟨full, nothing⟩
    · have := turn_reads nothing (by omega) turned running
      omega

/-- Jammed, a turn changes nothing but the queue. -/
theorem Jammed.turn (jammed : Jammed s p) (healthy : p.error = false) :
    s.turn c p = some { s with queue := s.queue ++ p.arrived } := by
  obtain ⟨full, nonempty⟩ := jammed
  have waited : s.wait p = { s with queue := s.queue ++ p.arrived } := if_neg nonempty
  have space : (s.wait p).space = 0 := by
    unfold Reading.space
    rw [Reading.wait_buf, show maxBuf - s.buf.length - 1 = 0 by omega, Nat.min_zero]
  have filled : (s.wait p).fill = s.wait p := by
    unfold Reading.fill
    rw [space, List.take_zero, List.append_nil, List.drop_zero]
  unfold Reading.turn
  rw [space, filled, waited, if_neg nonempty, healthy, if_neg Bool.false_ne_true]
  rfl

/-! ## The loop -/

theorem ReadLoop.test_running (running : test c o = .running s) : o = some s ∧ s.timeoutcounter < c.timeout := by
  cases o with
  | none => exact absurd running (by simp [test])
  | some t =>
    rw [test] at running
    split at running
    · obtain rfl := ReadLoop.running.inj running
      exact ⟨rfl, by assumption⟩
    · exact absurd running (by simp)

theorem ReadLoop.test_ended (ended : test c o = .ended s) : c.timeout ≤ s.timeoutcounter := by
  cases o with
  | none => exact absurd ended (by simp [test])
  | some t =>
    rw [test] at ended
    split at ended
    · exact absurd ended (by simp)
    · obtain rfl := ReadLoop.ended.inj ended
      omega

theorem ReadLoop.test_failed (failed : test c o = .failed) : o = none := by
  cases o with
  | none => rfl
  | some t =>
    rw [test] at failed
    split at failed
    · exact absurd failed (by simp)
    · exact absurd failed (by simp)

/-- In a run that has not ended, every turn has left the loop running. -/
theorem after_running_succ (running : after c port (k + 1) = .running s') :
    ∃ s, after c port k = .running s ∧ s.turn c (port k) = some s' ∧ s'.timeoutcounter < c.timeout := by
  cases before : after c port k with
  | running s =>
    rw [after, before, ReadLoop.next] at running
    exact ⟨s, rfl, ReadLoop.test_running running⟩
  | ended s => exact absurd running (by simp [after, before, ReadLoop.next])
  | failed => exact absurd running (by simp [after, before, ReadLoop.next])

theorem after_room (running : after c port k = .running s) : s.buf.length < maxBuf := by
  induction k generalizing s with
  | zero =>
    obtain rfl := ReadLoop.running.inj running
    exact Nat.zero_lt_succ _
  | succ k ih =>
    obtain ⟨s, before, turned, -⟩ := after_running_succ running
    exact Reading.turn_room (ih before) turned

/-- A loop that is over stays so. -/
theorem left_mono (left : (after c port k).isOver = true) (d : Nat) : after c port (k + d) = after c port k := by
  induction d with
  | zero => rfl
  | succ d ih =>
    rw [← Nat.add_assoc, after, ih]
    cases stop : after c port k with
    | running s => exact absurd (stop ▸ left) (by simp [ReadLoop.isOver])
    | ended s => rfl
    | failed => rfl

theorem running_of_not_left {l : ReadLoop} (running : ¬ l.isOver = true) : ∃ s, l = .running s := by
  cases l with
  | running s => exact ⟨s, rfl⟩
  | ended s => exact absurd rfl running
  | failed => exact absurd rfl running

/-- As long as nothing is jammed, the rank bounds the turns. -/
theorem rank_le (running : after c port k = .running s)
    (free : ∀ j < k, ∀ t, after c port j = .running t → ¬ Jammed t (port j)) :
    s.rank c + k ≤ c.timeout + (maxBuf - 1) := by
  induction k generalizing s with
  | zero =>
    obtain rfl := ReadLoop.running.inj running
    exact Nat.le_refl _
  | succ k ih =>
    obtain ⟨t, before, turned, counter⟩ := after_running_succ running
    have bound := ih before fun j early => free j (by omega)
    rcases Reading.turn_rank (after_room before) turned counter with jammed | less
    · exact absurd jammed (free k (Nat.lt_succ_self k) t before)
    · omega

/-- From a jammed turn on the loop runs as long as no read fails. -/
theorem Jammed.endless (running : after c port k = .running s) (counter : s.timeoutcounter < c.timeout)
    (jammed : Jammed s (port k)) {d : Nat} (healthy : ∀ j < d, (port (k + j)).error = false) :
    ∃ t, after c port (k + d) = .running t ∧ t.timeoutcounter < c.timeout ∧ Jammed t (port (k + d)) := by
  induction d with
  | zero => exact ⟨s, running, counter, jammed⟩
  | succ d ih =>
    obtain ⟨t, before, below, jam⟩ := ih fun j early => healthy j (by omega)
    have turned := jam.turn (c := c) (healthy d (Nat.lt_succ_self d))
    refine ⟨{ t with queue := t.queue ++ (port (k + d)).arrived }, ?_, below, jam.1, ?_⟩
    · rw [← Nat.add_assoc, after, before, ReadLoop.next, turned, ReadLoop.test]
      exact if_pos below
    · exact List.append_ne_nil_of_left_ne_nil jam.2 _

/-- A read that fails ends a jammed loop. -/
theorem Jammed.fails (jammed : Jammed s p) (error : p.error = true) : s.turn c p = none := by
  have waited : s.wait p = { s with queue := s.queue ++ p.arrived } := if_neg jammed.2
  unfold Reading.turn
  rw [waited, if_neg jammed.2, error, if_pos rfl]

/-- The loop meets a full buffer with bytes left at the port, and no read fails from then on. -/
def Stuck (c : Command) (port : Nat → Poll) : Prop :=
  ∃ k s, after c port k = .running s ∧ Jammed s (port k) ∧ ∀ j ≥ k, (port j).error = false

/-- The test of the loop was passed before a turn that is jammed. -/
theorem Jammed.counter (running : after c port k = .running s)
    (jammed : Jammed s (port k)) : s.timeoutcounter < c.timeout := by
  cases k with
  | zero =>
    obtain rfl := ReadLoop.running.inj running
    exact absurd jammed.1 (by decide)
  | succ k =>
    obtain ⟨t, -, -, counter⟩ := after_running_succ running
    exact counter

theorem Stuck.running (stuck : Stuck c port) (n : Nat) : (after c port n).isOver = false := by
  obtain ⟨k, s, running, jammed, healthy⟩ := stuck
  cases left : (after c port n).isOver with
  | false => rfl
  | true =>
    obtain ⟨t, still, -, -⟩ := Jammed.endless running (jammed.counter running) jammed (d := n)
      fun j _ => healthy (k + j) (Nat.le_add_right k j)
    have same := left_mono left k
    rw [Nat.add_comm, still] at same
    rw [← same] at left
    exact absurd left Bool.false_ne_true

/-- A loop that is never stuck is left: its turns are bounded, or a read fails while it is jammed. -/
theorem left_of_not_stuck (free : ¬ Stuck c port) : ∃ k, (after c port k).isOver = true := by
  by_contra endless
  rw [not_exists] at endless
  have running := fun k => running_of_not_left (endless k)
  by_cases jams : ∃ k s, after c port k = .running s ∧ Jammed s (port k)
  · obtain ⟨k, s, reached, jammed⟩ := jams
    refine free ⟨k, s, reached, jammed, fun j later => ?_⟩
    -- the first failing read behind `k` would end the loop
    induction j using Nat.strongRecOn with
    | ind j ih =>
      cases error : (port j).error with
      | false => rfl
      | true =>
        obtain ⟨t, here, -, jam⟩ := Jammed.endless reached (jammed.counter reached) jammed (d := j - k)
          fun i early => ih (k + i) (by omega) (Nat.le_add_right k i)
        rw [show k + (j - k) = j by omega] at here jam
        obtain ⟨u, next⟩ := running (j + 1)
        rw [after, here, ReadLoop.next, jam.fails error] at next
        exact absurd next (by simp [ReadLoop.test])
  · obtain ⟨s, reached⟩ := running (c.timeout + maxBuf)
    have bound := rank_le reached fun j _ t here jammed => jams ⟨j, t, here, jammed⟩
    have size : maxBuf = 2048 := rfl
    omega

/-- How a loop is left: at its time-out, which finding the end of the answer sets as well, or by a
read that fails. -/
theorem after_left (k : Nat) :
    (∀ s, after c port k = .ended s → c.timeout ≤ s.timeoutcounter) ∧
      (after c port k = .failed → ∃ j < k, (port j).error = true) := by
  induction k with
  | zero => exact ⟨fun s ended => absurd ended (by simp [after]), fun failed => absurd failed (by simp [after])⟩
  | succ k ih =>
    cases before : after c port k with
    | ended t =>
      rw [after, before]
      refine ⟨fun s ended => ih.1 s (before.trans ended), fun failed => absurd failed (by simp [ReadLoop.next])⟩
    | failed =>
      rw [after, before]
      refine ⟨fun s ended => absurd ended (by simp [ReadLoop.next]), fun _ => ?_⟩
      obtain ⟨j, early, error⟩ := ih.2 before
      exact ⟨j, by omega, error⟩
    | running t =>
      rw [after, before, ReadLoop.next]
      refine ⟨fun s ended => ReadLoop.test_ended ended, fun failed => ⟨k, Nat.lt_succ_self k, ?_⟩⟩
      exact Reading.turn_eq_none (ReadLoop.test_failed failed)

/-- **The read loop ends unless it gets stuck**, and it ends at its time-out unless a read fails. -/
theorem read_loop_ends_iff (c : Command) (port : Nat → Poll) :
    ((∃ k, (after c port k).isOver = true) ↔ ¬ Stuck c port) ∧
      ∀ k, (∀ s, after c port k = .ended s → c.timeout ≤ s.timeoutcounter) ∧
        (after c port k = .failed → ∃ j < k, (port j).error = true) := by
  refine ⟨⟨fun ⟨k, left⟩ stuck => ?_, left_of_not_stuck⟩, after_left⟩
  rw [stuck.running k] at left
  exact Bool.false_ne_true left

/-- 2048 bytes at once, and nothing any more. -/
def flood (k : Nat) : Poll := ⟨if k = 0 then List.replicate 2048 120 else [], [], false⟩

def probe : Command := { timeout := 1, expEnd := none, text := fun _ given => absurd given (by simp) }

/-- The loop never ends. -/
theorem flood_never_ends : ¬ ∃ k, (after probe flood k).isOver = true := by
  have full : after probe flood 1 = .running ⟨List.replicate 2047 120, [120], 0, none⟩ := by decide +kernel
  have stuck : Stuck probe flood := ⟨1, _, full, ⟨by decide +kernel, by simp⟩, fun _ _ => rfl⟩
  rintro ⟨k, left⟩
  rw [stuck.running k] at left
  exact Bool.false_ne_true left

end Hah.Sms
