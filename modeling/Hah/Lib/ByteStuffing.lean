import Mathlib.Data.List.Basic

/-!
# Frames with escaped marks

A frame is a begin mark, the data with an escape before every mark in it, and an end mark. A
receiver of at most `limit` bytes takes a begin mark at any time but behind an escape, and
gives up a frame that has reached the limit when the next byte comes. Whatever it received
before, it then takes a whole frame (`Receiver.run_frame`).
-/

namespace Hah.Lib

structure Marks (α : Type) where
  opening : α
  closing : α
  escape : α
  opening_closing : opening ≠ closing
  opening_escape : opening ≠ escape
  closing_escape : closing ≠ escape

variable {α : Type} [DecidableEq α]

def Marks.isMark (marks : Marks α) (c : α) : Bool := c = marks.opening || c = marks.closing || c = marks.escape

def Marks.stuff (marks : Marks α) (data : List α) : List α :=
  data.flatMap fun c => if marks.isMark c then [marks.escape, c] else [c]

def Marks.frame (marks : Marks α) (data : List α) : List α :=
  marks.opening :: (marks.stuff data ++ [marks.closing])

/-- What has been taken of the current frame. -/
inductive Receiver (α : Type) where
  | idle
  | taking (data : List α)
  | escaped (data : List α)
  deriving DecidableEq, Repr

namespace Receiver

/-- A frame that has reached the limit is given up. -/
def giveUp (limit : Nat) : Receiver α → Receiver α
  | .idle => .idle
  | .taking data => if limit ≤ data.length then .idle else .taking data
  | .escaped data => if limit ≤ data.length then .idle else .escaped data

/-- One byte; a complete frame is handed out. -/
def take (marks : Marks α) : Receiver α → α → Receiver α × Option (List α)
  | .idle, c => if c = marks.opening then (.taking [], none) else (.idle, none)
  | .taking data, c =>
    if c = marks.opening then (.taking [], none)
    else if c = marks.closing then (.idle, some data)
    else if c = marks.escape then (.escaped data, none)
    else (.taking (data ++ [c]), none)
  | .escaped data, c => (.taking (data ++ [c]), none)

def receive (marks : Marks α) (limit : Nat) (r : Receiver α) (c : α) : Receiver α × Option (List α) :=
  (r.giveUp limit).take marks c

/-- The receiver behind a stream, and what it handed out at each byte. -/
def run (marks : Marks α) (limit : Nat) : Receiver α → List α → Receiver α × List (Option (List α))
  | r, [] => (r, [])
  | r, c :: stream =>
    let (next, out) := r.receive marks limit c
    let (last, outs) := run marks limit next stream
    (last, out :: outs)

theorem run_cons (marks : Marks α) (limit : Nat) (r : Receiver α) (c : α) (stream : List α) :
    run marks limit r (c :: stream) =
      ((run marks limit (r.receive marks limit c).1 stream).1,
        (r.receive marks limit c).2 :: (run marks limit (r.receive marks limit c).1 stream).2) := rfl

theorem run_append (marks : Marks α) (limit : Nat) (r : Receiver α) (a b : List α) :
    run marks limit r (a ++ b) =
      ((run marks limit (run marks limit r a).1 b).1,
        (run marks limit r a).2 ++ (run marks limit (run marks limit r a).1 b).2) := by
  induction a generalizing r with
  | nil => rfl
  | cons c a ih => rw [List.cons_append, run_cons, run_cons, ih]; rfl

theorem run_length (marks : Marks α) (limit : Nat) (r : Receiver α) (stream : List α) :
    (run marks limit r stream).2.length = stream.length := by
  induction stream generalizing r with
  | nil => rfl
  | cons c stream ih => rw [run_cons, List.length_cons, List.length_cons, ih]

variable {marks : Marks α} {limit : Nat}

/-! What a byte does, by its kind. -/

theorem idle_opening : (Receiver.idle : Receiver α).take marks marks.opening = (.taking [], none) := if_pos rfl

theorem idle_other {c : α} (other : c ≠ marks.opening) : Receiver.idle.take marks c = (.idle, none) := if_neg other

theorem taking_opening (data : List α) :
    (Receiver.taking data).take marks marks.opening = (.taking [], none) := if_pos rfl

theorem taking_closing (data : List α) : (Receiver.taking data).take marks marks.closing = (.idle, some data) := by
  simp [take, marks.opening_closing.symm]

theorem taking_escape (data : List α) : (Receiver.taking data).take marks marks.escape = (.escaped data, none) := by
  simp [take, marks.opening_escape.symm, marks.closing_escape.symm]

theorem taking_other (data : List α) {c : α} (other : c ≠ marks.opening ∧ c ≠ marks.closing ∧ c ≠ marks.escape) :
    (Receiver.taking data).take marks c = (.taking (data ++ [c]), none) := by
  simp [take, other]

omit [DecidableEq α] in
theorem taking_stays {data : List α} (room : data.length < limit) :
    (Receiver.taking data).giveUp limit = .taking data := if_neg (Nat.not_le.2 room)

omit [DecidableEq α] in
theorem escaped_stays {data : List α} (room : data.length < limit) :
    (Receiver.escaped data).giveUp limit = .escaped data := if_neg (Nat.not_le.2 room)

def data : Receiver α → List α
  | .idle => []
  | .taking data => data
  | .escaped data => data

omit [DecidableEq α] in
/-- What is not given up has room for a byte. -/
theorem giveUp_room (positive : 0 < limit) (r : Receiver α) : (r.giveUp limit).data.length < limit := by
  cases r with
  | idle => exact positive
  | taking data =>
    simp only [giveUp]
    split_ifs with full
    · exact positive
    · exact Nat.lt_of_not_le full
  | escaped data =>
    simp only [giveUp]
    split_ifs with full
    · exact positive
    · exact Nat.lt_of_not_le full

/-- Outside of an escape a begin mark begins a frame. -/
theorem receive_opening {r : Receiver α} (plain : ∀ data, r ≠ .escaped data) :
    r.receive marks limit marks.opening = (.taking [], none) := by
  cases r with
  | idle => exact idle_opening
  | taking data =>
    simp only [receive, giveUp]
    by_cases full : limit ≤ data.length
    · rw [if_pos full, idle_opening]
    · rw [if_neg full, taking_opening]
  | escaped data => exact absurd rfl (plain data)

theorem run_byte {data : List α} (room : data.length < limit) (c : α) :
    run marks limit (.taking data) (marks.stuff [c]) =
      (.taking (data ++ [c]), List.replicate (marks.stuff [c]).length none) := by
  unfold Marks.stuff
  by_cases mark : marks.isMark c = true
  · have escapes : (Receiver.taking data).receive marks limit marks.escape = (.escaped data, none) := by
      rw [receive, taking_stays room, taking_escape]
    have taken : (Receiver.escaped data).receive marks limit c = (.taking (data ++ [c]), none) := by
      rw [receive, escaped_stays room, take]
    simp [mark, run, escapes, taken]
  · have other : c ≠ marks.opening ∧ c ≠ marks.closing ∧ c ≠ marks.escape := by
      simpa [Marks.isMark, and_assoc] using mark
    have taken : (Receiver.taking data).receive marks limit c = (.taking (data ++ [c]), none) := by
      rw [receive, taking_stays room, taking_other data other]
    simp [mark, run, taken]

/-- The data, behind what was taken before. -/
theorem run_stuff {data : List α} : ∀ before : List α, before.length + data.length ≤ limit →
    run marks limit (.taking before) (marks.stuff data) =
      (.taking (before ++ data), List.replicate (marks.stuff data).length none) := by
  induction data with
  | nil => simp [Marks.stuff, run]
  | cons c data ih =>
    intro before room
    rw [List.length_cons] at room
    have split : marks.stuff (c :: data) = marks.stuff [c] ++ marks.stuff data := by
      simp [Marks.stuff]
    have rest := ih (before ++ [c]) (by simp; omega)
    rw [split, run_append, run_byte (by omega) c, rest, List.length_append, List.replicate_add]
    simp

/-- **A whole frame** is handed out at its last byte and not before, in any state but an escape. -/
theorem run_frame {r : Receiver α} (plain : ∀ data, r ≠ .escaped data) {data : List α} (room : data.length < limit) :
    run marks limit r (marks.frame data) =
      (.idle, List.replicate ((marks.frame data).length - 1) none ++ [some data]) := by
  have closes : (Receiver.taking data).receive marks limit marks.closing = (.idle, some data) := by
    rw [receive, taking_stays room, taking_closing]
  have taken : run marks limit (.taking []) (marks.stuff data) =
      (.taking data, List.replicate (marks.stuff data).length none) :=
    run_stuff [] (by simpa using Nat.le_of_lt room)
  rw [Marks.frame, run_cons, receive_opening plain, run_append, taken]
  simp [run, closes, List.replicate_succ]

end Receiver

end Hah.Lib
