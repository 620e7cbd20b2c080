import Mathlib.Data.Fintype.Card
import Mathlib.Data.List.Induction
import Hah.Lib.Chain
import Hah.Lib.Supply

/-!
# The transmit queue of `iServer/queue.c`

A linked list of nodes with a pointer to either end, under one mutex. With the mutex held
from the first to the last line, `queue_push` and `queue_pop` are single steps, and what the
threads do is a sequence of them (`QueueEvent`). `malloc` answers with any address that is
not allocated, also one that was freed before, or fails, and then `mem_malloc` ends the
program.

The nodes from `head` on are at all times the data that was pushed and not yet popped
(`Represents`); `queue_fifo` puts this together for every sequence of operations.
-/

namespace Hah.IServer.Transmit
open Lib List Function

/-- An address of the 32-bit platform. -/
abbrev Addr := UInt32

abbrev null : Addr := 0

abbrev Malloc := RefusingSupply Addr

/-- `struct queue` and the heap of its nodes. -/
structure Queue (α : Type) where
  heap : Heap Addr α
  mallocs : Nat
  head : Addr
  tail : Addr
  length : UInt32

/-- What `malloc` does not answer with. -/
def Queue.inUse {α : Type} (queue : Queue α) (p : Addr) : Bool := p == null || (queue.heap p).isSome

/-- How an operation can end other than by returning. `faults` is a use of memory that is not
allocated. -/
inductive Stop where
  | dies
  | blocks
  | faults
  deriving DecidableEq, Repr

variable {α : Type}

def queueNew : Queue α :=
  { heap := fun _ => none, mallocs := 0, head := null, tail := null, length := 0 }

/-- `if (queue->tail != NULL) queue->tail->next = node`. -/
def linkTail (heap : Heap Addr α) (tail node : Addr) : Except Stop (Heap Addr α) :=
  if tail ≠ null then
    match heap tail with
    | none => .error .faults
    | some link => .ok (update heap tail (some { link with next := node }))
  else .ok heap

def queuePush (malloc : Malloc) (queue : Queue α) (data : α) : Except Stop (Queue α) :=
  match malloc.pick queue.mallocs queue.inUse with
  | none => .error .dies
  | some node => do
    let heap ← linkTail (update queue.heap node (some ⟨data, null⟩)) queue.tail node
    return { heap := heap
             mallocs := queue.mallocs + 1
             head := if queue.head = null then node else queue.head
             tail := node
             length := queue.length + 1 }

def queuePop (queue : Queue α) : Except Stop (Queue α × α) :=
  if queue.head = null then .error .blocks
  else
    let node := queue.head
    match queue.heap node with
    | none => .error .faults
    | some link =>
      .ok ({ queue with
        heap := update queue.heap node none
        head := link.next
        tail := if link.next = null then null else queue.tail
        length := queue.length - 1 }, link.data)

inductive QueueEvent (α : Type) where
  | push (data : α)
  | pop
  deriving DecidableEq, Repr

/-- The operations in the order of the mutex, and the data that the pops return. -/
def queueRun (malloc : Malloc) (queue : Queue α) : List (QueueEvent α) → Except Stop (Queue α × List α)
  | [] => .ok (queue, [])
  | .push data :: run => do
    let queue ← queuePush malloc queue data
    queueRun malloc queue run
  | .pop :: run => do
    let (queue, data) ← queuePop queue
    let (queue, popped) ← queueRun malloc queue run
    return (queue, data :: popped)

def pushed (run : List (QueueEvent α)) : List α :=
  run.filterMap fun
    | .push data => some data
    | .pop => none

/-! ## The representation -/

/-- The address of the last node, `NULL` when there is none. -/
def lastAddress (nodes : List (Addr × α)) : Addr := ((addresses nodes).getLast?).getD null

/-- The queue holds these nodes, and no others are allocated. -/
structure Represents (queue : Queue α) (nodes : List (Addr × α)) : Prop where
  path : Segment queue.heap queue.head nodes null
  distinct : (addresses nodes).Nodup
  nonNull : null ∉ addresses nodes
  owned : ∀ p, (queue.heap p).isSome = true → p ∈ addresses nodes
  last : queue.tail = lastAddress nodes
  count : queue.length = UInt32.ofNat nodes.length

variable {malloc : Malloc} {queue' : Queue α}

theorem represents_new : Represents (queueNew : Queue α) [] :=
  ⟨rfl, nodup_nil, not_mem_nil, (fun _ allocated => nomatch allocated), rfl, rfl⟩

theorem lastAddress_snoc (nodes : List (Addr × α)) (p : Addr) (data : α) : lastAddress (nodes ++ [(p, data)]) = p := by
  simp [lastAddress, addresses]

theorem addresses_snoc (nodes : List (Addr × α)) (p : Addr) (data : α) :
    addresses (nodes ++ [(p, data)]) = addresses nodes ++ [p] := by
  simp [addresses]

namespace Represents

variable {queue : Queue α} {nodes : List (Addr × α)}

section

variable (h : Represents queue nodes)
include h

theorem head_null : queue.head = null ↔ nodes = [] := by
  cases nodes with
  | nil => exact iff_of_true h.path rfl
  | cons node nodes =>
    refine iff_of_false ?_ (cons_ne_nil _ _)
    intro none
    have first : queue.head = node.1 := h.path.head
    exact h.nonNull (none ▸ first ▸ mem_cons_self)

theorem tail_null : queue.tail = null ↔ nodes = [] := by
  rcases eq_nil_or_concat nodes with rfl | ⟨front, ⟨p, data⟩, rfl⟩
  · exact iff_of_true h.last rfl
  · rw [concat_eq_append] at h ⊢
    refine iff_of_false ?_ (by simp)
    rw [h.last, lastAddress_snoc]
    rintro rfl
    exact h.nonNull (by simp [addresses])

/-- Distinct addresses other than `NULL` leave room in the counter. -/
theorem length_lt : nodes.length < UInt32.size := by
  have all : ((null :: addresses nodes).map UInt32.toFin).Nodup := by
    apply List.Nodup.map
    · intro a b same
      exact UInt32.toFin_inj.1 same
    · exact nodup_cons.2 ⟨h.nonNull, h.distinct⟩
  have few := all.length_le_card
  simpa [addresses, Nat.succ_le_iff] using few

theorem length_eq : queue.length.toNat = nodes.length := by
  rw [h.count]
  exact UInt32.toNat_ofNat_of_lt h.length_lt

end

/-- What the last node holds. -/
theorem last_link {front : List (Addr × α)} {p : Addr} {d : α} (h : Represents queue (front ++ [(p, d)])) :
    queue.heap p = some ⟨d, null⟩ := by
  obtain ⟨m, -, -, next, holds, stop⟩ := segment_append.1 h.path
  rw [holds, show next = null from stop]

theorem outside (h : Represents queue nodes) {node : Addr} (unused : queue.heap node = none) :
    node ∉ addresses nodes := by
  intro mem
  have allocated := h.path.allocated mem
  rw [unused] at allocated
  cases allocated

/-- The heap of a push: the new node, linked from the last one. -/
theorem push_heap (h : Represents queue nodes) {node : Addr} (unused : queue.heap node = none) (data : α) :
    ∃ heap, linkTail (update queue.heap node (some ⟨data, null⟩)) queue.tail node = .ok heap ∧
      Segment heap (if queue.head = null then node else queue.head) (nodes ++ [(node, data)]) null ∧
      ∀ p, (heap p).isSome = true → p = node ∨ (queue.heap p).isSome = true := by
  have outside := h.outside unused
  unfold linkTail
  rcases eq_nil_or_concat nodes with rfl | ⟨front, ⟨p, d⟩, rfl⟩
  · rw [if_neg (not_not.2 (h.tail_null.2 rfl)), if_pos (h.head_null.2 rfl)]
    refine ⟨_, rfl, ⟨rfl, null, update_self .., rfl⟩, ?_⟩
    intro q allocated
    by_cases new : q = node
    · exact .inl new
    · rw [update_of_ne new] at allocated
      exact .inr allocated
  · rw [concat_eq_append] at h outside ⊢
    have nonempty : front ++ [(p, d)] ≠ [] := by simp
    have tail : queue.tail = p := by rw [h.last, lastAddress_snoc]
    have apart : p ≠ node := by
      rintro rfl
      exact outside (by simp [addresses])
    have once : p ∉ addresses front := by
      have distinct := h.distinct
      rw [addresses_snoc] at distinct
      exact fun mem => (nodup_append.1 distinct).2.2 p mem p (mem_singleton.2 rfl) rfl
    rw [if_pos (h.tail_null.not.2 nonempty), if_neg (h.head_null.not.2 nonempty), tail,
      update_of_ne apart, h.last_link]
    refine ⟨_, rfl, segment_append.2 ⟨node, (h.path.update outside _).relink once node, rfl, null, ?_, rfl⟩, ?_⟩
    · rw [update_of_ne apart.symm, update_self]
    · intro q allocated
      by_cases new : q = node
      · exact .inl new
      · right
        by_cases old : q = p
        · rw [old, h.last_link]
          rfl
        · rwa [update_of_ne old, update_of_ne new] at allocated

/-- **One push** appends a node, unless `malloc` fails. -/
theorem push (h : Represents queue nodes) (malloc : Malloc) (data : α) :
    match malloc.pick queue.mallocs queue.inUse with
    | none => queuePush malloc queue data = .error .dies
    | some node => ∃ queue', queuePush malloc queue data = .ok queue' ∧
        Represents queue' (nodes ++ [(node, data)]) := by
  unfold queuePush
  cases picked : malloc.pick queue.mallocs queue.inUse with
  | none => rfl
  | some node =>
    obtain ⟨nonNull, unused⟩ : node ≠ null ∧ queue.heap node = none := by
      simpa [Queue.inUse] using malloc.fresh _ _ node picked
    have outside := h.outside unused
    obtain ⟨heap, stored, path, owned⟩ := h.push_heap unused data
    dsimp only
    rw [stored]
    refine ⟨_, rfl, path, ?_, ?_, ?_, (lastAddress_snoc nodes node data).symm, ?_⟩
    · rw [addresses_snoc]
      exact nodup_append.2 ⟨h.distinct, nodup_singleton _, by
        rintro a mem b last rfl
        exact outside (mem_singleton.1 last ▸ mem)⟩
    · rw [addresses_snoc, mem_append, mem_singleton, not_or]
      exact ⟨h.nonNull, nonNull.symm⟩
    · intro p allocated
      rw [addresses_snoc, mem_append, mem_singleton]
      exact (owned p allocated).symm.imp_left (h.owned p)
    · rw [h.count, length_append, UInt32.ofNat_add]
      rfl

/-- **One pop** takes the first node. -/
theorem pop {p : Addr} {data : α} (h : Represents queue ((p, data) :: nodes)) :
    ∃ queue', queuePop queue = .ok (queue', data) ∧ Represents queue' nodes := by
  obtain ⟨first, next, holds, rest⟩ := h.path
  have once := nodup_cons.1 h.distinct
  have nonNull : null ∉ addresses nodes := fun mem => h.nonNull (mem_cons_of_mem _ mem)
  have owned : ∀ q, (update queue.heap p none q).isSome = true → q ∈ addresses nodes := by
    intro q allocated
    by_cases gone : q = p
    · rw [gone, update_self] at allocated
      cases allocated
    · rw [update_of_ne gone] at allocated
      exact (mem_cons.1 (h.owned q allocated)).resolve_left gone
  unfold queuePop
  rw [if_neg (h.head_null.not.2 (cons_ne_nil _ _))]
  dsimp only
  rw [first, holds]
  refine ⟨_, rfl, rest.update once.1 none, once.2, nonNull, owned, ?_, ?_⟩
  · cases nodes with
    | nil => exact if_pos rest
    | cons node nodes =>
      have more : next ≠ null := by
        rintro rfl
        exact nonNull (rest.head ▸ mem_cons_self)
      rw [if_neg more, h.last]
      simp [lastAddress, addresses]
  · rw [h.count, length_cons, UInt32.ofNat_add]
    exact UInt32.add_sub_cancel _ 1

theorem pop_empty (h : Represents queue []) : queuePop queue = .error .blocks :=
  if_pos (h.head_null.2 rfl)

end Represents

/-! ## Runs -/

/-- Why a run of operations stops, from a queue that holds some data: `malloc` refuses the node of a
push, or a pop waits after all the data has been popped. -/
def StopsFor (malloc : Malloc) (queue : Queue α) (held : List α) (run : List (QueueEvent α)) : Stop → Prop
  | .dies => ∃ before data after queue' popped, run = before ++ .push data :: after ∧
      queueRun malloc queue before = .ok (queue', popped) ∧ malloc.pick queue'.mallocs queue'.inUse = none
  | .blocks => ∃ before after queue', run = before ++ .pop :: after ∧
      queueRun malloc queue before = .ok (queue', held ++ pushed before)
  | .faults => False

/-- An event that takes one queue to another, the data it pops, and the data held before and behind it. -/
structure Step (malloc : Malloc) (queue queue' : Queue α) (event : QueueEvent α) (popped held held' : List α) : Prop where
  run : ∀ run, queueRun malloc queue (event :: run) = (queueRun malloc queue' run).map fun r => (r.1, popped ++ r.2)
  held : ∀ run, held ++ pushed (event :: run) = popped ++ (held' ++ pushed run)

theorem Step.push {queue : Queue α} (done : queuePush malloc queue data = .ok queue') (held : List α) :
    Step malloc queue queue' (.push data) [] held (held ++ [data]) := by
  refine ⟨fun run => ?_, fun run => append_cons held data (pushed run)⟩
  rw [queueRun, done]
  change queueRun malloc queue' run = _
  cases queueRun malloc queue' run <;> rfl

theorem Step.pop {queue : Queue α} (done : queuePop queue = .ok (queue', data)) (held : List α) :
    Step malloc queue queue' .pop [data] (data :: held) held := by
  refine ⟨fun run => ?_, fun run => rfl⟩
  rw [queueRun, done]
  change (do
    let (last, popped) ← queueRun malloc queue' run
    return (last, data :: popped)) = _
  cases queueRun malloc queue' run <;> rfl

/-- What a run leaves: the data held before, and then the data pushed, is the data popped and
then the data in the nodes. -/
def Leaves (malloc : Malloc) (queue : Queue α) (held : List α) (run : List (QueueEvent α)) : Prop :=
  match queueRun malloc queue run with
  | .ok (last, popped) => ∃ nodes, Represents last nodes ∧ held ++ pushed run = popped ++ nodes.map (·.2)
  | .error stop => StopsFor malloc queue held run stop

theorem Leaves.cons {queue : Queue α} {event : QueueEvent α} {now held held' : List α} {run : List (QueueEvent α)}
    (step : Step malloc queue queue' event now held held') (later : Leaves malloc queue' held' run) :
    Leaves malloc queue held (event :: run) := by
  unfold Leaves at later ⊢
  rw [step.run, step.held]
  cases rest : queueRun malloc queue' run with
  | ok result =>
    rw [rest] at later
    obtain ⟨nodes, represents, same⟩ := later
    exact ⟨nodes, represents, by rw [same, append_assoc]⟩
  | error stop =>
    rw [rest] at later
    cases stop with
    | dies =>
      obtain ⟨before, refused, after, last, popped, split, reached, full⟩ := later
      refine ⟨event :: before, refused, after, last, now ++ popped, by rw [split]; rfl, ?_, full⟩
      rw [step.run, reached]
      rfl
    | blocks =>
      obtain ⟨before, after, last, split, reached⟩ := later
      refine ⟨event :: before, after, last, by rw [split]; rfl, ?_⟩
      rw [step.run, step.held, reached]
      rfl
    | faults => exact later

/-- **Every run**, from a queue that represents some nodes. -/
theorem Represents.run {queue : Queue α} {nodes : List (Addr × α)} (h : Represents queue nodes) (malloc : Malloc)
    (run : List (QueueEvent α)) : Leaves malloc queue (nodes.map (·.2)) run := by
  induction run generalizing queue nodes with
  | nil => exact ⟨nodes, h, append_nil _⟩
  | cons event run ih =>
    cases event with
    | push data =>
      have pushes := h.push malloc data
      cases picked : malloc.pick queue.mallocs queue.inUse with
      | none =>
        rw [picked] at pushes
        unfold Leaves
        rw [queueRun, show queuePush malloc queue data = .error .dies from pushes]
        exact ⟨[], data, run, queue, [], rfl, rfl, picked⟩
      | some node =>
        rw [picked] at pushes
        obtain ⟨queue', step, next⟩ := pushes
        have later := ih next
        rw [map_append] at later
        exact later.cons (.push step _)
    | pop =>
      cases nodes with
      | nil =>
        unfold Leaves
        rw [queueRun, h.pop_empty]
        exact ⟨[], run, queue, rfl, rfl⟩
      | cons node nodes =>
        obtain ⟨queue', step, next⟩ := h.pop
        exact (ih next).cons (.pop step _)

/-- **The transmit queue is a lossless FIFO**: what has been popped, followed by the data in the
nodes from `head` on, is what has been pushed; `tail` is the last of the nodes, and `length`
counts them. An operation never touches memory that is not allocated, a push returns unless
`malloc` refuses that very request, and a pop returns unless everything has been popped. -/
theorem queue_fifo (malloc : Malloc) (run : List (QueueEvent α)) :
    match queueRun malloc queueNew run with
    | .ok (queue, popped) => ∃ nodes, pushed run = popped ++ nodes.map (·.2) ∧
        Segment queue.heap queue.head nodes null ∧ null ∉ addresses nodes ∧ (addresses nodes).Nodup ∧
        queue.tail = lastAddress nodes ∧ (queue.head = null ↔ queue.tail = null) ∧
        queue.length.toNat = nodes.length
    | .error .dies => ∃ before data after queue popped, run = before ++ .push data :: after ∧
        queueRun malloc queueNew before = .ok (queue, popped) ∧ malloc.pick queue.mallocs queue.inUse = none
    | .error .blocks => ∃ before after queue, run = before ++ .pop :: after ∧
        queueRun malloc queueNew before = .ok (queue, pushed before)
    | .error .faults => False := by
  have leaves := represents_new.run malloc run
  unfold Leaves at leaves
  cases ran : queueRun malloc queueNew run with
  | ok result =>
    rw [ran] at leaves
    obtain ⟨nodes, h, same⟩ := leaves
    exact ⟨nodes, same, h.path, h.nonNull, h.distinct, h.last, h.head_null.trans h.tail_null.symm, h.length_eq⟩
  | error stop =>
    rw [ran] at leaves
    cases stop <;> exact leaves

end Hah.IServer.Transmit
