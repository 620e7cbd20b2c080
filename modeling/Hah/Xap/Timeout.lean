import Hah.C.Numbers
import Hah.Lib.Chain
import Hah.Lib.Supply

/-!
# Timers: `timeout.c`

The timers are a linked list. `timeoutDispatch` walks along it, calls what has expired, and reads
the link of the entry behind the call. The callback may use the list itself: it adds entries in
front, where the walk does not come by, and it may delete its own entry, by its handle or by its
function. `xapDelTimeoutActionByFunc` deletes the first entry with the function.

* `delByFunc_all_iff`: all entries of a function are deleted exactly if there is at most one.
* `dispatch_each_once_iff`: a pass is orderly exactly if no callback deletes its own entry. `pass`
  says on lists what a pass does, and the code is shown to follow it.

`none` stands for `die` and for the use of memory that is not allocated. A pointer to a deleted
entry stays such a pointer when `malloc` hands the block out again; the numbers of the entries
tell.
-/

namespace Hah.Xap.Timeout
open Lib List Option Function

/-- `xAPTimeoutCallback` without its link, and the number of the `malloc` that it comes from. -/
structure TimeoutCallback (F D : Type) where
  callback : F
  userData : D
  interval : Int
  ttl : Int
  serial : Nat
  deriving DecidableEq, Repr

abbrev null : Nat := 0

/-- The heap of the entries, the blocks that are allocated, the number of `malloc`s, and
`gXAP->timeoutList`. -/
structure Timers (F D : Type) where
  heap : Heap Nat (TimeoutCallback F D)
  live : List Nat
  mallocs : Nat
  timeoutList : Nat

variable {F D : Type}

/-! ## The code -/

def xapAddTimeoutAction (malloc : Supply Nat) (t : Timers F D) (func : F) (interval : Int) (data : D) :
    Option (Nat × Timers F D) :=
  if interval < 1 then none
  else
    let cb := malloc.pick t.mallocs (null :: t.live)
    some (cb,
      { heap := update t.heap cb (some ⟨⟨func, data, interval, 0, t.mallocs⟩, t.timeoutList⟩)
        live := cb :: t.live
        mallocs := t.mallocs + 1
        timeoutList := cb })

/-- The loop of `LL_DELETE`: the entry before `del`. -/
def llBefore (heap : Heap Nat (TimeoutCallback F D)) (del : Nat) : Nat → Nat → Option Nat
  | 0, _ => none
  | n + 1, tmp => do
    let link ← heap tmp
    if link.next ≠ null ∧ link.next ≠ del then llBefore heap del n link.next else return tmp

/-- `LL_DELETE(gXAP->timeoutList, del)`. -/
def llDelete (t : Timers F D) (del : Nat) : Option (Timers F D) :=
  if t.timeoutList = del then do
    let link ← t.heap del
    return { t with timeoutList := link.next }
  else do
    let tmp ← llBefore t.heap del (t.live.length + 1) t.timeoutList
    let link ← t.heap tmp
    if link.next ≠ null then
      let gone ← t.heap del
      return { t with heap := update t.heap tmp (some { link with next := gone.next }) }
    else return t

/-- `xapDelTimeoutAction`, with the user data that it returns. -/
def xapDelTimeoutAction (t : Timers F D) (cb : Nat) : Option (D × Timers F D) := do
  let link ← t.heap cb
  let t ← llDelete t cb
  return (link.data.userData, { t with heap := update t.heap cb none, live := t.live.erase cb })

/-- The first entry from `e` on with some property, `NULL` if there is none. -/
def llSearch (heap : Heap Nat (TimeoutCallback F D)) (wanted : TimeoutCallback F D → Bool) : Nat → Nat → Option Nat
  | 0, _ => none
  | n + 1, e =>
    if e = null then some null
    else do
      let link ← heap e
      if wanted link.data then return e else llSearch heap wanted n link.next

section Callbacks

variable [DecidableEq F]

def xapFindTimeoutByFunc (t : Timers F D) (func : F) : Option Nat :=
  llSearch t.heap (fun e => e.callback = func) (t.live.length + 1) t.timeoutList

/-- `xapDelTimeoutActionByFunc`: the loop returns at the first entry with the function. -/
def xapDelTimeoutActionByFunc (t : Timers F D) (func : F) : Option (Option D × Timers F D) := do
  let e ← llSearch t.heap (fun e => e.callback = func) (t.live.length + 1) t.timeoutList
  if e = null then return (none, t)
  else
    let (data, t) ← xapDelTimeoutAction t e
    return (some data, t)

inductive Action (F D : Type) where
  | add (func : F) (interval : Int) (data : D)
  | delOwn
  | delByOwnFunc
  deriving DecidableEq, Repr

/-- An action of the callback `func` of the entry `cb`. -/
def Action.run (malloc : Supply Nat) (cb : Nat) (func : F) (t : Timers F D) : Action F D → Option (Timers F D)
  | .add func' interval data => (xapAddTimeoutAction malloc t func' interval data).map Prod.snd
  | .delOwn => (xapDelTimeoutAction t cb).map Prod.snd
  | .delByOwnFunc => (xapDelTimeoutActionByFunc t func).map Prod.snd

/-- `cb->ttl = now + cb->interval`, in 32 bits. -/
def TimeoutCallback.rearmed (now : Int) (e : TimeoutCallback F D) : TimeoutCallback F D :=
  { e with ttl := C.wrap32 (now + e.interval) }

def rearm (now : Int) (t : Timers F D) (cb : Nat) (link : Link Nat (TimeoutCallback F D)) : Timers F D :=
  { t with heap := update t.heap cb (some ⟨link.data.rearmed now, link.next⟩) }

/-- The loop of `timeoutDispatch` from `cb` on, with the numbers of the entries that are called. A
callback does what `script` has for its entry. -/
def dispatchFrom (malloc : Supply Nat) (script : Nat → List (Action F D)) (now : Int) :
    Nat → Timers F D → Nat → Option (Timers F D × List Nat)
  | 0, _, _ => none
  | n + 1, t, cb =>
    if cb = null then some (t, [])
    else do
      let link ← t.heap cb
      if link.data.ttl ≤ now then
        let called ← (script link.data.serial).foldlM (Action.run malloc cb link.data.callback) (rearm now t cb link)
        let after ← called.heap cb
        -- `cb` must still be the entry that was called
        if after.data.serial = link.data.serial then
          let (t, ran) ← dispatchFrom malloc script now n called after.next
          return (t, link.data.serial :: ran)
        else none
      else dispatchFrom malloc script now n t link.next

def timeoutDispatch (malloc : Supply Nat) (script : Nat → List (Action F D)) (now : Int) (t : Timers F D) :
    Option (Timers F D × List Nat) :=
  dispatchFrom malloc script now (t.live.length + 1) t t.timeoutList

end Callbacks

/-! ## The list in the heap -/

def entries (nodes : List (Nat × TimeoutCallback F D)) : List (TimeoutCallback F D) := nodes.map Prod.snd

/-- The timers are these nodes, and nothing else is allocated. -/
structure Represents (t : Timers F D) (nodes : List (Nat × TimeoutCallback F D)) : Prop where
  path : Segment t.heap t.timeoutList nodes null
  distinct : (addresses nodes).Nodup
  nonNull : null ∉ addresses nodes
  blocks : t.live.Perm (addresses nodes)
  free : ∀ p, p ∉ t.live → t.heap p = none
  numbered : ∀ e ∈ entries nodes, e.serial < t.mallocs
  once : ((entries nodes).map TimeoutCallback.serial).Nodup

structure TimeoutList (F D : Type) where
  timers : Timers F D
  nodes : List (Nat × TimeoutCallback F D)
  holds : Represents timers nodes

namespace Represents

variable {t : Timers F D} {nodes front rest : List (Nat × TimeoutCallback F D)} {a : Nat} {e : TimeoutCallback F D}

theorem fuel (h : Represents t nodes) : nodes.length < t.live.length + 1 := by
  rw [h.blocks.length_eq, addresses, length_map]
  exact Nat.lt_succ_self _

theorem allocated (h : Represents t nodes) {p : Nat} (some_link : (t.heap p).isSome = true) : p ∈ addresses nodes := by
  by_contra outside
  have nothing := h.free p fun mem => outside (h.blocks.mem_iff.1 mem)
  rw [nothing] at some_link
  exact Bool.false_ne_true some_link

/-- A node is not among the others. -/
theorem apart (h : Represents t (front ++ (a, e) :: rest)) : a ∉ addresses front ∧ a ∉ addresses rest := by
  have distinct := h.distinct
  rw [addresses, map_append, map_cons] at distinct
  have parts := nodup_append.1 distinct
  exact ⟨fun mem => parts.2.2 a mem a mem_cons_self rfl, (nodup_cons.1 parts.2.1).1⟩

theorem ne_null (h : Represents t (front ++ (a, e) :: rest)) : a ≠ null := by
  rintro rfl
  exact h.nonNull (by simp [addresses])

/-- A new entry goes to the front. -/
theorem add (h : Represents t nodes) (malloc : Supply Nat) (func : F) {interval : Int} (valid : ¬ interval < 1)
    (data : D) :
    ∃ cb t', xapAddTimeoutAction malloc t func interval data = some (cb, t') ∧ t'.mallocs = t.mallocs + 1 ∧
      Represents t' ((cb, ⟨func, data, interval, 0, t.mallocs⟩) :: nodes) := by
  have unused := malloc.fresh t.mallocs (null :: t.live)
  rw [mem_cons, not_or] at unused
  have outside : malloc.pick t.mallocs (null :: t.live) ∉ addresses nodes :=
    fun mem => unused.2 (h.blocks.mem_iff.2 mem)
  refine ⟨_, _, if_neg valid, rfl, ?_⟩
  constructor
  · exact ⟨rfl, t.timeoutList, update_self .., h.path.update outside _⟩
  · exact nodup_cons.2 ⟨outside, h.distinct⟩
  · rw [addresses, map_cons, mem_cons, not_or]
    exact ⟨Ne.symm unused.1, h.nonNull⟩
  · exact h.blocks.cons _
  · intro p outside
    rw [mem_cons, not_or] at outside
    change update t.heap _ _ p = none
    rw [update_of_ne outside.1]
    exact h.free p outside.2
  · intro e mem
    rcases mem_cons.1 mem with rfl | old
    · exact Nat.lt_succ_self _
    · exact Nat.lt_succ_of_lt (h.numbered e old)
  · refine nodup_cons.2 ⟨fun mem => ?_, h.once⟩
    obtain ⟨e, old, same⟩ := mem_map.1 mem
    exact absurd (h.numbered e old) (by rw [same]; exact Nat.lt_irrefl _)

end Represents

/-! ## Deleting -/

section Delete

variable {heap : Heap Nat (TimeoutCallback F D)} {front rest : List (Nat × TimeoutCallback F D)} {p a b : Nat}
  {d e : TimeoutCallback F D}

/-- A segment starts with its first node. -/
theorem segment_start {q : Nat} (h : Segment heap p (front ++ (a, d) :: rest) q) :
    p ∈ addresses (front ++ [(a, d)]) := by
  cases front with
  | nil =>
    rw [h.head]
    exact mem_cons_self
  | cons node front =>
    rw [cons_append] at h
    rw [h.head]
    exact mem_cons_self

/-- The loop of `LL_DELETE` stops at the entry before the one to delete. -/
theorem llBefore_eq (path : Segment heap p (front ++ (a, d) :: (b, e) :: rest) null)
    (other : b ∉ addresses (front ++ [(a, d)])) (nonNull : null ∉ addresses (front ++ [(a, d)])) {n : Nat}
    (fuel : front.length < n) : llBefore heap b n p = some a := by
  obtain ⟨n, rfl⟩ := Nat.exists_eq_add_of_lt fuel
  induction front generalizing p with
  | nil =>
    obtain ⟨rfl, next, holds, last⟩ := path
    have here : next = b := last.head
    rw [llBefore, holds, bind_eq_bind, bind_some, if_neg (fun different => different.2 here)]
    rfl
  | cons node front ih =>
    obtain ⟨c, y⟩ := node
    obtain ⟨rfl, next, holds, last⟩ := path
    have start := segment_start last
    have other' : b ∉ addresses (front ++ [(a, d)]) := fun mem => other (mem_cons_of_mem _ mem)
    have nonNull' : null ∉ addresses (front ++ [(a, d)]) := fun mem => nonNull (mem_cons_of_mem _ mem)
    have goes : next ≠ null ∧ next ≠ b := ⟨fun same => nonNull' (same ▸ start), fun same => other' (same ▸ start)⟩
    rw [length_cons, show front.length + 1 + n + 1 = front.length + n + 1 + 1 by omega, llBefore, holds,
      bind_eq_bind, bind_some, if_pos goes]
    exact ih last other' nonNull' (by omega)

end Delete

namespace Represents

variable {t : Timers F D} {nodes front rest : List (Nat × TimeoutCallback F D)} {b : Nat} {e : TimeoutCallback F D}

/-- `LL_DELETE` of an entry behind another. -/
theorem llDelete_behind {a : Nat} {d : TimeoutCallback F D} (h : Represents t (front ++ (a, d) :: (b, e) :: rest)) :
    ∃ heap', Timeout.llDelete t b = some { t with heap := heap' } ∧
      Segment heap' t.timeoutList (front ++ (a, d) :: rest) null ∧ ∀ p, p ∉ t.live → heap' p = none := by
  have whole : Represents t ((front ++ [(a, d)]) ++ (b, e) :: rest) := by rwa [append_assoc]
  have apart : b ∉ addresses (front ++ [(a, d)]) := whole.apart.1
  obtain ⟨outside, outside'⟩ := h.apart
  have nonNull : null ∉ addresses (front ++ [(a, d)]) := by
    have all := whole.nonNull
    rw [addresses, map_append, mem_append, not_or] at all
    exact all.1
  have notHead : t.timeoutList ≠ b := fun same => apart (same ▸ segment_start h.path)
  have size := h.fuel
  rw [length_append, length_cons] at size
  have seek := llBefore_eq h.path apart nonNull (show front.length < t.live.length + 1 by omega)
  obtain ⟨next, holds, -⟩ := whole.path.node
  obtain ⟨link, holdsA, lastA⟩ := h.path.node
  have linked : link ≠ null := by
    rw [show link = b from lastA.head]
    exact whole.ne_null
  refine ⟨update t.heap a (some ⟨d, next⟩), ?_, ?_, fun p unused => ?_⟩
  · rw [Timeout.llDelete, if_neg notHead, seek]
    simp only [bind_eq_bind, bind_some, holdsA, if_pos linked, holds]
    rfl
  · exact h.path.unlink outside (fun mem => outside' (mem_cons_of_mem _ mem)) holds
  · have different : p ≠ a := by
      rintro rfl
      rw [h.free p unused] at holdsA
      exact absurd holdsA (by simp)
    rw [update_of_ne different]
    exact h.free p unused

/-- `LL_DELETE` of an entry: the list goes round it, and every block stays as it was allocated. -/
theorem llDelete (h : Represents t (front ++ (b, e) :: rest)) :
    ∃ heap' head', Timeout.llDelete t b = some { t with heap := heap', timeoutList := head' } ∧
      Segment heap' head' (front ++ rest) null ∧ ∀ p, p ∉ t.live → heap' p = none := by
  rcases eq_nil_or_concat front with rfl | ⟨front, ⟨a, d⟩, rfl⟩
  · -- the head of the list
    have head : t.timeoutList = b := h.path.head
    obtain ⟨-, next, holds, last⟩ := h.path
    refine ⟨t.heap, next, ?_, last, h.free⟩
    rw [Timeout.llDelete, if_pos head, holds]
    rfl
  · rw [concat_eq_append, append_assoc] at h
    obtain ⟨heap', deleted, path, free⟩ := h.llDelete_behind
    rw [concat_eq_append, append_assoc]
    exact ⟨heap', t.timeoutList, deleted, path, free⟩

/-- **Deleting an entry** leaves the others in their order. -/
theorem delete (h : Represents t (front ++ (b, e) :: rest)) :
    ∃ t', xapDelTimeoutAction t b = some (e.userData, t') ∧ t'.mallocs = t.mallocs ∧ Represents t' (front ++ rest) := by
  obtain ⟨next, holds, -⟩ := h.path.node
  obtain ⟨heap', head', deleted, path, free⟩ := h.llDelete
  obtain ⟨outside, outside'⟩ := h.apart
  have gone : b ∉ addresses (front ++ rest) := by
    rw [addresses, map_append, mem_append, not_or]
    exact ⟨outside, outside'⟩
  refine ⟨{ t with heap := update heap' b none, live := t.live.erase b, timeoutList := head' }, ?_, rfl, ?_⟩
  · rw [xapDelTimeoutAction, holds]
    simp only [bind_eq_bind, bind_some, deleted]
    rfl
  · have order : (addresses (front ++ (b, e) :: rest)).Perm (b :: addresses (front ++ rest)) := by
      simp only [addresses, map_append, map_cons]
      exact perm_middle
    have distinct := order.nodup_iff.1 h.distinct
    have fewer : (entries (front ++ rest)).Sublist (entries (front ++ (b, e) :: rest)) :=
      ((List.Sublist.refl front).append (sublist_cons_self _ _)).map _
    constructor
    · exact path.update gone _
    · exact (nodup_cons.1 distinct).2
    · exact fun mem => h.nonNull (order.mem_iff.2 (mem_cons_of_mem _ mem))
    · have erased := (h.blocks.trans order).erase b
      rwa [erase_cons_head] at erased
    · intro p outside
      change update heap' b none p = none
      by_cases same : p = b
      · rw [same, update_self]
      · rw [update_of_ne same]
        refine free p fun mem => outside ?_
        exact (mem_erase_of_ne same).2 mem
    · exact fun x mem => h.numbered x (fewer.subset mem)
    · exact (fewer.map _).nodup h.once

end Represents

/-! ## Deleting by function -/

/-- The search comes to the first entry that is wanted. -/
theorem llSearch_eq {heap : Heap Nat (TimeoutCallback F D)} (wanted : TimeoutCallback F D → Bool) {p : Nat}
    {nodes : List (Nat × TimeoutCallback F D)} (path : Segment heap p nodes null) (nonNull : null ∉ addresses nodes)
    {n : Nat} (fuel : nodes.length < n) :
    llSearch heap wanted n p = some ((nodes.find? fun x => wanted x.2).elim null Prod.fst) := by
  obtain ⟨n, rfl⟩ := Nat.exists_eq_add_of_lt fuel
  induction nodes generalizing p with
  | nil => rw [llSearch, if_pos (show p = null from path), find?_nil, elim_none]
  | cons node nodes ih =>
    obtain ⟨b, e⟩ := node
    obtain ⟨rfl, next, holds, last⟩ := path
    have here : p ≠ null := fun same => nonNull (same ▸ mem_cons_self)
    rw [length_cons, show nodes.length + 1 + n + 1 = nodes.length + n + 1 + 1 by omega, llSearch, if_neg here, holds,
      bind_eq_bind, bind_some]
    cases match_ : wanted e with
    | true =>
      rw [if_pos rfl, find?_cons_of_pos (p := fun x : Nat × TimeoutCallback F D => wanted x.2) match_]
      rfl
    | false =>
      rw [if_neg Bool.false_ne_true, find?_cons_of_neg (by simp [match_])]
      exact ih last (fun mem => nonNull (mem_cons_of_mem _ mem)) (by omega)

section ByFunc

variable [DecidableEq F]

def has (func : F) (e : TimeoutCallback F D) : Bool := e.callback = func

/-- **Deleting by function** takes out the first entry with it. -/
theorem Represents.deleteByFunc {t : Timers F D} {nodes : List (Nat × TimeoutCallback F D)} (h : Represents t nodes)
    (func : F) :
    ∃ data t', xapDelTimeoutActionByFunc t func = some (data, t') ∧ t'.mallocs = t.mallocs ∧
      Represents t' (nodes.eraseP fun x => has func x.2) := by
  have found := llSearch_eq (has func) h.path h.nonNull h.fuel
  change llSearch t.heap (fun e => decide (e.callback = func)) _ _ = _ at found
  unfold xapDelTimeoutActionByFunc
  rw [found, bind_eq_bind, bind_some]
  cases first : nodes.find? fun x => has func x.2 with
  | none =>
    refine ⟨none, t, if_pos rfl, rfl, ?_⟩
    rwa [eraseP_of_forall_not fun x mem => find?_eq_none.1 first x mem]
  | some node =>
    obtain ⟨b, e⟩ := node
    obtain ⟨matches_, front, rest, rfl, others⟩ := find?_eq_some_iff_append.1 first
    obtain ⟨t', deleted, mallocs, left⟩ := h.delete
    refine ⟨some e.userData, t', ?_, mallocs, ?_⟩
    · rw [elim_some, if_neg h.ne_null]
      simp only [deleted]
      rfl
    · rwa [eraseP_append_right _ fun x mem => by simpa using others x mem,
        eraseP_cons_of_pos (p := fun x : Nat × TimeoutCallback F D => has func x.2) matches_]

theorem eraseP_eq_filter_iff {α : Type} (p : α → Bool) (l : List α) :
    l.eraseP p = l.filter (fun a => !p a) ↔ l.countP p ≤ 1 := by
  induction l with
  | nil => simp
  | cons a l ih =>
    by_cases pos : p a = true
    · have none_left : l.countP p + 1 ≤ 1 ↔ l.countP p = 0 := by omega
      rw [eraseP_cons_of_pos pos, filter_cons_of_neg (by simp [pos]), countP_cons_of_pos pos, none_left,
        countP_eq_zero, eq_comm, filter_eq_self]
      simp only [Bool.not_eq_true', Bool.not_eq_true]
    · rw [eraseP_cons_of_neg pos, filter_cons_of_pos (by simpa using pos), countP_cons_of_neg pos,
        List.cons.injEq]
      exact (and_iff_right rfl).trans ih

/-- **All entries of a function are deleted exactly if there is at most one**: then, and only then,
what is left is the other entries, in their order. -/
theorem delByFunc_all_iff (l : TimeoutList F D) (func : F) :
    ∃ data l', xapDelTimeoutActionByFunc l.timers func = some (data, TimeoutList.timers l') ∧
      (l'.nodes = l.nodes.filter (fun x => x.2.callback ≠ func) ↔ l.nodes.countP (fun x => x.2.callback = func) ≤ 1) := by
  obtain ⟨data, t', deleted, -, left⟩ := l.holds.deleteByFunc func
  refine ⟨data, ⟨t', _, left⟩, deleted, ?_⟩
  have exact := eraseP_eq_filter_iff (fun x => has func x.2) l.nodes
  simpa [has] using exact

end ByFunc

def noTimers : Timers F D := { heap := fun _ => none, live := [], mallocs := 0, timeoutList := null }

/-- Two entries of one function: one of them is still found. -/
theorem delByFunc_leaves_one :
    (do let (_, t) ← xapAddTimeoutAction .rising (noTimers : Timers Nat Unit) 7 5 ()
        let (_, t) ← xapAddTimeoutAction .rising t 7 9 ()
        let (_, t) ← xapDelTimeoutActionByFunc t 7
        xapFindTimeoutByFunc t 7) = some 1 := by
  decide +kernel

/-! ## What a pass does -/

section Pass

variable [DecidableEq F]

/-- An action of the callback `func`, on the entries ahead of its own and the number of the next
`malloc`. There is no result if it deletes its own entry, or adds one that is not valid. -/
def Action.spare (func : F) (ahead : List (TimeoutCallback F D) × Nat) :
    Action F D → Option (List (TimeoutCallback F D) × Nat)
  | .add func' interval data =>
    if interval < 1 then none else some (⟨func', data, interval, 0, ahead.2⟩ :: ahead.1, ahead.2 + 1)
  | .delOwn => none
  | .delByOwnFunc => if ahead.1.any (has func) then some (ahead.1.eraseP (has func), ahead.2) else none

/-- A pass over the entries, behind those that are done. -/
def pass (script : Nat → List (Action F D)) (now : Int) (ahead : List (TimeoutCallback F D) × Nat) :
    List (TimeoutCallback F D) → Option (List (TimeoutCallback F D) × Nat)
  | [] => some ahead
  | e :: rest =>
    if e.ttl ≤ now then
      ((script e.serial).foldlM (Action.spare e.callback) ahead).bind fun ahead =>
        pass script now (ahead.1 ++ [e.rearmed now], ahead.2) rest
    else pass script now (ahead.1 ++ [e], ahead.2) rest

/-- The actions of a callback spare its entry, if `n` entries ahead have its function: none deletes the entry
itself, a deletion by function meets another one ahead, and what is added is valid. -/
def Spares (func : F) : Nat → List (Action F D) → Prop
  | _, [] => True
  | n, .add func' interval _ :: acts => 1 ≤ interval ∧ Spares func (if func' = func then n + 1 else n) acts
  | _, .delOwn :: _ => False
  | n, .delByOwnFunc :: acts => 0 < n ∧ Spares func (n - 1) acts

theorem spares_iff (func : F) (acts : List (Action F D)) (ahead : List (TimeoutCallback F D) × Nat) :
    (acts.foldlM (Action.spare func) ahead).isSome = true ↔ Spares func (ahead.1.countP (has func)) acts := by
  induction acts generalizing ahead with
  | nil => exact iff_of_true rfl trivial
  | cons act acts ih =>
    rw [foldlM_cons]
    cases act with
    | add func' interval data =>
      rw [Action.spare, Spares]
      by_cases invalid : interval < 1
      · rw [if_pos invalid]
        exact iff_of_false Bool.false_ne_true fun valid => Int.not_lt.2 valid.1 invalid
      · rw [if_neg invalid, and_iff_right (Int.not_lt.1 invalid)]
        refine (ih _).trans ?_
        by_cases same : func' = func <;> simp [has, same]
    | delOwn => exact iff_of_false Bool.false_ne_true id
    | delByOwnFunc =>
      rw [Action.spare, Spares, countP_pos_iff]
      split_ifs with another
      · obtain ⟨x, mem, hasIt⟩ := List.any_eq_true.1 another
        obtain ⟨y, before, after, -, hasToo, split, erased⟩ := exists_of_eraseP mem hasIt
        rw [and_iff_right ⟨x, mem, hasIt⟩]
        refine (ih _).trans ?_
        rw [erased, split, countP_append, countP_append, countP_cons_of_pos hasToo, ← Nat.add_assoc, Nat.add_sub_cancel]
      · exact iff_of_false Bool.false_ne_true fun ok => another (List.any_eq_true.2 ok.1)

/-- **A pass goes through** exactly if the actions of every entry that is called spare it, with the entries that
are ahead of it by then. -/
theorem pass_isSome_iff (script : Nat → List (Action F D)) (now : Int) (ahead : List (TimeoutCallback F D) × Nat)
    (es : List (TimeoutCallback F D)) : (pass script now ahead es).isSome = true ↔
      ∀ front e rest, es = front ++ e :: rest → e.ttl ≤ now → ∀ ahead', pass script now ahead front = some ahead' →
        Spares e.callback (ahead'.1.countP (has e.callback)) (script e.serial) := by
  induction es generalizing ahead with
  | nil => exact iff_of_true rfl fun front e rest split => absurd split.symm (by simp)
  | cons e es ih =>
    -- what the first entry leaves ahead of the others
    obtain ⟨first, step, spared⟩ : ∃ first : Option (List (TimeoutCallback F D) × Nat),
        (∀ more, pass script now ahead (e :: more) = first.bind fun ahead => pass script now ahead more) ∧
          (first.isSome = true ↔
            (e.ttl ≤ now → Spares e.callback (ahead.1.countP (has e.callback)) (script e.serial))) := by
      by_cases expired : e.ttl ≤ now
      · refine ⟨((script e.serial).foldlM (Action.spare e.callback) ahead).map fun ahead =>
          (ahead.1 ++ [e.rearmed now], ahead.2), fun more => ?_, ?_⟩
        · rw [pass, if_pos expired, bind_map]
          rfl
        · rw [isSome_map, spares_iff]
          exact ⟨fun ok _ => ok, fun ok => ok expired⟩
      · refine ⟨some (ahead.1 ++ [e], ahead.2), fun more => ?_, iff_of_true rfl fun due => absurd due expired⟩
        rw [pass, if_neg expired]
        rfl
    rw [step]
    cases first with
    | none =>
      refine iff_of_false Bool.false_ne_true fun all => ?_
      exact Bool.false_ne_true (spared.2 fun expired => all [] e es rfl expired ahead rfl)
    | some next =>
      rw [bind_some, ih]
      constructor
      · intro all front x rest split expired ahead' reached
        cases front with
        | nil =>
          cases split
          cases reached
          exact spared.1 rfl expired
        | cons y front =>
          cases split
          rw [step] at reached
          exact all front x rest rfl expired ahead' reached
      · intro all front x rest split expired ahead' reached
        exact all (e :: front) x rest (by rw [split, cons_append]) expired ahead' (by rw [step]; exact reached)

variable {t : Timers F D} {nodes front rest : List (Nat × TimeoutCallback F D)} {a : Nat} {e : TimeoutCallback F D}

def Gone (serial : Nat) (t : Timers F D) : Prop :=
  ∃ nodes, Represents t nodes ∧ serial < t.mallocs ∧ ∀ e ∈ entries nodes, e.serial ≠ serial

variable {serial : Nat} {act : Action F D} {t' : Timers F D} {acts : List (Action F D)}

/-- **An action** leaves entries that were there, or adds one with the next number. -/
theorem Represents.action (h : Represents t nodes) {malloc : Supply Nat} {cb : Nat} {func : F}
    (ran : act.run malloc cb func t = some t') :
    ∃ nodes', Represents t' nodes' ∧ t.mallocs ≤ t'.mallocs ∧
      ∀ x ∈ entries nodes', x ∈ entries nodes ∨ x.serial = t.mallocs := by
  cases act with
  | add func' interval data =>
    obtain ⟨⟨p, t₁⟩, added, rfl⟩ := map_eq_some_iff.1 ran
    obtain ⟨valid, -⟩ := ite_none_left_eq_some.1 added
    obtain ⟨p', t₂, made, mallocs, left⟩ := h.add malloc func' valid data
    cases made.symm.trans added
    exact ⟨_, left, mallocs ▸ Nat.le_succ _, forall_mem_cons.2 ⟨.inr rfl, fun x => .inl⟩⟩
  | delOwn =>
    obtain ⟨⟨data, t₁⟩, deleted, rfl⟩ := map_eq_some_iff.1 ran
    obtain ⟨link, holds, -⟩ := bind_eq_some_iff.1 deleted
    obtain ⟨⟨p, x⟩, mem, rfl⟩ := mem_map.1 (h.allocated (by rw [holds]; rfl))
    obtain ⟨before, behind, rfl⟩ := append_of_mem mem
    obtain ⟨t₂, gone, mallocs, left⟩ := h.delete
    cases gone.symm.trans deleted
    refine ⟨_, left, Nat.le_of_eq mallocs.symm, fun y member => .inl ?_⟩
    exact (((List.Sublist.refl before).append (sublist_cons_self _ _)).map _).subset member
  | delByOwnFunc =>
    obtain ⟨⟨data, t₁⟩, deleted, rfl⟩ := map_eq_some_iff.1 ran
    obtain ⟨data', t₂, gone, mallocs, left⟩ := h.deleteByFunc func
    cases gone.symm.trans deleted
    exact ⟨_, left, Nat.le_of_eq mallocs.symm, fun y member => .inl ((eraseP_sublist.map _).subset member)⟩

/-- Nothing brings a deleted entry back. -/
theorem Gone.step (gone : Gone serial t) (malloc : Supply Nat) (cb : Nat) (func : F)
    (ran : act.run malloc cb func t = some t') : Gone serial t' := by
  obtain ⟨nodes, h, numbered, others⟩ := gone
  obtain ⟨nodes', left, more, known⟩ := h.action ran
  refine ⟨nodes', left, Nat.lt_of_lt_of_le numbered more, fun x mem => ?_⟩
  rcases known x mem with old | new
  · exact others x old
  · exact new ▸ Nat.ne_of_gt numbered

omit [DecidableEq F] in
/-- An entry that is taken out is gone. -/
theorem Represents.gone (h : Represents t (front ++ (a, e) :: rest))
    (left : Represents t' (front ++ rest)) (mallocs : t'.mallocs = t.mallocs) : Gone e.serial t' := by
  refine ⟨_, left, ?_, fun x mem same => ?_⟩
  · rw [mallocs]
    exact h.numbered e (by simp [entries])
  · have once := h.once
    simp only [entries, map_append, map_cons] at once mem
    have apart := nodup_middle.1 once
    have there : e.serial ∈ (front.map Prod.snd).map TimeoutCallback.serial ++
        (rest.map Prod.snd).map TimeoutCallback.serial := by
      rw [← map_append, ← same]
      exact mem_map_of_mem mem
    exact (nodup_cons.1 apart).1 there

/-- Entries ahead, as nodes and without their addresses. -/
theorem any_has_entries (func : F) (front : List (Nat × TimeoutCallback F D)) :
    (entries front).any (has func) = front.any fun x => has func x.2 := by
  rw [entries, List.any_map]
  rfl

/-- The outcome of a callback of the entry `e`, as `Action.spare` says. -/
def Called (a : Nat) (e : TimeoutCallback F D) (rest : List (Nat × TimeoutCallback F D)) (ran : Option (Timers F D)) :
    Option (List (TimeoutCallback F D) × Nat) → Prop
  | some ahead => ∃ t front, ran = some t ∧ Represents t (front ++ (a, e) :: rest) ∧ (entries front, t.mallocs) = ahead
  | none => ∀ t, ran = some t → Gone e.serial t

/-- **One action** of a callback. -/
theorem Represents.called (h : Represents t (front ++ (a, e) :: rest)) (malloc : Supply Nat) (act : Action F D) :
    Called a e rest (act.run malloc a e.callback t) (act.spare e.callback (entries front, t.mallocs)) := by
  cases act with
  | add func interval data =>
    rw [Action.spare, Action.run]
    split_ifs with invalid
    · intro t' ran
      rw [xapAddTimeoutAction, if_pos invalid] at ran
      cases ran
    · obtain ⟨p, t', added, mallocs, left⟩ := h.add malloc func invalid data
      refine ⟨t', _ :: front, ?_, left, ?_⟩
      · rw [added]
        rfl
      · rw [mallocs]
        rfl
  | delOwn =>
    obtain ⟨t', deleted, mallocs, left⟩ := h.delete
    intro t'' ran
    rw [Action.run, deleted] at ran
    cases ran
    exact h.gone left mallocs
  | delByOwnFunc =>
    obtain ⟨data, t', deleted, mallocs, left⟩ := h.deleteByFunc e.callback
    have ran : Action.run malloc a e.callback t .delByOwnFunc = some t' := by
      rw [Action.run, deleted]
      rfl
    rw [Action.spare, ran, any_has_entries]
    split_ifs with ahead
    · obtain ⟨x, mem, hasIt⟩ := List.any_eq_true.1 ahead
      rw [eraseP_append_left (p := fun x : Nat × TimeoutCallback F D => has e.callback x.2) hasIt _ mem] at left
      refine ⟨t', _, rfl, left, ?_⟩
      rw [mallocs, entries, entries, eraseP_map]
      rfl
    · rw [List.any_eq_true] at ahead
      rw [eraseP_append_right _ fun x mem hasIt => ahead ⟨x, mem, hasIt⟩,
        eraseP_cons_of_pos (p := fun x : Nat × TimeoutCallback F D => has e.callback x.2) (by simp [has])] at left
      rintro _ ⟨⟩
      exact h.gone left mallocs

theorem Gone.script (gone : Gone serial t) (malloc : Supply Nat) (cb : Nat) (func : F)
    (ran : acts.foldlM (Action.run malloc cb func) t = some t') : Gone serial t' := by
  induction acts generalizing t with
  | nil => exact some.inj ran ▸ gone
  | cons act acts ih =>
    rw [foldlM_cons, bind_eq_bind, bind_eq_some_iff] at ran
    obtain ⟨t₁, first, others⟩ := ran
    exact ih (gone.step malloc cb func first) others

/-- All actions of a callback. -/
theorem Represents.script (h : Represents t (front ++ (a, e) :: rest)) (malloc : Supply Nat)
    (acts : List (Action F D)) :
    Called a e rest (acts.foldlM (Action.run malloc a e.callback) t)
      (acts.foldlM (Action.spare e.callback) (entries front, t.mallocs)) := by
  induction acts generalizing t front with
  | nil => exact ⟨t, front, rfl, h, rfl⟩
  | cons act acts ih =>
    have first := h.called malloc act
    rw [foldlM_cons, foldlM_cons]
    cases spared : act.spare e.callback (entries front, t.mallocs) with
    | none =>
      rw [spared] at first
      intro t' ran
      obtain ⟨t₁, ran₁, others⟩ := bind_eq_some_iff.1 ran
      exact (first t₁ ran₁).script malloc a e.callback others
    | some ahead =>
      rw [spared] at first
      obtain ⟨t₁, front₁, ran₁, h₁, rfl⟩ := first
      rw [ran₁]
      exact ih h₁

/-! ## The walk along the list -/

omit [DecidableEq F] in
/-- Setting the time of an entry. -/
theorem Represents.rearm (h : Represents t (front ++ (a, e) :: rest)) (now : Int) {next : Nat}
    (holds : t.heap a = some ⟨e, next⟩) :
    Represents (Timeout.rearm now t a ⟨e, next⟩) (front ++ (a, e.rearmed now) :: rest) := by
  obtain ⟨outside, outside'⟩ := h.apart
  obtain ⟨next', holds', path⟩ := h.path.modify outside outside' (e.rearmed now)
  obtain rfl : next = next' := by
    rw [holds, some.injEq, Link.mk.injEq] at holds'
    exact holds'.2
  have same : addresses (front ++ (a, e.rearmed now) :: rest) = addresses (front ++ (a, e) :: rest) := by
    simp only [addresses, map_append, map_cons]
  have serials : (entries (front ++ (a, e.rearmed now) :: rest)).map TimeoutCallback.serial =
      (entries (front ++ (a, e) :: rest)).map TimeoutCallback.serial := by
    simp only [entries, map_append, map_cons, TimeoutCallback.rearmed]
  constructor
  · exact path
  · exact same ▸ h.distinct
  · exact same ▸ h.nonNull
  · exact same ▸ h.blocks
  · intro p unused
    have different : p ≠ a := by
      rintro rfl
      rw [h.free p unused] at holds
      exact absurd holds (by simp)
    change update t.heap a _ p = none
    rw [update_of_ne different]
    exact h.free p unused
  · intro x mem
    have number := mem_map_of_mem (f := TimeoutCallback.serial) mem
    rw [serials] at number
    obtain ⟨y, member, equal⟩ := mem_map.1 number
    rw [← equal]
    exact h.numbered y member
  · exact serials ▸ h.once

omit [DecidableEq F] in
/-- The entry that is read behind the call of a deleted one is another. -/
theorem Gone.stale (gone : Gone serial t) {p : Nat} {link : Link Nat (TimeoutCallback F D)}
    (holds : t.heap p = some link) : link.data.serial ≠ serial := by
  obtain ⟨nodes, h, -, others⟩ := gone
  obtain ⟨⟨b, x⟩, mem, rfl⟩ := mem_map.1 (h.allocated (by rw [holds]; rfl))
  obtain ⟨before, behind, rfl⟩ := append_of_mem mem
  obtain ⟨next, holds', -⟩ := h.path.node
  rw [holds, some.injEq] at holds'
  rw [holds']
  exact others x (by simp [entries])

section Walk

variable (malloc : Supply Nat) (script : Nat → List (Action F D)) (now : Int) (n : Nat) {cb next : Nat}

/-- An entry whose time has not come. -/
theorem dispatchFrom_waits (nonNull : cb ≠ null) (holds : t.heap cb = some ⟨e, next⟩) (early : ¬ e.ttl ≤ now) :
    dispatchFrom malloc script now (n + 1) t cb = dispatchFrom malloc script now n t next := by
  rw [dispatchFrom, if_neg nonNull, holds, bind_eq_bind, bind_some, if_neg early]

/-- An entry that is called and is still there. -/
theorem dispatchFrom_calls (nonNull : cb ≠ null) (holds : t.heap cb = some ⟨e, next⟩) (expired : e.ttl ≤ now)
    {t₁ : Timers F D}
    (ran : (script e.serial).foldlM (Action.run malloc cb e.callback) (rearm now t cb ⟨e, next⟩) = some t₁)
    {e₁ : TimeoutCallback F D} {next₁ : Nat} (holds₁ : t₁.heap cb = some ⟨e₁, next₁⟩) (same : e₁.serial = e.serial) :
    dispatchFrom malloc script now (n + 1) t cb =
      (dispatchFrom malloc script now n t₁ next₁).map fun r => (r.1, e.serial :: r.2) := by
  rw [dispatchFrom, if_neg nonNull, holds, bind_eq_bind, bind_some, if_pos expired, ran,
    bind_eq_bind, bind_some, holds₁, bind_eq_bind, bind_some, if_pos same]
  cases dispatchFrom malloc script now n t₁ next₁ with
  | none => rfl
  | some r => rfl

theorem dispatchFrom_lost (nonNull : cb ≠ null) (holds : t.heap cb = some ⟨e, next⟩) (expired : e.ttl ≤ now)
    (lost : ∀ t₁, (script e.serial).foldlM (Action.run malloc cb e.callback) (rearm now t cb ⟨e, next⟩) = some t₁ →
      Gone e.serial t₁) : dispatchFrom malloc script now (n + 1) t cb = none := by
  rw [dispatchFrom, if_neg nonNull, holds, bind_eq_bind, bind_some, if_pos expired]
  cases ran : (script e.serial).foldlM (Action.run malloc cb e.callback) (rearm now t cb ⟨e, next⟩) with
  | none => rfl
  | some t₁ =>
    rw [bind_eq_bind, bind_some]
    cases holds₁ : t₁.heap cb with
    | none => rfl
    | some link =>
      rw [bind_eq_bind, bind_some, if_neg ((lost t₁ ran).stale holds₁)]

end Walk

def due (now : Int) (es : List (TimeoutCallback F D)) : List Nat :=
  (es.filter fun e => e.ttl ≤ now).map TimeoutCallback.serial

section Due

omit [DecidableEq F]

variable {now : Int} (es : List (TimeoutCallback F D))

theorem due_cons_expired (expired : e.ttl ≤ now) : due now (e :: es) = e.serial :: due now es := by
  rw [due, filter_cons_of_pos (by simpa using expired), map_cons, due]

theorem due_cons_early (early : ¬ e.ttl ≤ now) : due now (e :: es) = due now es := by
  rw [due, filter_cons_of_neg (by simpa using early), due]

end Due

omit [DecidableEq F] in
theorem entries_snoc (front : List (Nat × TimeoutCallback F D)) (a : Nat) (e : TimeoutCallback F D) :
    entries (front ++ [(a, e)]) = entries front ++ [e] := by
  simp only [entries, map_append, map_cons, map_nil]

/-- The outcome of a walk, as `pass` says. -/
def Walked (called : List Nat) (ran : Option (Timers F D × List Nat)) :
    Option (List (TimeoutCallback F D) × Nat) → Prop
  | some done => ∃ t nodes, ran = some (t, called) ∧ Represents t nodes ∧ (entries nodes, t.mallocs) = done
  | none => ran = none

/-- **The walk follows `pass`**: it calls the entries that were due, or uses a deleted entry. -/
theorem dispatchFrom_pass (malloc : Supply Nat) (script : Nat → List (Action F D)) (now : Int)
    (h : Represents t (front ++ rest)) {cb : Nat} (here : Segment t.heap cb rest null) :
    Walked (due now (entries rest)) (dispatchFrom malloc script now (rest.length + 1) t cb)
      (pass script now (entries front, t.mallocs) (entries rest)) := by
  induction rest generalizing t front cb with
  | nil =>
    refine ⟨t, front, ?_, by rwa [append_nil] at h, rfl⟩
    rw [length_nil, dispatchFrom, if_pos (show cb = null from here)]
    rfl
  | cons node rest ih =>
    obtain ⟨a, e⟩ := node
    obtain ⟨rfl, next, holds, behind⟩ := here
    rw [length_cons]
    change Walked (due now (e :: entries rest)) _ (pass script now _ (e :: entries rest))
    rw [pass]
    split_ifs with expired
    · have called : Called cb (e.rearmed now) rest (foldlM (Action.run malloc cb e.callback) (rearm now t cb ⟨e, next⟩) _)
          (foldlM (Action.spare e.callback) (entries front, t.mallocs) _) :=
        (h.rearm now holds).script malloc (script e.serial)
      cases spared : (script e.serial).foldlM (Action.spare e.callback) (entries front, t.mallocs) with
      | none =>
        rw [spared] at called
        exact dispatchFrom_lost malloc script now _ h.ne_null holds expired called
      | some ahead =>
        rw [spared] at called
        obtain ⟨t₁, front₁, ran, h₁, rfl⟩ := called
        obtain ⟨next₁, holds₁, behind₁⟩ := h₁.path.node
        have rest₁ := ih (show Represents t₁ ((front₁ ++ [(cb, e.rearmed now)]) ++ rest) by rwa [append_assoc]) behind₁
        rw [entries_snoc] at rest₁
        rw [dispatchFrom_calls malloc script now _ h.ne_null holds expired ran holds₁ rfl, due_cons_expired _ expired,
          bind_some]
        revert rest₁
        cases pass script now (entries front₁ ++ [e.rearmed now], t₁.mallocs) (entries rest) with
        | none => exact fun nothing => by rw [nothing]; rfl
        | some done =>
          rintro ⟨t', nodes', walked, h', same⟩
          exact ⟨t', nodes', by rw [walked]; rfl, h', same⟩
    · have waits := ih (show Represents t ((front ++ [(cb, e)]) ++ rest) by rwa [append_assoc]) behind
      rw [entries_snoc] at waits
      rwa [dispatchFrom_waits malloc script now _ h.ne_null holds expired, due_cons_early _ expired]

omit [DecidableEq F] in
/-- An entry that was due is called once. -/
theorem due_once {now : Int} {es : List (TimeoutCallback F D)} (once : (es.map TimeoutCallback.serial).Nodup)
    {e : TimeoutCallback F D} (mem : e ∈ es) (expired : e.ttl ≤ now) : (due now es).count e.serial = 1 := by
  have distinct : (due now es).Nodup := (filter_sublist.map _).nodup once
  refine count_eq_one_of_mem distinct (mem_map_of_mem ?_)
  exact mem_filter.2 ⟨mem, decide_eq_true expired⟩

/-- **A pass is orderly exactly if no callback deletes its own entry**: no link of a deleted entry is
followed, and every entry that had expired at the start is called once. -/
theorem dispatch_each_once_iff (malloc : Supply Nat) (l : TimeoutList F D) (script : Nat → List (Action F D)) (now : Int) :
    ((∃ l' ran, timeoutDispatch malloc script now l.timers = some (TimeoutList.timers l', ran) ∧
        ∀ e ∈ entries l.nodes, e.ttl ≤ now → ran.count e.serial = 1) ↔
      (pass script now ([], l.timers.mallocs) (entries l.nodes)).isSome = true) ∧
    ((pass script now ([], l.timers.mallocs) (entries l.nodes)).isSome = true ↔
      ∀ front e rest, entries l.nodes = front ++ e :: rest → e.ttl ≤ now →
        ∀ ahead, pass script now ([], l.timers.mallocs) front = some ahead →
          Spares e.callback (ahead.1.countP (has e.callback)) (script e.serial)) := by
  refine ⟨?_, pass_isSome_iff ..⟩
  have whole : Represents l.timers ([] ++ l.nodes) := l.holds
  have walked := dispatchFrom_pass malloc script now whole l.holds.path
  have fuel : l.nodes.length + 1 = l.timers.live.length + 1 := by
    rw [l.holds.blocks.length_eq, addresses, length_map]
  rw [fuel] at walked
  change Walked _ (timeoutDispatch malloc script now l.timers) (pass script now ([], l.timers.mallocs) _) at walked
  revert walked
  cases pass script now ([], l.timers.mallocs) (entries l.nodes) with
  | none =>
    intro lost
    refine iff_of_false ?_ Bool.false_ne_true
    rintro ⟨l', ran, run, -⟩
    cases lost.symm.trans run
  | some done =>
    rintro ⟨t', nodes', run, h', -⟩
    exact iff_of_true ⟨⟨t', nodes', h'⟩, _, run, fun e mem expired => due_once l.holds.once mem expired⟩ rfl

end Pass

/-- The callback of the test: it deletes its entry by its function and adds another. -/
def hello : Nat → List (Action Nat Unit) := fun _ => [.delByOwnFunc, .add 8 3 ()]

/-- The pass that calls it uses the deleted entry, whether `malloc` hands out its block again or
not. -/
theorem hello_uses_deleted :
    (do let (_, t) ← xapAddTimeoutAction .rising (noTimers : Timers Nat Unit) 7 5 ()
        timeoutDispatch .rising hello 100 t).isNone = true ∧
      (do let (_, t) ← xapAddTimeoutAction .rising (noTimers : Timers Nat Unit) 7 5 ()
          timeoutDispatch .rising (fun _ => [.delOwn]) 100 t).isNone = true := by
  decide +kernel

end Hah.Xap.Timeout
