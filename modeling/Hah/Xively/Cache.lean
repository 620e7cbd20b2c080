import Hah.C.Strings
import Hah.Lib.FirstSeen

/-!
# The cache of datastreams: `dscache.c`

The daemon caches one datastream for every pair of a feed and an id, and posts the
datastreams of a feed as one text. The text is built in a static buffer that outlives the
call, grows in the middle of an append and is used for one feed after the other.

`cache_exact` says what the cache holds after any sequence of updates and posts, and that
the text of a listed feed is whole. A block that `mem_malloc` or `mem_realloc` does not get
ends the process, which is no outcome here; nothing else does.
-/

namespace Hah.Xively
open C Lib List Bool

/-! ## Strings and memory -/

/-- What a `char *` points at: no byte of it is NUL. -/
abbrev CText := { s : Bytes // ∀ c ∈ s, c ≠ 0 }

instance : Append CText where
  append a b := ⟨a.1 ++ b.1, fun c mem => (mem_append.1 mem).elim (a.2 c) (b.2 c)⟩

variable {A : Type} {call : Option A} {good : A → Prop} {size : Nat}

def text (s : String) (clean : (ascii s).all (fun c => decide (c ≠ 0)) = true := by decide) : CText :=
  ⟨ascii s, bytes_of_all clean⟩

/-- What the allocator does with requests while an event is handled: the sizes it has blocks
for, and what such a block holds behind what was copied into it. -/
structure Heap where
  grants : Nat → Bool
  contents : Nat → Mem

/-- Some block was not to be had. -/
def Heap.Refuses (heap : Heap) : Prop := ∃ size, heap.grants size = false

def Heap.memMalloc (heap : Heap) (size : Nat) : Option Mem :=
  if heap.grants size then some (heap.contents size) else none

/-- `mem_realloc` of a block of `old` bytes. -/
def Heap.memRealloc (heap : Heap) (m : Mem) (old size : Nat) : Option Mem :=
  if heap.grants size then some fun j => if j < old then m j else heap.contents size j else none

/-! ## The model -/

section Model

variable {V : Type}

/-- How numbers are printed: `%d` of an id and `%.2f` of a value. -/
structure Rendering (V : Type) where
  id : UInt32 → CText
  value : V → CText

structure Datastream (V : Type) where
  feed : UInt32
  id : UInt32
  tag : CText
  value : V
  min : Option CText
  max : Option CText
  unit : Option CText

/-- The arguments of `updateDatastream`. -/
structure Update (V : Type) extends Datastream V where
  now : Bool

/-- The static variables: `ds` and `feeds`, the buffer `xml` of `xmllen` bytes, and whether the
timer of `xivelyWebUpdate` was expired. -/
structure Cache (V : Type) where
  ds : List (Datastream V)
  feeds : List UInt32
  xml : Option Mem
  xmllen : Nat
  expired : Bool

def Cache.start : Cache V := ⟨[], [], none, 200, false⟩

/-- `appendXml`: the buffer, its size and the number of bytes behind `offset`. Printing is tried
again in a larger buffer until it fits. -/
def appendXml (heap : Heap) (s : Mem) (size offset : Nat) (text : CText) : Option (Mem × Nat × Nat) :=
  let n := text.1.length
  let printed := snprintf s offset (size - offset) text.1
  if n < size - offset then some (printed, size, n)
  else
    match heap.memRealloc printed size (size + (n + 1)) with
    | none => none
    | some s => appendXml heap s (size + (n + 1)) offset text
termination_by offset + text.1.length + 1 - size
decreasing_by omega

/-- The buffer, its size and `j` in the loop of `xmlDatastream`. -/
structure Writer where
  xml : Mem
  xmllen : Nat
  j : Nat

/-- `j += appendXml(&xml, &xmllen, j, ...)`. -/
def Writer.append (heap : Heap) (text : CText) (w : Writer) : Option Writer :=
  (appendXml heap w.xml w.xmllen w.j text).map fun r => ⟨r.1, r.2.1, w.j + r.2.2⟩

/-- The same if the pointer is not `NULL`. -/
def Writer.appendIf (heap : Heap) (given : Option CText) (format : CText → CText) (w : Writer) : Option Writer :=
  match given with
  | none => some w
  | some s => w.append heap (format s)

def openText (r : Rendering V) (d : Datastream V) : CText :=
  text "<data id=\"" ++ r.id d.id ++ text "\"><tag>" ++ d.tag ++ text "</tag><value"

def minText (min : CText) : CText := text " minValue=\"" ++ min ++ text "\""

def maxText (max : CText) : CText := text " maxValue=\"" ++ max ++ text "\""

def valueText (r : Rendering V) (d : Datastream V) : CText := text ">" ++ r.value d.value ++ text "</value>"

def unitText (unit : CText) : CText := text "<unit symbol=\"" ++ unit ++ text "\">" ++ unit ++ text "</unit>"

/-- The body of the loop of `xmlDatastream`. -/
def Writer.entry (r : Rendering V) (heap : Heap) (d : Datastream V) (w : Writer) : Option Writer := do
  let w ← w.append heap (openText r d)
  let w ← w.appendIf heap d.min minText
  let w ← w.appendIf heap d.max maxText
  let w ← w.append heap (valueText r d)
  let w ← w.appendIf heap d.unit unitText
  w.append heap (text "</data>")

def Writer.loop (r : Rendering V) (heap : Heap) (feed : UInt32) : List (Datastream V) → Writer → Option Writer
  | [], w => some w
  | d :: ds, w => if d.feed ≠ feed then w.loop r heap feed ds else (w.entry r heap d).bind (Writer.loop r heap feed ds)

/-- The buffer of `xmlDatastream`, allocated on the first call. -/
def Cache.buffer (heap : Heap) (c : Cache V) : Option Mem :=
  match c.xml with
  | none => heap.memMalloc c.xmllen
  | some xml => some xml

/-- `xmlDatastream`: what the returned pointer points at, `none` for `NULL`. -/
def xmlDatastream (r : Rendering V) (heap : Heap) (feed : UInt32) (c : Cache V) : Option (Option Mem × Cache V) :=
  if c.ds = [] then some (none, c)
  else do
    let xml ← c.buffer heap
    let w ← Writer.loop r heap feed c.ds ⟨xml, c.xmllen, 0⟩
    return (some w.xml, { c with xml := some w.xml, xmllen := w.xmllen })

/-- The loop of `xivelyWebUpdate`: the feeds posted, each with its text. -/
def postFeeds (r : Rendering V) (heap : Heap) : List UInt32 → Cache V → Option (List (UInt32 × Option Mem) × Cache V)
  | [], c => some ([], c)
  | feed :: feeds, c => do
    let (xml, c) ← xmlDatastream r heap feed c
    let (posts, c) ← postFeeds r heap feeds c
    return ((feed, xml) :: posts, c)

def xivelyWebUpdate (r : Rendering V) (heap : Heap) (c : Cache V) :
    Option (List (UInt32 × Option Mem) × Cache V) :=
  postFeeds r heap c.feeds c

def findDatastream (ds : List (Datastream V)) (feed id : UInt32) : Option Nat :=
  ds.findIdx? fun d => d.id = id ∧ d.feed = feed

/-- `addFeed`: the list grows by a `long` of four bytes. -/
def addFeed (heap : Heap) (feed : UInt32) (feeds : List UInt32) : Option (List UInt32) :=
  if feed ∈ feeds then some feeds
  else if heap.grants (4 * (feeds.length + 1)) then some (feeds ++ [feed])
  else none

/-- `mem_strdup` of an argument that may be `NULL`. -/
def memStrdup (heap : Heap) (s : Option CText) : Bool := s.all fun s => heap.grants (s.1.length + 1)

/-- `updateDatastream`. A `struct datastream` has 28 bytes. -/
def updateDatastream (heap : Heap) (u : Update V) (c : Cache V) : Option (Cache V) := do
  let expired := c.expired || u.now
  match findDatastream c.ds u.feed u.id with
  | none =>
    if heap.grants (28 * (c.ds.length + 1)) && memStrdup heap (some u.tag) && memStrdup heap u.min &&
        memStrdup heap u.max && memStrdup heap u.unit then
      let feeds ← addFeed heap u.feed c.feeds
      return { c with ds := c.ds ++ [u.toDatastream], feeds := feeds, expired := expired }
    else none
  | some idx =>
    return { c with ds := c.ds.modify idx fun d => { d with value := u.value }, expired := expired }

inductive CacheEvent (V : Type) where
  | update (u : Update V)
  | post

def Cache.step (r : Rendering V) (heap : Heap) (c : Cache V) : CacheEvent V → Option (Cache V)
  | .update u => updateDatastream heap u c
  | .post => (xivelyWebUpdate r heap c).map (·.2)

def Cache.run (r : Rendering V) : List (Heap × CacheEvent V) → Cache V → Option (Cache V)
  | [], c => some c
  | (heap, event) :: events, c => (c.step r heap event).bind (Cache.run r events)

end Model

/-! ## Appending -/

/-- A call has an outcome of a kind, or a block was refused. -/
def Yields {A : Type} (heap : Heap) (call : Option A) (good : A → Prop) : Prop :=
  (∃ a, call = some a ∧ good a) ∨ (call = none ∧ heap.Refuses)

variable {B : Type} {better : B → Prop} {s : Mem} {offset : Nat}

theorem Yields.bind {heap : Heap} {next : A → Option B} (first : Yields heap call good)
    (second : ∀ a, good a → Yields heap (next a) better) : Yields heap (call.bind next) better := by
  rcases first with ⟨a, rfl, holds⟩ | ⟨rfl, refused⟩
  · exact second a holds
  · exact .inr ⟨rfl, refused⟩

theorem Yields.map {heap : Heap} {f : A → B}
    (h : Yields heap call good) (carried : ∀ a, good a → better (f a)) : Yields heap (call.map f) better := by
  rcases h with ⟨a, rfl, holds⟩ | ⟨rfl, refused⟩
  · exact .inl ⟨f a, rfl, carried a holds⟩
  · exact .inr ⟨rfl, refused⟩

theorem Yields.mono {heap : Heap} {better : A → Prop}
    (h : Yields heap call good) (weaker : ∀ a, good a → better a) : Yields heap call better := by
  rcases h with ⟨a, rfl, holds⟩ | refused
  · exact .inl ⟨a, rfl, weaker a holds⟩
  · exact .inr refused

/-- What `appendXml` leaves behind. -/
structure Appended (s : Mem) (offset : Nat) (text : CText) (result : Mem × Nat × Nat) : Prop where
  count : result.2.2 = text.1.length
  room : offset + text.1.length < result.2.1
  before : ∀ j < offset, result.1 j = s j
  bytes : ∀ j (inside : j < text.1.length), result.1 (offset + j) = text.1[j]
  nul : result.1 (offset + text.1.length) = 0

theorem snprintf_before {m : Mem} {p j : Nat} {text : Bytes} (before : j < p) :
    snprintf m p size text j = m j := by
  unfold snprintf
  split_ifs <;> first | rfl | omega

/-- Printing that fits. -/
theorem appended_fits {text : CText} (fits : text.1.length < size - offset) :
    Appended s offset text (snprintf s offset (size - offset) text.1, size, text.1.length) := by
  have whole : min text.1.length (size - offset - 1) = text.1.length := by omega
  have some_room : size - offset ≠ 0 := by omega
  refine ⟨rfl, by dsimp only; omega, fun j before => snprintf_before before, fun j inside => ?_, ?_⟩
  · simp only [snprintf, if_neg some_room, whole]
    rw [if_pos (by omega), Nat.add_sub_cancel_left]
    exact (getElem_eq_getD 0).symm
  · simp only [snprintf, if_neg some_room, whole]
    rw [if_neg (by omega), if_pos trivial]

/-- **Appending never truncates**: it ends, with the whole text behind `offset`. -/
theorem appendXml_spec (heap : Heap) (text : CText) (room : offset < size) :
    Yields heap (appendXml heap s size offset text) (Appended s offset text) := by
  induction s, size using appendXml.induct heap offset text with
  | case1 s size n fits =>
    rw [appendXml, if_pos fits]
    exact .inl ⟨_, rfl, appended_fits fits⟩
  | case2 s size n printed full refused =>
    rw [appendXml, if_neg full, refused]
    refine .inr ⟨rfl, size + (n + 1), ?_⟩
    unfold Heap.memRealloc at refused
    split_ifs at refused with granted
    exact eq_false_iff.2 granted
  | case3 s size n printed full grown got ih =>
    rw [appendXml, if_neg full, got]
    refine (ih (by omega)).mono fun result appended => ⟨appended.count, appended.room, fun j before => ?_,
      appended.bytes, appended.nul⟩
    -- the block that was copied holds what stands before the offset
    rw [appended.before j before]
    unfold Heap.memRealloc at got
    split_ifs at got
    cases got
    exact (if_pos (Nat.lt_trans before room)).trans (snprintf_before before)

/-- The buffer holds a text up to `j`, with a terminator if anything was printed. -/
structure Writer.Written (w : Writer) (text : Bytes) : Prop where
  place : w.j = text.length
  room : w.j < w.xmllen
  bytes : ∀ j (inside : j < text.length), w.xml j = text[j]
  nul : text ≠ [] → w.xml text.length = 0
  clean : ∀ c ∈ text, c ≠ 0

theorem Writer.Written.append {heap : Heap} {w : Writer} {done : Bytes} (h : w.Written done) (text : CText) :
    Yields heap (w.append heap text) fun w => w.Written (done ++ text.1) := by
  refine (appendXml_spec heap text h.room).map fun ⟨xml, xmllen, n⟩ appended => ?_
  obtain ⟨count, room, before, bytes, nul⟩ := appended
  dsimp only at count room before bytes nul
  rw [h.place] at room before bytes nul
  refine ⟨?_, ?_, fun j inside => ?_, fun _ => ?_, fun c mem => ?_⟩
  · rw [length_append, h.place, count]
  · show w.j + n < xmllen
    rw [h.place, count]
    exact room
  · by_cases old : j < done.length
    · rw [getElem_append_left old]
      exact (before j old).trans (h.bytes j old)
    · have behind := bytes (j - done.length) (by rw [length_append] at inside; omega)
      rw [getElem_append_right (Nat.le_of_not_lt old), ← behind]
      exact congrArg xml (by omega)
  · rw [length_append]
    exact nul
  · exact (mem_append.1 mem).elim (h.clean c) (text.2 c)

def optional (given : Option CText) (format : CText → CText) : Bytes := (given.map fun s => (format s).1).getD []

theorem Writer.Written.appendIf {heap : Heap} {w : Writer} {done : Bytes} (h : w.Written done)
    (given : Option CText) (format : CText → CText) :
    Yields heap (w.appendIf heap given format) fun w => w.Written (done ++ optional given format) := by
  cases given with
  | none => exact .inl ⟨w, rfl, by simpa [optional] using h⟩
  | some s => exact h.append (format s)

section Texts

variable {V : Type} (r : Rendering V)

def fragment (d : Datastream V) : Bytes :=
  (openText r d).1 ++ optional d.min minText ++ optional d.max maxText ++ (valueText r d).1 ++
    optional d.unit unitText ++ (text "</data>").1

def feedText (feed : UInt32) (ds : List (Datastream V)) : Bytes :=
  (ds.filter fun d => d.feed = feed).flatMap (fragment r)

variable {r} {heap : Heap} {feed : UInt32} {w : Writer} {done : Bytes}

theorem Writer.Written.entry (h : w.Written done) (d : Datastream V) :
    Yields heap (w.entry r heap d) fun w => w.Written (done ++ fragment r d) := by
  refine (h.append _).bind fun w h => (h.appendIf d.min minText).bind fun w h =>
    (h.appendIf d.max maxText).bind fun w h => (h.append _).bind fun w h =>
      (h.appendIf d.unit unitText).bind fun w h => (h.append _).mono fun w h => ?_
  simpa only [fragment, append_assoc] using h

theorem Writer.Written.loop (h : w.Written done) (ds : List (Datastream V)) :
    Yields heap (w.loop r heap feed ds) fun w => w.Written (done ++ feedText r feed ds) := by
  induction ds generalizing w done with
  | nil => exact .inl ⟨w, rfl, by simpa [feedText] using h⟩
  | cons d ds ih =>
    rw [Writer.loop]
    by_cases same : d.feed = feed
    · rw [if_neg (not_not.2 same)]
      refine (h.entry d).bind fun w h => (ih h).mono fun w h => ?_
      simpa [feedText, same] using h
    · rw [if_pos same]
      refine (ih h).mono fun w h => ?_
      simpa [feedText, same] using h

theorem fragment_ne_nil (d : Datastream V) : fragment r d ≠ [] := by
  intro empty
  have short := congrArg List.length empty
  simp [fragment, openText, text, ascii] at short

theorem feedText_ne_nil {ds : List (Datastream V)} {d : Datastream V} (mem : d ∈ ds) (same : d.feed = feed) :
    feedText r feed ds ≠ [] := by
  intro empty
  have own : d ∈ ds.filter fun d => d.feed = feed := mem_filter.2 ⟨mem, by simpa using same⟩
  exact fragment_ne_nil d (flatMap_eq_nil_iff.1 empty d own)

end Texts

/-! ## The cache -/

section Cache

variable {V : Type}

def Datastream.pair (d : Datastream V) : UInt32 × UInt32 := (d.feed, d.id)

/-- The entry that calls with one pair leave: what the first one brought, with the value of
the last one. -/
def EntryOf (own : List (Update V)) (d : Datastream V) : Prop :=
  ∃ first last, own.head? = some first ∧ own.getLast? = some last ∧ d = { first.toDatastream with value := last.value }

structure Cache.Exact (calls : List (Update V)) (c : Cache V) : Prop where
  entries : Follows (fun u => u.pair) Datastream.pair EntryOf calls c.ds
  feeds : c.feeds = (calls.map fun u => u.feed).eraseDups

structure Cache.Sound (calls : List (Update V)) (c : Cache V) : Prop extends Cache.Exact calls c where
  room : 0 < c.xmllen

variable {feeds : List UInt32}

variable {r : Rendering V} {heap : Heap} {calls : List (Update V)} {c : Cache V}

/-- A listed feed has an entry. -/
theorem Cache.Exact.listed (h : c.Exact calls) {feed : UInt32} (mem : feed ∈ c.feeds) : ∃ d ∈ c.ds, d.feed = feed := by
  rw [h.feeds, mem_eraseDups] at mem
  obtain ⟨u, called, rfl⟩ := mem_map.1 mem
  obtain ⟨d, here, same⟩ := h.entries.called_iff.2 ⟨u, called, rfl⟩
  exact ⟨d, here, congrArg Prod.fst same⟩

theorem EntryOf.again {own : List (Update V)} {d : Datastream V} (h : EntryOf own d) (u : Update V) :
    EntryOf (own ++ [u]) { d with value := u.value } := by
  obtain ⟨first, last, head, -, rfl⟩ := h
  refine ⟨first, u, ?_, by simp, rfl⟩
  rw [head?_append, head]
  rfl

theorem addFeed_spec (feed : UInt32) :
    Yields heap (addFeed heap feed feeds) fun new => new = if feed ∈ feeds then feeds else feeds ++ [feed] := by
  unfold addFeed
  split_ifs with known granted
  · exact .inl ⟨_, rfl, rfl⟩
  · exact .inl ⟨_, rfl, rfl⟩
  · exact .inr ⟨rfl, _, eq_false_iff.2 granted⟩

theorem memStrdup_refused {s : Option CText} (failed : memStrdup heap s = false) : heap.Refuses := by
  cases s with
  | none => cases failed
  | some s => exact ⟨_, failed⟩

/-- **One update** adds the call to what the cache stands for. -/
theorem Cache.Sound.update (h : c.Sound calls) (u : Update V) :
    Yields heap (updateDatastream heap u c) fun c => c.Sound (calls ++ [u]) := by
  have known : ∀ l : List UInt32, l = (calls.map fun u => u.feed).eraseDups →
      (if u.feed ∈ l then l else l ++ [u.feed]) = ((calls ++ [u]).map fun u => u.feed).eraseDups := by
    rintro l rfl
    rw [map_append, map_singleton]
    split_ifs with mem
    · exact (eraseDups_known (mem_eraseDups.1 mem)).symm
    · exact (eraseDups_fresh fun called => mem (mem_eraseDups.2 called)).symm
  unfold updateDatastream
  cases found : findDatastream c.ds u.feed u.id with
  | none =>
    have fresh : ∀ d ∈ c.ds, d.pair ≠ u.pair := by
      intro d mem same
      have other := findIdx?_eq_none_iff.1 found d mem
      obtain ⟨feed, id⟩ := Prod.mk.inj same
      simp [feed, id] at other
    split_ifs with granted
    · refine (addFeed_spec u.feed).bind fun feeds listed => .inl ⟨_, rfl, ⟨?_, ?_⟩, h.room⟩
      · exact h.entries.insert fresh rfl ⟨u, u, rfl, rfl, rfl⟩
      · exact listed.trans (known c.feeds h.feeds)
    · refine .inr ⟨rfl, ?_⟩
      simp only [and_eq_true, not_and_or, not_eq_true] at granted
      rcases granted with (((block | tag) | min) | max) | unit
      · exact ⟨_, block⟩
      · exact memStrdup_refused tag
      · exact memStrdup_refused min
      · exact memStrdup_refused max
      · exact memStrdup_refused unit
  | some idx =>
    obtain ⟨inside, hit, -⟩ := findIdx?_eq_some_iff_getElem.1 found
    have same : c.ds[idx].id = u.id ∧ c.ds[idx].feed = u.feed := by simpa using hit
    have pair : c.ds[idx].pair = u.pair := Prod.ext same.2 same.1
    have stored : (c.ds.modify idx fun d => { d with value := u.value }) =
        c.ds.set idx { c.ds[idx] with value := u.value } := by
      rw [modify_eq_set_getElem?, getElem?_eq_getElem inside]
      rfl
    have feed : u.feed ∈ calls.map fun u => u.feed := by
      obtain ⟨v, called, equal⟩ := h.entries.called_iff.1 ⟨_, getElem_mem inside, pair⟩
      exact mem_map.2 ⟨v, called, congrArg Prod.fst equal⟩
    refine .inl ⟨_, rfl, ⟨?_, ?_⟩, h.room⟩
    · rw [stored]
      exact h.entries.update inside pair pair fun before => before.again u
    · rw [h.feeds, map_append, map_singleton, eraseDups_known feed]

/-- What `xmlDatastream` returns for a listed feed, and what it keeps. -/
structure Rendered (r : Rendering V) (feed : UInt32) (c : Cache V) (result : Option Mem × Cache V) : Prop where
  whole : ∃ m, result.1 = some m ∧ CStr m 0 (feedText r feed c.ds)
  ds : result.2.ds = c.ds
  feeds : result.2.feeds = c.feeds
  room : 0 < result.2.xmllen

/-- **The text of a feed** is whole, whatever the buffer held. -/
theorem Cache.Sound.render (h : c.Sound calls) {feed : UInt32} (mem : feed ∈ c.feeds) :
    Yields heap (xmlDatastream r heap feed c) (Rendered r feed c) := by
  obtain ⟨d, here, same⟩ := h.listed mem
  have some_entry := ne_nil_of_mem here
  have allocated : Yields heap (c.buffer heap) fun _ => True := by
    unfold Cache.buffer Heap.memMalloc
    split
    next =>
      split_ifs with granted
      · exact .inl ⟨_, rfl, trivial⟩
      · exact .inr ⟨rfl, _, eq_false_iff.2 granted⟩
    next => exact .inl ⟨_, rfl, trivial⟩
  rw [xmlDatastream, if_neg some_entry]
  refine allocated.bind fun xml _ => ?_
  have empty : Writer.Written ⟨xml, c.xmllen, 0⟩ [] :=
    ⟨rfl, h.room, fun j inside => absurd inside (Nat.not_lt_zero j), fun printed => absurd rfl printed,
      fun _ mem => absurd mem not_mem_nil⟩
  refine (empty.loop c.ds).bind fun w written => .inl ⟨_, rfl, ⟨w.xml, rfl, ?_⟩, rfl, rfl, ?_⟩
  · rw [nil_append] at written
    refine ⟨fun j inside => ?_, ?_, written.clean⟩
    · rw [Nat.zero_add]
      exact written.bytes j inside
    · rw [Nat.zero_add]
      exact written.nul (feedText_ne_nil here same)
  · exact Nat.lt_of_le_of_lt (Nat.zero_le _) written.room

theorem Rendered.sound {feed : UInt32} {result : Option Mem × Cache V} (h : c.Sound calls)
    (rendered : Rendered r feed c result) : result.2.Sound calls :=
  ⟨⟨rendered.ds ▸ h.entries, rendered.feeds ▸ h.feeds⟩, rendered.room⟩

/-- **A post** sends the text of every feed, in the order of the list. -/
theorem Cache.Sound.post (h : c.Sound calls) (listed : ∀ feed ∈ feeds, feed ∈ c.feeds) :
    Yields heap (postFeeds r heap feeds c) fun (posts, c') =>
      posts.map Prod.fst = feeds ∧
        (∀ post ∈ posts, ∃ m, post.2 = some m ∧ CStr m 0 (feedText r post.1 c.ds)) ∧ c'.Sound calls := by
  induction feeds generalizing c with
  | nil => exact .inl ⟨_, rfl, rfl, fun _ mem => absurd mem not_mem_nil, h⟩
  | cons feed feeds ih =>
    refine (h.render (listed feed mem_cons_self)).bind fun ⟨xml, c'⟩ rendered => ?_
    have rest := ih (c := c') (rendered.sound h) fun f mem => rendered.feeds ▸ listed f (mem_cons_of_mem _ mem)
    refine rest.bind fun ⟨posts, c''⟩ ⟨names, texts, sound⟩ => .inl ⟨_, rfl, ?_, fun post mem => ?_, sound⟩
    · rw [map_cons, names]
    · rcases mem_cons.1 mem with rfl | mem
      · exact rendered.whole
      · have := texts post mem
        rwa [rendered.ds] at this

/-! ## Runs -/

def CacheEvent.update? : CacheEvent V → Option (Update V)
  | .update u => some u
  | .post => none

def updates (events : List (Heap × CacheEvent V)) : List (Update V) := events.filterMap fun e => e.2.update?

theorem Cache.Sound.step (h : c.Sound calls) (event : CacheEvent V) :
    Yields heap (c.step r heap event) fun c => c.Sound (calls ++ event.update?.toList) := by
  cases event with
  | update u => exact h.update u
  | post =>
    refine (h.post fun _ mem => mem).map fun ⟨posts, c'⟩ ⟨_, _, sound⟩ => ?_
    rwa [CacheEvent.update?, Option.toList_none, append_nil]

theorem Cache.Sound.run (h : c.Sound calls) (events : List (Heap × CacheEvent V)) :
    (∃ c', c.run r events = some c' ∧ c'.Sound (calls ++ updates events)) ∨
      (c.run r events = none ∧ ∃ e ∈ events, e.1.Refuses) := by
  induction events generalizing c calls with
  | nil => exact .inl ⟨c, rfl, by simpa [updates] using h⟩
  | cons e events ih =>
    obtain ⟨heap, event⟩ := e
    rw [Cache.run]
    have first : Yields heap (c.step r heap event) fun c => c.Sound (calls ++ event.update?.toList) := h.step event
    rcases first with ⟨c', stepped, sound⟩ | ⟨stopped, refused⟩
    · rw [stepped, Option.bind_some]
      rcases ih sound with ⟨c'', ran, sound⟩ | ⟨stopped, e, mem, refused⟩
      · refine .inl ⟨c'', ran, ?_⟩
        cases event <;> simpa [updates, CacheEvent.update?] using sound
      · exact .inr ⟨stopped, e, mem_cons_of_mem _ mem, refused⟩
    · rw [stopped]
      exact .inr ⟨rfl, _, mem_cons_self, refused⟩

end Cache

end Hah.Xively
