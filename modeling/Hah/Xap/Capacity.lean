import Hah.Xap.RoundTrip

/-!
# The element table of `parseMsgF`

The capacity check stands in `inKeyvalue` only; an empty section is stored and
counted without it. `items` lists what a packet asks to be stored, in order: a key,
or the brace of an empty section. Item `j` goes to slot `j`, and the scanner stops
behind the first pair that reaches the limit. So the stores leave the table exactly
when a 151st item follows and the 150th is an empty section (`parse_within_iff`).
-/

namespace Hah.Xap
open C List

/-- What takes a slot of the table. -/
inductive Item where
  | key
  | empty
  deriving DecidableEq, Repr

/-- Where in a section a byte stands; `body fresh` before the first key. -/
inductive Phase where
  | outside
  | name
  | body (fresh : Bool)
  | key
  | value
  deriving DecidableEq, Repr

def Phase.step (p : Phase) (c : UInt8) : Phase :=
  match p with
  | .outside => if 32 < c ∧ c < 128 then .name else .outside
  | .name => if c = lbrace then .body true else .name
  | .body fresh => if c = rbrace then .outside else if 32 < c ∧ c < 128 then .key else .body fresh
  | .key => if c < 32 ∨ c = equals then .value else .key
  | .value => if c < 32 then .body false else .value

def Phase.item (p : Phase) (c : UInt8) : List Item :=
  match p with
  | .body fresh =>
    if c = rbrace then (if fresh then [.empty] else []) else if 32 < c ∧ c < 128 then [.key] else []
  | _ => []

def itemsFrom : Phase → Bytes → List Item
  | _, [] => []
  | p, c :: text => p.item c ++ itemsFrom (p.step c) text

def items (d : Bytes) : List Item := itemsFrom .outside d

/-- No item follows a table that an empty section filled. -/
def FitsTable (d : Bytes) : Prop :=
  ¬ (xapMsgElements < (items d).length ∧ (items d)[xapMsgElements - 1]? = some .empty)

instance (d : Bytes) : Decidable (FitsTable d) := inferInstanceAs (Decidable (¬ _))

variable {d : Bytes} {p : Phase} {buf : Nat} {read : List Item} {s : Scanner}
  {text : Bytes} {sections : List Section} {j room : Nat} {frame : XapFrame}

theorem itemsFrom_length (p : Phase) (d : Bytes) : (itemsFrom p d).length ≤ d.length := by
  induction d generalizing p with
  | nil => exact Nat.le_refl 0
  | cons c d ih =>
    have one : (p.item c).length ≤ 1 := by
      unfold Phase.item
      split
      · split_ifs <;> simp
      · exact Nat.zero_le 1
    have rest := ih (p.step c)
    rw [itemsFrom, length_append, length_cons]
    omega

/-- A packet shorter than the table fits it. -/
theorem FitsTable.of_short (short : d.length ≤ xapMsgElements) : FitsTable d := by
  rintro ⟨long, -⟩
  have few : (items d).length ≤ d.length := itemsFrom_length .outside d
  omega

/-! ## The items of a laid out message -/

theorem itemsFrom_stay (stay : ∀ c ∈ text, p.step c = p ∧ p.item c = [])
    (rest : Bytes) : itemsFrom p (text ++ rest) = itemsFrom p rest := by
  induction text with
  | nil => rfl
  | cons c text ih =>
    obtain ⟨same, nothing⟩ := stay c mem_cons_self
    rw [cons_append, itemsFrom, same, nothing, nil_append]
    exact ih fun x hx => stay x (mem_cons_of_mem c hx)

theorem itemsFrom_name {name : Bytes} (ok : NameOk name) (rest : Bytes) :
    itemsFrom .outside (name ++ ("\n\x7b\n" ++ rest)) = itemsFrom (.body true) rest := by
  obtain ⟨c, tail, rfl, low, high, plain⟩ := ok.first
  have leads : Phase.outside.step c = .name := if_pos ⟨low, high⟩
  have inside : ∀ x ∈ tail, Phase.name.step x = .name ∧ Phase.name.item x = [] :=
    fun x hx => ⟨if_neg (plain x hx), rfl⟩
  rw [cons_append, itemsFrom, leads, itemsFrom_stay inside]
  rfl

theorem itemsFrom_pair {key value : Bytes} (keyOk : KeyOk key) (valueOk : ValueOk value) (fresh : Bool)
    (rest : Bytes) :
    itemsFrom (.body fresh) (pairLayout (key, value) ++ rest) = .key :: itemsFrom (.body false) rest := by
  obtain ⟨c, tail, rfl, low, high, open_, plain⟩ := keyOk.first
  have leads : (Phase.body fresh).step c = .key := by
    rw [Phase.step, if_neg open_, if_pos ⟨low, high⟩]
  have begins : (Phase.body fresh).item c = [.key] := by
    rw [Phase.item, if_neg open_, if_pos ⟨low, high⟩]
  have inKey : ∀ x ∈ tail, Phase.key.step x = .key ∧ Phase.key.item x = [] := by
    intro x hx
    obtain ⟨visible, other⟩ := plain x hx
    exact ⟨if_neg (by rintro (control | same); exacts [UInt8.not_lt.2 visible control, other same]), rfl⟩
  have inValue : ∀ x ∈ value, Phase.value.step x = .value ∧ Phase.value.item x = [] :=
    fun x hx => ⟨if_neg (UInt8.not_lt.2 (valueOk x hx)), rfl⟩
  simp only [pairLayout, append_assoc, cons_append, itemsFrom, leads, begins, nil_append]
  rw [itemsFrom_stay inKey, itemsFrom, show Phase.key.step equals = .value from rfl, itemsFrom_stay inValue]
  rfl

/-- A section's pairs and its closing brace: one item each, or one for an empty section. -/
theorem itemsFrom_pairs {pairs : List (Bytes × Bytes)} (ok : ∀ p ∈ pairs, KeyOk p.1 ∧ ValueOk p.2)
    (fresh : Bool) (rest : Bytes) :
    (itemsFrom (.body fresh) (pairs.flatMap pairLayout ++ ("\x7d\n" ++ rest))).length =
      (if pairs = [] then (if fresh then 1 else 0) else pairs.length) + (itemsFrom .outside rest).length := by
  induction pairs generalizing fresh with
  | nil => cases fresh <;> simp [ascii, itemsFrom, Phase.item, Phase.step, rbrace, Nat.add_comm]
  | cons p pairs ih =>
    obtain ⟨key, value⟩ := ok p mem_cons_self
    rw [flatMap_cons, append_assoc, itemsFrom_pair key value, length_cons,
      ih (fun q hq => ok q (mem_cons_of_mem p hq)) false]
    cases pairs <;> simp <;> omega

/-- A laid out message asks for as many slots as it has elements. -/
theorem items_layout (ok : ∀ s ∈ sections, s.Ok) :
    (items (layout sections)).length = (sections.flatMap Section.elements).length := by
  induction sections with
  | nil => rfl
  | cons s sections ih =>
    have first := ok s mem_cons_self
    have rest := ih fun t ht => ok t (mem_cons_of_mem s ht)
    have size : s.elements.length = if s.pairs = [] then 1 else s.pairs.length := by
      unfold Section.elements
      split_ifs <;> simp
    unfold items layout at rest ⊢
    simp only [flatMap_cons, Section.layout, append_assoc, length_append, size]
    rw [itemsFrom_name first.name, itemsFrom_pairs first.pairs true, rest]
    rfl

theorem FitsTable.of_layout (ok : ∀ s ∈ sections, s.Ok)
    (room : (sections.flatMap Section.elements).length ≤ xapMsgElements) : FitsTable (layout sections) := by
  rintro ⟨long, -⟩
  rw [items_layout ok] at long
  omega

/-! ## Stores and items -/

theorem rtrim_above {m : Mem} {p : Nat} (h : p < j) : rtrim m p j = m j := by
  induction p generalizing m with
  | zero => rfl
  | succ p ih =>
    rw [rtrim]
    split_ifs
    · rw [ih (by omega), store_other (by omega)]
    · rfl

/-- A byte is read before anything at or behind it is written. -/
theorem parseChar_ahead (s : Scanner) (h : buf < j) : (parseChar s buf).frame.dataPacket j = s.frame.dataPacket j := by
  have terminated : rtrim (store s.frame.dataPacket buf 0) buf j = s.frame.dataPacket j := by
    rw [rtrim_above h, store_other (by omega)]
  unfold parseChar
  cases s.state <;> simp only <;> split_ifs <;> first | rfl | exact terminated

/-- The scanner's state in each phase. -/
def Phase.At (s : Scanner) : Phase → Prop
  | .outside => s.state = .startSectionName
  | .name => s.state = .inSectionName
  | .body fresh => s.state = .startKeyname ∧ (s.keycount = 0 ↔ fresh = true)
  | .key => s.state = .inKeyname
  | .value => s.state = .inKeyvalue

/-- A key has been stored that is not counted yet. -/
def Phase.pending : Phase → Nat
  | .key | .value => 1
  | _ => 0

/-- While the scanner runs, slot `j` is stored iff item `j` has been read, and no pair
has reached the limit. -/
structure Tally (read : List Item) (p : Phase) (s : Scanner) : Prop where
  phase : p.At s
  stores : ∀ j, j ∈ s.stores ↔ j < read.length
  count : s.frame.parsedMsgCount + p.pending = read.length
  last : p.pending = 1 → read[s.frame.parsedMsgCount]? = some .key
  early : ∀ k, k < s.frame.parsedMsgCount → read[k]? = some .key → k + 1 < xapMsgElements

/-- When the scanner has ended: what was stored, and what the packet's items then are. -/
structure Outcome (all : List Item) (s : Scanner) : Prop where
  read : ∃ read, read <+: all ∧ (∀ j, j ∈ s.stores ↔ j < read.length) ∧
    s.frame.parsedMsgCount ≤ read.length ∧
    (xapMsgElements < read.length → all[xapMsgElements - 1]? = some .empty) ∧
    (read.length ≤ xapMsgElements → all.length ≤ xapMsgElements ∨ all[xapMsgElements - 1]? = some .key)

/-- A pair in the last slot would have ended the scan, so an empty section filled it. -/
theorem Tally.last_slot (h : Tally read p s)
    (beyond : xapMsgElements < read.length) : read[xapMsgElements - 1]? = some .empty := by
  have counted := h.count
  have small : p.pending ≤ 1 := by cases p <;> simp [Phase.pending]
  have limit : xapMsgElements = 150 := rfl
  have inside : xapMsgElements - 1 < read.length := by omega
  cases item : read[xapMsgElements - 1] with
  | empty => rw [getElem?_eq_getElem inside, item]
  | key =>
    have := h.early (xapMsgElements - 1) (by omega) (by rw [getElem?_eq_getElem inside, item])
    omega

/-- The end of the packet. -/
theorem Tally.finish (h : Tally read p s) : Outcome read s := by
  have counted := h.count
  exact ⟨read, prefix_refl read, h.stores, by omega, h.last_slot, .inl⟩

/-- The stop behind a pair that reached the limit. -/
theorem Tally.stop {t : Scanner} (h : Tally read .value s) (more : List Item)
    (stores : t.stores = s.stores) (count : t.frame.parsedMsgCount = s.frame.parsedMsgCount + 1)
    (limit : xapMsgElements ≤ t.frame.parsedMsgCount) : Outcome (read ++ more) t := by
  have counted : s.frame.parsedMsgCount + 1 = read.length := h.count
  refine ⟨read, prefix_append read more, by rw [stores]; exact h.stores, by omega, fun beyond => ?_,
    fun within => .inr ?_⟩
  · rw [getElem?_append_left (by omega)]
    exact h.last_slot beyond
  · rw [getElem?_append_left (by omega), show xapMsgElements - 1 = s.frame.parsedMsgCount by omega]
    exact h.last rfl

/-- A byte between the pairs of a section: an empty section or a key takes the next slot. -/
theorem Tally.step_body {fresh : Bool} (h : Tally read (.body fresh) s) (buf : Nat) : let c := s.frame.dataPacket buf
    Tally (read ++ (Phase.body fresh).item c) ((Phase.body fresh).step c) (parseChar s buf) ∧
      (parseChar s buf).i = s.i := by
  obtain ⟨⟨state, empty⟩, stores, count, last, early⟩ := h
  simp only [Phase.pending, Nat.add_zero] at count
  have slot : ∀ j, j ∈ s.stores ++ [s.frame.parsedMsgCount] ↔ j < read.length + 1 := by
    intro j
    rw [mem_append, stores, mem_singleton, count]
    omega
  have kept : ∀ item, ∀ k, k < s.frame.parsedMsgCount → (read ++ [item])[k]? = some .key →
      k + 1 < xapMsgElements := by
    intro item k hk
    rw [getElem?_append_left (by omega)]
    exact early k hk
  simp only [parseChar, state, Phase.item, Phase.step]
  by_cases brace : s.frame.dataPacket buf = rbrace
  · simp only [if_pos brace]
    cases fresh with
    | true =>
      simp only [if_pos (empty.2 rfl), if_true]
      refine ⟨⟨rfl, by simpa [Scanner.storeElement, Scanner.countElement] using slot, ?_,
        by simp [Phase.pending], fun k hk item => ?_⟩, rfl⟩
      · simp [Scanner.storeElement, Scanner.countElement, Phase.pending, count]
      · have hk' : k < s.frame.parsedMsgCount + 1 := hk
        by_cases old : k < s.frame.parsedMsgCount
        · exact kept .empty k old item
        · rw [show k = read.length by omega, getElem?_append_right (le_refl _)] at item
          simp at item
    | false =>
      have used : ¬ s.keycount = 0 := fun zero => by simpa using empty.1 zero
      simp only [if_neg used, Bool.false_eq_true, if_false, append_nil]
      exact ⟨⟨rfl, stores, count, by simp [Phase.pending], early⟩, trivial⟩
  · simp only [if_neg brace]
    split_ifs
    · refine ⟨⟨rfl, by simpa [Scanner.storeElement] using slot, ?_, fun _ => ?_, kept .key⟩, rfl⟩
      · simp [Scanner.storeElement, Phase.pending, count]
      · show (read ++ [Item.key])[s.frame.parsedMsgCount]? = some .key
        rw [count, getElem?_append_right (le_refl _)]
        simp
    · rw [append_nil]
      exact ⟨⟨⟨state, empty⟩, stores, count, by simp [Phase.pending], early⟩, rfl⟩

/-- A byte of a value: at its end the pair is counted, and the scan may stop. -/
theorem Tally.step_value (h : Tally read .value s) (buf : Nat) : let t := parseChar s buf
    (Tally read (Phase.value.step (s.frame.dataPacket buf)) t ∧ t.i = s.i) ∨
      (t.stores = s.stores ∧ t.frame.parsedMsgCount = s.frame.parsedMsgCount + 1 ∧
        xapMsgElements ≤ t.frame.parsedMsgCount ∧ t.i = t.frame.len) := by
  obtain ⟨phase, stores, count, last, early⟩ := h
  have state : s.state = .inKeyvalue := phase
  have counted : s.frame.parsedMsgCount + 1 = read.length := count
  simp only [parseChar, state, Phase.step]
  split_ifs with ends full
  · exact .inr ⟨rfl, rfl, full, rfl⟩
  · have below : s.frame.parsedMsgCount + 1 < xapMsgElements := Nat.lt_of_not_le full
    refine .inl ⟨⟨⟨rfl, by simp⟩, stores, counted, by simp [Phase.pending], fun k hk _ => ?_⟩, rfl⟩
    have hk' : k < s.frame.parsedMsgCount + 1 := hk
    omega
  · exact .inl ⟨⟨state, stores, count, fun _ => last rfl, early⟩, rfl⟩

/-- One byte: the tally goes on, or a pair has reached the limit. -/
theorem Tally.step (h : Tally read p s) (buf : Nat) : let c := s.frame.dataPacket buf
    let t := parseChar s buf
    (Tally (read ++ p.item c) (p.step c) t ∧ t.i = s.i) ∨
      (p = .value ∧ t.stores = s.stores ∧ t.frame.parsedMsgCount = s.frame.parsedMsgCount + 1 ∧
        xapMsgElements ≤ t.frame.parsedMsgCount ∧ t.i = t.frame.len) := by
  intro c t
  cases p with
  | outside =>
    left
    obtain ⟨phase, stores, count, last, early⟩ := h
    have state : s.state = .startSectionName := phase
    simp only [t, c, parseChar, state, Phase.item, Phase.step, append_nil]
    split_ifs
    · exact ⟨⟨rfl, stores, count, by simp [Phase.pending], early⟩, rfl⟩
    · exact ⟨⟨state, stores, count, by simp [Phase.pending], early⟩, rfl⟩
  | name =>
    left
    obtain ⟨phase, stores, count, last, early⟩ := h
    have state : s.state = .inSectionName := phase
    simp only [t, c, parseChar, state, Phase.item, Phase.step, append_nil]
    split_ifs
    · exact ⟨⟨⟨rfl, by simp⟩, stores, count, by simp [Phase.pending], early⟩, rfl⟩
    · exact ⟨⟨state, stores, count, by simp [Phase.pending], early⟩, rfl⟩
  | body fresh => exact .inl (h.step_body buf)
  | key =>
    left
    obtain ⟨phase, stores, count, last, early⟩ := h
    have state : s.state = .inKeyname := phase
    have counted : s.frame.parsedMsgCount + 1 = read.length := count
    simp only [t, c, parseChar, state, Phase.item, Phase.step, append_nil]
    split_ifs
    · refine ⟨⟨rfl, fun j => ?_, count, fun _ => last rfl, early⟩, rfl⟩
      show j ∈ s.stores ++ [s.frame.parsedMsgCount] ↔ _
      rw [mem_append, stores, mem_singleton]
      omega
    · exact ⟨⟨state, stores, count, fun _ => last rfl, early⟩, rfl⟩
  | value =>
    rw [show read ++ Phase.value.item c = read from append_nil read]
    rcases h.step_value buf with goesOn | stops
    · exact .inl goesOn
    · exact .inr ⟨rfl, stops⟩

/-- The loop counter is not part of the tally. -/
theorem Tally.advance (h : Tally read p s) (i : Nat) : Tally read p { s with i := i } := by
  obtain ⟨phase, stores, count, last, early⟩ := h
  exact ⟨by cases p <;> exact phase, stores, count, last, early⟩

theorem parseChar_len (s : Scanner) (buf : Nat) : (parseChar s buf).frame.len = s.frame.len := by
  unfold parseChar
  cases s.state <;> simp only <;> split_ifs <;> rfl

theorem parseLoop_ended (h : s.frame.len ≤ s.i) : parseLoop room buf s = s := by
  cases room with
  | zero => rfl
  | succ room => simp [parseLoop, Nat.not_lt.2 h]

/-- The loop, from any byte of the packet. -/
theorem Tally.loop (h : Tally read p s) (bytes : ∀ j (hj : j < text.length), s.frame.dataPacket (buf + j) = text[j])
    (rest : s.i + text.length = s.frame.len) (fits : text.length ≤ room) :
    Outcome (read ++ itemsFrom p text) (parseLoop room buf s) := by
  induction text generalizing read p s room buf with
  | nil =>
    rw [itemsFrom, append_nil, parseLoop_ended (by simp at rest; omega)]
    exact h.finish
  | cons c text ih =>
    simp only [length_cons] at rest fits
    obtain ⟨room, rfl⟩ : ∃ r, room = r + 1 := ⟨room - 1, by omega⟩
    have first : s.frame.dataPacket buf = c := bytes 0 (by simp)
    have len := parseChar_len s buf
    rw [parseLoop, if_pos (by omega)]
    have step := h.step buf
    simp only [first] at step
    rcases step with ⟨tally, index⟩ | ⟨rfl, stores, count, limit, index⟩
    · have next := tally.advance ((parseChar s buf).i + 1)
      have later : ∀ j (hj : j < text.length), (parseChar s buf).frame.dataPacket (buf + 1 + j) = text[j] := by
        intro j hj
        rw [parseChar_ahead s (by omega), Nat.add_assoc, Nat.add_comm 1 j]
        exact bytes (j + 1) (by simpa using hj)
      have done := ih next later (by simp only [index, len]; omega) (Nat.le_of_succ_le_succ fits)
      rw [append_assoc] at done
      exact done
    · rw [parseLoop_ended (by simp [index])]
      exact h.stop _ stores count limit

/-- What `parseMsgF` stores, against the items of its packet. -/
theorem parse_outcome (frame : XapFrame) (fits : d.length ≤ xapDataLen) :
    Outcome (items d) (parseScan (frame.load d)) := by
  have start : Tally [] .outside (parseStart (frame.load d)) :=
    ⟨rfl, by simp [parseStart], rfl, by simp [Phase.pending], by simp [parseStart]⟩
  have bytes : ∀ j (hj : j < d.length), (parseStart (frame.load d)).frame.dataPacket (0 + j) = d[j] := by
    intro j hj
    rw [Nat.zero_add]
    exact load_bytes frame d j hj
  exact start.loop bytes (Nat.zero_add _) fits

/-! ## The bound of the table -/

/-- The pointers of an element that are not `NULL`. -/
def ParsedMsgElement.pointers (e : ParsedMsgElement) : List Nat :=
  e.sectionPtr.toList ++ e.keyPtr.toList ++ e.valuePtr.toList

/-- The scan of a packet stays inside its table, and its strings inside the packet. -/
structure WithinTable (frame : XapFrame) (d : Bytes) : Prop where
  stores : ∀ j ∈ parseStores (frame.load d), j < xapMsgElements
  count : (parseMsgF (frame.load d)).parsedMsgCount ≤ xapMsgElements
  strings : ∀ i, i < (parseMsgF (frame.load d)).parsedMsgCount →
    ∀ p ∈ ((parseMsgF (frame.load d)).parsedMsg i).pointers,
      p < d.length ∧ ∃ e, p ≤ e ∧ e ≤ d.length ∧ (parseMsgF (frame.load d)).dataPacket e = 0

/-- The strings lie inside the packet whatever it holds. -/
theorem parse_strings_inside (frame : XapFrame) (fits : d.length ≤ xapDataLen) (i : Nat)
    (hi : i < (parseMsgF (frame.load d)).parsedMsgCount) :
    ∀ p ∈ ((parseMsgF (frame.load d)).parsedMsg i).pointers,
      p < d.length ∧ ∃ e, p ≤ e ∧ e ≤ d.length ∧ (parseMsgF (frame.load d)).dataPacket e = 0 := by
  have recorded := parse_recorded frame fits
  rw [recorded.count] at hi
  have strings := recorded.strings _ (getElem_mem hi)
  have inside : ∀ f : Field, Settled (parseMsgF (frame.load d)).dataPacket d.length f →
      f.start < d.length ∧ ∃ e, f.start ≤ e ∧ e ≤ d.length ∧ (parseMsgF (frame.load d)).dataPacket e = 0 := by
    intro f h
    have := h.below
    exact ⟨by omega, f.start + f.text.length, by omega, by omega, h.str.nul⟩
  intro p hp
  rw [recorded.slots i hi] at hp
  simp only [ParsedMsgElement.pointers, elementPtrs, Option.toList_some, mem_append, mem_singleton,
    Option.mem_toList, Option.map_eq_some_iff] at hp
  rcases hp with (rfl | ⟨q, hq, rfl⟩) | ⟨q, hq, rfl⟩
  · exact inside _ strings.name
  · exact inside _ (strings.pair q hq).1
  · exact inside _ (strings.pair q hq).2

/-- A scan inside the table leaves no item behind an empty section in the last slot. -/
theorem FitsTable.of_stores
    (inside : ∀ j ∈ parseStores (frame.load d), j < xapMsgElements) (short : d.length ≤ xapDataLen) : FitsTable d := by
  obtain ⟨read, -, stores, -, -, within⟩ := (parse_outcome frame short).read
  rintro ⟨long, filled⟩
  have small : read.length ≤ xapMsgElements := by
    by_contra more
    exact Nat.lt_irrefl _ (inside xapMsgElements ((stores _).2 (by omega)))
  rcases within small with few | key
  · omega
  · rw [filled] at key
    simp at key

theorem WithinTable.fits (h : WithinTable frame d) (short : d.length ≤ xapDataLen) : FitsTable d :=
  .of_stores h.stores short

/-- A packet that fits is scanned inside the table. -/
theorem FitsTable.within (fit : FitsTable d) (frame : XapFrame)
    (short : d.length ≤ xapDataLen) : WithinTable frame d := by
  obtain ⟨read, initial, stores, count, beyond, -⟩ := (parse_outcome frame short).read
  have small : read.length ≤ xapMsgElements := by
    by_contra more
    exact fit ⟨Nat.lt_of_lt_of_le (by omega) initial.length_le, beyond (by omega)⟩
  exact ⟨fun j hj => Nat.lt_of_lt_of_le ((stores j).1 hj) small, Nat.le_trans count small,
    parse_strings_inside frame short⟩

/-- **The element table**: the scan of a received packet stays inside it iff no item
follows an empty section in the last slot. -/
theorem parse_within_iff (frame : XapFrame) (d : Bytes) (short : d.length ≤ 1499) :
    WithinTable frame d ↔ FitsTable d := by
  have fits : d.length ≤ xapDataLen := Nat.le_trans short (by decide)
  constructor
  · intro h
    exact h.fits fits
  · intro fit
    exact fit.within frame fits

theorem parse_within_iff_sample :
    WithinTable XapFrame.blank "a\x7b\nk=v\n\x7db\x7b\x7d" :=
  (parse_within_iff XapFrame.blank _ (by decide)).2 (by decide)

/-- 151 empty sections: the last one is stored behind the table. -/
def manySections : Bytes := (List.replicate 151 (ascii "a\x7b\x7d")).flatten

theorem manySections_overflow : manySections.length ≤ 1499 ∧ ¬ WithinTable XapFrame.blank manySections := by
  have short : manySections.length ≤ 1499 := by decide +kernel
  have beyond : ¬ FitsTable manySections := by decide +kernel
  exact ⟨short, fun h => beyond (h.fits (Nat.le_trans short (by decide)))⟩

end Hah.Xap
