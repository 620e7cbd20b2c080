import Hah.Xap.Parse

/-!
# `xaplib2/filter.c`

Address patterns and filter chains. `AddrMatch` is the wildcard relation of xAP:
a literal byte matches itself without case, `*` one whole field, `>` the rest of
the address up to `:`. `xapFilterAddrSubaddress` walks two pointers instead, and
after a wildcard it steps over one byte of the pattern and one of the address
without comparing them. `SlipMatch` is the walk in which that matters.
-/

namespace Hah.Xap
open C

def dot : UInt8 := 46
def colon : UInt8 := 58
def star : UInt8 := 42
def gt : UInt8 := 62

/-! ## The code -/

/-- The `while` of `xapFilterAddrSubaddress` and the test behind it. The strings are
what is left at the two pointers. -/
def wildcardLoop : Bytes → Bytes → Bool
  | f :: filterAddr, c :: addr =>
    if f = gt then
      -- FilterAddr matches rest of addr up to : if present.
      let addr := (c :: addr).dropWhile (· ≠ colon)
      match filterAddr with
      | [] => wildcardLoop [] addr.tail
      | _ :: filterAddr => wildcardLoop filterAddr addr.tail
    else if f = star then
      -- skip a field in the addr
      let addr := (c :: addr).dropWhile fun c => ¬ (c = dot ∨ c = colon)
      match filterAddr with
      | [] => wildcardLoop [] addr.tail
      | _ :: filterAddr => wildcardLoop filterAddr addr.tail
    else if tolower f = tolower c then wildcardLoop filterAddr addr
    else false
  | filterAddr, addr => filterAddr.isEmpty && addr.isEmpty

/-- `xapFilterAddrSubaddress`; `none` is a `NULL` pattern. -/
def xapFilterAddrSubaddress (filterAddr : Option Bytes) (addr : Bytes) : Bool :=
  match filterAddr with
  | none | some [] => true
  | some filterAddr =>
    if star ∉ filterAddr ∧ gt ∉ filterAddr then strcasecmpEq filterAddr addr
    else wildcardLoop filterAddr addr

/-- `xAPFilter`, without its list link. -/
structure XapFilter where
  sectionName : Bytes
  key : Bytes
  value : Bytes
  deriving DecidableEq, Repr

def xapFilterAbsent : Bytes := "XAP_FILTER_ABSENT"

/-- The loop body of `xapCompareFilters`: the new `match`. -/
def compareFilter (frame : XapFrame) (f : XapFilter) : Bool :=
  let value := xapGetValueF frame f.sectionName (some f.key)
  if f.value = xapFilterAbsent then value.isNone
  else if f.value = xapFilterAny then value.isSome
  else
    match value with
    | none => false
    | some value =>
      if strcasecmpEq "xap-header" f.sectionName ∧
          (strcasecmpEq "target" f.key ∨ strcasecmpEq "source" f.key ∨
            strcasecmpEq "class" f.key) then
        -- for target the wildcard is in the inbound message, else in the filter itself
        if strcasecmpEq "target" f.key then xapFilterAddrSubaddress (some value) f.value
        else xapFilterAddrSubaddress (some f.value) value
      else strcasecmpEq value f.value

/-- `xapCompareFilters`, on the chain from its head. -/
def xapCompareFilters (frame : XapFrame) : List XapFilter → Bool
  | [] => true
  | f :: chain => if compareFilter frame f then xapCompareFilters frame chain else false

/-! ## The wildcard relation -/

def separator (c : UInt8) : Bool := c == dot || c == colon

def wild (f : UInt8) : Bool := f == star || f == gt

/-- The byte `c` ends what the wildcard `f` can match: both separators end a field,
only `:` ends the run of `>`. -/
def stops (f c : UInt8) : Bool := c == colon || (f == star && c == dot)

/-- The end of the string, or a byte that ends what `f` matches. -/
def atStop (f : UInt8) (s : Bytes) : Bool := s.head?.all (stops f)

/-- Every `*` is a whole field and every `>` the last field before `:` or the end;
`fresh` says that a field starts here. -/
def wholeFields : Bool → Bytes → Bool
  | _, [] => true
  | fresh, f :: p => (!wild f || (fresh && atStop f p)) && wholeFields (separator f) p

/-- `p` matches `a`. A run is maximal to its right by `ends`, and to its left because
a wildcard of `p` stands where a field starts. -/
inductive AddrMatch : Bytes → Bytes → Prop
  | nil : AddrMatch [] []
  | literal {f c : UInt8} {p a : Bytes} (plain : wild f = false)
      (same : tolower f = tolower c) (rest : AddrMatch p a) : AddrMatch (f :: p) (c :: a)
  | wildcard {f : UInt8} {p run a : Bytes} (isWild : wild f = true) (filled : run ≠ [])
      (inside : ∀ c ∈ run, stops f c = false) (ends : atStop f a = true)
      (rest : AddrMatch p a) : AddrMatch (f :: p) (run ++ a)

/-- `p` matches `a` except that some wildcard slips: its run is empty, or the run is
followed by other separators in `p` and in `a` (a `.` against a `:`, or a separator
against the end). Whatever follows the run is then left out on both sides. -/
inductive SlipMatch : Bytes → Bytes → Prop
  | literal {f c : UInt8} {p a : Bytes} (plain : wild f = false)
      (same : tolower f = tolower c) (rest : SlipMatch p a) : SlipMatch (f :: p) (c :: a)
  | wildcard {f : UInt8} {p run a : Bytes} (isWild : wild f = true) (filled : run ≠ [])
      (inside : ∀ c ∈ run, stops f c = false) (ends : atStop f a = true)
      (rest : SlipMatch p a) : SlipMatch (f :: p) (run ++ a)
  | slip {f : UInt8} {p run a : Bytes} (isWild : wild f = true) (filled : run ++ a ≠ [])
      (inside : ∀ c ∈ run, stops f c = false) (ends : atStop f a = true)
      (slipped : run = [] ∨ p.head? ≠ a.head?)
      (rest : AddrMatch p.tail a.tail) : SlipMatch (f :: p) (run ++ a)
  | again {f : UInt8} {p run a : Bytes} (isWild : wild f = true) (filled : run ++ a ≠ [])
      (inside : ∀ c ∈ run, stops f c = false) (ends : atStop f a = true)
      (slipped : run = [] ∨ p.head? ≠ a.head?)
      (rest : SlipMatch p.tail a.tail) : SlipMatch (f :: p) (run ++ a)

/-! ## What the wildcards stop at -/

variable {f s c : UInt8} {p run a : Bytes} {fresh : Bool}

theorem wild_of_stops (h : stops f s = true) : wild s = false := by
  simp only [stops, Bool.or_eq_true, beq_iff_eq, Bool.and_eq_true] at h
  rcases h with rfl | ⟨-, rfl⟩ <;> decide

/-- Two bytes that end the same wildcard are equal when they are equal without case. -/
theorem stops_inj (hs : stops f s = true) (hc : stops f c = true) (same : tolower s = tolower c) : s = c := by
  simp only [stops, Bool.or_eq_true, beq_iff_eq, Bool.and_eq_true] at hs hc
  rcases hs with rfl | ⟨-, rfl⟩ <;> rcases hc with rfl | ⟨-, rfl⟩ <;> revert same <;> decide

theorem stops_of_atStop (h : atStop f (s :: p) = true) : stops f s = true := by
  simpa [atStop] using h

theorem dropWhile_run (inside : ∀ c ∈ run, stops f c = false)
    (ends : atStop f a = true) : (run ++ a).dropWhile (fun c => !stops f c) = a := by
  rw [List.dropWhile_append_of_pos (by simpa using inside)]
  cases a with
  | nil => rfl
  | cons c a => simp [stops_of_atStop ends]

/-- What a wildcard matches is determined by the address. -/
theorem run_unique {run' a' : Bytes} (inside : ∀ c ∈ run, stops f c = false)
    (ends : atStop f a = true) (inside' : ∀ c ∈ run', stops f c = false)
    (ends' : atStop f a' = true) (same : run ++ a = run' ++ a') : run = run' ∧ a = a' := by
  have tails : a = a' := by
    rw [← dropWhile_run inside ends, same, dropWhile_run inside' ends']
  subst tails
  exact ⟨List.append_cancel_right same, rfl⟩

theorem exists_run (f : UInt8) (s : Bytes) : ∃ run a, s = run ++ a ∧
    (∀ c ∈ run, stops f c = false) ∧ atStop f a = true := by
  induction s with
  | nil => exact ⟨[], [], rfl, by simp, rfl⟩
  | cons c s ih =>
    cases stop : stops f c with
    | true => exact ⟨[], c :: s, rfl, by simp, by simp [atStop, stop]⟩
    | false =>
      obtain ⟨run, a, rfl, inside, ends⟩ := ih
      exact ⟨c :: run, a, rfl, by simpa [stop] using inside, ends⟩

theorem wholeFields_cons (ok : wholeFields fresh (f :: p) = true) :
    (wild f = true → atStop f p = true) ∧ wholeFields (separator f) p = true := by
  simp only [wholeFields, Bool.and_eq_true, Bool.or_eq_true, Bool.not_eq_true'] at ok
  refine ⟨fun isWild => ?_, ok.2⟩
  rcases ok.1 with plain | whole
  · simp [isWild] at plain
  · exact whole.2

/-- Leaving out the separator behind a wildcard leaves whole fields. -/
theorem wholeFields_tail (ok : wholeFields fresh p = true) : ∃ fresh', wholeFields fresh' p.tail = true := by
  cases p with
  | nil => exact ⟨true, rfl⟩
  | cons s p => exact ⟨separator s, (wholeFields_cons ok).2⟩

/-! ## The loop, one turn at a time -/

theorem loop_nil (a : Bytes) : wildcardLoop [] a = a.isEmpty := by
  simp [wildcardLoop]

theorem loop_stuck (f : UInt8) (p : Bytes) : wildcardLoop (f :: p) [] = false := by
  simp [wildcardLoop]

theorem loop_literal (plain : wild f = false) :
    wildcardLoop (f :: p) (c :: a) = true ↔ tolower f = tolower c ∧ wildcardLoop p a = true := by
  simp only [wild, Bool.or_eq_false_iff, beq_eq_false_iff_ne] at plain
  rw [wildcardLoop.eq_def]
  simp [plain]

/-- A wildcard passes over its run, and then over one byte on either side. -/
theorem loop_wild (isWild : wild f = true) (filled : run ++ a ≠ []) (inside : ∀ c ∈ run, stops f c = false)
    (ends : atStop f a = true) : wildcardLoop (f :: p) (run ++ a) = wildcardLoop p.tail a.tail := by
  have skipped := dropWhile_run inside ends
  obtain ⟨c, s, text⟩ := List.exists_cons_of_ne_nil filled
  rw [text] at skipped ⊢
  simp only [wild, Bool.or_eq_true, beq_iff_eq] at isWild
  rcases isWild with rfl | rfl
  · have same : (fun c => decide ¬ (c = dot ∨ c = colon)) = fun c => !stops star c := by
      funext c
      by_cases isDot : c = dot <;> by_cases isColon : c = colon <;> simp [stops, isDot, isColon]
    rw [wildcardLoop.eq_def]
    cases p <;> simp only [same, skipped, if_neg (show star ≠ gt by decide), if_true, List.tail_nil,
      List.tail_cons]
  · have same : (fun c => decide (c ≠ colon)) = fun c => !stops gt c := by
      funext c
      by_cases isColon : c = colon <;> simp [stops, isColon, show gt ≠ star by decide]
    rw [wildcardLoop.eq_def]
    cases p <;> simp only [same, skipped, if_true, List.tail_nil, List.tail_cons]

/-- A pattern without wildcards is compared byte by byte. -/
theorem loop_plain (plain : ∀ f ∈ p, wild f = false) (a : Bytes) : wildcardLoop p a = strcasecmpEq p a := by
  rw [Bool.eq_iff_iff, strcasecmpEq_iff]
  induction p generalizing a with
  | nil => cases a <;> simp [wildcardLoop]
  | cons f p ih =>
    cases a with
    | nil => simp [loop_stuck]
    | cons c a =>
      rw [loop_literal (plain f (by simp)), ih (fun g hg => plain g (by simp [hg]))]
      simp

theorem filterAddr_eq_loop (nonempty : p ≠ []) (a : Bytes) :
    xapFilterAddrSubaddress (some p) a = wildcardLoop p a := by
  obtain ⟨f, q, rfl⟩ := List.exists_cons_of_ne_nil nonempty
  simp only [xapFilterAddrSubaddress]
  split
  next clean =>
    refine (loop_plain (fun g hg => ?_) a).symm
    have notStar : g ≠ star := fun e => clean.1 (e ▸ hg)
    have notGt : g ≠ gt := fun e => clean.2 (e ▸ hg)
    simp [wild, notStar, notGt]
  next => rfl

/-! ## The loop accepts matches and slips, and nothing else -/

/-- After a match, what stands behind a wildcard is the same in pattern and address. -/
theorem AddrMatch.head_eq (h : AddrMatch p a)
    (whole : atStop f p = true) (ends : atStop f a = true) : p.head? = a.head? := by
  cases h with
  | nil => rfl
  | literal plain same rest =>
    simp [stops_inj (stops_of_atStop whole) (stops_of_atStop ends) same]
  | wildcard isWild filled inside ends' rest =>
    simp [wild_of_stops (stops_of_atStop whole)] at isWild

/-- Stepping over the separators that follow a wildcard keeps an accepted pair accepted. -/
theorem loop_tail (whole : atStop f p = true)
    (accepted : wildcardLoop p a = true) : wildcardLoop p.tail a.tail = true := by
  cases p with
  | nil =>
    rw [loop_nil, List.isEmpty_iff] at accepted
    rw [accepted]
    rfl
  | cons s p =>
    cases a with
    | nil => simp [loop_stuck] at accepted
    | cons c a => exact ((loop_literal (wild_of_stops (stops_of_atStop whole))).1 accepted).2

theorem append_ne_nil (filled : run ≠ []) (a : Bytes) : run ++ a ≠ [] :=
  List.append_ne_nil_of_left_ne_nil filled a

theorem AddrMatch.accepted (ok : wholeFields fresh p = true) (h : AddrMatch p a) : wildcardLoop p a = true := by
  induction h generalizing fresh with
  | nil => rfl
  | literal plain same rest ih =>
    exact (loop_literal plain).2 ⟨same, ih (wholeFields_cons ok).2⟩
  | wildcard isWild filled inside ends rest ih =>
    obtain ⟨whole, okRest⟩ := wholeFields_cons ok
    rw [loop_wild isWild (append_ne_nil filled _) inside ends]
    exact loop_tail (whole isWild) (ih okRest)

theorem SlipMatch.accepted (ok : wholeFields fresh p = true) (h : SlipMatch p a) : wildcardLoop p a = true := by
  induction h generalizing fresh with
  | literal plain same rest ih =>
    exact (loop_literal plain).2 ⟨same, ih (wholeFields_cons ok).2⟩
  | wildcard isWild filled inside ends rest ih =>
    obtain ⟨whole, okRest⟩ := wholeFields_cons ok
    rw [loop_wild isWild (append_ne_nil filled _) inside ends]
    exact loop_tail (whole isWild) (ih okRest)
  | slip isWild filled inside ends slipped rest =>
    obtain ⟨fresh', okTail⟩ := wholeFields_tail (wholeFields_cons ok).2
    rw [loop_wild isWild filled inside ends]
    exact rest.accepted okTail
  | again isWild filled inside ends slipped rest ih =>
    obtain ⟨fresh', okTail⟩ := wholeFields_tail (wholeFields_cons ok).2
    rw [loop_wild isWild filled inside ends]
    exact ih okTail

theorem AddrMatch.literal_inv {s : Bytes} (plain : wild f = false)
    (h : AddrMatch (f :: p) s) (text : s = c :: a) : AddrMatch p a := by
  cases h with
  | literal _ same rest => cases text; exact rest
  | wildcard isWild => simp [isWild] at plain

theorem AddrMatch.wildcard_inv {s : Bytes} (isWild : wild f = true) (inside : ∀ c ∈ run, stops f c = false)
    (ends : atStop f a = true) (h : AddrMatch (f :: p) s) (text : s = run ++ a) : run ≠ [] ∧ AddrMatch p a := by
  cases h with
  | literal plain => simp [isWild] at plain
  | wildcard _ filled' inside' ends' rest =>
    obtain ⟨rfl, rfl⟩ := run_unique inside' ends' inside ends text
    exact ⟨filled', rest⟩

/-- A match is not also a slip: the walk of a pattern along an address is unique. -/
theorem SlipMatch.not_addrMatch (ok : wholeFields fresh p = true) (h : SlipMatch p a) : ¬ AddrMatch p a := by
  induction h generalizing fresh with
  | literal plain same rest ih =>
    intro matched
    exact ih (wholeFields_cons ok).2 (matched.literal_inv plain rfl)
  | wildcard isWild filled inside ends rest ih =>
    intro matched
    exact ih (wholeFields_cons ok).2 (matched.wildcard_inv isWild inside ends rfl).2
  | slip isWild filled inside ends slipped rest | again isWild filled inside ends slipped rest =>
    intro matched
    obtain ⟨filled', rest'⟩ := matched.wildcard_inv isWild inside ends rfl
    rcases slipped with empty | differ
    · exact filled' empty
    · exact differ (rest'.head_eq ((wholeFields_cons ok).1 isWild) ends)

/-- Putting back the separator that follows a wildcard on both sides. -/
theorem of_same_head (whole : atStop f p = true) (sameHead : p.head? = a.head?)
    (rest : AddrMatch p.tail a.tail ∨ SlipMatch p.tail a.tail) : AddrMatch p a ∨ SlipMatch p a := by
  cases p with
  | nil =>
    obtain rfl : a = [] := by simpa [eq_comm] using sameHead
    exact rest
  | cons s p =>
    obtain ⟨a, rfl⟩ : ∃ a', a = s :: a' := by
      cases a with
      | nil => simp at sameHead
      | cons c a => exact ⟨a, by simpa [eq_comm] using sameHead⟩
    have plain := wild_of_stops (stops_of_atStop whole)
    exact rest.imp (.literal plain rfl) (.literal plain rfl)

/-- What the loop accepts is a match or a slip. The induction is on a bound of the
pattern, since a turn on a wildcard takes two bytes of it. -/
theorem match_or_slip (n : Nat) : ∀ {fresh : Bool} {p a : Bytes}, p.length ≤ n →
    wholeFields fresh p = true → wildcardLoop p a = true → AddrMatch p a ∨ SlipMatch p a := by
  induction n with
  | zero =>
    intro fresh p a short ok accepted
    obtain rfl : p = [] := by simpa using short
    obtain rfl : a = [] := by simpa [loop_nil] using accepted
    exact .inl .nil
  | succ n ih =>
    intro fresh p a short ok accepted
    cases p with
    | nil => exact ih (Nat.zero_le n) ok accepted
    | cons f p =>
    have shortRest : p.length ≤ n := by simpa using short
    cases a with
    | nil => simp [loop_stuck] at accepted
    | cons c a =>
    cases isWild : wild f with
    | false =>
      obtain ⟨same, rest⟩ := (loop_literal isWild).1 accepted
      exact (ih shortRest (wholeFields_cons ok).2 rest).imp (.literal isWild same) (.literal isWild same)
    | true =>
      obtain ⟨whole, okRest⟩ := wholeFields_cons ok
      obtain ⟨fresh', okTail⟩ := wholeFields_tail okRest
      obtain ⟨run, tail, text, inside, ends⟩ := exists_run f (c :: a)
      rw [text] at accepted ⊢
      have nonempty : run ++ tail ≠ [] := by simp [← text]
      rw [loop_wild isWild nonempty inside ends] at accepted
      have rest := ih (Nat.le_trans (by simp) shortRest) okTail accepted
      by_cases proper : run ≠ [] ∧ p.head? = tail.head?
      · exact (of_same_head (whole isWild) proper.2 rest).imp
          (.wildcard isWild proper.1 inside ends) (.wildcard isWild proper.1 inside ends)
      · have slipped : run = [] ∨ p.head? ≠ tail.head? := by
          rwa [not_and_or, not_not] at proper
        exact .inr (rest.elim (.slip isWild nonempty inside ends slipped)
          (.again isWild nonempty inside ends slipped))

/-- **No packet is missed**: an address that the pattern matches is accepted. -/
theorem filterAddr_complete {p a : Bytes} (ok : wholeFields true p = true)
    (matched : AddrMatch p a) : xapFilterAddrSubaddress (some p) a = true := by
  cases p with
  | nil => rfl
  | cons f p =>
    rw [filterAddr_eq_loop (by simp)]
    exact matched.accepted ok

/-- `a.*:>` matches `A.b:c.d`, and is accepted there. -/
theorem filterAddr_complete_fields : AddrMatch "a.*:>" "A.b:c.d" ∧
    xapFilterAddrSubaddress (some "a.*:>") "A.b:c.d" = true := by
  have matched : AddrMatch "a.*:>" "A.b:c.d" :=
    .literal (by decide) (by decide) <| .literal (by decide) (by decide) <|
      @AddrMatch.wildcard star _ "b" _ (by decide) (by decide) (bytes_of_all (by decide)) (by decide) <|
        .literal (by decide) (by decide) <|
          @AddrMatch.wildcard gt _ "c.d" [] (by decide) (by decide) (bytes_of_all (by decide))
            (by decide) .nil
  exact ⟨matched, filterAddr_complete (by decide) matched⟩

/-- What `xapFilterAddrSubaddress` accepts, for every pattern of whole-field wildcards. -/
theorem filterAddr_iff (nonempty : p ≠ []) (ok : wholeFields true p = true) :
    xapFilterAddrSubaddress (some p) a = true ↔ AddrMatch p a ∨ SlipMatch p a := by
  rw [filterAddr_eq_loop nonempty]
  constructor
  · exact match_or_slip p.length (Nat.le_refl _) ok
  · rintro (matched | slipped)
    · exact matched.accepted ok
    · exact slipped.accepted ok

/-- **An accepted address is a match exactly when no wildcard slips.** -/
theorem filterAddr_sound_iff {p a : Bytes} (nonempty : p ≠ []) (ok : wholeFields true p = true) :
    (xapFilterAddrSubaddress (some p) a = true → AddrMatch p a) ↔ ¬ SlipMatch p a := by
  rw [filterAddr_iff nonempty ok]
  constructor
  · intro sound slipped
    exact slipped.not_addrMatch ok (sound (.inr slipped))
  · rintro clean (matched | slipped)
    · exact matched
    · exact absurd slipped clean

/-- `a.*` against `A.b` has no slip, because it is a match. -/
theorem filterAddr_sound_field : ¬ SlipMatch "a.*" "A.b" := by
  refine (filterAddr_sound_iff (by decide) (by decide)).1 fun _ => ?_
  exact .literal (by decide) (by decide) <| .literal (by decide) (by decide) <|
    @AddrMatch.wildcard star _ "b" [] (by decide) (by decide) (bytes_of_all (by decide)) (by decide) .nil

/-- The `.` behind the field is not compared with the `:` of the address. -/
theorem filterAddr_separator_slip : wholeFields true "a.*.c" = true ∧
    xapFilterAddrSubaddress (some "a.*.c") "a.b:c" = true ∧
      ¬ AddrMatch "a.*.c" "a.b:c" := by
  have slipped : SlipMatch "a.*.c" "a.b:c" :=
    .literal (by decide) (by decide) <| .literal (by decide) (by decide) <|
      @SlipMatch.slip star _ "b" ":c" (by decide) (by decide) (bytes_of_all (by decide))
        (by decide) (by decide) (.literal (by decide) (by decide) .nil)
  have ok : wholeFields true "a.*.c" = true := by decide
  exact ⟨ok, by decide, slipped.not_addrMatch ok⟩

/-! ## Filter chains -/

theorem compareFilters_iff (frame : XapFrame) (chain : List XapFilter) :
    xapCompareFilters frame chain = true ↔ ∀ f ∈ chain, compareFilter frame f = true := by
  induction chain with
  | nil => simp [xapCompareFilters]
  | cons f chain ih =>
    by_cases holds : compareFilter frame f = true
    · simp [xapCompareFilters, holds, ih]
    · simp [xapCompareFilters, holds]

end Hah.Xap
