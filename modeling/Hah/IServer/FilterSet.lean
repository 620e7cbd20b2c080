import Mathlib.Data.List.Induction
import Mathlib.Data.List.Nodup
import Hah.IServer.Messages

/-!
# The filters that a client asked for

A client adds and deletes source and class filters. What it wants after a sequence of
commands needs no list to say: a filter is `Wanted` when it was added and not deleted since.
The server keeps the filters of all clients in one list.

Seen through `registered`, the list of one client follows a machine on pairs (`commanded`,
`finish_registered`). The machine departs from what is wanted in one case: `uniqueFilter`
looks for a source filter whatever filter is added, so a class filter is added twice, or not
at all, unless the client wants the source filter of the same value exactly when it wants
the class filter already (`Balanced`, `exact_run_iff`).
-/

namespace Hah.IServer
open C Xap List

inductive FilterKind where
  | sourceFilter
  | classFilter
  deriving DecidableEq, Repr

def FilterKind.filterType : FilterKind → Bytes
  | .sourceFilter => "source"
  | .classFilter => "class"

def FilterKind.add : FilterKind → MessageKind
  | .sourceFilter => .addSource
  | .classFilter => .addClass

def FilterKind.del : FilterKind → MessageKind
  | .sourceFilter => .delSource
  | .classFilter => .delClass

/-- The client added the filter and has not deleted it since. -/
def Wanted (ms : List ClientMessage) (kind : FilterKind) (value : Bytes) : Prop :=
  ∃ before after, ms = before ++ ⟨kind.add, value⟩ :: after ∧ ⟨kind.del, value⟩ ∉ after

/-- The kind and value of a source or class filter of the client. -/
def pairOf (id : ClientId) (f : FilterCallback) : Option (FilterKind × Bytes) :=
  if f.userData = id then
    if f.filter.key = "source" then some (.sourceFilter, f.filter.value)
    else if f.filter.key = "class" then some (.classFilter, f.filter.value)
    else none
  else none

/-- The source and class filters of the client, in the order of `filterList`. -/
def registered (id : ClientId) (filterList : List FilterCallback) : List (FilterKind × Bytes) :=
  filterList.filterMap (pairOf id)

/-- The filters are the wanted ones, each of them once. -/
structure Exact (ms : List ClientMessage) (pairs : List (FilterKind × Bytes)) : Prop where
  once : pairs.Nodup
  wanted : ∀ kind value, (kind, value) ∈ pairs ↔ Wanted ms kind value

variable {ms : List ClientMessage} {pairs : List (FilterKind × Bytes)} {id allocated : ClientId}
  {filterList changed : List FilterCallback} (env : Env)

/-- Nothing is wanted before the first message. -/
theorem wanted_nil (kind : FilterKind) (value : Bytes) : ¬ Wanted [] kind value := by
  rintro ⟨before, after, split, -⟩
  simp at split

/-- What is wanted behind one more message. -/
theorem wanted_snoc (ms : List ClientMessage) (m : ClientMessage) (kind : FilterKind) (value : Bytes) :
    Wanted (ms ++ [m]) kind value ↔ m = ⟨kind.add, value⟩ ∨ (m ≠ ⟨kind.del, value⟩ ∧ Wanted ms kind value) := by
  constructor
  · rintro ⟨before, after, split, kept⟩
    rcases eq_nil_or_concat after with rfl | ⟨after, last, rfl⟩
    · left
      exact append_singleton_inj.1 split |>.2
    · right
      rw [concat_eq_append, ← cons_append, ← append_assoc] at split
      obtain ⟨earlier, rfl⟩ := append_singleton_inj.1 split
      simp only [concat_eq_append, mem_append, mem_singleton, not_or] at kept
      exact ⟨Ne.symm kept.2, before, after, earlier, kept.1⟩
  · rintro (rfl | ⟨other, before, after, rfl, kept⟩)
    · exact ⟨ms, [], rfl, by simp⟩
    · refine ⟨before, after ++ [m], by simp, ?_⟩
      simp only [mem_append, mem_singleton, not_or]
      exact ⟨kept, Ne.symm other⟩

/-- `Wanted`, command by command. -/
def wants (ms : List ClientMessage) (kind : FilterKind) (value : Bytes) : Bool :=
  ms.foldl (fun wanted m => m = ⟨kind.add, value⟩ || (m ≠ ⟨kind.del, value⟩ && wanted)) false

/-- The fold decides `Wanted`. -/
theorem wants_iff (ms : List ClientMessage) (kind : FilterKind) (value : Bytes) :
    wants ms kind value = true ↔ Wanted ms kind value := by
  induction ms using List.reverseRecOn with
  | nil => exact iff_of_false Bool.false_ne_true (wanted_nil kind value)
  | append_singleton ms m ih =>
    rw [wanted_snoc, ← ih, wants, foldl_append]
    simp [wants]

instance (ms : List ClientMessage) (kind : FilterKind) (value : Bytes) :
    Decidable (Wanted ms kind value) :=
  decidable_of_iff _ (wants_iff ms kind value)

/-! ## The machine on pairs -/

/-- What a message does to the pairs of its client. -/
def commanded (pairs : List (FilterKind × Bytes)) (m : ClientMessage) : List (FilterKind × Bytes) :=
  match m.kind with
  | .addSource => if (.sourceFilter, m.text) ∈ pairs then pairs else (.sourceFilter, m.text) :: pairs
  | .addClass => if (.sourceFilter, m.text) ∈ pairs then pairs else (.classFilter, m.text) :: pairs
  | .delSource => pairs.filter (· ≠ (.sourceFilter, m.text))
  | .delClass => pairs.filter (· ≠ (.classFilter, m.text))
  | .xap | .login => pairs

/-- A class filter is added when the source filter of its value is wanted exactly if it is
wanted itself already. -/
def Balanced (ms : List ClientMessage) (m : ClientMessage) : Prop :=
  m.kind = .addClass → (Wanted ms .sourceFilter m.text ↔ Wanted ms .classFilter m.text)

instance (ms : List ClientMessage) (m : ClientMessage) : Decidable (Balanced ms m) :=
  inferInstanceAs (Decidable (_ → _))

/-- A client starts without filters. -/
theorem exact_nil : Exact [] [] :=
  ⟨nodup_nil, fun kind value => iff_of_false not_mem_nil (wanted_nil kind value)⟩

section

variable (h : Exact ms pairs)
include h

/-- Adding a filter that is not there. -/
theorem Exact.cons {kind : FilterKind} {value : Bytes} (new : (kind, value) ∉ pairs) :
    Exact (ms ++ [⟨kind.add, value⟩]) ((kind, value) :: pairs) := by
  refine ⟨nodup_cons.2 ⟨new, h.once⟩, fun kind' value' => ?_⟩
  rw [mem_cons, wanted_snoc, h.wanted kind' value']
  cases kind <;> cases kind' <;> simp [FilterKind.add, FilterKind.del, eq_comm]

/-- Adding a filter that is there. -/
theorem Exact.again {kind : FilterKind} {value : Bytes} (known : (kind, value) ∈ pairs) :
    Exact (ms ++ [⟨kind.add, value⟩]) pairs := by
  refine ⟨h.once, fun kind' value' => ?_⟩
  rw [wanted_snoc, ← h.wanted kind' value']
  cases kind <;> cases kind' <;> simp [FilterKind.add, FilterKind.del]
  all_goals
    rintro rfl
    exact known

/-- Deleting a filter, there or not. -/
theorem Exact.delete (kind : FilterKind) (value : Bytes) :
    Exact (ms ++ [⟨kind.del, value⟩]) (pairs.filter (· ≠ (kind, value))) := by
  refine ⟨h.once.filter _, fun kind' value' => ?_⟩
  have foreign : (⟨kind.del, value⟩ : ClientMessage) ≠ ⟨kind'.add, value'⟩ := by
    cases kind <;> cases kind' <;> simp [FilterKind.add, FilterKind.del]
  have same : (⟨kind.del, value⟩ : ClientMessage) = ⟨kind'.del, value'⟩ ↔ (kind', value') = (kind, value) := by
    cases kind <;> cases kind' <;> simp [FilterKind.del, eq_comm]
  rw [wanted_snoc, ← h.wanted kind' value', mem_filter, or_iff_right foreign, decide_eq_true_iff, and_comm,
    ne_eq, ne_eq, same]

/-- The other messages are about no filter. -/
theorem Exact.other
    {m : ClientMessage} (other : m.kind = .xap ∨ m.kind = .login) : Exact (ms ++ [m]) pairs := by
  refine ⟨h.once, fun kind value => ?_⟩
  have foreign : m ≠ ⟨kind.add, value⟩ ∧ m ≠ ⟨kind.del, value⟩ := by
    constructor <;> rintro rfl <;> cases kind <;> simp [FilterKind.add, FilterKind.del] at other
  rw [wanted_snoc, ← h.wanted kind value]
  simp [foreign]

/-- **One command** keeps the pairs exact if and only if it is balanced. -/
theorem Exact.step
    (m : ClientMessage) : Exact (ms ++ [m]) (commanded pairs m) ↔ Balanced ms m := by
  obtain ⟨kind, text⟩ := m
  cases kind with
  | addClass =>
    simp only [Balanced, true_implies, ← h.wanted, commanded]
    by_cases blocked : (FilterKind.sourceFilter, text) ∈ pairs
    · rw [if_pos blocked]
      constructor
      · intro next
        refine ⟨fun _ => ?_, fun _ => blocked⟩
        exact (next.wanted .classFilter text).2 ((wanted_snoc ms _ _ _).2 (.inl rfl))
      · intro balanced
        exact h.again (balanced.1 blocked)
    · rw [if_neg blocked]
      constructor
      · intro next
        exact iff_of_false blocked (nodup_cons.1 next.once).1
      · intro balanced
        exact h.cons fun known => blocked (balanced.2 known)
  | addSource =>
    refine iff_of_true ?_ (by simp [Balanced])
    simp only [commanded]
    split_ifs with known
    · exact h.again known
    · exact h.cons known
  | delSource => exact iff_of_true (h.delete .sourceFilter text) (by simp [Balanced])
  | delClass => exact iff_of_true (h.delete .classFilter text) (by simp [Balanced])
  | xap => exact iff_of_true (h.other (.inl rfl)) (by simp [Balanced])
  | login => exact iff_of_true (h.other (.inr rfl)) (by simp [Balanced])

end

/-- **A sequence of commands**: the pairs are exact after each of them if and only if each of
them is balanced. -/
theorem exact_run_iff (ms : List ClientMessage) :
    (∀ before m after, ms = before ++ m :: after → Exact (before ++ [m]) ((before ++ [m]).foldl commanded [])) ↔
      ∀ before m after, ms = before ++ m :: after → Balanced before m := by
  -- both sides hold for `ms ++ [m]` when they hold for `ms` and at its last command
  have last : ∀ ms : List ClientMessage,
      (∀ before m after, ms = before ++ m :: after → Balanced before m) → Exact ms (ms.foldl commanded []) := by
    intro ms
    induction ms using List.reverseRecOn with
    | nil => exact fun _ => exact_nil
    | append_singleton ms m ih =>
      intro balanced
      have earlier := ih fun before m' after split => balanced before m' (after ++ [m]) (by simp [split])
      rw [foldl_append]
      exact (earlier.step m).2 (balanced ms m [] rfl)
  constructor
  · intro exact_all before m after split
    have earlier : Exact before (before.foldl commanded []) := by
      rcases eq_nil_or_concat before with rfl | ⟨front, m', rfl⟩
      · exact exact_nil
      · rw [concat_eq_append]
        exact exact_all front m' (m :: after) (by simp [split])
    have next := exact_all before m after split
    rw [foldl_append] at next
    exact (earlier.step m).1 next
  · intro balanced before m after split
    refine last (before ++ [m]) fun front m' rest split' => balanced front m' (rest ++ after) ?_
    rw [split, append_cons, split', append_assoc, cons_append]

/-! ## The filter list -/

/-- What a message can do to the filter list: nothing, add a filter of its client, or drop
filters of its client. -/
inductive FilterChange (id : ClientId) (filterList : List FilterCallback) : List FilterCallback → Prop
  | same : FilterChange id filterList filterList
  | added (key value : Bytes) :
    FilterChange id filterList (⟨id, ⟨"xap-header", key, value⟩⟩ :: filterList)
  | dropped (filterType ident : Bytes) :
    FilterChange id filterList (filterList.filter fun f => !deletes id filterType ident f)

/-- The filter goes to the front, unless `uniqueFilter` finds its value. -/
theorem endAddFilter_filters (id : ClientId) (filterType : Bytes) (s : Session) :
    (endAddFilter env id filterType s).filterList =
      if uniqueFilter s id s.client.ident then
        ⟨id, ⟨"xap-header", filterType, s.client.ident⟩⟩ :: s.filterList
      else s.filterList := by
  unfold endAddFilter
  cases uniqueFilter s id s.client.ident <;> dsimp only <;> split_ifs <;> rfl

/-- The first xAP message may add the filter on the own address. -/
theorem firstClientMessage_filters (id : ClientId) (s : Session) :
    (firstClientMessage id s).filterList = s.filterList ∨
      ∃ source, (firstClientMessage id s).filterList =
        ⟨id, ⟨"xap-header", "target", source⟩⟩ :: s.filterList := by
  rcases firstClientMessage_cases id s with ⟨-, same | ⟨source, added⟩⟩ | ⟨-, -, overrun⟩
  · exact .inl (congrArg Session.filterList same)
  · exact .inr ⟨source, congrArg Session.filterList added⟩
  · rw [overrun]
    exact .inl rfl

/-- A login leaves the filters alone. -/
theorem endLogin_filters (s : Session) : (endLogin env s).filterList = s.filterList := by
  unfold endLogin
  split_ifs <;> rfl

/-- The end of a message. -/
theorem finish_change (id : ClientId) (kind : MessageKind) (s : Session) :
    FilterChange id s.filterList (kind.finish env id s).filterList := by
  have add : ∀ filterType, FilterChange id s.filterList (endAddFilter env id filterType s).filterList := by
    intro filterType
    rw [endAddFilter_filters]
    split_ifs
    · exact .added filterType s.client.ident
    · exact .same
  cases kind with
  | xap =>
    rcases firstClientMessage_filters id (broadcastPacket s s.client.ident) with same | ⟨source, added⟩
    · exact same ▸ .same
    · exact added ▸ .added "target" source
  | login => exact endLogin_filters env s ▸ .same
  | addSource => exact add "source"
  | addClass => exact add "class"
  | delSource => exact .dropped "source" s.client.ident
  | delClass => exact .dropped "class" s.client.ident

/-- **Every token** makes one of these changes. -/
theorem parseToken_change (id : ClientId) (s : Session) (t : Token) :
    FilterChange id s.filterList (parseToken env id s t).filterList := by
  rcases parseToken_cases env id s t with ⟨state, ident, same⟩ | ⟨kind, done⟩
  · exact congrArg Session.filterList same ▸ .same
  · exact congrArg Session.filterList done ▸ finish_change env id kind s

def filtersOf (id : ClientId) (filterList : List FilterCallback) : List FilterCallback :=
  filterList.filter (·.userData = id)

/-- The filters of the other clients stay as they are. -/
theorem FilterChange.others {other : ClientId} (h : FilterChange id filterList changed) (foreign : other ≠ id) :
    filtersOf other changed = filtersOf other filterList := by
  cases h with
  | same => rfl
  | added key value => exact filter_cons_of_neg (by simpa using foreign.symm)
  | dropped filterType ident =>
    rw [filtersOf, filter_filter]
    apply filter_congr
    intro f mem
    by_cases own : f.userData = other
    · simp [deletes, own, foreign]
    · simp [own]

/-- The pairs of a client depend on its own filters only. -/
theorem registered_filtersOf (id : ClientId) (filterList : List FilterCallback) :
    registered id (filtersOf id filterList) = registered id filterList := by
  rw [registered, filtersOf, filterMap_filter]
  apply filterMap_congr
  intro f mem
  by_cases own : f.userData = id <;> simp [pairOf, own]

/-- The same filters have the same pairs. -/
theorem registered_congr
    (same : filtersOf id changed = filtersOf id filterList) : registered id changed = registered id filterList := by
  rw [← registered_filtersOf, same, registered_filtersOf]

/-- Every filter is on the header and belongs to a client that has been allocated. -/
def WellFormed (allocated : ClientId) (filterList : List FilterCallback) : Prop :=
  ∀ f ∈ filterList, f.filter.sectionName = "xap-header" ∧ f.userData < allocated

/-- A change keeps the list well formed. -/
theorem FilterChange.wellFormed (h : FilterChange id filterList changed) (formed : WellFormed allocated filterList)
    (known : id < allocated) : WellFormed allocated changed := by
  cases h with
  | same => exact formed
  | added key value =>
    intro f mem
    rcases mem_cons.1 mem with rfl | mem
    · exact ⟨rfl, known⟩
    · exact formed f mem
  | dropped filterType ident => exact fun f mem => formed f (mem_of_mem_filter mem)

/-- A new client has no pairs. -/
theorem registered_fresh
    (formed : WellFormed allocated filterList) (fresh : allocated ≤ id) : registered id filterList = [] := by
  rw [registered, filterMap_eq_nil_iff]
  intro f mem
  have other := Nat.ne_of_lt (Nat.lt_of_lt_of_le (formed f mem).2 fresh)
  exact if_neg other

/-- The filter behind a source pair. -/
theorem mem_registered_source (id : ClientId) (value : Bytes) (filterList : List FilterCallback) :
    (.sourceFilter, value) ∈ registered id filterList ↔
      ∃ f ∈ filterList, f.userData = id ∧ f.filter.key = "source" ∧ f.filter.value = value := by
  rw [registered, mem_filterMap]
  refine exists_congr fun f => and_congr_right fun _ => ?_
  unfold pairOf
  split_ifs <;> simp_all

/-- `uniqueFilter` looks among the source filters only. -/
theorem uniqueFilter_iff (s : Session) (id : ClientId) (value : Bytes) :
    uniqueFilter s id value = true ↔ (.sourceFilter, value) ∉ registered id s.filterList := by
  rw [mem_registered_source]
  simp [uniqueFilter]

theorem class_ne_source : ascii "class" ≠ "source" := by decide

/-- A new filter is a new pair. -/
theorem registered_added (id : ClientId) (kind : FilterKind) (value : Bytes) (filterList : List FilterCallback) :
    registered id (⟨id, ⟨"xap-header", kind.filterType, value⟩⟩ :: filterList) =
      (kind, value) :: registered id filterList := by
  have own : pairOf id ⟨id, ⟨"xap-header", kind.filterType, value⟩⟩ = some (kind, value) := by
    cases kind
    · exact (if_pos rfl).trans (if_pos rfl)
    · exact (if_pos rfl).trans ((if_neg class_ne_source).trans (if_pos rfl))
  exact filterMap_cons_some own

/-- The filter on the own address is no pair. -/
theorem registered_target (id : ClientId) (value : Bytes) (filterList : List FilterCallback) :
    registered id (⟨id, ⟨"xap-header", "target", value⟩⟩ :: filterList) =
      registered id filterList := by
  have no_source : ascii "target" ≠ "source" := by decide
  have no_class : ascii "target" ≠ "class" := by decide
  exact filterMap_cons_none ((if_pos rfl).trans ((if_neg no_source).trans (if_neg no_class)))

theorem deletes_iff (id : ClientId) {f : FilterCallback} (header : f.filter.sectionName = "xap-header")
    (kind : FilterKind) (value : Bytes) :
    deletes id kind.filterType value f = true ↔ pairOf id f = some (kind, value) := by
  unfold pairOf deletes
  cases kind <;> split_ifs <;> simp_all [FilterKind.filterType, class_ne_source.symm]

/-- A delete command takes its pair out. -/
theorem registered_dropped (formed : WellFormed allocated filterList) (kind : FilterKind) (value : Bytes) :
    registered id (filterList.filter fun f => !deletes id kind.filterType value f) =
      (registered id filterList).filter (· ≠ (kind, value)) := by
  rw [registered, registered, filterMap_filter, filter_filterMap]
  apply filterMap_congr
  intro f mem
  have named := deletes_iff id (formed f mem).1 kind value
  cases own : pairOf id f with
  | none => simp
  | some pair =>
    rw [own, Option.some.injEq] at named
    by_cases gone : pair = (kind, value)
    · simp [named.2 gone, gone, Option.filter]
    · have kept := Bool.eq_false_iff.2 fun named' => gone (named.1 named')
      simp [kept, gone, Option.filter]

/-- **One message** moves the pairs of its client as `commanded` says. -/
theorem finish_registered (id : ClientId) (kind : MessageKind) {s : Session}
    (formed : WellFormed allocated s.filterList) :
    registered id (kind.finish env id s).filterList =
      commanded (registered id s.filterList) ⟨kind, s.client.ident⟩ := by
  have add : ∀ filter : FilterKind,
      registered id (endAddFilter env id filter.filterType s).filterList =
        if (.sourceFilter, s.client.ident) ∈ registered id s.filterList then registered id s.filterList
        else (filter, s.client.ident) :: registered id s.filterList := by
    intro filter
    rw [endAddFilter_filters]
    by_cases known : (.sourceFilter, s.client.ident) ∈ registered id s.filterList
    · rw [if_pos known, if_neg ((uniqueFilter_iff s id s.client.ident).not.2 (not_not.2 known))]
    · rw [if_neg known, if_pos ((uniqueFilter_iff s id s.client.ident).2 known), registered_added]
  cases kind with
  | xap =>
    rcases firstClientMessage_filters id (broadcastPacket s s.client.ident) with same | ⟨source, added⟩
    · exact congrArg (registered id) same
    · exact (congrArg (registered id) added).trans (registered_target id source s.filterList)
  | login => exact congrArg (registered id) (endLogin_filters env s)
  | addSource => exact add .sourceFilter
  | addClass => exact add .classFilter
  | delSource => exact registered_dropped formed .sourceFilter s.client.ident
  | delClass => exact registered_dropped formed .classFilter s.client.ident

end Hah.IServer
