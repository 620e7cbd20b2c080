import Hah.Lua.Frame

/-!
# What a Corona client receives: `TCPServer:receive` in `HAHCorona/hahlib/xap/init.lua`

The server writes every message to the stream between `<xap>` and `</xap>`. The client takes what
the socket has, 1500 bytes at most, and iterates over the frames in it with a Lua pattern; nothing
is kept for the next call. A frame that does not lie in one chunk matches in neither, and is lost.

On a part of the stream the pattern finds the frames that lie in it (`received_part`). So all frames
are received exactly if no chunk ends inside one (`received_all_iff`).
-/

namespace Hah.Lua.Corona
open C List

/-- The frames that the iterator of `TCPServer:receive` yields for what the socket returned. -/
def receive (msg : Bytes) : List Bytes :=
  if msg.length = 0 then [] else ((gmatch "<%a->(.-)</%a->" msg).getD []).map fun captures => captures.headD []

/-- A message as `xAPtoClient` writes it. -/
def written (text : Bytes) : Bytes := "<xap>" ++ (text ++ "</xap>")

def stream (texts : List Bytes) : Bytes := texts.flatMap written

/-- A text without angle brackets. -/
def Plain (text : Bytes) : Prop := 60 ∉ text ∧ 62 ∉ text

/-! ## The pattern -/

def frameItems : List Item :=
  [.single (.byte 60) .one, .single (.letter 97) .lazy, .single (.byte 62) .one, .openCapture, .single .any .lazy,
    .closeCapture, .single (.byte 60) .one, .single (.byte 47) .one, .single (.letter 97) .lazy, .single (.byte 62) .one]

variable {c s tail : Bytes} {texts : List Bytes}
  {p : List Item} {caps : List Capture} {text more : Bytes}

theorem receive_eq (msg : Bytes) :
    receive msg = (gmatchLoop frameItems 0 msg).map fun captures => captures.headD [] := by
  rw [receive, gmatch, show compile "<%a->(.-)</%a->" = some frameItems by decide +kernel]
  split
  next empty =>
    rw [length_eq_zero_iff.1 empty]
    decide
  next => rfl

theorem doMatch_other {cls : Class} {c : UInt8}
    (fails : cls.test c = false) : doMatch (.single cls .one :: p) (c :: s) caps = none :=
  if_neg fun passes => Bool.false_ne_true (fails.symm.trans passes)

/-- The name in a tag. -/
theorem match_name {r : Bytes × List Capture} (hit : doMatch p s caps = some r) :
    doMatch (.single (.letter 97) .lazy :: .single (.byte 62) .one :: p) ("xap" ++ 62 :: s) caps = some r := by
  have letters : ∀ c ∈ ascii "xap", (Class.letter 97).test c = true ∧ (Class.byte 62).test c = false :=
    bytes_of_all (by decide)
  refine minExpand_run (fun c mem => (letters c mem).1) (fun t part some_byte => ?_) ?_
  · obtain ⟨c, t, rfl⟩ := exists_cons_of_ne_nil some_byte
    exact doMatch_other (letters c (part.subset mem_cons_self)).2
  · exact (doMatch_one rfl).trans hit

/-- **A frame** is matched up to its end, and its text is the capture. -/
theorem match_frame (plain : Plain text) (s : Bytes) :
    ∃ c, doMatch frameItems (written text ++ s) [] = some (s, [c]) ∧ c.text = some text := by
  have shape : written text ++ s = 60 :: (ascii "xap" ++ 62 :: (text ++ (60 :: 47 :: (ascii "xap" ++ 62 :: s)))) := by
    simp [written, ascii]
  rw [shape]
  refine ⟨⟨text ++ (60 :: 47 :: (ascii "xap" ++ 62 :: s)), some text⟩, (doMatch_one rfl).trans (match_name ?_), rfl⟩
  refine minExpand_run (fun _ _ => rfl) (fun t part some_byte => ?_) ?_
  · -- the capture does not end before the bracket behind the text
    obtain ⟨c, t, rfl⟩ := exists_cons_of_ne_nil some_byte
    apply doMatch_other
    have other : 60 ≠ c := fun same => plain.1 (same ▸ part.subset mem_cons_self)
    exact beq_eq_false_iff_ne.2 other
  · rw [doMatch, closeCapture, if_pos rfl, length_append, Nat.add_sub_cancel, take_left]
    exact (doMatch_one rfl).trans ((doMatch_one rfl).trans (match_name rfl))

/-! ## The iterator -/

theorem found_frame (plain : Plain text) (s : Bytes) :
    gmatchLoop frameItems 0 (written text ++ s) = [text] :: gmatchLoop frameItems 0 s := by
  obtain ⟨c, found, capture⟩ := match_frame plain s
  have front : written text ++ s = 60 :: ((ascii "xap>" ++ (text ++ ascii "</xap>")) ++ s) := by
    simp [written, ascii]
  rw [front] at found ⊢
  rw [gmatchLoop, found]
  dsimp only
  rw [if_neg (cons_ne_nil c []), length_append, Nat.add_sub_cancel, gmatchLoop_skip]
  simp [captures, capture]

/-- A frame begins with a bracket. -/
theorem skip_byte {c : UInt8} (other : c ≠ 60) (s : Bytes) :
    gmatchLoop frameItems 0 (c :: s) = gmatchLoop frameItems 0 s := by
  have fails : doMatch frameItems (c :: s) [] = none := doMatch_other (beq_eq_false_iff_ne.2 other.symm)
  rw [gmatchLoop, fails]

theorem skip_run {run : Bytes} (away : 60 ∉ run) (s : Bytes) :
    gmatchLoop frameItems 0 (run ++ s) = gmatchLoop frameItems 0 s := by
  induction run with
  | nil => rfl
  | cons c run ih =>
    rw [mem_cons, not_or] at away
    rw [cons_append, skip_byte (Ne.symm away.1), ih away.2]

/-- A tag that closes does not open. -/
theorem skip_close (s : Bytes) : gmatchLoop frameItems 0 (60 :: 47 :: s) = gmatchLoop frameItems 0 s := by
  have fails : doMatch frameItems (60 :: 47 :: s) [] = none := by
    refine (doMatch_one rfl).trans ?_
    rw [doMatch, Class.expand, minExpand, doMatch_other rfl, Option.none_or, if_neg (by decide)]
  rw [gmatchLoop, fails]
  exact skip_byte (by decide) s

/-- There is no frame without its two closing brackets. -/
theorem found_none (few : s.count 62 < 2) : gmatchLoop frameItems 0 s = [] := by
  have asks : frameItems.count (.single (.byte 62) .one) = 2 := by decide
  induction s with
  | nil => decide
  | cons c s ih =>
    rw [gmatchLoop, doMatch_too_few (asks.symm ▸ few)]
    exact ih (Nat.lt_of_le_of_lt (count_le_count_cons) few)

theorem found_stream (plain : ∀ t ∈ texts, Plain t) (s : Bytes) :
    gmatchLoop frameItems 0 (stream texts ++ s) = texts.map (fun t => [t]) ++ gmatchLoop frameItems 0 s := by
  induction texts with
  | nil => rfl
  | cons t texts ih =>
    obtain ⟨first, later⟩ := forall_mem_cons.1 plain
    rw [stream, flatMap_cons, append_assoc, found_frame first]
    exact congrArg _ (ih later)

/-! ## Parts of a frame -/

/-- The end of a frame whose beginning was cut off. -/
def Tail (tail : Bytes) : Prop := ∃ t part, Plain t ∧ part ≠ [] ∧ part ++ tail = written t

/-- No tag opens in it. -/
theorem Tail.shape (h : Tail tail) : ∃ run, 60 ∉ run ∧ (tail = run ∨ tail = run ++ "</xap>") := by
  obtain ⟨t, part, plain, some_byte, whole⟩ := h
  obtain ⟨c, part, rfl⟩ := exists_cons_of_ne_nil some_byte
  have behind : part ++ tail = ("xap>" ++ t) ++ "</xap>" := by
    have inner := (List.cons.inj whole).2
    rw [append_assoc]
    exact inner
  have away : 60 ∉ ascii "xap>" ++ t := by
    rw [mem_append, not_or]
    exact ⟨by decide, plain.1⟩
  rcases append_eq_append_iff.1 behind with ⟨run, split, rfl⟩ | ⟨run, -, split⟩
  · rw [split] at away
    exact ⟨run, fun mem => away (mem_append_right part mem), .inr rfl⟩
  · cases run with
    | nil => exact ⟨[], not_mem_nil, .inr split.symm⟩
    | cons d run =>
      have inner : "/xap>" = run ++ tail := (List.cons.inj split).2
      have closed : 60 ∉ ascii "/xap>" := by decide
      rw [inner] at closed
      exact ⟨tail, fun mem => closed (mem_append_right run mem), .inl rfl⟩

theorem skip_tail (h : Tail tail) (s : Bytes) :
    gmatchLoop frameItems 0 (tail ++ s) = gmatchLoop frameItems 0 s := by
  obtain ⟨run, away, rfl | rfl⟩ := h.shape
  · exact skip_run away s
  · rw [append_assoc, skip_run away]
    exact (skip_close _).trans (skip_run (show 60 ∉ ascii "xap>" by decide) s)

/-- Nothing is found in a part of it either. -/
theorem found_inside {rest : Bytes} (h : Tail (c ++ rest)) : gmatchLoop frameItems 0 c = [] := by
  have nothing : ∀ {run : Bytes}, 60 ∉ run → gmatchLoop frameItems 0 run = [] := by
    intro run away
    have skipped := skip_run away []
    rw [append_nil] at skipped
    exact skipped.trans (by decide)
  obtain ⟨run, away, same | same⟩ := h.shape
  · rw [← same] at away
    exact nothing fun mem => away (mem_append_left rest mem)
  · rcases append_eq_append_iff.1 same with ⟨more, rfl, -⟩ | ⟨more, rfl, split⟩
    · exact nothing fun mem => away (mem_append_left more mem)
    · rw [skip_run away]
      apply found_none
      have one : (ascii "</xap>").count 62 = 1 := by decide
      rw [split, count_append] at one
      omega

/-- Nor in the beginning of a frame whose end was cut off. -/
theorem found_part {t part : Bytes} (plain : Plain t) (cut : tail ≠ []) (whole : part ++ tail = written t) :
    gmatchLoop frameItems 0 part = [] := by
  apply found_none
  have two : (written t).count 62 = 2 := by
    rw [written, count_append, count_append, count_eq_zero.2 plain.2]
    decide
  have last : 62 ∈ tail := by
    apply mem_of_getLast?
    rw [← getLast?_append_of_ne_nil part cut, whole, written, ← append_assoc,
      getLast?_append_of_ne_nil _ (by decide)]
    rfl
  have one := count_pos_iff.2 last
  rw [← whole, count_append] at two
  omega

/-! ## Cutting the stream -/

/-- Where a cut falls: between two frames, or into one. -/
theorem stream_cut (cut : c ++ more = stream texts) :
    (∃ done undone, texts = done ++ undone ∧ c = stream done ∧ more = stream undone) ∨
    ∃ done t undone part tail, texts = done ++ t :: undone ∧ c = stream done ++ part ∧ part ≠ [] ∧ tail ≠ [] ∧
      part ++ tail = written t ∧ more = tail ++ stream undone := by
  induction texts generalizing c with
  | nil =>
    obtain ⟨rfl, rfl⟩ := append_eq_nil_iff.1 cut
    exact .inl ⟨[], [], rfl, rfl, rfl⟩
  | cons t texts ih =>
    rcases append_eq_append_iff.1 cut with ⟨tail, whole, rfl⟩ | ⟨c, rfl, rest⟩
    · by_cases start : c = []
      · subst start
        exact .inl ⟨[], t :: texts, rfl, rfl, cut⟩
      by_cases finish : tail = []
      · subst finish
        rw [append_nil] at whole
        exact .inl ⟨[t], texts, rfl, whole.symm.trans (append_nil _).symm, rfl⟩
      · exact .inr ⟨[], t, texts, c, tail, rfl, rfl, start, finish, whole.symm, rfl⟩
    · rcases ih rest.symm with ⟨done, undone, rfl, rfl, rfl⟩ | ⟨done, u, undone, part, tail, rfl, rfl, cuts⟩
      · exact .inl ⟨t :: done, undone, rfl, rfl, rfl⟩
      · exact .inr ⟨t :: done, u, undone, part, tail, rfl, (append_assoc _ _ _).symm, cuts⟩

theorem receive_stream (plain : ∀ t ∈ texts, Plain t) : receive (stream texts) = texts := by
  have found := found_stream plain []
  rw [append_nil] at found
  rw [receive_eq, found, show gmatchLoop frameItems 0 [] = [] by decide, append_nil, map_map]
  exact map_id'' (fun _ => rfl) texts

theorem tail_nil : Tail [] := ⟨[], written [], ⟨not_mem_nil, not_mem_nil⟩, by decide, append_nil _⟩

/-- Where a chunk ends, if the stream goes on with the end of a frame and the frames of `texts`: still
in that end, between two frames, or inside one that is lost then. -/
inductive Part (tail : Bytes) (texts : List Bytes) (c more : Bytes) : Prop where
  | before (tail' : Bytes) (inside : tail = c ++ tail') (rest : Tail tail') (nothing : receive c = [])
      (next : more = tail' ++ stream texts)
  | between (done undone : List Bytes) (split : texts = done ++ undone) (received : receive c = done)
      (chunk : c = tail ++ stream done) (next : more = stream undone)
  | within (done : List Bytes) (t : Bytes) (undone : List Bytes) (tail' : Bytes)
      (split : texts = done ++ t :: undone) (received : receive c = done) (rest : Tail tail')
      (next : more = tail' ++ stream undone)

/-- **A chunk**: what is received are the frames that lie in it. -/
theorem received_part (behind : Tail tail) (plain : ∀ t ∈ texts, Plain t) (cut : c ++ more = tail ++ stream texts) :
    Part tail texts c more := by
  rcases append_eq_append_iff.1 cut with ⟨tail', rfl, rfl⟩ | ⟨c, rfl, frames⟩
  · refine .before tail' rfl ?_ (by rw [receive_eq, found_inside behind]; rfl) rfl
    obtain ⟨t, part, plain, some_byte, whole⟩ := behind
    exact ⟨t, part ++ c, plain, fun none => some_byte (append_eq_nil_iff.1 none).1, by rw [append_assoc, whole]⟩
  · have same : receive (tail ++ c) = receive c := by rw [receive_eq, receive_eq, skip_tail behind]
    rcases stream_cut frames.symm with ⟨done, undone, rfl, rfl, rfl⟩ | ⟨done, t, undone, part, tail', rfl, rfl, cuts⟩
    · have lying : ∀ t ∈ done, Plain t := fun t mem => plain t (mem_append_left undone mem)
      exact .between done undone rfl (same.trans (receive_stream lying)) rfl rfl
    · obtain ⟨start, finish, whole, rfl⟩ := cuts
      have lying : ∀ t ∈ done, Plain t := fun t mem => plain t (mem_append_left _ mem)
      have open_frame := plain t (mem_append_right done mem_cons_self)
      refine .within done t undone tail' rfl (same.trans ?_) ⟨t, part, open_frame, start, whole⟩ rfl
      rw [receive_eq, found_stream lying, found_part open_frame finish whole, append_nil, map_map]
      exact map_id'' (fun _ => rfl) done

def WholeFrames (chunk : Bytes) : Prop := ∃ texts, (∀ t ∈ texts, Plain t) ∧ chunk = stream texts

/-- Over all chunks no more frames are received than there are, and as many only if none is cut. -/
theorem received_length {chunks : List Bytes} : ∀ {tail : Bytes} {texts : List Bytes}, Tail tail →
    (∀ t ∈ texts, Plain t) → chunks.flatten = tail ++ stream texts →
    (chunks.flatMap receive).length ≤ texts.length ∧
      (tail = [] → (chunks.flatMap receive).length = texts.length → ∀ c ∈ chunks, WholeFrames c) := by
  induction chunks with
  | nil =>
    intro tail texts _ _ _
    exact ⟨Nat.zero_le _, fun _ _ c mem => absurd mem not_mem_nil⟩
  | cons c chunks ih =>
    intro tail texts behind plain cut
    rw [flatMap_cons, length_append, forall_mem_cons]
    cases received_part behind plain cut with
    | before tail' inside rest nothing next =>
      obtain ⟨atMost, all⟩ := ih rest plain next
      rw [nothing, length_nil, Nat.zero_add]
      refine ⟨atMost, fun start same => ?_⟩
      obtain ⟨rfl, rfl⟩ := append_eq_nil_iff.1 (inside.symm.trans start)
      exact ⟨⟨[], fun t mem => absurd mem not_mem_nil, rfl⟩, all rfl same⟩
    | between done undone split received chunk next =>
      rw [split, forall_mem_append] at plain
      obtain ⟨atMost, all⟩ := ih tail_nil plain.2 next
      rw [received, split, length_append]
      refine ⟨Nat.add_le_add_left atMost _, fun start same => ⟨⟨done, plain.1, ?_⟩, all rfl (Nat.add_left_cancel same)⟩⟩
      rw [chunk, start, nil_append]
    | within done t undone tail' split received rest next =>
      rw [split, forall_mem_append] at plain
      obtain ⟨atMost, -⟩ := ih rest (forall_mem_cons.1 plain.2).2 next
      rw [received, split, length_append, length_cons]
      exact ⟨by omega, fun _ same => by omega⟩

/-- **All packets are received exactly if none is cut.** For every sequence of messages and every
way to cut their stream into chunks, the frames of the iterators, one after the other, are the texts
of the messages if and only if every chunk consists of whole frames. -/
theorem received_all_iff {texts chunks : List Bytes} (plain : ∀ t ∈ texts, Plain t)
    (cut : chunks.flatten = stream texts) :
    chunks.flatMap receive = texts ↔ ∀ c ∈ chunks, WholeFrames c := by
  constructor
  · intro all
    exact (received_length tail_nil plain cut).2 rfl (congrArg List.length all)
  · intro whole
    -- what was received is plain, and its stream is the same
    have again : (∀ t ∈ chunks.flatMap receive, Plain t) ∧ stream (chunks.flatMap receive) = chunks.flatten := by
      clear cut
      induction chunks with
      | nil => exact ⟨fun t mem => absurd mem not_mem_nil, rfl⟩
      | cons c chunks ih =>
        obtain ⟨⟨done, lying, rfl⟩, later⟩ := forall_mem_cons.1 whole
        obtain ⟨plain', same⟩ := ih later
        rw [flatMap_cons, receive_stream lying, flatten_cons, ← same, forall_mem_append]
        exact ⟨⟨lying, plain'⟩, flatMap_append⟩
    have read := receive_stream again.1
    rw [again.2, cut, receive_stream plain] at read
    exact read.symm

/-- Two messages in two chunks. -/
theorem received_all_two :
    [written "a", written "b"].flatMap receive = [ascii "a", ascii "b"] := by
  have first : Plain "a" := ⟨by decide, by decide⟩
  have second : Plain "b" := ⟨by decide, by decide⟩
  refine (received_all_iff (forall_mem_cons.2 ⟨first, forall_mem_singleton.2 second⟩) ?_).2 ?_
  · rfl
  · refine forall_mem_cons.2 ⟨⟨["a"], forall_mem_singleton.2 first, rfl⟩, ?_⟩
    exact forall_mem_singleton.2 ⟨["b"], forall_mem_singleton.2 second, rfl⟩

/-- A message of one byte that comes in two chunks is not received. -/
theorem received_nothing :
    [ascii "<xap>a", ascii "</xap>"].flatten = stream ["a"] ∧ Plain "a" ∧
      [ascii "<xap>a", ascii "</xap>"].flatMap receive = [] := by
  refine ⟨by decide, ⟨by decide, by decide⟩, ?_⟩
  decide +kernel

end Hah.Lua.Corona
