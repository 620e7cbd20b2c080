import Hah.Avr.Firmware
import Hah.Livebox.Serial

/-!
# Input lines: firmware and daemon together

The firmware prints the value it reads and behind it the one it reported last; the daemon
reads the first number as the old value and the second as the new one, and looks only at
the bits that differ. A bit that differs is set in one of the two values, so the daemon
switches an input on exactly when its pin is low.

`System` joins the two programs by the queue of lines that are under way. The invariant
says of every line that it starts from the value the line before it reported (`Chain`),
or from the inverse of its own value after a request.
-/

namespace Hah.Livebox
open C Bsc Avr

section Inputs

variable {D : Type}

/-! ## The searches for the inputs -/

variable {v last p q : UInt8}

theorem inputSubaddr_ne : ∀ i < 4, ∀ j < 4, i ≠ j → inputSubaddr i ≠ inputSubaddr j := by decide

theorem isInput_blind : StateBlind (D := D) isInput := fun _ e code => bscSetState_isNamed e code _ _

theorem isInput_apart : Apart (D := D) isInput 4 := by
  intro i hi j hj different e named
  apply isNamed_apart _ e named
  intro same
  exact inputSubaddr_ne i hi j hj different (Option.some.inj (Prod.mk.inj same).2)

/-! ## The two programs -/

inductive Request where
  | all
  | onewire
  | ppe
  | input
  deriving DecidableEq, Repr

def Request.text : Request → Bytes
  | .all => "report"
  | .onewire => "report 1wire"
  | .ppe => "report ppe"
  | .input => "report input"

/-- Firmware, daemon and the lines under way, oldest first, each with the value of `prev_value`
that it leaves behind. `shown` is that value of the line delivered last, and `processed` says
that the firmware has taken up a request for the inputs. -/
structure System (D : Type) where
  fw : Firmware
  pind : UInt8
  queue : List (Bytes × UInt8)
  daemon : Endpoints D
  shown : UInt8
  processed : Bool

/-- A daemon that has not heard of the inputs, beside a firmware in any state. -/
def System.start (fw : Firmware) (pind : UInt8) (endpoints : List (Endpoint D)) : System D :=
  { fw := fw, pind := pind, queue := [], daemon := ⟨endpoints, []⟩, shown := fw.prevValue, processed := false }

inductive SystemEvent where
  | pins (pind : UInt8)
  | request (what : Request)
  | poll (millis : Nat)
  | deliver
  deriving DecidableEq, Repr

def deliverLine (s : Endpoints D) (line : Bytes) : Endpoints D :=
  match serialCommand line with
  | some (.input, args) => serinInput s args
  | _ => s

def System.step (s : System D) : SystemEvent → System D
  | .pins pind => { s with pind := pind }
  | .request what => { s with fw := (doCommand s.fw what.text).1 }
  | .poll millis =>
    let polled := reportInputs s.fw s.pind millis
    { s with
      fw := polled.1
      queue := s.queue ++ polled.2.map fun line => (line, polled.1.prevValue)
      processed := s.processed || (s.fw.report.input && !polled.1.report.input) }
  | .deliver =>
    match s.queue with
    | [] => s
    | (line, value) :: rest => { s with queue := rest, shown := value, daemon := deliverLine s.daemon line }

def System.run (s : System D) (events : List SystemEvent) : System D := events.foldl System.step s

/-! ## The invariant -/

/-- The lines under way lead from the value shown to the value reported last. -/
inductive Chain : UInt8 → List (Bytes × UInt8) → UInt8 → Prop
  | nil (v : UInt8) : Chain v [] v
  | cons {v p q last : UInt8} {rest : List (Bytes × UInt8)} (from_ : q = v ∨ q = p ^^^ inputMask)
      (tail : Chain p rest last) : Chain v ((inputLine p q, p) :: rest) last

theorem Chain.snoc {queue : List (Bytes × UInt8)} (h : Chain v queue last)
    (from_ : q = last ∨ q = p ^^^ inputMask) : Chain v (queue ++ [(inputLine p q, p)]) p := by
  induction h with
  | nil v => exact .cons from_ (.nil p)
  | cons start _ ih => exact .cons start (ih from_)

theorem Chain.cons_inv {line : Bytes} {rest : List (Bytes × UInt8)} (h : Chain v ((line, p) :: rest) last) :
    ∃ q, line = inputLine p q ∧ (q = v ∨ q = p ^^^ inputMask) ∧ Chain p rest last := by
  cases h with
  | cons from_ tail => exact ⟨_, rfl, from_, tail⟩

def forcedLine (p : UInt8) : Bytes × UInt8 := (inputLine p (p ^^^ inputMask), p)

structure System.Inv (s : System D) : Prop where
  chain : Chain s.shown s.queue s.fw.prevValue
  present : ∀ i < 4, (s.daemon.find (isInput i)).isSome = true
  agree : ∀ i < 4, s.daemon.Reported (isInput i) → ∀ e, s.daemon.find (isInput i) = some e →
    (e.state = .on ↔ s.shown.toNat.testBit (i + 2) = false)
  answered : s.processed = true → (∀ i < 4, s.daemon.Reported (isInput i)) ∨ ∃ p, forcedLine p ∈ s.queue

/-- The firmware's line reaches `serin_input` with its two numbers. -/
theorem serialCommand_inputLine (p q : UInt8) :
    serialCommand (inputLine p q) = some (.input, [decimal p.toNat, decimal q.toNat]) := by
  have word : ∀ c ∈ ascii "input", separates c = false := bytes_of_all (by decide)
  have line : inputLine p q = "input" ++ [p.toNat, q.toNat].flatMap fun n => 32 :: decimal n := by
    rw [inputLine, show ascii "input " = ascii "input" ++ [32] by decide, show ascii " " = [32] by decide]
    simp
  have cut := tokenize_printed word (by decide) [p.toNat, q.toNat]
  simp only [serialCommand, line, cut]
  rfl

theorem deliverLine_inputLine (s : Endpoints D) (p q : UInt8) :
    deliverLine s (inputLine p q) = (List.range 4).foldl (setBit isInput 2 p.toNat q.toNat) s := by
  rw [deliverLine, serialCommand_inputLine]
  simp only [serinInput, List.getD_cons_zero, List.getD_cons_succ, byte_atoi]

theorem inverse_differs (p : UInt8) {i : Nat} (hi : i < 4) :
    (p ^^^ inputMask).toNat.testBit (i + 2) = !p.toNat.testBit (i + 2) := by
  have mask : ∀ i < 4, inputMask.toNat.testBit (i + 2) = true := by decide
  rw [UInt8.toNat_xor, Nat.testBit_xor, mask i hi, Bool.xor_true]

theorem inputLine_inj {q' : UInt8} (same : inputLine p q = inputLine p q') : q = q' := by
  have args : [decimal p.toNat, decimal q.toNat] = [decimal p.toNat, decimal q'.toNat] := by
    have calls := congrArg serialCommand same
    rw [serialCommand_inputLine, serialCommand_inputLine] at calls
    exact (Prod.mk.inj (Option.some.inj calls)).2
  have texts : decimal q.toNat = decimal q'.toNat := by simpa using args
  have numbers := congrArg atoi texts
  rw [byte_atoi, byte_atoi] at numbers
  exact UInt8.toNat_inj.1 (Int.ofNat.inj numbers)

/-- Delivering a line keeps the endpoints in step with the value it reports, and a forced line
reports every input. -/
theorem deliverLine_agree {s : Endpoints D} (from_ : q = v ∨ q = p ^^^ inputMask)
    (present : ∀ i < 4, (s.find (isInput i)).isSome = true)
    (agree : ∀ i < 4, s.Reported (isInput i) → ∀ e, s.find (isInput i) = some e →
      (e.state = .on ↔ v.toNat.testBit (i + 2) = false)) {i : Nat} (hi : i < 4) :
    ((deliverLine s (inputLine p q)).find (isInput i)).isSome = true ∧
    (s.Reported (isInput i) ∨ q = p ^^^ inputMask → (deliverLine s (inputLine p q)).Reported (isInput i)) ∧
    ((deliverLine s (inputLine p q)).Reported (isInput i) →
      ∀ e, (deliverLine s (inputLine p q)).find (isInput i) = some e →
      (e.state = .on ↔ p.toNat.testBit (i + 2) = false)) := by
  obtain ⟨state, reported⟩ := setBits_spec isInput_blind isInput_apart 2 p.toNat q.toNat s hi
  have bits : q = p ^^^ inputMask → p.toNat.testBit (i + 2) ≠ q.toNat.testBit (i + 2) := by
    rintro rfl
    rw [inverse_differs p hi]
    cases p.toNat.testBit (i + 2) <;> decide
  by_cases same : p.toNat.testBit (i + 2) = q.toNat.testBit (i + 2)
  · rw [if_pos (show (p.toNat : Int).testBit (i + 2) = (q.toNat : Int).testBit (i + 2) from same)] at state
    rw [deliverLine_inputLine, state, reported]
    refine ⟨present i hi, ?_, ?_⟩
    · rintro (earlier | forced)
      · exact .inl earlier
      · exact absurd same (bits forced)
    · rintro (earlier | ⟨differs, -⟩) e found
      · rcases from_ with rfl | forced
        · rw [same]
          exact agree i hi earlier e found
        · exact absurd same (bits forced)
      · exact absurd same differs
  · rw [if_neg (show ¬ (p.toNat : Int).testBit (i + 2) = (q.toNat : Int).testBit (i + 2) from same)] at state
    rw [deliverLine_inputLine, state, reported]
    refine ⟨by simpa using present i hi, fun _ => .inr ⟨same, present i hi⟩, ?_⟩
    rintro - e changed
    obtain ⟨old, -, rfl⟩ := Option.map_eq_some_iff.1 changed
    cases new : q.toNat.testBit (i + 2) with
    | true =>
      have low : p.toNat.testBit (i + 2) = false := by
        rw [new] at same
        simpa using same
      simp [bitCode, testBit_natCast, new, bscSetState, low]
    | false =>
      have high : p.toNat.testBit (i + 2) = true := by
        rw [new] at same
        simpa using same
      simp [bitCode, testBit_natCast, new, bscSetState, high]

theorem System.Inv.start (fw : Firmware) (pind : UInt8) {endpoints : List (Endpoint D)}
    (present : ∀ i < 4, (endpoints.find? (isInput i)).isSome = true) :
    (System.start fw pind endpoints).Inv where
  chain := .nil _
  present := present
  agree := by
    rintro i - ⟨e, mem, -⟩
    exact absurd mem List.not_mem_nil
  answered := by
    intro processed
    exact absurd processed (by simp [System.start])

variable {s : System D}

/-- The lines of a poll extend the chain, and a processed request is answered. -/
theorem System.Inv.poll (h : s.Inv) (millis : Nat) : (s.step (.poll millis)).Inv := by
  rcases reportInputs_spec s.fw s.pind millis with ⟨lasttime, quiet⟩ | acts
  · have unchanged : s.step (.poll millis) = { s with fw := { s.fw with lasttime := lasttime } } := by
      simp [System.step, quiet]
    rw [unchanged]
    exact ⟨h.chain, h.present, h.agree, h.answered⟩
  · obtain ⟨value, cleared, printed⟩ :=
      printInputs_spec { s.fw with lasttime := millis } (s.pind &&& inputMask)
    have next : s.step (.poll millis) = { s with
        fw := (printInputs { s.fw with lasttime := millis } (s.pind &&& inputMask)).1
        queue := s.queue ++ (printInputs { s.fw with lasttime := millis } (s.pind &&& inputMask)).2.map
          fun line => (line, s.pind &&& inputMask)
        processed := s.processed || s.fw.report.input } := by
      simp [System.step, acts, value, cleared]
    rw [next]
    rcases printed with ⟨unasked, same, quiet⟩ | ⟨unasked, line⟩ | ⟨asked, line⟩
    · rw [quiet]
      refine ⟨?_, h.present, h.agree, ?_⟩
      · rw [value, List.map_nil, List.append_nil, ← same]
        exact h.chain
      · intro processed
        rw [show s.fw.report.input = false from unasked, Bool.or_false] at processed
        rw [List.map_nil, List.append_nil]
        exact h.answered processed
    · rw [line]
      refine ⟨?_, h.present, h.agree, ?_⟩
      · rw [value]
        exact h.chain.snoc (.inl rfl)
      · intro processed
        rw [show s.fw.report.input = false from unasked, Bool.or_false] at processed
        rcases h.answered processed with all | ⟨p, waiting⟩
        · exact .inl all
        · exact .inr ⟨p, List.mem_append_left _ waiting⟩
    · rw [line]
      refine ⟨?_, h.present, h.agree, ?_⟩
      · rw [value]
        exact h.chain.snoc (.inr rfl)
      · intro _
        exact .inr ⟨s.pind &&& inputMask, List.mem_append_right _ (by simp [forcedLine])⟩

theorem System.Inv.deliver (h : s.Inv) : (s.step .deliver).Inv := by
  obtain ⟨chain, present, agree, answered⟩ := h
  cases lines : s.queue with
  | nil =>
    have idle : s.step .deliver = s := by simp [System.step, lines]
    rw [idle]
    exact ⟨chain, present, agree, answered⟩
  | cons first rest =>
    obtain ⟨text, p⟩ := first
    rw [lines] at chain answered
    obtain ⟨q, rfl, from_, tail⟩ := chain.cons_inv
    have next : s.step .deliver =
        { s with queue := rest, shown := p, daemon := deliverLine s.daemon (inputLine p q) } := by
      simp [System.step, lines]
    rw [next]
    have line {i : Nat} (hi : i < 4) := deliverLine_agree from_ present agree hi
    refine ⟨tail, fun i hi => (line hi).1, fun i hi => (line hi).2.2, fun processed => ?_⟩
    rcases answered processed with all | ⟨p', waiting⟩
    · exact .inl fun i hi => (line hi).2.1 (.inl (all i hi))
    · rcases List.mem_cons.1 waiting with now | later
      · -- the line delivered here is the forced one, so every input is reported
        obtain ⟨text, rfl⟩ := Prod.mk.inj now
        exact .inl fun i hi => (line hi).2.1 (.inr (inputLine_inj text).symm)
      · exact .inr ⟨p', later⟩

/-- One event keeps the invariant. -/
theorem System.Inv.step (h : s.Inv) (event : SystemEvent) : (s.step event).Inv := by
  cases event with
  | pins pind => exact ⟨h.chain, h.present, h.agree, h.answered⟩
  | request what =>
    obtain ⟨ppe, report, after⟩ := doCommand_frame s.fw what.text
    have next : s.step (.request what) = { s with fw := { s.fw with ppe := ppe, report := report } } := by
      simp [System.step, after]
    rw [next]
    exact ⟨h.chain, h.present, h.agree, h.answered⟩
  | poll millis => exact h.poll millis
  | deliver => exact h.deliver

theorem System.Inv.run (h : s.Inv) (events : List SystemEvent) : (s.run events).Inv := by
  induction events generalizing s with
  | nil => exact h
  | cons event events ih => exact ih (h.step event)

theorem Chain.last_of_nil (h : Chain v [] last) : v = last := by
  cases h
  rfl

/-- **Inputs agree between firmware and daemon.** In every run from a fresh daemon: an input that
has ever been reported is on exactly when its bit is clear in the value that the line delivered
last reported; when no line is under way this value is `prev_value`; and once the firmware has
processed a request, all four inputs are reported as soon as its answer is delivered. -/
theorem inputs_agree (fw : Firmware) (pind : UInt8) {endpoints : List (Endpoint D)}
    (present : ∀ i < 4, (endpoints.find? (isInput i)).isSome = true) (events : List SystemEvent) :
    let s := (System.start fw pind endpoints).run events
    (∀ i < 4, s.daemon.Reported (isInput i) → ∃ e, s.daemon.find (isInput i) = some e ∧
      (e.state = .on ↔ s.shown.toNat.testBit (i + 2) = false)) ∧
    (s.queue = [] → s.shown = s.fw.prevValue) ∧
    (s.processed = true → (∀ i < 4, s.daemon.Reported (isInput i)) ∨ ∃ p, forcedLine p ∈ s.queue) := by
  intro s
  have inv := (System.Inv.start fw pind present).run events
  refine ⟨?_, ?_, inv.answered⟩
  · intro i hi reported
    obtain ⟨e, found⟩ := Option.isSome_iff_exists.1 (inv.present i hi)
    exact ⟨e, found, inv.agree i hi reported e found⟩
  · intro empty
    have chain := inv.chain
    rw [empty] at chain
    exact chain.last_of_nil

end Inputs

def inputEndpoints : List (Endpoint Unit) :=
  (List.range 4).foldl (fun head i =>
    (bscAddEndpoint head (2 + i.toUInt8) "input" (some (inputSubaddr i)) .input .binary ()).1) []

/-- Two pins low at the request that the daemon sends when it starts: all inputs are reported, and
on exactly where the pin is low. -/
theorem inputs_agree_report :
    let s := (System.start .start 0x14 inputEndpoints).run [.request .all, .poll 100, .deliver]
    s.queue = [] ∧ s.shown = 0x14 ∧ (∀ i < 4, s.daemon.Reported (isInput i)) ∧
      ∀ i < 4, ∃ e, s.daemon.find (isInput i) = some e ∧
        (e.state = .on ↔ (0x14 : UInt8).toNat.testBit (i + 2) = false) := by
  intro s
  have present : ∀ i < 4, (inputEndpoints.find? (isInput i)).isSome = true := by decide
  obtain ⟨agree, -, answered⟩ := inputs_agree .start 0x14 present [.request .all, .poll 100, .deliver]
  have delivered : s.queue = [] := by decide +kernel
  have value : s.shown = 0x14 := by decide +kernel
  have all : ∀ i < 4, s.daemon.Reported (isInput i) := by
    rcases answered (by decide +kernel) with all | ⟨p, waiting⟩
    · exact all
    · exact absurd waiting (by rw [show _ = [] from delivered]; exact List.not_mem_nil)
  refine ⟨delivered, value, all, fun i hi => ?_⟩
  rw [← value]
  exact agree i hi (all i hi)

end Hah.Livebox
