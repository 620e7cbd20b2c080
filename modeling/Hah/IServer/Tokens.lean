import Hah.C.Numbers
import Hah.Lib.Lexer

/-!
# `iServer/tokenize.l`

The tokens of the iServer protocol and the rules of its lexer, in the order of the file.
The generated lexer takes the longest match, and the first rule among the longest ones.
-/

namespace Hah.IServer
open C

/-- The token codes of `tokenize.h`, with `yylval`. -/
inductive Token where
  | msgSequence (i : Int)
  | addSourceFilter
  | startCmd
  | startXap
  | endCmd
  | endXap
  | ident (s : UInt8)
  | login
  | addClassFilter
  | delSourceFilter
  | delClassFilter
  | addSourceFilterE
  | addClassFilterE
  | delSourceFilterE
  | delClassFilterE
  deriving DecidableEq, Repr

/-- `"[["[0-9]+"]]"`. -/
def isSequence (w : Bytes) : Bool :=
  let digits := (w.drop 2).take (w.length - 4)
  w == "[[" ++ digits ++ "]]" && !digits.isEmpty && digits.all isdigit

def literal (text : String) (t : Token) (w : Bytes) : Option Token :=
  if w = ascii text then some t else none

/-- A rule for a text in any letter case, such as `"<"[xX][aA][pP]">"`. -/
def anyCase (text : String) (t : Token) (w : Bytes) : Option Token :=
  if strcasecmpEq w (ascii text) then some t else none

/-- `.|\n`: any unmatched character. -/
def anyChar (w : Bytes) : Option Token :=
  match w with
  | [c] => some (.ident c)
  | _ => none

def rules : List (Bytes → Option Token) :=
  [fun w => if isSequence w then some (.msgSequence (atoi (w.drop 2))) else none,
    literal "<flt+>" .addSourceFilter,
    literal "</flt+>" .addSourceFilterE,
    literal "<flt->" .delSourceFilter,
    literal "</flt->" .delSourceFilterE,
    literal "<cflt+>" .addClassFilter,
    literal "</cflt+>" .addClassFilterE,
    literal "<cflt->" .delClassFilter,
    literal "</cflt->" .delClassFilterE,
    literal "<cmd>" .startCmd,
    literal "</cmd>" .endCmd,
    anyCase "<xap>" .startXap,
    anyCase "</xap>" .endXap,
    literal "log<code>" .login,
    anyChar]

/-- The token of a word: that of the first rule that matches it. -/
def word (w : Bytes) : Option Token := rules.findSome? (· w)

/-- The tokens that `yylex` returns for a buffer. -/
def yylex (buf : Bytes) : List Token := Lexer.tokens word buf

example : yylex "[[7]]<XAP>log<code</xap>" =
    [.msgSequence 7, .startXap, .ident 108, .ident 111, .ident 103, .ident 60, .ident 99, .ident 111, .ident 100,
      .ident 101, .endXap] := by decide +kernel

/-! ## How tokens are spelled -/

def Token.Spelled (w : Bytes) : Token → Prop
  | .msgSequence i => isSequence w = true ∧ i = atoi (w.drop 2)
  | .addSourceFilter => w = "<flt+>"
  | .addSourceFilterE => w = "</flt+>"
  | .delSourceFilter => w = "<flt->"
  | .delSourceFilterE => w = "</flt->"
  | .addClassFilter => w = "<cflt+>"
  | .addClassFilterE => w = "</cflt+>"
  | .delClassFilter => w = "<cflt->"
  | .delClassFilterE => w = "</cflt->"
  | .startCmd => w = "<cmd>"
  | .endCmd => w = "</cmd>"
  | .startXap => strcasecmpEq w "<xap>" = true
  | .endXap => strcasecmpEq w "</xap>" = true
  | .login => w = "log<code>"
  | .ident c => w = [c]

variable {text : String} {t : Token} {w : Bytes}

theorem literal_spelled {t' : Token} (h : literal text t w = some t') : w = ascii text ∧ t = t' := by
  simpa [literal] using h

theorem anyCase_spelled {t' : Token} (h : anyCase text t w = some t') :
    strcasecmpEq w (ascii text) = true ∧ t = t' := by
  simpa [anyCase] using h

theorem word_spelled (h : word w = some t) : t.Spelled w := by
  obtain ⟨rule, mem, found⟩ := List.exists_of_findSome?_eq_some h
  simp only [rules, List.mem_cons, List.not_mem_nil, or_false] at mem
  rcases mem with rfl | rfl | rfl | rfl | rfl | rfl | rfl | rfl | rfl | rfl | rfl | rfl | rfl | rfl | rfl
  case inl =>
    simp only [Option.ite_none_right_eq_some, Option.some.injEq] at found
    obtain ⟨sequence, rfl⟩ := found
    exact ⟨sequence, rfl⟩
  all_goals first
    | (obtain ⟨spelled, rfl⟩ := literal_spelled found; exact spelled)
    | (obtain ⟨spelled, rfl⟩ := anyCase_spelled found; exact spelled)
    | skip
  match w, found with
  | [c], found =>
    obtain rfl : Token.ident c = t := by simpa [anyChar] using found
    rfl

theorem literal_char {c : UInt8} (long : (ascii text).length ≠ 1) : literal text t [c] = none := by
  refine if_neg fun same => long ?_
  rw [← same]
  rfl

theorem anyCase_char {c : UInt8} (long : (ascii text).length ≠ 1) : anyCase text t [c] = none := by
  refine if_neg fun same => long ?_
  simpa using (congrArg List.length (strcasecmpEq_iff.1 same)).symm

/-- A single byte is an identifier character. -/
theorem word_char (c : UInt8) : word [c] = some (.ident c) := by
  simp (disch := decide) [word, rules, List.findSome?_cons, isSequence, literal_char, anyCase_char, anyChar]

theorem literal_other_case {text' : String} (spelled : strcasecmpEq w (ascii text') = true)
    (other : strcasecmpEq (ascii text) (ascii text') = false) : literal text t w = none := by
  refine if_neg fun same => ?_
  rw [same, other] at spelled
  cases spelled

/-- `<xap>` in any letter case starts a packet. -/
theorem word_startXap (spelled : strcasecmpEq w "<xap>" = true) : word w = some .startXap := by
  have plain : isSequence w = false := by
    cases sequence : isSequence w with
    | false => rfl
    | true =>
      simp only [isSequence, Bool.and_eq_true, beq_iff_eq] at sequence
      have first := congrArg List.head? (strcasecmpEq_iff.1 spelled)
      rw [sequence.1.1] at first
      revert first
      simp [ascii, tolower]
  have others : ∀ text t, strcasecmpEq (ascii text) "<xap>" = false → literal text t w = none :=
    fun _ _ other => literal_other_case spelled other
  simp (disch := decide) [word, rules, List.findSome?_cons, plain, others, anyCase, spelled]

end Hah.IServer
