import Hah.C.Strings

/-!
# Passwords in the settings file: `rot47` and `getINIPassword` of `xaplib2/util.c`

The first call for a key finds the password as the user wrote it, and replaces it in the file by
`{frob}` and the password in the alphabet of `rot47`. The later calls find that text and turn it back.
Both read into a buffer of 64 bytes, but what the later ones read is six characters longer: they lose
what stands behind the 57th character of the password (`getINIPassword_later`).
-/

namespace Hah.Xap
open C List

/-! ## The code -/

/-- One round of the loop of `rot47`. -/
def rot47Char (p : UInt8) : UInt8 :=
  if 33 ≤ p ∧ p ≤ 79 then (p + 47) % 127
  else if 80 ≤ p ∧ p ≤ 126 then (p - 47) % 127
  else p

def rot47 (s : Bytes) : Bytes := s.map rot47Char

/-- What is assumed of `minIni`: `ini_puts` stores its string, and `ini_gets` with a buffer of `size`
bytes and the default `""` gives the first `size - 1` characters of what is stored. -/
structure MinIni (File : Type) where
  stored : File → Bytes → Bytes → Bytes
  gets : File → Bytes → Bytes → Nat → Bytes
  puts : File → Bytes → Bytes → Bytes → File
  gets_eq : ∀ file sect key size, gets file sect key size = (stored file sect key).take (size - 1)
  puts_eq : ∀ file sect key s, stored (puts file sect key s) sect key = s

def frob : Bytes := "\x7bfrob\x7d"

variable {File : Type}

/-- `getINIPassword`: the result, `NULL` without a password, and the file. `none` if the text to be
stored does not fit into `passwd`. -/
def getINIPassword (ini : MinIni File) (sect key : Bytes) (file : File) :
    Option (Option Bytes × File) :=
  let inipasswd := ini.gets file sect key 64
  if inipasswd = [] then some (none, file)
  else if frob <+: inipasswd then some (some (rot47 (inipasswd.drop 6)), file)
  else
    let passwd := frob ++ rot47 inipasswd
    if passwd.length < 80 then some (some inipasswd, ini.puts file sect key passwd) else none

/-- The results of `n` calls for a key, one after the other. -/
def getINIPasswords (ini : MinIni File) (sect key : Bytes) : Nat → File → Option (List (Option Bytes))
  | 0, _ => some []
  | n + 1, file =>
    (getINIPassword ini sect key file).bind fun call =>
      (getINIPasswords ini sect key n call.2).map (call.1 :: ·)

/-! ## The two kinds of calls -/

theorem rot47Char_rot47Char (c : UInt8) : rot47Char (rot47Char c) = c :=
  byte_cases (by decide +kernel) c

/-- **`rot47` undoes itself.** -/
theorem rot47_rot47 (s : Bytes) : rot47 (rot47 s) = s := by
  simp only [rot47, map_map]
  exact (map_congr_left fun c _ => rot47Char_rot47Char c).trans s.map_id

theorem frob_length : frob.length = 6 := rfl

section Calls

variable (ini : MinIni File) {sect key : Bytes} {file : File} {password : Bytes}

/-- The call that finds the password as the user wrote it. -/
theorem getINIPassword_first (stored : ini.stored file sect key = password) (given : password ≠ [])
    (short : password.length ≤ 63) (plain : ¬ frob <+: password) :
    getINIPassword ini sect key file = some (some password, ini.puts file sect key (frob ++ rot47 password)) := by
  have read : ini.gets file sect key 64 = password := by
    rw [ini.gets_eq, stored]
    exact take_of_length_le short
  have room : (frob ++ rot47 password).length < 80 := by
    rw [length_append, frob_length, rot47, length_map]
    omega
  unfold getINIPassword
  rw [read]
  rw [if_neg given, if_neg plain, if_pos room]

/-- A call behind it: 57 characters of the password are left, and the file stays as it is. -/
theorem getINIPassword_later (stored : ini.stored file sect key = frob ++ rot47 password) :
    getINIPassword ini sect key file = some (some (password.take 57), file) := by
  have read : ini.gets file sect key 64 = frob ++ rot47 (password.take 57) := by
    rw [ini.gets_eq, stored, take_append, frob_length, rot47, ← map_take]
    rfl
  have kept : (frob ++ rot47 (password.take 57)).drop 6 = rot47 (password.take 57) :=
    drop_left' frob_length
  unfold getINIPassword
  rw [read]
  rw [if_neg (by simp [frob, ascii]), if_pos (prefix_append _ _), kept, rot47_rot47]

theorem getINIPasswords_later (n : Nat) (stored : ini.stored file sect key = frob ++ rot47 password) :
    getINIPasswords ini sect key n file = some (List.replicate n (some (password.take 57))) := by
  induction n with
  | zero => rfl
  | succ n ih =>
    rw [getINIPasswords, getINIPassword_later ini stored, Option.bind_some, ih]
    rfl

/-- **All calls**: the password, and then its first 57 characters again and again. -/
theorem getINIPasswords_eq (n : Nat) (stored : ini.stored file sect key = password) (given : password ≠ [])
    (short : password.length ≤ 63) (plain : ¬ frob <+: password) :
    getINIPasswords ini sect key (n + 1) file =
      some (some password :: List.replicate n (some (password.take 57))) := by
  rw [getINIPasswords, getINIPassword_first ini stored given short plain, Option.bind_some,
    getINIPasswords_later ini n (ini.puts_eq _ _ _ _)]
  rfl

/-- **A stored password stays usable** iff it has at most 57 characters. -/
theorem password_usable_iff (stored : ini.stored file sect key = password)
    (size : 1 ≤ password.length ∧ password.length ≤ 63) (plain : ¬ frob <+: password) :
    (∀ n, getINIPasswords ini sect key n file = some (List.replicate n (some password))) ↔
      password.length ≤ 57 := by
  have given := ne_nil_of_length_pos size.1
  have calls := fun n => getINIPasswords_eq ini n stored given size.2 plain
  constructor
  · intro same
    -- the second call shows it
    have second : some [some password, some (password.take 57)] = some [some password, some password] :=
      (calls 1).symm.trans (same 2)
    simp only [Option.some.injEq, List.cons.injEq, and_true, true_and] at second
    have length := congrArg List.length second
    rw [length_take] at length
    omega
  · intro short n
    cases n with
    | zero => rfl
    | succ n => rw [calls n, take_of_length_le short, replicate_succ]

end Calls

/-- A settings file as a table of its keys. -/
def MinIni.table : MinIni (Bytes → Bytes → Bytes) where
  stored file := file
  gets file sect key size := (file sect key).take (size - 1)
  puts file sect key s := fun sect' key' => if sect' = sect ∧ key' = key then s else file sect' key'
  gets_eq _ _ _ _ := rfl
  puts_eq _ _ _ _ := if_pos ⟨rfl, rfl⟩

theorem password_usable_short :
    (ascii "s3cret!").length ≤ 57 ∧
      ∀ n, getINIPasswords MinIni.table (ascii "googlecal") (ascii "passwd") n (fun _ _ => ascii "s3cret!") =
        some (List.replicate n (some (ascii "s3cret!"))) :=
  ⟨by decide, (password_usable_iff MinIni.table rfl (by decide) (by decide)).2 (by decide)⟩

/-- The password of 58 letters comes back without its last one. -/
theorem password_of_58_cut :
    getINIPasswords MinIni.table "googlecal" "passwd" 2 (fun _ _ => List.replicate 58 97) =
        some [some (List.replicate 58 97), some (List.replicate 57 97)] ∧
      ¬ ∀ n, getINIPasswords MinIni.table "googlecal" "passwd" n (fun _ _ => List.replicate 58 97) =
        some (List.replicate n (some (List.replicate 58 97))) := by
  have plain : ¬ frob <+: List.replicate 58 (97 : UInt8) := by decide
  have calls : getINIPasswords MinIni.table "googlecal" "passwd" 2 (fun _ _ => List.replicate 58 97) =
      some [some (List.replicate 58 97), some (List.replicate 57 97)] :=
    getINIPasswords_eq MinIni.table 1 rfl (by decide) (by decide) plain
  refine ⟨calls, fun same => ?_⟩
  have differ := calls.symm.trans (same 2)
  simp only [replicate_succ, Option.some.injEq, List.cons.injEq] at differ
  exact absurd differ (by decide)

end Hah.Xap
