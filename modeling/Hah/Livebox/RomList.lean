import Hah.Livebox.WebServer

/-!
# The list of unassigned ROM ids in its buffer: `buildListOfUnassignedROMS` of `server.c`

`Livebox/WebServer` gives no outcome to a row that starts behind the buffer. Here the stores are
followed wherever they go: `snprintf` is given `sizeof(buf)-len` as a `size_t`, which is huge once the
length counted so far is more than 1024, and the row is stored behind the buffer. The length counts
what the rows would have taken, so it takes one row more than those that fill the buffer.
`rom_list_inside_iff` says when nothing is stored outside.
-/

namespace Hah.Livebox.WebServer
open C List

/-- An entry as `struct unassignedROMID` can hold it: two strings that fit into `romid[19]` and
`temperature[6]`. -/
structure StoredROMID extends UnassignedROMID where
  romid_text : romid.length < 19 ∧ ∀ c ∈ romid, c ≠ 0
  temperature_text : temperature.length < 6 ∧ ∀ c ∈ temperature, c ≠ 0

def rowsOf (list : List StoredROMID) : List Bytes := list.map fun u => u.toUnassignedROMID.row

/-- `buildListOfUnassignedROMS` on the memory that begins with `buf`. -/
def romBuffer (buf : Mem) (list : List StoredROMID) : Mem :=
  if list = [] then (Printing.append ⟨buf, 0⟩ 1024 "All 1wire ROM ID's assigned").mem
  else strlcatIn 1024 ((Printing.append ⟨buf, 0⟩ 1024 romHeader).appendAll 1024 (rowsOf list)).mem "</table>"

/-- Whatever stands in the memory, only the buffer is written, and it begins with a string that ends
inside. -/
structure StaysInside (list : List StoredROMID) : Prop where
  inside : ∀ (buf : Mem) (j : Nat), 1024 ≤ j → romBuffer buf list j = buf j
  ends : ∀ buf : Mem, ∃ s, s.length < 1024 ∧ CStr (romBuffer buf list) 0 s

variable {list : List StoredROMID} (buf : Mem)

theorem StoredROMID.row_clean (u : StoredROMID) : ∀ c ∈ u.row, c ≠ 0 := by
  have first : ∀ c ∈ ascii "<tr><td>", c ≠ 0 := bytes_of_all (by decide)
  have middle : ∀ c ∈ ascii "</td><td>", c ≠ 0 := bytes_of_all (by decide)
  have last : ∀ c ∈ ascii "</td></tr>", c ≠ 0 := bytes_of_all (by decide)
  have between := u.romid_text.2
  have behind := u.temperature_text.2
  intro c mem
  simp only [UnassignedROMID.row, mem_append] at mem
  rcases mem with (((mem | mem) | mem) | mem) | mem
  · exact first c mem
  · exact between c mem
  · exact middle c mem
  · exact behind c mem
  · exact last c mem

theorem StoredROMID.row_length (u : StoredROMID) : u.row.length ≤ 50 := by
  have whole : u.row.length = 8 + u.romid.length + 9 + u.temperature.length + 10 := by
    simp only [UnassignedROMID.row, length_append]
    rfl
  have romid := u.romid_text.1
  have temperature := u.temperature_text.1
  omega

theorem rowsOf_clean (list : List StoredROMID) : ∀ row ∈ rowsOf list, ∀ c ∈ row, c ≠ 0 := by
  intro row mem
  obtain ⟨u, -, rfl⟩ := mem_map.1 mem
  exact u.row_clean

theorem rowsOf_eq (list : List StoredROMID) :
    (list.map StoredROMID.toUnassignedROMID).map UnassignedROMID.row = rowsOf list := map_map

/-- The text without entries. -/
theorem none_held :
    Holds buf 1024 (Printing.append ⟨buf, 0⟩ 1024 "All 1wire ROM ID's assigned")
      "All 1wire ROM ID's assigned" :=
  Holds.first buf (bytes_of_all (by decide)) (by omega)

/-- Rows of which the last one may be cut off. -/
theorem rows_held {rows : List Bytes} {row : Bytes}
    (clean : ∀ r ∈ rows ++ [row], ∀ c ∈ r, c ≠ 0) (fit : (romHeader ++ rows.flatten).length ≤ 1024) :
    Holds buf 1024 ((Printing.append ⟨buf, 0⟩ 1024 romHeader).appendAll 1024 (rows ++ [row]))
      (romHeader ++ rows.flatten ++ row) := by
  have start := Holds.first buf (bytes_of_all (by decide) : ∀ c ∈ romHeader, c ≠ 0) (show 1 ≤ 1024 by omega)
  have before := start.appendAll (fun r mem => clean r (mem_append_left _ mem)) fit
  rw [Printing.appendAll_snoc]
  exact before.append (clean row (mem_append_right _ mem_cons_self)) fit

/-- A list that is not empty has a last row, and the rows before it decide. -/
theorem rowsFit_split (entries : list ≠ []) :
    ∃ rows, ∃ u : StoredROMID, rowsOf list = rows ++ [u.row] ∧
      (RowsFit (list.map StoredROMID.toUnassignedROMID) ↔ (romHeader ++ rows.flatten).length ≤ 1024) := by
  obtain ⟨list, u, rfl⟩ := (eq_nil_or_concat' list).resolve_left entries
  have split : rowsOf (list ++ [u]) = rowsOf list ++ [u.row] := by simp [rowsOf]
  refine ⟨rowsOf list, u, split, ?_⟩
  rw [RowsFit, rowsOf_eq, split, dropLast_concat]
  exact ⟨fun fit => fit (by simp), fun fit _ => fit⟩

/-! ## What stands in the buffer -/

theorem printRows_some {list : List UnassignedROMID} {p q : Printing} (printed : printRows p list = some q) :
    q = p.appendAll 1024 (list.map UnassignedROMID.row) := by
  induction list generalizing p with
  | nil => exact (Option.some.inj printed).symm
  | cons u list ih =>
    obtain ⟨p', inside, rest⟩ := Option.bind_eq_some_iff.1 printed
    have same : p' = p := by
      unfold Printing.inside at inside
      split at inside
      · exact (Option.some.inj inside).symm
      · exact absurd inside.symm (Option.some_ne_none _)
    rw [map_cons, Printing.appendAll_cons, ← same]
    exact ih rest

theorem strlcat_length (dst src : Bytes) {size : Nat} (short : dst.length < size) :
    (strlcat dst src size).length < size := by
  rw [strlcat, length_append, length_take]
  omega

/-- **The reply of the web server** is what stands in the buffer. -/
theorem romBuffer_reply {reply : Bytes}
    (built : buildListOfUnassignedROMS (list.map StoredROMID.toUnassignedROMID) = some reply) :
    reply.length < 1024 ∧ CStr (romBuffer buf list) 0 reply := by
  have fit := (buildList_iff _).1 (Option.isSome_of_eq_some built)
  by_cases empty : list = []
  · subst empty
    rw [← Option.some.inj built]
    exact ⟨by decide, (none_held buf).str⟩
  · rw [buildListOfUnassignedROMS, if_neg (by simpa using empty)] at built
    obtain ⟨p, printed, rfl⟩ := Option.map_eq_some_iff.1 built
    obtain ⟨rows, u, split, fits⟩ := rowsFit_split empty
    have clean : ∀ r ∈ rows ++ [u.row], ∀ c ∈ r, c ≠ 0 := split ▸ rowsOf_clean list
    have cut : ((romHeader ++ rows.flatten ++ u.row).take 1023).length < 1024 := by
      rw [length_take]
      omega
    have read : strAt p.mem 1024 0 = (romHeader ++ rows.flatten ++ u.row).take 1023 := by
      rw [printRows_some printed, rowsOf_eq, split]
      exact (rows_held (fun _ => 0) clean (fits.1 fit)).str.strAt_eq (Nat.le_of_lt cut)
    rw [read, romBuffer, if_neg empty, split]
    refine ⟨strlcat_length _ _ cut, ?_⟩
    exact (rows_held buf clean (fits.1 fit)).str.strlcatIn cut (bytes_of_all (by decide))

/-- A last row that starts behind the buffer leaves its terminator there, whatever stood there. -/
theorem romBuffer_behind {rows : List Bytes} {u : StoredROMID}
    (split : rowsOf list = rows ++ [u.row]) (behind : 1024 < (romHeader ++ rows.flatten).length) :
    romBuffer buf list ((romHeader ++ rows.flatten).length + u.row.length) = 0 := by
  have entries : list ≠ [] := by
    rintro rfl
    simp [rowsOf] at split
  have len : ((Printing.append ⟨buf, 0⟩ 1024 romHeader).appendAll 1024 rows).len = (romHeader ++ rows.flatten).length := by
    rw [Printing.appendAll_len, length_append]
    exact congrArg (· + rows.flatten.length) (Nat.zero_add _)
  have short := u.row_length
  rw [romBuffer, if_neg entries, split, Printing.appendAll_snoc, strlcatIn_outside (by omega), ← len]
  exact Printing.append_behind (by omega) (by omega)

/-- **The list of ROM ids stays in its buffer** iff the rows before the last one do. -/
theorem rom_list_inside_iff (list : List StoredROMID) :
    StaysInside list ↔ RowsFit (list.map StoredROMID.toUnassignedROMID) := by
  constructor
  · intro stays entries
    have listed : list ≠ [] := by simpa using entries
    obtain ⟨rows, u, split, fits⟩ := rowsFit_split listed
    refine fits.2 (Nat.not_lt.1 fun behind => ?_) entries
    -- a memory of ones shows the terminator
    have stored := romBuffer_behind (fun _ => 1) split behind
    rw [stays.inside _ _ (by omega)] at stored
    exact absurd stored (by decide)
  · intro fit
    obtain ⟨reply, built⟩ := Option.isSome_iff_exists.1 ((buildList_iff _).2 fit)
    refine ⟨fun buf j behind => ?_, fun buf => ⟨reply, romBuffer_reply buf built⟩⟩
    by_cases empty : list = []
    · subst empty
      exact (none_held buf).outside j behind
    · obtain ⟨rows, u, split, fits⟩ := rowsFit_split empty
      have held := rows_held buf (split ▸ rowsOf_clean list) (fits.1 fit)
      rw [romBuffer, if_neg empty, split, strlcatIn_outside behind]
      exact held.outside j behind

def fullEntry : StoredROMID where
  romid := "28AB0C1D2E3F405162"
  temperature := "-10.5"
  romid_text := ⟨by decide, bytes_of_all (by decide)⟩
  temperature_text := ⟨by decide, bytes_of_all (by decide)⟩

/-- With 21 full entries the last row is stored behind the buffer. -/
theorem rom_list_overrun :
    romBuffer (fun _ => 1) (List.replicate 21 fullEntry) 1119 = 0 ∧ ¬ StaysInside (List.replicate 21 fullEntry) := by
  have split : rowsOf (List.replicate 21 fullEntry) = List.replicate 20 fullEntry.row ++ [fullEntry.row] := rfl
  have stored := romBuffer_behind (fun _ => 1) split (by decide +kernel)
  have place : (romHeader ++ (List.replicate 20 fullEntry.row).flatten).length + fullEntry.row.length = 1119 := by
    decide +kernel
  rw [place] at stored
  refine ⟨stored, fun stays => ?_⟩
  rw [stays.inside _ _ (by omega)] at stored
  exact absurd stored (by decide)

end Hah.Livebox.WebServer
