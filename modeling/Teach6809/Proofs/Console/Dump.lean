import Teach6809.Proofs.Console.LineStart
import Teach6809.Proofs.Text.Numeral
import Teach6809.Proofs.Text.Pieces

/-!
# Memory dumps can be read back

A dump is rows of text, each with the address of its first cell and up to `Report.rowLength` bytes.
`Dump.read?` reads such rows, knowing nothing of a memory; the addresses of the cells behind the
first are counted from the address of the row. Main statement: what is read from a dump is the cells
that were asked for, row by row, across the last address and in colour as well.
-/

namespace Teach6809

open Text

/-! ## Reading a dump -/

namespace Dump

/-- A row of a dump: an address and the bytes from there on. -/
structure Row where
  address : Word
  bytes : List Byte
deriving DecidableEq

/-- The cells of a row; the address after the last is the first. -/
def Row.cells (row : Row) : List (Word × Byte) :=
  row.bytes.zipIdx.map fun entry => (row.address + UInt16.ofNat entry.2, entry.1)

/-- The number written by exactly so many hexadecimal digits. -/
def number? (width : Nat) (text : List Char) : Option Nat :=
  if text.length = width then natural? 16 text else none

/-- Reads the bytes of a row: two digits each, with single spaces between them. -/
def readBytes? (text : List Char) : Option (List Byte) := do
  let values ← (separated (· == ' ') text).mapM (number? 2)
  if values.length ≤ Report.rowLength then some (values.map UInt8.ofNat) else none

/-- Reads a row: four digits, two spaces and the bytes. -/
def readRow? (line : List Char) : Option Row :=
  match line.drop 4 with
  | ' ' :: ' ' :: rest => do
    let address ← number? 4 (line.take 4)
    let bytes ← readBytes? rest
    some ⟨UInt16.ofNat address, bytes⟩
  | _ => none

/-- Reads rows, each of which ends with a line feed. -/
def read? (text : List Char) : Option (List Row) := (terminated (· == '\n') text).mapM readRow?

/-- The row that is written for cells. -/
def Row.ofCells (cells : List (Word × Byte)) : Row :=
  ⟨(cells.head?.map Prod.fst).getD 0, cells.map Prod.snd⟩

end Dump

/-! ## Rows of cells -/

namespace Report

variable {cells : List (Word × Byte)}

theorem rows_of_ne_nil (h : cells ≠ []) :
    rows cells = cells.take rowLength :: rows (cells.drop rowLength) := by
  cases cells with
  | nil => exact absurd rfl h
  | cons first rest => rw [rows]; rfl

/-- Nothing is lost between the rows. -/
theorem flatten_rows (cells : List (Word × Byte)) : (rows cells).flatten = cells := by
  fun_induction rows cells with
  | case1 => rfl
  | case2 first rest ih =>
    rw [List.flatten_cons, ih, List.cons_append, List.take_append_drop]

/-- Row `k` starts where `k` full rows end. -/
theorem getElem?_rows (cells : List (Word × Byte)) (k : Nat) :
    (rows cells)[k]? =
      if rowLength * k < cells.length then some ((cells.drop (rowLength * k)).take rowLength)
      else none := by
  induction k generalizing cells with
  | zero =>
    cases cells with
    | nil => rw [rows]; rfl
    | cons first rest => rw [rows_of_ne_nil (List.cons_ne_nil _ _)]; rfl
  | succ k ih =>
    by_cases hcells : cells = []
    · rw [hcells, rows]
      rfl
    · have hstart : rowLength * (k + 1) = rowLength + rowLength * k := by
        rw [Nat.mul_succ, Nat.add_comm]
      rw [rows_of_ne_nil hcells, List.getElem?_cons_succ, ih, List.drop_drop, List.length_drop,
        hstart]
      refine if_congr ?_ rfl rfl
      omega

theorem mem_rows {row : List (Word × Byte)} (h : row ∈ rows cells) :
    row ≠ [] ∧ row.length ≤ rowLength := by
  obtain ⟨k, hk⟩ := List.getElem?_of_mem h
  rw [getElem?_rows] at hk
  split at hk
  · rename_i hstart
    cases hk
    refine ⟨?_, List.length_take_le _ _⟩
    rw [← List.length_pos_iff, List.length_take, List.length_drop, rowLength] at *
    omega
  · cases hk

theorem length_rows (cells : List (Word × Byte)) :
    (rows cells).length = (cells.length + 7) / 8 := by
  fun_induction rows cells with
  | case1 => rfl
  | case2 first rest ih =>
    rw [List.length_cons, ih, List.length_drop, List.length_cons, rowLength]
    omega

end Report

/-! ## Cells of a memory -/

theorem Memory.getElem?_range (m : Memory) (base : Word) (count i : Nat) :
    (m.range base count)[i]? =
      if i < count then some (base + UInt16.ofNat i, m.read (base + UInt16.ofNat i)) else none := by
  rw [range, List.getElem?_map]
  by_cases hi : i < count
  · rw [List.getElem?_range hi, if_pos hi]
    rfl
  · rw [List.getElem?_eq_none (by rw [List.length_range]; omega), if_neg hi]
    rfl

theorem Memory.length_range (m : Memory) (base : Word) (count : Nat) :
    (m.range base count).length = count := by
  rw [range, List.length_map, List.length_range]

/-- A stretch of consecutive cells is cells that were asked for by themselves. -/
theorem Memory.take_drop_range (m : Memory) (base : Word) (count start n : Nat) :
    ((m.range base count).drop start).take n =
      m.range (base + UInt16.ofNat start) (min n (count - start)) := by
  apply List.ext_getElem?
  intro i
  rw [List.getElem?_take, List.getElem?_drop, getElem?_range, getElem?_range, UInt16.ofNat_add,
    ← UInt16.add_assoc, ← ite_and]
  refine if_congr ?_ rfl rfl
  omega

/-- The cells that a row stands for are those that it was written for. -/
theorem Dump.cells_ofCells_range (m : Memory) (base : Word) (count : Nat) :
    (Row.ofCells (m.range base count)).cells = m.range base count := by
  apply List.ext_getElem?
  intro i
  rw [Row.cells, List.getElem?_map, List.getElem?_zipIdx, Row.ofCells, List.getElem?_map,
    List.head?_eq_getElem?, Memory.getElem?_range, Memory.getElem?_range]
  by_cases hi : i < count
  · have hcount : 0 < count := by omega
    simp [hi, hcount]
  · simp [hi]

/-! ## What a row shows -/

namespace Report

variable {cells : List (Word × Byte)}

/-- A row without colour and line feed. -/
def plainRow (cells : List (Word × Byte)) : List Char :=
  hexChars 4 (Dump.Row.ofCells cells).address.toNat ++
    ' ' :: ' ' :: [' '].intercalate (cells.map fun cell => hexChars 2 cell.2.toNat)

theorem lineFeed_not_mem_plainRow (cells : List (Word × Byte)) : '\n' ∉ plainRow cells := by
  have hdigits := not_mem_hexChars (c := '\n') (by decide)
  have hbytes : '\n' ∉ [' '].intercalate (cells.map fun cell => hexChars 2 cell.2.toNat) := by
    refine not_mem_intercalate (by decide) fun piece hpiece => ?_
    obtain ⟨cell, -, rfl⟩ := List.mem_map.mp hpiece
    exact hdigits 2 _
  rw [plainRow]
  simp [hdigits, hbytes]

theorem displays_hex (width n : Nat) : Displays (hex width n).toList (hexChars width n) := by
  rw [hex, String.toList_ofList]
  exact displays_of_not_mem (not_mem_hexChars (by decide) width n)

/-- Dimmed or not, a row shows its address and its bytes. -/
theorem displays_memoryRow (hcells : cells ≠ []) (plain color : Bool) :
    Displays (memoryRow plain color cells).toList (plainRow cells ++ ['\n']) := by
  obtain ⟨first, rest, rfl⟩ := List.exists_cons_of_ne_nil hcells
  let shown (cell : Word × Byte) : String :=
    if cell.2 = 0 ∧ !plain then paint color .dimmed (hexByte cell.2) else hexByte cell.2
  have hshown : ∀ cell ∈ first :: rest,
      Displays (shown cell).toList (hexChars 2 cell.2.toNat) := by
    intro cell _
    dsimp only [shown]
    split
    · exact (displays_hex 2 _).paint color .dimmed
    · exact displays_hex 2 _
  -- The row taken apart at its spaces: what each part shows is known.
  have htext : (memoryRow plain color (first :: rest)).toList =
      (hexWord first.1).toList ++ [' ', ' '] ++
        [' '].intercalate ((first :: rest).map fun cell => (shown cell).toList) ++ ['\n'] := by
    rw [memoryRow, String.toList_append, String.toList_append, String.toList_append,
      String.toList_intercalate, List.map_map]
    rfl
  have hspaces : Displays [' ', ' '] [' ', ' '] := displays_of_not_mem (by decide)
  have hspace : Displays [' '] [' '] := displays_of_not_mem (by decide)
  have hfeed : Displays ['\n'] ['\n'] := displays_of_not_mem (by decide)
  have hfront : Displays ((hexWord first.1).toList ++ [' ', ' '])
      (hexChars 4 first.1.toNat ++ [' ', ' ']) := (displays_hex 4 _).append hspaces
  have hrow := (hfront.append (Displays.intercalate hshown hspace)).append hfeed
  rw [htext]
  rwa [List.append_assoc (hexChars 4 _)] at hrow

end Report

/-! ## Rows are read back -/

namespace Dump

theorem mapM_of_forall {α β : Type} {f : α → Option β} {g : α → β} {xs : List α}
    (h : ∀ x ∈ xs, f x = some (g x)) : xs.mapM f = some (xs.map g) := by
  induction xs with
  | nil => rfl
  | cons x xs ih =>
    rw [List.mapM_cons, h x List.mem_cons_self,
      ih fun y hy => h y (List.mem_cons_of_mem x hy)]
    rfl

theorem number?_hexChars {width n : Nat} (hwidth : 0 < width) (hn : n < 16 ^ width) :
    number? width (hexChars width n) = some n := by
  rw [number?, if_pos (length_hexChars width n), natural?_hexChars hwidth hn]

theorem readBytes?_intercalate {cells : List (Word × Byte)} (hne : cells ≠ [])
    (hlength : cells.length ≤ Report.rowLength) :
    readBytes? ([' '].intercalate (cells.map fun cell => hexChars 2 cell.2.toNat)) =
      some (cells.map Prod.snd) := by
  -- The bytes hold no space, so they are cut where they were joined.
  have hcut : separated (· == ' ')
      ([' '].intercalate (cells.map fun cell => hexChars 2 cell.2.toNat)) =
        cells.map fun cell => hexChars 2 cell.2.toNat := by
    rw [separated_eq_splitOnP]
    refine List.splitOn_intercalate ' ' ?_ (by simpa using hne)
    intro piece hpiece
    obtain ⟨cell, -, rfl⟩ := List.mem_map.mp hpiece
    exact not_mem_hexChars (by decide) 2 _
  have hread : (cells.map fun cell => hexChars 2 cell.2.toNat).mapM (number? 2) =
      some (cells.map fun cell => cell.2.toNat) := by
    rw [List.mapM_map]
    exact mapM_of_forall fun cell _ => number?_hexChars (by decide) cell.2.toNat_lt
  have hvalues : (cells.map fun cell => cell.2.toNat).map UInt8.ofNat = cells.map Prod.snd := by
    rw [List.map_map]
    exact List.map_congr_left fun cell _ => UInt8.ofNat_toNat
  rw [readBytes?, hcut, hread, Option.bind_eq_bind, Option.bind_some,
    if_pos (by rwa [List.length_map]), hvalues]

theorem readRow?_plainRow {cells : List (Word × Byte)} (hne : cells ≠ [])
    (hlength : cells.length ≤ Report.rowLength) :
    readRow? (Report.plainRow cells) = some (Row.ofCells cells) := by
  have hcolumn := length_hexChars 4 (Row.ofCells cells).address.toNat
  rw [readRow?, Report.plainRow, List.drop_left' hcolumn, List.take_left' hcolumn,
    number?_hexChars (by decide) (Row.ofCells cells).address.toNat_lt]
  show (readBytes? ([' '].intercalate (cells.map fun cell => hexChars 2 cell.2.toNat))).bind
    (fun bytes => some (Row.mk (UInt16.ofNat (Row.ofCells cells).address.toNat) bytes)) = _
  rw [readBytes?_intercalate hne hlength, Option.bind_some, UInt16.ofNat_toNat]
  rfl

/-- Rows of one up to so many cells each are read back, whatever is in them. -/
theorem read?_plainRows {rows : List (List (Word × Byte))}
    (h : ∀ cells ∈ rows, cells ≠ [] ∧ cells.length ≤ Report.rowLength) :
    read? (rows.flatMap fun cells => Report.plainRow cells ++ ['\n']) =
      some (rows.map Row.ofCells) := by
  have hlines : ∀ line ∈ rows.map Report.plainRow, '\n' ∉ line := by
    intro line hline
    obtain ⟨cells, -, rfl⟩ := List.mem_map.mp hline
    exact Report.lineFeed_not_mem_plainRow cells
  have hcut := terminated_flatMap hlines
  rw [List.flatMap_map] at hcut
  rw [read?, hcut, List.mapM_map]
  exact mapM_of_forall fun cells hcells => readRow?_plainRow (h cells hcells).1 (h cells hcells).2

end Dump

/-! ## What is printed -/

namespace Console

variable {c : Console} {channel : Channel}

theorem dress_print (c : Console) (channel other : Channel) (text : String) :
    (c.print channel text).dress other = c.dress other := by
  funext shown
  unfold dress
  rw [plain_print, color_print]

/-- Texts on a channel that is not left out are written one after another. -/
theorem shown_printAll_of_not_leavesOut (h : ¬ LeavesOut c.plain channel) (texts : List String) :
    (c.printAll channel texts).shown =
      ((texts.map (c.dress channel)).map fun line => (channel.stream, line)).reverse ++
        c.shown := by
  unfold printAll
  induction texts generalizing c with
  | nil => rfl
  | cons text rest ih =>
    have hnext : ¬ LeavesOut (c.print channel text).plain channel := by rwa [plain_print]
    rw [List.foldl_cons, ih hnext, dress_print, shown_print_of_not_leavesOut h, List.map_cons,
      List.map_cons, List.reverse_cons, List.append_assoc, List.singleton_append]

theorem toList_dress_of_plain (hc : c.plain = true) (channel : Channel) (text : String) :
    (c.dress channel text).toList = decolor text.toList := by
  unfold dress
  rw [if_pos hc, String.toList_ofList]

end Console

/-! ## The cells of a dump -/

namespace Dump

/-- Rows that list the bytes of `count` cells from `base` on, wrapping at the last address. -/
structure Lists (rows : List Row) (m : Memory) (base : Word) (count : Nat) : Prop where
  cells : rows.flatMap Row.cells = m.range base count
  /-- There is no row more than it takes, and none for no cells. -/
  length : rows.length = (count + 7) / 8
  address : ∀ k row, rows[k]? = some row → row.address.toNat = (base.toNat + 8 * k) % 0x10000
  full : ∀ k row, rows[k]? = some row → k + 1 < rows.length → row.bytes.length = 8
  short : ∀ row ∈ rows, 1 ≤ row.bytes.length ∧ row.bytes.length ≤ 8
  bytes : ∀ i, i < count →
    (rows.flatMap Row.bytes)[i]? = some (m.read (UInt16.ofNat ((base.toNat + i) % 0x10000)))

/-- The rows that are written for cells of a memory. -/
def rowsOf (m : Memory) (base : Word) (count : Nat) : List Row :=
  (Report.rows (m.range base count)).map Row.ofCells

theorem getElem?_rowsOf {m : Memory} {base : Word} {count k : Nat} {row : Row}
    (h : (rowsOf m base count)[k]? = some row) :
    8 * k < count ∧
      row = Row.ofCells (m.range (base + UInt16.ofNat (8 * k)) (min 8 (count - 8 * k))) := by
  rw [rowsOf, List.getElem?_map, Report.getElem?_rows, Memory.length_range] at h
  split at h
  · rename_i hstart
    rw [Memory.take_drop_range] at h
    exact ⟨hstart, (Option.some.inj h).symm⟩
  · cases h

theorem address_ofCells_range (m : Memory) (base : Word) {count : Nat} (hcount : 0 < count) :
    (Row.ofCells (m.range base count)).address = base := by
  rw [Row.ofCells, List.head?_eq_getElem?, Memory.getElem?_range, if_pos hcount]
  exact UInt16.add_zero base

theorem length_ofCells_range (m : Memory) (base : Word) (count : Nat) :
    (Row.ofCells (m.range base count)).bytes.length = count := by
  rw [Row.ofCells, List.length_map, Memory.length_range]

theorem flatMap_bytes_rowsOf (m : Memory) (base : Word) (count : Nat) :
    (rowsOf m base count).flatMap Row.bytes = (m.range base count).map Prod.snd := by
  conv => rhs; rw [← Report.flatten_rows (m.range base count), List.map_flatten]
  rw [rowsOf, List.flatMap_map]
  rfl

theorem flatMap_cells_rowsOf (m : Memory) (base : Word) (count : Nat) :
    (rowsOf m base count).flatMap Row.cells = m.range base count := by
  have hcells : ∀ row ∈ Report.rows (m.range base count), (Row.ofCells row).cells = row := by
    intro row hrow
    obtain ⟨k, hk⟩ := List.getElem?_of_mem hrow
    rw [Report.getElem?_rows] at hk
    split at hk
    · cases hk
      rw [Memory.take_drop_range, cells_ofCells_range]
    · cases hk
  rw [rowsOf, List.flatMap_map, List.flatMap_congr hcells, List.flatMap_id',
    Report.flatten_rows]

theorem lists_rowsOf (m : Memory) (base : Word) (count : Nat) :
    Lists (rowsOf m base count) m base count := by
  have hlength : (rowsOf m base count).length = (count + 7) / 8 := by
    rw [rowsOf, List.length_map, Report.length_rows, Memory.length_range]
  refine ⟨flatMap_cells_rowsOf m base count, hlength, ?_, ?_, ?_, ?_⟩
  · intro k row hrow
    obtain ⟨hstart, rfl⟩ := getElem?_rowsOf hrow
    rw [address_ofCells_range m _ (by omega), UInt16.toNat_add, UInt16.toNat_ofNat']
    omega
  · intro k row hrow hnext
    obtain ⟨hstart, rfl⟩ := getElem?_rowsOf hrow
    rw [length_ofCells_range]
    omega
  · intro row hrow
    obtain ⟨k, hk⟩ := List.getElem?_of_mem hrow
    obtain ⟨hstart, rfl⟩ := getElem?_rowsOf hk
    rw [length_ofCells_range]
    omega
  · intro i hi
    -- Addresses wrap around at the top of memory: words are added modulo its size.
    have haddress : base + UInt16.ofNat i = UInt16.ofNat ((base.toNat + i) % 0x10000) := by
      rw [← UInt16.toNat_inj, UInt16.toNat_add, UInt16.toNat_ofNat', UInt16.toNat_ofNat']
      omega
    rw [flatMap_bytes_rowsOf, List.getElem?_map, Memory.getElem?_range, if_pos hi, haddress]
    rfl

end Dump

namespace Console

variable {c : Console} {channel : Channel}

/-- Cells of a memory are shown on a channel that is not left out. What is written for them are
lines on the stream of the channel, one for each row, and from these lines, without escape sequences
where output is not minimal, rows are read that list exactly these cells. -/
theorem dump_of_memory (hout : ¬ LeavesOut c.plain channel) (m : Memory) (base : Word)
    (count : Nat) :
    ∃ lines rows,
      (c.printMemory channel m base count).shown =
        (lines.map fun line => (channel.stream, line)).reverse ++ c.shown ∧
      lines.length = rows.length ∧
      Dump.read? (if c.plain then (String.join lines).toList
        else decolor (String.join lines).toList) = some rows ∧
      Dump.Lists rows m base count := by
  let dumped := Report.rows (m.range base count)
  let lines := (dumped.map (Report.memoryRow c.plain c.color)).map (c.dress channel)
  have hrows : ∀ cells ∈ dumped, cells ≠ [] ∧ cells.length ≤ Report.rowLength := fun _ =>
    Report.mem_rows
  -- Line by line, and so one after another, the lines show the rows without colour.
  have hseen : Displays (String.join lines).toList
      (dumped.flatMap fun cells => Report.plainRow cells ++ ['\n']) := by
    rw [String.toList_join, List.flatMap_map, List.flatMap_map]
    exact Displays.flatMap fun cells hcells =>
      (Report.displays_memoryRow (hrows cells hcells).1 c.plain c.color).dress c channel
  refine ⟨lines, Dump.rowsOf m base count, shown_printAll_of_not_leavesOut hout _, ?_, ?_,
    Dump.lists_rowsOf m base count⟩
  · rw [List.length_map, List.length_map, Dump.rowsOf, List.length_map]
  · have hread := Dump.read?_plainRows hrows
    split
    · rename_i hplain
      have htext : (String.join lines).toList =
          dumped.flatMap fun cells => Report.plainRow cells ++ ['\n'] := by
        rw [String.toList_join, List.flatMap_map, List.flatMap_map]
        refine List.flatMap_congr fun cells hcells => ?_
        rw [toList_dress_of_plain hplain,
          (Report.displays_memoryRow (hrows cells hcells).1 c.plain c.color).decolor_eq]
      rw [htext]
      exact hread
    · rw [hseen.decolor_eq]
      exact hread

/-- Ten cells in colour across the last address: two rows, the fourth byte is the one that was put
there, and the second row starts at the fourth address. -/
theorem dump_of_memory_wrapped :
    let m := Memory.empty.write 0xFFFE 0x12
    let c := Console.new false true
    ¬ LeavesOut c.plain .always ∧
      ∃ lines rows, (c.printMemory .always m 0xFFFB 10).shown =
          (lines.map fun line => (Stream.standardError, line)).reverse ∧
        Dump.read? (decolor (String.join lines).toList) = some rows ∧ rows.length = 2 ∧
        (rows.flatMap Dump.Row.bytes)[3]? = some 0x12 ∧
        ∀ row, rows[1]? = some row → row.address.toNat = 3 := by
  intro m c
  have hout : ¬ LeavesOut c.plain .always := fun h => nomatch h.2
  obtain ⟨lines, rows, hshown, -, hread, hlists⟩ := dump_of_memory hout m 0xFFFB 10
  have hbyte : m.read (UInt16.ofNat ((0xFFFB + 3) % 0x10000)) = 0x12 := by decide +kernel
  refine ⟨hout, lines, rows, hshown.trans (List.append_nil _), hread, hlists.length, ?_, ?_⟩
  · exact (hlists.bytes 3 (by decide)).trans (congrArg some hbyte)
  · exact fun row hrow => hlists.address 1 row hrow

end Console
end Teach6809
