import Teach6809.SourceLine
import Teach6809.Proofs.Text.Blank
import Teach6809.Proofs.Text.Pieces

/-!
# The lines of a source text

Where the lines of a source text stand in it. `IsLine` says what line number `index` of a text is,
without the reader; `rawLines` lists the lines that the reader is given, before any of them is read.
Main statement: what the reader is given for a number is the line of that number.
-/

namespace Teach6809

open Text

/-! ## Lines and places -/

/-- Line number `index` of a source text, without its terminator, is `text`, and stands behind
`above`. -/
structure IsLine (source : List Char) (index : Nat) (above text : List Char) : Prop where
  /-- A line is ended by carriage returns, if any, and then a line feed or the end of the text. -/
  split : ∃ returns below, source = above ++ text ++ returns ++ below ∧
    (∀ c ∈ returns, c = '\r') ∧ ∀ c ∈ below.head?, c = '\n'
  count : above.count '\n' = index
  start : ∀ c ∈ above.getLast?, c = '\n'
  feed : '\n' ∉ text
  trimmed : ∀ c ∈ text.getLast?, c ≠ '\r'

/-- A place covers these characters of a source text, all of them on its line. -/
def Place.Covers (place : Place) (source slice : List Char) : Prop :=
  ∃ above before after, IsLine source place.line above (before ++ slice ++ after) ∧
    place.span.offset = utf8Length (above ++ before) ∧ place.span.length = utf8Length slice

/-- The unit of length is the byte of UTF-8. -/
theorem Text.utf8ByteSize_ofList (text : List Char) :
    (String.ofList text).utf8ByteSize = utf8Length text := by
  induction text with
  | nil => rfl
  | cons c rest ih =>
    have hsplit : String.ofList (c :: rest) = String.singleton c ++ String.ofList rest := by
      rw [String.singleton_eq_ofList, ← String.ofList_append]
      rfl
    rw [hsplit, String.utf8ByteSize_append, String.utf8ByteSize_singleton, ih, utf8Length_cons]

namespace Place.Covers

variable {place : Place} {source : String} {slice : List Char}

/-- A place that covers something cuts the text into three. -/
theorem exists_append (h : place.Covers source.toList slice) :
    ∃ before after : String, source = before ++ String.ofList slice ++ after ∧
      place.span.offset = before.utf8ByteSize ∧
      place.span.stop = (before ++ String.ofList slice).utf8ByteSize := by
  obtain ⟨above, before, after, hline, hoffset, hlength⟩ := h
  obtain ⟨returns, below, hsplit, -⟩ := hline.split
  refine ⟨String.ofList (above ++ before), String.ofList (after ++ returns ++ below), ?_, ?_, ?_⟩
  · rw [← String.ofList_append, ← String.ofList_append, ← String.ofList_toList (s := source),
      hsplit]
    simp
  · rw [utf8ByteSize_ofList, hoffset]
  · rw [Span.stop, hoffset, hlength, String.utf8ByteSize_append, utf8ByteSize_ofList,
      utf8ByteSize_ofList]

/-- A place that covers something starts and stops between characters of the text. -/
theorem isValid (h : place.Covers source.toList slice) :
    (⟨place.span.offset⟩ : String.Pos.Raw).IsValid source ∧
      (⟨place.span.stop⟩ : String.Pos.Raw).IsValid source ∧
      place.span.stop ≤ source.utf8ByteSize := by
  obtain ⟨before, after, rfl, hoffset, hstop⟩ := h.exists_append
  refine ⟨?_, ?_, ?_⟩
  · rw [String.Pos.Raw.isValid_iff_exists_append]
    exact ⟨before, String.ofList slice ++ after, String.append_assoc, by rw [hoffset]; rfl⟩
  · rw [String.Pos.Raw.isValid_iff_exists_append]
    exact ⟨before ++ String.ofList slice, after, rfl, by rw [hstop]; rfl⟩
  · have hsize := String.utf8ByteSize_append (s := before ++ String.ofList slice) (t := after)
    omega

end Place.Covers

/-! ## The lines that are read -/

/-- A line before it is read: its number and its characters, without the terminator. -/
structure RawLine where
  index : Nat
  stretch : Stretch

/-- The lines of pieces that were ended by line feeds, from the given number and byte on. -/
def rawLines (index offset : Nat) : List (List Char) → List RawLine
  | [] => []
  | text :: rest =>
    ⟨index, offset, dropEndWhile (· == '\r') text⟩ ::
      rawLines (index + 1) (offset + utf8Length text + 1) rest

namespace RawLine

/-- The lines of a source text. -/
def ofSource (source : String) : List RawLine :=
  rawLines 0 0 (terminated (· == '\n') source.toList)

/-- Reads a line. -/
def read (raw : RawLine) : Except Diagnostic SourceLine :=
  SourceLine.read raw.index raw.stretch.offset raw.stretch.text

end RawLine

/-- Reading a text reads its lines one after the other. -/
theorem SourceLine.readAll_eq (index offset : Nat) (texts : List (List Char)) :
    readAll index offset texts = (rawLines index offset texts).mapM RawLine.read := by
  induction texts generalizing index offset with
  | nil => rfl
  | cons text rest ih =>
    rw [readAll, rawLines, List.mapM_cons, ih]
    rfl

theorem SourceLine.ofSource_eq (source : String) :
    ofSource source = (RawLine.ofSource source).mapM RawLine.read :=
  readAll_eq 0 0 _

/-- Lines are numbered without gaps. -/
theorem index_rawLines (index offset : Nat) (texts : List (List Char)) :
    (rawLines index offset texts).map RawLine.index = List.range' index texts.length := by
  induction texts generalizing index offset with
  | nil => rfl
  | cons text rest ih => rw [rawLines, List.map_cons, ih, List.length_cons, List.range'_succ]

/-- What is left of a line after its carriage returns ends with another character. -/
theorem Text.getLast_dropEndWhile {p : Char → Bool} {text : List Char} {c : Char}
    (h : c ∈ (dropEndWhile p text).getLast?) : p c = false := by
  rw [dropEndWhile, List.getLast?_reverse] at h
  obtain ⟨rest, hrest⟩ := List.head?_eq_some_iff.mp h
  exact dropWhile_eq_cons hrest

/-- A piece without its carriage returns is a line. -/
theorem isLine_of_piece {above piece below : List Char} (hstart : ∀ c ∈ above.getLast?, c = '\n')
    (hpiece : '\n' ∉ piece) (hbelow : ∀ c ∈ below.head?, c = '\n') :
    IsLine (above ++ (piece ++ below)) (above.count '\n') above
      (dropEndWhile (· == '\r') piece) := by
  obtain ⟨returns, hreturns, hsplit⟩ := exists_dropEndWhile (· == '\r') piece
  refine ⟨⟨returns, below, ?_, ?_, hbelow⟩, rfl, hstart, ?_, ?_⟩
  · rw [List.append_assoc above, ← hsplit, List.append_assoc]
  · intro c hc
    exact beq_iff_eq.mp (hreturns c hc)
  · intro hfeed
    rw [hsplit] at hpiece
    exact hpiece (List.mem_append_left _ hfeed)
  · intro c hc
    simpa using getLast_dropEndWhile hc

/-- In a text that was split behind `above`, what is listed is the lines from there on. -/
theorem isLine_of_mem_rawLines {raw : RawLine} {texts : List (List Char)} {rest : List Char}
    (above : List Char) (htexts : terminated (· == '\n') rest = texts)
    (hstart : ∀ c ∈ above.getLast?, c = '\n')
    (hraw : raw ∈ rawLines (above.count '\n') (utf8Length above) texts) :
    ∃ before, IsLine (above ++ rest) raw.index before raw.stretch.text ∧
      raw.stretch.offset = utf8Length before := by
  induction texts generalizing above rest with
  | nil => simp [rawLines] at hraw
  | cons piece pieces ih =>
    obtain ⟨hpiece, hends⟩ := terminated_eq_cons htexts
    have hfeed : '\n' ∉ piece := by
      intro hmem
      simpa using hpiece '\n' hmem
    rw [rawLines, List.mem_cons] at hraw
    rcases hraw with rfl | hraw
    · -- The first line: behind its piece the text ends or a line feed follows.
      refine ⟨above, ?_, rfl⟩
      rcases hends with ⟨rfl, -⟩ | ⟨mark, below, hmark, rfl, -⟩
      · have hline := @isLine_of_piece above rest [] hstart hfeed (by simp)
        simpa using hline
      · exact isLine_of_piece hstart hfeed (by simpa using hmark)
    · rcases hends with ⟨-, rfl⟩ | ⟨mark, below, hmark, rfl, hbelow⟩
      · simp [rawLines] at hraw
      · -- The other lines: they stand behind the first line and its line feed.
        obtain rfl : mark = '\n' := by simpa using hmark
        have hcount : (above ++ piece ++ ['\n']).count '\n' = above.count '\n' + 1 := by
          simp [List.count_eq_zero_of_not_mem hfeed]
        have hbytes : utf8Length (above ++ piece ++ ['\n']) =
            utf8Length above + utf8Length piece + 1 := by
          rw [utf8Length_append, utf8Length_append]
          rfl
        rw [← hcount, ← hbytes] at hraw
        have hothers := ih _ hbelow (by simp) hraw
        simpa using hothers

/-- What the reader is given for a number is the line of that number. -/
theorem RawLine.isLine {source : String} {raw : RawLine} (h : raw ∈ ofSource source) :
    ∃ above, IsLine source.toList raw.index above raw.stretch.text ∧
      raw.stretch.offset = utf8Length above :=
  isLine_of_mem_rawLines [] rfl (by simp) h

end Teach6809
