import Teach6809.Text.Blank

/-!
# Splitting texts

Two ways to cut a text at marked characters. A *terminator* ends a piece, so nothing follows the
last one: `"a;"` is the one piece `"a"`. A *separator* stands between two pieces, so `"a;"` is the
two pieces `"a"` and `""`.
-/

namespace Teach6809
namespace Text

/-- The pieces of a text each of which is ended by a mark or by the end of the text. -/
def terminated (isMark : Char → Bool) : List Char → List (List Char)
  | [] => []
  | c :: rest =>
    if isMark c then [] :: terminated isMark rest
    else
      match terminated isMark rest with
      | [] => [[c]]
      | piece :: pieces => (c :: piece) :: pieces

/-- The pieces of a text between marks, one more than there are marks. -/
def separated (isMark : Char → Bool) : List Char → List (List Char)
  | [] => [[]]
  | c :: rest =>
    if isMark c then [] :: separated isMark rest
    else
      match separated isMark rest with
      | [] => [[c]]
      | piece :: pieces => (c :: piece) :: pieces

/-- The maximal runs of characters that are not white space. -/
def words (text : List Char) : List (List Char) :=
  (separated isBlank text).filter fun word => !word.isEmpty

/-- The text before the first `mark` and the text after it, if there is one. -/
def cutAt? (mark : Char) (text : List Char) : Option (List Char × List Char) :=
  match text.dropWhile (· != mark) with
  | [] => none
  | _ :: after => some (text.takeWhile (· != mark), after)

theorem separated_ne_nil (isMark : Char → Bool) (text : List Char) :
    separated isMark text ≠ [] := by
  induction text with
  | nil => simp [separated]
  | cons c rest ih =>
    unfold separated
    split
    · simp
    · split <;> simp

end Text
end Teach6809
