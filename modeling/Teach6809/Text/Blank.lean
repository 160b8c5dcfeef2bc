/-!
# White space

Words of the assembly language and of the debugger are separated by white space: the 25 code
points with the Unicode property `White_Space`, and no others. Trimming, splitting into words and
reading a source line all use the one class `isBlank`.

Texts are taken apart as lists of characters; positions in them are counted in UTF-8 bytes.
-/

namespace Teach6809
namespace Text

/-! ## The class -/

/-- The code points with the Unicode property `White_Space`, as inclusive ranges. -/
def blankRanges : List (Nat × Nat) :=
  [(0x09, 0x0D), (0x20, 0x20), (0x85, 0x85), (0xA0, 0xA0), (0x1680, 0x1680), (0x2000, 0x200A),
    (0x2028, 0x2029), (0x202F, 0x202F), (0x205F, 0x205F), (0x3000, 0x3000)]

/-- Whether a character is white space. -/
def isBlank (c : Char) : Bool :=
  blankRanges.any fun range => range.1 ≤ c.toNat && c.toNat ≤ range.2

/-! ## Trimming -/

/-- A text without the characters at its end that satisfy `p`. -/
def dropEndWhile (p : Char → Bool) (text : List Char) : List Char :=
  (text.reverse.dropWhile p).reverse

/-- A text without the white space at its end. -/
def trimEnd (text : List Char) : List Char := dropEndWhile isBlank text

/-- A text without the white space at both ends. -/
def trim (text : List Char) : List Char := trimEnd (text.dropWhile isBlank)

/-- A text without the given character in front of it, taken off once at most. -/
def dropOne (c : Char) : List Char → List Char
  | [] => []
  | first :: rest => if first = c then rest else first :: rest

/-- A text without any white space, also inside. -/
def squeeze (text : List Char) : List Char := text.filter fun c => !isBlank c

/-- Whether a text holds nothing but white space. -/
def allBlank (text : List Char) : Bool := text.all isBlank

/-! ## Measure -/

/-- The number of bytes a text takes in UTF-8. -/
def utf8Length (text : List Char) : Nat := text.foldr (fun c total => c.utf8Size + total) 0

@[simp] theorem utf8Length_nil : utf8Length [] = 0 := rfl

@[simp] theorem utf8Length_cons (c : Char) (text : List Char) :
    utf8Length (c :: text) = c.utf8Size + utf8Length text := rfl

@[simp] theorem utf8Length_append (left right : List Char) :
    utf8Length (left ++ right) = utf8Length left + utf8Length right := by
  induction left with
  | nil => rw [List.nil_append, utf8Length_nil, Nat.zero_add]
  | cons c left ih => rw [List.cons_append, utf8Length_cons, utf8Length_cons, ih, Nat.add_assoc]

end Text
end Teach6809
