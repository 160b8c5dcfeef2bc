import Teach6809.Text.Split

/-!
# Paths

How a path is taken apart. Components are separated by slashes; empty components and single dots do
not count. The extension of a file follows the last dot of its name, unless that is where the name
starts. One dot alone names the current folder and two the one above: neither takes an extension.
-/

namespace Teach6809

open Text

namespace Path

/-- The component that leads to the folder above. -/
def above : List Char := ['.', '.']

/-- The components of a path that count; a leading slash is a component of its own. -/
def components (path : String) : List (List Char) :=
  let parts := (separated (· == '/') path.toList).filter fun part => !(part == [] || part == ['.'])
  if path.toList.head? = some '/' then ['/'] :: parts else parts

/-- Whether a path can only name a folder. -/
def namesFolder (path : String) : Bool :=
  let last := ((separated (· == '/') path.toList).getLast?).getD []
  last == [] || last == ['.'] || last == above

/-- Whether a path is short enough to be used: 4095 bytes, and 255 in each component. -/
def fits (path : String) : Bool :=
  utf8Length path.toList ≤ 4095 && (components path).all fun part => utf8Length part ≤ 255

/-- The last component of a path, and what is before it. -/
def split (path : String) : List Char × List Char :=
  let text := dropEndWhile (· == '/') path.toList
  let base := (text.reverse.takeWhile (· != '/')).reverse
  (text.take (text.length - base.length), base)

/-- A file name without its extension, and the extension. A dot at the start does not begin one. -/
def splitExtension (base : List Char) : List Char × Option (List Char) :=
  match base.reverse.dropWhile (· != '.') with
  | _ :: stem =>
    if stem.isEmpty || base == above then (base, none)
    else (stem.reverse, some (base.drop (stem.length + 1)))
  | [] => (base, none)

/-- The extension of the file that a path names. -/
def extension? (path : String) : Option String :=
  (splitExtension (split path).2).2.map String.ofList

/-- The path with its extension replaced, or added if there is none. The extension is taken off up
to its dot before the new one is put on: if two dots are left, as of `..p`, they are the folder
above and stay alone. -/
def withExtension (path extension : String) : String :=
  let (folder, base) := split path
  if base.isEmpty || base == ['.'] || base == above then path
  else
    match splitExtension base with
    | (['.'], some _) => String.ofList (folder ++ above)
    | (stem, _) => String.ofList (folder ++ stem ++ '.' :: extension.toList)

end Path
end Teach6809
