import Teach6809.CommandLine.Path

/-!
# Files

The files a command can see, by their paths, which are relative to the current folder or start with
a slash. A path that ends in a slash names no file, and one that is too long names nothing.
-/

namespace Teach6809

/-- Files by their paths, and folders that may be empty. -/
structure Directory where
  files : List (String × ByteArray)
  folders : List String

namespace Directory

/-- The contents of a file. -/
def read? (d : Directory) (path : String) : Option ByteArray :=
  if Path.namesFolder path || !Path.fits path then none
  else
    (d.files.find? fun file => Path.components file.1 == Path.components path).map Prod.snd

/-- Whether components lead to a folder. The current folder, those above it and the one of all
folders are always there. -/
def isFolder (d : Directory) (components : List (List Char)) : Bool :=
  components.all (· == Path.above) || components == [['/']] ||
    d.folders.any (fun folder => Path.components folder == components) ||
    d.files.any fun file =>
      let parts := Path.components file.1
      components.length < parts.length && parts.take components.length == components

/-- Whether a path names a file or folder. -/
def contains (d : Directory) (path : String) : Bool :=
  (d.read? path).isSome || d.isFolder (Path.components path)

/-- Writes a file, replacing one of the same name. It has to be in a folder that exists and must
not be a folder itself. -/
def write? (d : Directory) (path : String) (contents : ByteArray) : Option Directory :=
  let components := Path.components path
  if Path.namesFolder path || !Path.fits path || d.isFolder components ||
      !d.isFolder components.dropLast then
    none
  else
    let others := d.files.filter fun file => !(Path.components file.1 == components)
    some { d with files := others ++ [(path, contents)] }

end Directory
end Teach6809
