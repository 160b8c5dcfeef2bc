import Teach6809.SourceLine

/-!
# Labels

The labels of a program with the lines that declare them, in the order of their declaration. No
label is declared twice.
-/

namespace Teach6809

/-- Labels and the lines that declare them. -/
structure LabelTable where
  entries : List (String × Nat)
deriving DecidableEq

namespace LabelTable

/-- The table without labels. -/
def empty : LabelTable := ⟨[]⟩

/-- The line that declares a label. -/
def line? (labels : LabelTable) (name : String) : Option Nat := labels.entries.lookup name

/-- Whether a label is declared. -/
def declares (labels : LabelTable) (name : String) : Bool := (labels.line? name).isSome

/-- Adds a declaration after all others. -/
def add (labels : LabelTable) (name : String) (line : Nat) : LabelTable :=
  ⟨labels.entries ++ [(name, line)]⟩

/-- Adds the labels of lines to a table; the second declaration of a label is refused. -/
def collect (labels : LabelTable) : List SourceLine → Except Diagnostic LabelTable
  | [] => .ok labels
  | line :: rest =>
    match line.label with
    | none => labels.collect rest
    | some label =>
      if labels.declares label.text then
        .error (.placed (.duplicateLabel label.text) line.index label.span)
      else (labels.add label.text line.index).collect rest

/-- The labels of the lines of a program. -/
def ofLines (lines : List SourceLine) : Except Diagnostic LabelTable := empty.collect lines

end LabelTable
end Teach6809
