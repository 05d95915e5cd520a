/-
  Structure dumps: the parts of a value, written out by name.

  A dump is laid out on one line (`Dump.compact`) or with every part on a
  line of its own, four spaces further in than what it is part of, and a
  comma after it (`Dump.indented`). An empty list is `[]` in both layouts.
-/
import Scriptlet.Text.Quoted

namespace Scriptlet

/-- The structure of a value. -/
inductive Dump where
  /-- A value without parts. -/
  | atom (text : String)
  /-- A value with named parts. -/
  | record (name : String) (fields : List (String × Dump))
  /-- A value with unnamed parts. -/
  | tuple (name : String) (parts : List Dump)
  /-- A sequence of values. -/
  | list (items : List Dump)

namespace Dump

instance : Inhabited Dump := ⟨atom ""⟩

/-- The dump of a number. -/
def ofNat (n : Nat) : Dump := atom (toString n)

/-- The dump of a text. -/
def ofString (s : String) : Dump := atom (Text.quoted s)

/-- The dump of a value that may be absent. -/
def ofOption : Option Dump → Dump
  | none => atom "None"
  | some d => tuple "Some" [d]

mutual

/-- A dump on one line. -/
def compact : Dump → String
  | atom text => text
  | record name fields => name ++ " \x7b " ++ ", ".intercalate (compactFields fields) ++ " \x7d"
  | tuple name parts => name ++ "(" ++ ", ".intercalate (compactAll parts) ++ ")"
  | list items => "[" ++ ", ".intercalate (compactAll items) ++ "]"

/-- The parts of a dump on one line. -/
def compactAll : List Dump → List String
  | [] => []
  | d :: ds => d.compact :: compactAll ds

/-- The named parts of a dump on one line. -/
def compactFields : List (String × Dump) → List String
  | [] => []
  | (name, d) :: fields => (name ++ ": " ++ d.compact) :: compactFields fields

end

/-- A line break, and the indentation of the lines at a level. -/
def newline (level : Nat) : String :=
  "\n" ++ String.ofList (List.replicate (4 * level) ' ')

mutual

/-- A dump with a line for every part, at a level of indentation. -/
def indentedAt (level : Nat) : Dump → String
  | atom text => text
  | record name fields =>
    name ++ " \x7b" ++ String.join (indentedFields (level + 1) fields) ++ newline level ++ "\x7d"
  | tuple name parts =>
    name ++ "(" ++ String.join (indentedAll (level + 1) parts) ++ newline level ++ ")"
  | list [] => "[]"
  | list (d :: ds) =>
    "[" ++ String.join (indentedAll (level + 1) (d :: ds)) ++ newline level ++ "]"

/-- The lines of the parts of a dump. -/
def indentedAll (level : Nat) : List Dump → List String
  | [] => []
  | d :: ds => (newline level ++ d.indentedAt level ++ ",") :: indentedAll level ds

/-- The lines of the named parts of a dump. -/
def indentedFields (level : Nat) : List (String × Dump) → List String
  | [] => []
  | (name, d) :: fields =>
    (newline level ++ name ++ ": " ++ d.indentedAt level ++ ",") :: indentedFields level fields

end

/-- A dump with a line for every part. -/
def indented (d : Dump) : String := d.indentedAt 0

end Dump

end Scriptlet
