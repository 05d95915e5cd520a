/-
  Reports: a diagnostic shown under the line of the text that it concerns.

  * `lineAt` looks up the line and the offset of a position.
  * `Diagnostic.report` shows the message, the place, the line without the
    blanks it begins with and the white space it ends with, a caret under
    the place, and the tip if there is one.
  * Leading blanks are spaces and tabs, and the caret moves left by as many
    columns as were removed (`caretOffset`). A caret may stand in column
    65535 of the line shown and no further; a report that needs more fails.
-/
import Scriptlet.Diagnostic
import Scriptlet.Text.Lines
import Scriptlet.Text.WhiteSpace

namespace Scriptlet

/-- A place within a line of a text. -/
structure LinePlace where
  /-- The number of the line, the first one being 1. -/
  number : Nat
  /-- The characters of the line. -/
  chars : List Char
  /-- The number of characters before the place. -/
  offset : Nat
deriving DecidableEq, Repr

/-- The line in which a position lies. A line that the text does not have is empty. -/
def lineAt (source : String) (p : Position) : LinePlace :=
  let number := max p.line.toNat 1
  ⟨number, Text.nthLine (number - 1) source.toList, p.column.toNat - 1⟩

namespace LinePlace

/-- A character of the indentation of a line. -/
def isIndent (c : Char) : Bool :=
  c = ' ' || c = '\t'

/-- The part of the line that a report shows. -/
def shown (l : LinePlace) : List Char :=
  Text.trimEnd (l.chars.dropWhile isIndent)

/-- The number of characters before the caret, in a line without its indentation. -/
def caretOffset (l : LinePlace) : Nat :=
  l.offset - (l.chars.takeWhile isIndent).length

end LinePlace

/-- What keeps a diagnostic from being shown. -/
inductive ReportError where
  /-- The caret would stand too far to the right. -/
  | caretTooFar
deriving DecidableEq, Repr

/-- The wording of the error. -/
def ReportError.message : ReportError → String
  | caretTooFar => "Formatting argument out of range"

/-- The column beyond which no caret is drawn. -/
def caretLimit : Nat := 65535

/-- The diagnostic under its line of the text `source`, which is known as `file`. -/
def Diagnostic.report (d : Diagnostic) (source file : String) : Except ReportError String :=
  let l := lineAt source d.position
  let number := toString l.number
  let gutter := String.ofList (List.replicate (number.length + 1) ' ')
  if l.caretOffset < caretLimit then
    .ok <|
      "Error: " ++ d.fault.name ++ ": " ++ d.message ++ "\n" ++
      "-> " ++ file ++ ":" ++ d.position.text ++ "\n" ++
      gutter ++ "|\n" ++
      number ++ " | " ++ String.ofList l.shown ++ "\n" ++
      gutter ++ "| " ++ String.ofList (List.replicate l.caretOffset '-') ++ "^\n" ++
      (match d.fault.tip? with
       | some tip => gutter ++ "= tip: " ++ tip ++ "\n"
       | none => "")
  else .error .caretTooFar

end Scriptlet
