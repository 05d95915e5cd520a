/-
  The log: what a parser notes down while it works.

  * A token is noted when it is read from the text, a diagnostic when it is
    reported, a statement of the program when it is kept, and any request
    for a program after the first.
  * Each record has a level and a message.
-/
import Scriptlet.Diagnostic
import Scriptlet.Tree.Canonical

namespace Scriptlet

/-- How much a record matters. -/
inductive Level where
  | trace
  | debug
  | warn
deriving DecidableEq, Repr

/-- The name of a level. -/
def Level.name : Level → String
  | trace => "TRACE"
  | debug => "DEBUG"
  | warn => "WARN"

/-- An entry of the log. -/
inductive Record where
  /-- A token was read. -/
  | lexed (token : Token)
  /-- A diagnostic was reported. -/
  | reported (diagnostic : Diagnostic)
  /-- A statement became part of the program. -/
  | kept (statement : Stmt)
  /-- A program was asked for again. -/
  | repeated

namespace Record

/-- The level of a record. -/
def level : Record → Level
  | lexed _ | kept _ => .trace
  | reported _ => .debug
  | repeated => .warn

/-- The message of a record. -/
def message : Record → String
  | lexed t => "lexed " ++ t.text
  | reported d => "syntax error at " ++ d.position.text ++ ": " ++ d.message
  | kept s => "parsed statement `" ++ s.text ++ "`"
  | repeated => "parse_program called again on a consumed parser"

end Record

end Scriptlet
