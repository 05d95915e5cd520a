/-
  Sessions: a text that is being read, with the grammar it is read by.

  A session holds a reader, a grammar that may be changed between any two
  steps, the number of expression levels that are open, and whether the
  program has been read. A program is read once: asking again gives an empty
  one and leaves a warning in the log.

  * `Session.ofText` stands at the start of a text, with the grammar of the
    language.
  * `Session.perform` takes a parse, `Session.walk` a walk, through the text;
    each operation below is one of them.
  * `parse` reads a text in one go.
-/
import Scriptlet.Grammar.Reading

namespace Scriptlet

/-- A text that is being read. -/
structure Session where
  /-- The rules to read by. -/
  grammar : Grammar
  /-- The place in the text, the diagnostics and the log. -/
  reader : Reader
  /-- The number of expression levels that are open. -/
  depth : Nat
  /-- Whether the program has been read. -/
  consumed : Bool

namespace Session

/-- The session that goes on where a scanner stands, with the grammar of the language. -/
def ofScanner (s : Scanner) : Session where
  grammar := .script
  reader := .ofScanner s
  depth := 0
  consumed := false

/-- The session at the start of a text, with the grammar of the language. -/
def ofText (text : String) : Session :=
  ofScanner (.ofText text)

/-- Takes a walk. -/
def walk (s : Session) (w : Walk α) : α × Session :=
  let out := w.run s.reader
  (out.1, { s with reader := out.2 })

/-- Takes a walk that may fail. -/
def perform (s : Session) (p : Parse α) : Except Diagnostic α × Session :=
  s.walk p.run

/-- How expressions are read within the levels that are open. -/
def sub (s : Session) : Power → Parse Expr :=
  s.grammar.expr (Grammar.nestingLimit - s.depth)

/-- The power of the current token as an operator. -/
def currentPower (s : Session) : Power :=
  s.grammar.precedence s.reader.current.kind

/-- The power of the next token as an operator. -/
def nextPower (s : Session) : Power :=
  s.grammar.precedence s.reader.next.kind

/-! ## Moving on -/

/-- Moves on by one token. -/
def advance (s : Session) : Session :=
  (s.walk Walk.advance).2

/-- Moves on to the next token, which must be of the given kind. -/
def expect (s : Session) (k : Kind) : Except Diagnostic Unit × Session :=
  s.perform (Parse.expect k)

/-- Moves on to where a broken statement may be given up. -/
def synchronize (s : Session) : Session :=
  (s.walk (Walk.synchronize s.grammar.startsStatement)).2

/-- Reports a diagnostic. -/
def report (s : Session) (d : Diagnostic) : Session :=
  (s.walk (Walk.report d)).2

/-- Opens an expression level, unless as many are open as may be. -/
def enter (s : Session) : Except Diagnostic Unit × Session :=
  if s.depth < Grammar.nestingLimit then
    (.ok (), { s with depth := s.depth + 1 })
  else
    (.error ⟨.tooDeep Grammar.nestingLimit, s.reader.current.position⟩, s)

/-- Closes an expression level, if one is open. -/
def leave (s : Session) : Session :=
  { s with depth := s.depth - 1 }

/-! ## Reading -/

/-- Reads an expression whose operators bind more tightly than a power. -/
def expr (s : Session) (p : Power) : Except Diagnostic Expr × Session :=
  s.perform (s.sub p)

/-- Reads an operand by a rule, whatever the current token. -/
def operandBy (s : Session) (rule : OperandRule) : Except Diagnostic Expr × Session :=
  s.perform (s.grammar.readOperand s.sub rule)

/-- Goes on with an expression by a rule, whatever the current token. -/
def operatorBy (s : Session) (rule : OperatorRule) (left : Expr) (p : Power) :
    Except Diagnostic Expr × Session :=
  s.perform (rule.read s.sub left p)

/-- Reads a statement. -/
def stmt (s : Session) : Except Diagnostic Stmt × Session :=
  s.perform (s.grammar.stmt s.sub)

/-- Reads a statement by a rule, whatever the current token. -/
def stmtBy (s : Session) (rule : StatementRule) : Except Diagnostic Stmt × Session :=
  s.perform (s.grammar.readStatement s.sub rule)

/-- Reads a statement, or reports why there is none. -/
def stmt? (s : Session) : Option Stmt × Session :=
  s.walk (s.grammar.stmt? s.sub)

/-- Reads a block. -/
def block (s : Session) : Except Diagnostic Block × Session :=
  s.perform (s.grammar.block s.sub)

/-- Reads the program, the first time. -/
def program (s : Session) : Program × Session :=
  if s.consumed then
    (⟨[]⟩, (s.walk (Walk.note .repeated)).2)
  else
    let out := s.walk (s.grammar.program s.sub)
    (⟨out.1⟩, { out.2 with consumed := true })

/-! ## Changing the grammar -/

/-- Gives a kind of token an operand rule. -/
def setOperand (s : Session) (k : Kind) (rule : OperandRule) : Session :=
  { s with grammar := s.grammar.setOperand k rule }

/-- Gives a kind of token an operator rule and a power. -/
def setOperator (s : Session) (k : Kind) (p : Power) (rule : OperatorRule) : Session :=
  { s with grammar := s.grammar.setOperator k p rule }

/-- Gives a kind of token a statement rule. -/
def setStatement (s : Session) (k : Kind) (rule : StatementRule) : Session :=
  { s with grammar := s.grammar.setStatement k rule }

/-- Gives every kind that has a rule in the language that rule. -/
def restoreScript (s : Session) : Session :=
  { s with grammar := s.grammar.overlay .script }

end Session

/-- The program of a text, and the diagnostics. The program is the whole text only if there
    are none. -/
def parse (text : String) : Program × List Diagnostic :=
  let out := (Session.ofText text).program
  (out.1, out.2.reader.errors.toList)

/-- What the reading of a text starts from, and what comes of it. -/
theorem parse_eq (text : String) : parse text =
    (⟨((Grammar.script.program (Grammar.script.expr Grammar.nestingLimit)).run
        (.ofScanner (.ofText text))).1⟩,
      ((Grammar.script.program (Grammar.script.expr Grammar.nestingLimit)).run
        (.ofScanner (.ofText text))).2.errors.toList) := rfl

end Scriptlet
