/-
  Reading by a grammar: how the rules turn tokens into a tree.

  Expressions are read by precedence climbing. `Grammar.expr g n p` reads an
  expression of which no operator binds as loosely as `p`, with `n` levels
  of nesting to spare: it reads an operand, and goes on with every operator
  that binds more tightly than `p` (`Grammar.nested`). Whatever a rule needs
  to read within its own construct it reads through `sub`, which stands for
  the same grammar with one level less, so that reading comes to an end.

  * A rule starts on the first token of its construct, and leaves the reader
    on the last one.
  * A rule fails with a diagnostic. `Grammar.recover` reports it, and moves
    on to the end of the broken statement; the value of a `var` or `return`
    statement recovers on its own, so that the statement is kept.
  * A grouping `(`…`)` leaves no node in the tree.
  * A block ends at its `}`, and its statements recover one by one.
-/
import Scriptlet.Grammar
import Scriptlet.Numeral
import Scriptlet.Walk

namespace Scriptlet

/-- The current token as a name. -/
def Walk.identifier : Walk Identifier := do
  let t ← Walk.current
  return ⟨t, t.literal⟩

/-- The current token as an integer literal. -/
def Parse.integer : Parse Expr := do
  let t ← Walk.current
  match Numeral.integer t.literal.toList with
  | .ok v => return .integer t v
  | .error _ => throw ⟨.unreadableInteger t.literal, t.position⟩

/-- Goes on with the expression `left` by an operator rule, at the operator's power `p`. -/
def OperatorRule.read (sub : Power → Parse Expr) (left : Expr) (p : Power) :
    OperatorRule → Parse Expr
  | .binary => do
    let t ← Walk.current
    Walk.advance
    let right ← sub p
    return .binary t left t.literal right
  | .call => do
    let t ← Walk.current
    let arguments ← Parse.parenthesised do
      Walk.advance
      sub .lowest
    return .call t left arguments

namespace Grammar

variable (g : Grammar)

/-- Whether a statement of its own sort begins with a token of this kind. -/
def startsStatement (k : Kind) : Bool :=
  (g.statement k).isSome

/-- Reads, and if that fails reports why and moves on to where the statement may end. -/
def recover (p : Parse α) : Walk (Option α) := do
  match ← p.run with
  | .ok a => return some a
  | .error d =>
    Walk.report d
    Walk.synchronize g.startsStatement
    return none

theorem run_recover (p : Parse α) (r : Reader) :
    (g.recover p).run r =
      match p.on r with
      | (.ok a, r') => (some a, r')
      | (.error d, r') => (none, (r'.report d).synchronize g.startsStatement) := by
  simp only [recover, Walk.run_bind]
  rcases h : p.on r with ⟨_ | _, r'⟩ <;> simp_all [Parse.on]

/-- The operator rule and the power by which a token of this kind goes on with an expression
    whose operators must bind more tightly than `p`. -/
def binding (p : Power) (k : Kind) : Option (OperatorRule × Power) :=
  if !k.isTerminator && p < g.precedence k then
    (g.operator k).map fun rule => (rule, g.precedence k)
  else none

section

variable (sub : Power → Parse Expr)

/-- Reads an expression and the `;` after it, if there is one. -/
def closedExpr : Parse Expr := do
  let e ← sub .lowest
  Walk.optional .semicolon
  return e

theorem on_closedExpr (r : Reader) :
    (closedExpr sub).on r =
      match (sub .lowest).on r with
      | (.ok e, r') => (.ok e, if r'.next.kind = .semicolon then r'.advance else r')
      | (.error d, r') => (.error d, r') := by
  simp only [closedExpr, Parse.on_bind, Parse.on_lift, Walk.run_optional, Parse.on_pure]
  rcases (sub .lowest).on r with ⟨_ | _, r'⟩ <;> rfl

/-- Reads a statement by its rule. -/
def readStatement : StatementRule → Parse Stmt
  | .var => do
    let t ← Walk.current
    Parse.expect .identifier
    let name ← Walk.identifier
    Parse.expect .assign
    Walk.advance
    let value ← g.recover (closedExpr sub)
    return .var t name value
  | .ret => do
    let t ← Walk.current
    Walk.advance
    let value ← g.recover (closedExpr sub)
    return .ret t value
  | .expr => do
    let t ← Walk.current
    let e ← closedExpr sub
    return .expr t e

/-- Reads a statement. -/
def stmt : Parse Stmt := do
  let t ← Walk.current
  g.readStatement sub ((g.statement t.kind).getD .expr)

/-- Reads a statement, or reports why there is none. -/
def stmt? : Walk (Option Stmt) :=
  g.recover (g.stmt sub)

/-- Reads a block, from its `{` on. -/
def block : Parse Block := do
  let t ← Walk.current
  Walk.advance
  let statements ← Walk.untilKind (· = .closeBrace) (g.stmt? sub)
  let last ← Walk.current
  if last.kind = .eof then throw ⟨.unexpected .closeBrace .eof, last.position⟩
  return .mk t statements

/-- Reads statements to the end of the text. -/
def program : Walk (List Stmt) :=
  Walk.untilKind (fun _ => false) do
    let s? ← g.stmt? sub
    if let some s := s? then Walk.note (.kept s)
    return s?

/-- Reads an operand by its rule. -/
def readOperand : OperandRule → Parse Expr
  | .name => return .name (← Walk.identifier)
  | .integer => Parse.integer
  | .boolean => do
    let t ← Walk.current
    return .boolean t (t.kind = .trueWord)
  | .unary => do
    let t ← Walk.current
    Walk.advance
    let operand ← sub .unary
    return .unary t t.literal operand
  | .group => do
    Walk.advance
    let e ← sub .lowest
    Parse.expect .closeParen
    return e
  | .conditional => do
    let t ← Walk.current
    Parse.expect .openParen
    Walk.advance
    let condition ← sub .lowest
    Parse.expect .closeParen
    Parse.expect .openBrace
    let consequence ← g.block sub
    if (← Walk.next).kind = .elseWord then
      Walk.advance
      Parse.expect .openBrace
      let alternative ← g.block sub
      return .conditional t condition consequence (some alternative)
    else
      return .conditional t condition consequence none
  | .function => do
    let t ← Walk.current
    Parse.expect .openParen
    let parameters ← Parse.parenthesised do
      Parse.expect .identifier
      Walk.identifier
    Parse.expect .openBrace
    let body ← g.block sub
    return .function t parameters body

/-- Reads an operand, and goes on with the operators that bind more tightly than `p`. -/
def nested (p : Power) : Parse Expr := do
  let t ← Walk.current
  match g.operand t.kind with
  | none => throw ⟨.noOperand t.kind, t.position⟩
  | some rule =>
    let first ← g.readOperand sub rule
    Parse.whileNext (g.binding p) (fun (rule, q) left => rule.read sub left q) first

end

/-- The number of levels in which expressions may be nested. -/
def nestingLimit : Nat := 128

/-- Reads an expression whose operators bind more tightly than a power, nested in no more than
    `levels` levels. -/
def expr : (levels : Nat) → Power → Parse Expr
  | 0, _ => do
    let t ← Walk.current
    throw ⟨.tooDeep nestingLimit, t.position⟩
  | levels + 1, p => g.nested (expr levels) p

end Grammar

end Scriptlet
