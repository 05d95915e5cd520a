/-
  Grammars: which rule reads what a token of each kind begins.

  A grammar is a table of rules by kind of token. Operand rules read an
  expression from its first token on; operator rules go on with an
  expression that has been read; statement rules read a statement. A kind
  without a statement rule begins an expression statement.

  * `Grammar.precedence` is the power of a kind as an operator, the lowest
    if it has none.
  * `Grammar.setOperand`, `Grammar.setOperator` and `Grammar.setStatement`
    give a kind a rule, in place of any it had; an operator gets its rule
    and its power together.
  * `Grammar.script` is the grammar of the language, and
    `Grammar.overlay g h` is `h` where it has an entry, and `g` elsewhere.
-/
import Scriptlet.Kind
import Scriptlet.Power

namespace Scriptlet

/-- How to read an expression from its first token. -/
inductive OperandRule where
  | name
  | integer
  | boolean
  /-- an operator and the operand after it -/
  | unary
  /-- an expression in parentheses -/
  | group
  | conditional
  | function
deriving DecidableEq, Repr

/-- How to go on with an expression that stands before the token. -/
inductive OperatorRule where
  /-- an operator and its second operand -/
  | binary
  /-- the arguments of a call -/
  | call
deriving DecidableEq, Repr

/-- How to read a statement. -/
inductive StatementRule where
  | var
  | ret
  | expr
deriving DecidableEq, Repr

/-- The rules of a language, by kind of token. -/
structure Grammar where
  /-- The statements that begin with a kind of token. -/
  statement : Kind → Option StatementRule
  /-- The operands that begin with a kind of token. -/
  operand : Kind → Option OperandRule
  /-- What a kind of token does after an operand. -/
  operator : Kind → Option OperatorRule
  /-- How tightly a kind of token binds the operand before it. -/
  power : Kind → Option Power

namespace Grammar

/-- The power of a kind of token as an operator. -/
def precedence (g : Grammar) (k : Kind) : Power :=
  (g.power k).getD .lowest

/-- Gives a kind of token a statement rule. -/
def setStatement (g : Grammar) (k : Kind) (r : StatementRule) : Grammar :=
  { g with statement := fun k' => if k' = k then some r else g.statement k' }

/-- Gives a kind of token an operand rule. -/
def setOperand (g : Grammar) (k : Kind) (r : OperandRule) : Grammar :=
  { g with operand := fun k' => if k' = k then some r else g.operand k' }

/-- Gives a kind of token an operator rule and a power. -/
def setOperator (g : Grammar) (k : Kind) (p : Power) (r : OperatorRule) : Grammar :=
  { g with
    operator := fun k' => if k' = k then some r else g.operator k'
    power := fun k' => if k' = k then some p else g.power k' }

/-- The grammar `h` where it has an entry, and `g` elsewhere. -/
def overlay (g h : Grammar) : Grammar where
  statement k := (h.statement k).or (g.statement k)
  operand k := (h.operand k).or (g.operand k)
  operator k := (h.operator k).or (g.operator k)
  power k := (h.power k).or (g.power k)

/-- The grammar of the language. -/
def script : Grammar where
  statement
    | .varWord => some .var
    | .returnWord => some .ret
    | _ => none
  operand
    | .identifier => some .name
    | .integer => some .integer
    | .trueWord | .falseWord => some .boolean
    | .bang | .minus => some .unary
    | .openParen => some .group
    | .ifWord => some .conditional
    | .functionWord => some .function
    | _ => none
  operator
    | .equal | .notEqual | .less | .greater | .plus | .minus | .star | .slash => some .binary
    | .openParen => some .call
    | _ => none
  power
    | .equal | .notEqual => some .equality
    | .less | .greater => some .comparison
    | .plus | .minus => some .sum
    | .star | .slash => some .product
    | .openParen => some .call
    | _ => none

/-- The kinds that have an entry in a table, in declared order. -/
def entries (table : Kind → Option α) : List Kind :=
  Kind.all.filter fun k => (table k).isSome

theorem mem_entries {table : Kind → Option α} {k : Kind} :
    k ∈ entries table ↔ (table k).isSome = true := by
  simp [entries, Kind.mem_all]

end Grammar

end Scriptlet
