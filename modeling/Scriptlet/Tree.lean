/-
  Syntax trees.

  A program is a list of statements; a statement binds a name, returns a
  value or stands for an expression; an expression is a name, a literal, an
  operation, a conditional, a function or a call. Every node keeps the token
  that defines it, so a tree knows where it came from.

  * The value of a `var` or `return` statement is absent when it could not
    be read.
  * Grouping parentheses have no node of their own.
  * `Expr.token`, `Block.token` and `Stmt.token` give the defining token of
    a node: the operator of a unary or binary operation, the opening
    parenthesis of a call, the first token of an expression statement.
-/
import Scriptlet.Token

namespace Scriptlet

/-- A name, with the token that spells it. -/
structure Identifier where
  /-- The token. -/
  token : Token
  /-- The name. -/
  value : String
deriving DecidableEq, Repr, Inhabited

mutual

/-- An expression. -/
inductive Expr where
  /-- A name. -/
  | name (identifier : Identifier)
  /-- An integer literal. -/
  | integer (token : Token) (value : Int)
  /-- A truth value. -/
  | boolean (token : Token) (value : Bool)
  /-- An operator before its operand. -/
  | unary (token : Token) (operator : String) (operand : Expr)
  /-- An operator between its operands. -/
  | binary (token : Token) (left : Expr) (operator : String) (right : Expr)
  /-- A choice by `if`, with a second block if there is an `else`. -/
  | conditional (token : Token) (condition : Expr) (consequence : Block)
      (alternative : Option Block)
  /-- A function literal. -/
  | function (token : Token) (parameters : List Identifier) (body : Block)
  /-- A call. -/
  | call (token : Token) (callee : Expr) (arguments : List Expr)

/-- Statements between braces, with the token of the opening brace. -/
inductive Block where
  | mk (token : Token) (statements : List Stmt)

/-- A statement. -/
inductive Stmt where
  /-- A name bound to a value by `var`. -/
  | var (token : Token) (name : Identifier) (value : Option Expr)
  /-- A value handed back by `return`. -/
  | ret (token : Token) (value : Option Expr)
  /-- An expression on its own. -/
  | expr (token : Token) (expression : Expr)

end

instance : Inhabited Expr := ⟨.boolean default false⟩
instance : Inhabited Block := ⟨.mk default []⟩
instance : Inhabited Stmt := ⟨.ret default none⟩

/-- A program: the statements of a text, in order. -/
structure Program where
  /-- The statements. -/
  statements : List Stmt
deriving Inhabited

/-- The token that defines an expression. -/
def Expr.token : Expr → Token
  | .name i => i.token
  | .integer t _ | .boolean t _ | .unary t _ _ | .binary t _ _ _ | .conditional t _ _ _
  | .function t _ _ | .call t _ _ => t

/-- The opening brace of a block. -/
def Block.token : Block → Token
  | .mk t _ => t

/-- The statements of a block. -/
def Block.statements : Block → List Stmt
  | .mk _ ss => ss

/-- The token that defines a statement. -/
def Stmt.token : Stmt → Token
  | .var t _ _ | .ret t _ | .expr t _ => t

/-- The spelling of the token that defines a program: that of its first statement. -/
def Program.literal (p : Program) : String :=
  match p.statements with
  | [] => ""
  | s :: _ => s.token.literal

end Scriptlet
