/-
  The structure of tokens and trees.
-/
import Scriptlet.Dump
import Scriptlet.Tree

namespace Scriptlet

/-- The structure of a position. -/
def Position.dump (p : Position) : Dump :=
  .tuple "Position" [.ofNat p.line.toNat, .ofNat p.column.toNat]

/-- The structure of a kind of token. -/
def Kind.dump (k : Kind) : Dump := .atom k.label

/-- The structure of a token. -/
def Token.dump (t : Token) : Dump :=
  .record "Token"
    [("kind", t.kind.dump), ("literal", .ofString t.literal), ("position", t.position.dump)]

/-- The structure of a name. -/
def Identifier.dump (i : Identifier) : Dump :=
  .record "Identifier" [("token", i.token.dump), ("value", .ofString i.value)]

mutual

/-- The structure of an expression. -/
def Expr.dump : Expr → Dump
  | .name i => .tuple "Identifier" [i.dump]
  | .integer t v =>
    .tuple "Integer" [.record "Integer" [("token", t.dump), ("value", .atom (toString v))]]
  | .boolean t v =>
    .tuple "Boolean" [.record "Boolean" [("token", t.dump), ("value", .atom (toString v))]]
  | .unary t op e =>
    .tuple "Prefix" [.record "PrefixExpression"
      [("token", t.dump), ("operator", .ofString op), ("right", e.dump)]]
  | .binary t l op r =>
    .tuple "Infix" [.record "InfixExpression"
      [("token", t.dump), ("left", l.dump), ("operator", .ofString op), ("right", r.dump)]]
  | .conditional t c b none =>
    .tuple "If" [.record "IfExpression"
      [("token", t.dump), ("condition", c.dump), ("consequence", b.dump),
       ("alternative", .ofOption none)]]
  | .conditional t c b (some a) =>
    .tuple "If" [.record "IfExpression"
      [("token", t.dump), ("condition", c.dump), ("consequence", b.dump),
       ("alternative", .ofOption (some a.dump))]]
  | .function t ps b =>
    .tuple "Function" [.record "FunctionLiteral"
      [("token", t.dump), ("parameters", .list (ps.map Identifier.dump)), ("body", b.dump)]]
  | .call t f as =>
    .tuple "Call" [.record "CallExpression"
      [("token", t.dump), ("function", f.dump), ("arguments", .list (Expr.dumps as))]]

/-- The structures of expressions. -/
def Expr.dumps : List Expr → List Dump
  | [] => []
  | e :: es => e.dump :: Expr.dumps es

/-- The structure of a block. -/
def Block.dump : Block → Dump
  | .mk t ss => .record "BlockStatement" [("token", t.dump), ("statements", .list (Stmt.dumps ss))]

/-- The structure of a statement. -/
def Stmt.dump : Stmt → Dump
  | .var t n none =>
    .tuple "Var" [.record "VarStatement"
      [("token", t.dump), ("name", n.dump), ("value", .ofOption none)]]
  | .var t n (some e) =>
    .tuple "Var" [.record "VarStatement"
      [("token", t.dump), ("name", n.dump), ("value", .ofOption (some e.dump))]]
  | .ret t none =>
    .tuple "Return" [.record "ReturnStatement"
      [("token", t.dump), ("return_value", .ofOption none)]]
  | .ret t (some e) =>
    .tuple "Return" [.record "ReturnStatement"
      [("token", t.dump), ("return_value", .ofOption (some e.dump))]]
  | .expr t e =>
    .tuple "Expression" [.record "ExpressionStatement"
      [("token", t.dump), ("expression", e.dump)]]

/-- The structures of statements. -/
def Stmt.dumps : List Stmt → List Dump
  | [] => []
  | s :: ss => s.dump :: Stmt.dumps ss

end

/-- The structure of a program. -/
def Program.dump (p : Program) : Dump :=
  .record "Program" [("statements", .list (Stmt.dumps p.statements))]

end Scriptlet
