/-
  When the canonical text of a tree is the text of that tree again.
-/
import Scriptlet.Proofs.Rendering.Tokens

namespace Scriptlet

mutual

/-- The levels that the canonical text of an expression opens one inside another. -/
def Expr.levels : Expr → Nat
  | .name _ | .integer .. | .boolean .. => 0
  | .unary _ _ e => e.levels + 2
  | .binary _ l _ r => max l.levels (r.levels + 1) + 1
  | .conditional _ c b none => max (if c.isOperation then c.levels else c.levels + 1) b.levels
  | .conditional _ c b (some a) =>
    max (max (if c.isOperation then c.levels else c.levels + 1) b.levels) a.levels
  | .function _ _ b => b.levels
  | .call _ f as => max f.levels (Expr.listLevels as)

/-- The levels that the canonical texts of arguments open. -/
def Expr.listLevels : List Expr → Nat
  | [] => 0
  | e :: es => max (e.levels + 1) (Expr.listLevels es)

/-- The levels that the canonical text of a block opens. -/
def Block.levels : Block → Nat
  | .mk _ ss => Stmt.listLevels ss

/-- The levels that the canonical text of a statement opens. -/
def Stmt.levels : Stmt → Nat
  | .var _ _ none | .ret _ none => 0
  | .var _ _ (some e) | .ret _ (some e) | .expr _ e => e.levels + 1

/-- The levels that the canonical texts of statements open. -/
def Stmt.listLevels : List Stmt → Nat
  | [] => 0
  | s :: ss => max s.levels (Stmt.listLevels ss)

end

/-- The levels that the canonical text of a program opens. -/
def Program.levels (p : Program) : Nat := Stmt.listLevels p.statements

/-- The statement is an expression on its own. -/
def Stmt.isExpression : Stmt → Bool
  | .expr .. => true
  | _ => false

/-- The canonical text of the first statement begins with a parenthesis. -/
def Stmt.openFirst : List Stmt → Bool
  | [] => false
  | s :: _ => s.text.toList.head? = some '('

mutual

/-- In every list of statements in the expression, each expression statement stands apart from the
    next. -/
def Expr.separated : Expr → Bool
  | .name _ | .integer .. | .boolean .. => true
  | .unary _ _ e => e.separated
  | .binary _ l _ r => l.separated && r.separated
  | .conditional _ c b none => c.separated && b.separated
  | .conditional _ c b (some a) => c.separated && b.separated && a.separated
  | .function _ _ b => b.separated
  | .call _ f as => f.separated && Expr.separatedAll as

/-- So it is in all the expressions. -/
def Expr.separatedAll : List Expr → Bool
  | [] => true
  | e :: es => e.separated && Expr.separatedAll es

/-- So it is in the block. -/
def Block.separated : Block → Bool
  | .mk _ ss => Stmt.separatedAll ss

/-- So it is inside the statement. -/
def Stmt.separated : Stmt → Bool
  | .var _ _ none | .ret _ none => true
  | .var _ _ (some e) | .ret _ (some e) | .expr _ e => e.separated

/-- So it is inside the statements and between them. -/
def Stmt.separatedAll : List Stmt → Bool
  | [] => true
  | s :: ss => s.separated && (Stmt.separatedAll ss && !(s.isExpression && Stmt.openFirst ss))

end

/-- Each expression statement of the program stands apart from the next. -/
def Program.separated (p : Program) : Bool := Stmt.separatedAll p.statements

end Scriptlet
