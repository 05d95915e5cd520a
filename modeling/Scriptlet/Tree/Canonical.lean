/-
  The canonical text of a tree.

  * Every operation stands in parentheses of its own, so that the text shows
    how the operators bind; a condition that is an operation takes no second
    pair.
  * Statements of a program stand one to a line, statements of a block in a
    row between braces.
  * The word a statement or function starts with is spelled as its token is;
    a statement without its value shows what is there.
-/
import Scriptlet.Tree

namespace Scriptlet

/-- An operation, whose canonical text brings parentheses of its own. -/
def Expr.isOperation : Expr → Bool
  | .unary .. | .binary .. => true
  | _ => false

mutual

/-- The canonical text of an expression. -/
def Expr.text : Expr → String
  | .name i => i.value
  | .integer _ v => toString v
  | .boolean _ v => toString v
  | .unary _ op e => "(" ++ op ++ e.text ++ ")"
  | .binary _ l op r => "(" ++ l.text ++ " " ++ op ++ " " ++ r.text ++ ")"
  | .conditional _ c t e =>
    "if " ++ (if c.isOperation then c.text else "(" ++ c.text ++ ")") ++ " " ++ t.text ++
      (match e with
       | none => ""
       | some b => " else " ++ b.text)
  | .function t ps b =>
    t.literal ++ "(" ++ ", ".intercalate (ps.map (·.value)) ++ ") " ++ b.text
  | .call _ f as => f.text ++ "(" ++ ", ".intercalate (Expr.texts as) ++ ")"

/-- The canonical texts of expressions. -/
def Expr.texts : List Expr → List String
  | [] => []
  | e :: es => e.text :: Expr.texts es

/-- The canonical text of a block. -/
def Block.text : Block → String
  | .mk _ [] => "\x7b \x7d"
  | .mk _ (s :: ss) => "\x7b " ++ " ".intercalate (s.text :: Stmt.texts ss) ++ " \x7d"

/-- The canonical text of a statement. -/
def Stmt.text : Stmt → String
  | .var t n none => t.literal ++ " " ++ n.value ++ ";"
  | .var t n (some e) => t.literal ++ " " ++ n.value ++ " = " ++ e.text ++ ";"
  | .ret t none => t.literal ++ ";"
  | .ret t (some e) => t.literal ++ " " ++ e.text ++ ";"
  | .expr _ e => e.text

/-- The canonical texts of statements. -/
def Stmt.texts : List Stmt → List String
  | [] => []
  | s :: ss => s.text :: Stmt.texts ss

end

/-- The canonical text of a program. -/
def Program.text (p : Program) : String :=
  "\n".intercalate (Stmt.texts p.statements)

instance : ToString Expr := ⟨Expr.text⟩
instance : ToString Block := ⟨Block.text⟩
instance : ToString Stmt := ⟨Stmt.text⟩
instance : ToString Program := ⟨Program.text⟩

theorem Expr.texts_eq_map (es : List Expr) : Expr.texts es = es.map Expr.text := by
  induction es with
  | nil => rfl
  | cons e es ih => rw [Expr.texts, ih, List.map_cons]

theorem Stmt.texts_eq_map (ss : List Stmt) : Stmt.texts ss = ss.map Stmt.text := by
  induction ss with
  | nil => rfl
  | cons s ss ih => rw [Stmt.texts, ih, List.map_cons]

end Scriptlet
