/-
  How long canonical texts are.
-/
import Scriptlet.Tree.Canonical

namespace Scriptlet

/-- The characters of a condition, with the parentheses around it. -/
def Expr.conditionWidth (c : Expr) : Nat :=
  if c.isOperation then c.text.length else c.text.length + 2

/-- The characters of expressions with commas between them. -/
def Expr.listWidth (es : List Expr) : Nat := (", ".intercalate (Expr.texts es)).length

/-- The characters of statements, each with a blank after it. -/
def Stmt.listWidth : List Stmt → Nat
  | [] => 0
  | s :: ss => s.text.length + 1 + Stmt.listWidth ss

section

variable {t : Token} {op : String} {c e l r f : Expr} {as es : List Expr} {a b : Block}
  {ps : List Identifier} {ss : List Stmt} {n : Identifier}

theorem Expr.length_text_unary : (unary t op e).text.length = op.length + e.text.length + 2 := by
  simp only [text, ← String.length_toList, String.toList_append, String.reduceToList,
    List.length_append, List.length_cons, List.length_nil]
  omega

theorem Expr.length_text_binary :
    (binary t l op r).text.length = l.text.length + op.length + r.text.length + 4 := by
  simp only [text, ← String.length_toList, String.toList_append, String.reduceToList,
    List.length_append, List.length_cons, List.length_nil]
  omega

theorem Expr.length_condition : (if c.isOperation then c.text else "(" ++ c.text ++ ")").length =
    c.conditionWidth := by
  unfold conditionWidth
  split
  · rfl
  · simp only [← String.length_toList, String.toList_append, String.reduceToList,
      List.length_append, List.length_cons, List.length_nil]
    omega

theorem Expr.length_text_conditional : (conditional t c b none).text.length =
    c.conditionWidth + b.text.length + 4 := by
  simp only [text, String.length_append, length_condition]
  simp only [← String.length_toList, String.reduceToList, List.length_cons, List.length_nil]
  omega

theorem Expr.length_text_alternative : (conditional t c b (some a)).text.length =
    c.conditionWidth + b.text.length + a.text.length + 10 := by
  simp only [text, String.length_append, length_condition]
  simp only [← String.length_toList, String.reduceToList, List.length_cons, List.length_nil]
  omega

theorem Expr.length_text_function : (function t ps b).text.length =
    t.literal.length + (", ".intercalate (ps.map (·.value))).length + b.text.length + 3 := by
  simp only [text, String.length_append]
  simp only [← String.length_toList, String.reduceToList, List.length_cons, List.length_nil]
  omega

theorem Expr.length_text_call :
    (call t f as).text.length = f.text.length + Expr.listWidth as + 2 := by
  simp only [text, listWidth, String.length_append]
  simp only [← String.length_toList, String.reduceToList, List.length_cons, List.length_nil]
  omega

theorem Expr.listWidth_singleton : Expr.listWidth [e] = e.text.length := by
  rw [listWidth, texts, texts, String.intercalate_singleton]

theorem Expr.listWidth_cons (h : es ≠ []) :
    Expr.listWidth (e :: es) = e.text.length + Expr.listWidth es + 2 := by
  have htexts : Expr.texts es ≠ [] := by rw [texts_eq_map]; simpa
  rw [listWidth, texts, String.intercalate_cons_of_ne_nil htexts, String.length_append,
    String.length_append, ← listWidth]
  simp only [← String.length_toList, String.reduceToList, List.length_cons, List.length_nil]
  omega

theorem Stmt.length_intercalate (sep : String) (hsep : sep.length = 1) (h : ss ≠ []) :
    (sep.intercalate (Stmt.texts ss)).length + 1 = Stmt.listWidth ss := by
  induction ss with
  | nil => exact absurd rfl h
  | cons s ss ih =>
    cases ss with
    | nil => simp [texts, listWidth]
    | cons s' ss =>
      have ih := ih (by simp)
      rw [texts, String.intercalate_cons_of_ne_nil (by simp [texts]), String.length_append,
        String.length_append, hsep, listWidth, ← ih]
      omega

theorem Block.length_text : ∀ {ss : List Stmt},
    (Block.mk t ss).text.length = Stmt.listWidth ss + 3
  | [] => by rw [Block.text]; rfl
  | s :: ss => by
    have h := Stmt.length_intercalate " " rfl (List.cons_ne_nil s ss)
    rw [Stmt.texts] at h
    simp only [Block.text, String.length_append]
    simp only [← h, ← String.length_toList, String.reduceToList, List.length_cons, List.length_nil]
    omega

theorem Stmt.length_text_var : (Stmt.var t n (some e)).text.length =
    t.literal.length + n.value.length + e.text.length + 5 := by
  simp only [text, String.length_append]
  simp only [← String.length_toList, String.reduceToList, List.length_cons, List.length_nil]
  omega

theorem Stmt.length_text_ret :
    (Stmt.ret t (some e)).text.length = t.literal.length + e.text.length + 2 := by
  simp only [text, String.length_append]
  simp only [← String.length_toList, String.reduceToList, List.length_cons, List.length_nil]
  omega

end

end Scriptlet
