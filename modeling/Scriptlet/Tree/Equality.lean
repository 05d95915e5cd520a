/-
  Equality of trees: decided node by node, tokens and their places
  included.

  `Expr.same`, `Block.same` and `Stmt.same` compare two trees and hold
  exactly of equal ones (`Expr.same_iff`, `Block.same_iff`, `Stmt.same_iff`),
  which makes equality of programs decidable.
-/
import Scriptlet.Tree

namespace Scriptlet

mutual

/-- Whether two expressions are the same. -/
def Expr.same : Expr → Expr → Bool
  | .name i, .name i' => i = i'
  | .integer t v, .integer t' v' => t = t' && v = v'
  | .boolean t v, .boolean t' v' => t = t' && v = v'
  | .unary t op e, .unary t' op' e' => t = t' && op = op' && e.same e'
  | .binary t l op r, .binary t' l' op' r' =>
    t = t' && op = op' && l.same l' && r.same r'
  | .conditional t c b none, .conditional t' c' b' none => t = t' && c.same c' && b.same b'
  | .conditional t c b (some a), .conditional t' c' b' (some a') =>
    t = t' && c.same c' && b.same b' && a.same a'
  | .function t ps b, .function t' ps' b' => t = t' && ps = ps' && b.same b'
  | .call t f as, .call t' f' as' => t = t' && f.same f' && Expr.sameAll as as'
  | _, _ => false

/-- Whether two lists hold the same expressions. -/
def Expr.sameAll : List Expr → List Expr → Bool
  | [], [] => true
  | e :: es, e' :: es' => e.same e' && Expr.sameAll es es'
  | _, _ => false

/-- Whether two blocks are the same. -/
def Block.same : Block → Block → Bool
  | .mk t ss, .mk t' ss' => t = t' && Stmt.sameAll ss ss'

/-- Whether two statements are the same. -/
def Stmt.same : Stmt → Stmt → Bool
  | .var t n none, .var t' n' none => t = t' && n = n'
  | .var t n (some e), .var t' n' (some e') => t = t' && n = n' && e.same e'
  | .ret t none, .ret t' none => t = t'
  | .ret t (some e), .ret t' (some e') => t = t' && e.same e'
  | .expr t e, .expr t' e' => t = t' && e.same e'
  | _, _ => false

/-- Whether two lists hold the same statements. -/
def Stmt.sameAll : List Stmt → List Stmt → Bool
  | [], [] => true
  | s :: ss, s' :: ss' => s.same s' && Stmt.sameAll ss ss'
  | _, _ => false

end

mutual

theorem Expr.same_iff : ∀ a b : Expr, a.same b = true ↔ a = b
  | .name _, b => by cases b <;> simp [Expr.same]
  | .integer .., b => by cases b <;> simp [Expr.same]
  | .boolean .., b => by cases b <;> simp [Expr.same]
  | .unary _ _ e, b => by cases b <;> simp [Expr.same, Expr.same_iff e, and_assoc]
  | .binary _ l _ r, b => by
    cases b <;> simp [Expr.same, Expr.same_iff l, Expr.same_iff r, and_assoc]
    grind
  | .conditional _ c t none, b => by
    rcases b with _ | _ | _ | _ | _ | ⟨_, _, _, _ | _⟩ | _ | _ <;>
      simp [Expr.same, Expr.same_iff c, Block.same_iff t, and_assoc]
  | .conditional _ c t (some e), b => by
    rcases b with _ | _ | _ | _ | _ | ⟨_, _, _, _ | _⟩ | _ | _ <;>
      simp [Expr.same, Expr.same_iff c, Block.same_iff t, Block.same_iff e, and_assoc]
  | .function _ _ t, b => by cases b <;> simp [Expr.same, Block.same_iff t, and_assoc]
  | .call _ f as, b => by
    cases b <;> simp [Expr.same, Expr.same_iff f, Expr.sameAll_iff as, and_assoc]

theorem Expr.sameAll_iff : ∀ as bs : List Expr, Expr.sameAll as bs = true ↔ as = bs
  | [], bs => by cases bs <;> simp [Expr.sameAll]
  | e :: es, bs => by cases bs <;> simp [Expr.sameAll, Expr.same_iff e, Expr.sameAll_iff es]

theorem Block.same_iff : ∀ a b : Block, a.same b = true ↔ a = b
  | .mk _ ss, .mk _ _ => by simp [Block.same, Stmt.sameAll_iff ss]

theorem Stmt.same_iff : ∀ a b : Stmt, a.same b = true ↔ a = b
  | .var _ _ none, b => by
    rcases b with ⟨_, _, _ | _⟩ | _ | _ <;> simp [Stmt.same]
  | .var _ _ (some e), b => by
    rcases b with ⟨_, _, _ | _⟩ | _ | _ <;> simp [Stmt.same, Expr.same_iff e, and_assoc]
  | .ret _ none, b => by
    rcases b with _ | ⟨_, _ | _⟩ | _ <;> simp [Stmt.same]
  | .ret _ (some e), b => by
    rcases b with _ | ⟨_, _ | _⟩ | _ <;> simp [Stmt.same, Expr.same_iff e]
  | .expr _ e, b => by cases b <;> simp [Stmt.same, Expr.same_iff e]

theorem Stmt.sameAll_iff : ∀ as bs : List Stmt, Stmt.sameAll as bs = true ↔ as = bs
  | [], bs => by cases bs <;> simp [Stmt.sameAll]
  | s :: ss, bs => by cases bs <;> simp [Stmt.sameAll, Stmt.same_iff s, Stmt.sameAll_iff ss]

end

instance : DecidableEq Expr := fun a b => decidable_of_iff _ (Expr.same_iff a b)
instance : DecidableEq Block := fun a b => decidable_of_iff _ (Block.same_iff a b)
instance : DecidableEq Stmt := fun a b => decidable_of_iff _ (Stmt.same_iff a b)

theorem Program.ext_iff_statements (p q : Program) : p.statements = q.statements ↔ p = q := by
  cases p; cases q; simp

instance : DecidableEq Program := fun p q => decidable_of_iff _ (p.ext_iff_statements q)

end Scriptlet
