/-
  Binding powers: how tightly an operator holds its operands.

  Powers are ordered by `Power.rank`, the loosest first; the order is
  linear (`Power.rank_inj`).
-/
namespace Scriptlet

/-- A binding power, the loosest first. -/
inductive Power where
  /-- binds nothing: the power of a token that is no operator -/
  | lowest
  | equality
  | comparison
  | sum
  | product
  /-- the power at which an operator before an operand takes it -/
  | unary
  | call
deriving DecidableEq, Repr, Inhabited

namespace Power

/-- Every power, the loosest first. -/
def all : List Power :=
  [lowest, equality, comparison, sum, product, unary, call]

/-- The number of looser powers. -/
def rank : Power → Nat
  | lowest => 0
  | equality => 1
  | comparison => 2
  | sum => 3
  | product => 4
  | unary => 5
  | call => 6

instance : LT Power := ⟨fun p q => p.rank < q.rank⟩
instance : LE Power := ⟨fun p q => p.rank ≤ q.rank⟩

instance (p q : Power) : Decidable (p < q) := inferInstanceAs (Decidable (p.rank < q.rank))
instance (p q : Power) : Decidable (p ≤ q) := inferInstanceAs (Decidable (p.rank ≤ q.rank))

theorem lt_iff {p q : Power} : p < q ↔ p.rank < q.rank := Iff.rfl

theorem le_iff {p q : Power} : p ≤ q ↔ p.rank ≤ q.rank := Iff.rfl

theorem rank_inj {p q : Power} : p.rank = q.rank ↔ p = q := by
  cases p <;> cases q <;> decide

end Power

end Scriptlet
