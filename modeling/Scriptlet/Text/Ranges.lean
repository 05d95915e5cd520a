/-
  Sets of characters given as inclusive ranges of code points.

  * `Ranges.Mem table c` is membership, `Ranges.contains` decides it
    (`contains_iff`).
-/
namespace Scriptlet.Text

/-- A set of characters: the first and the last code point of each of its ranges. -/
abbrev Ranges := List (Nat × Nat)

namespace Ranges

/-- The character `c` lies in one of the ranges. -/
def Mem (table : Ranges) (c : Char) : Prop :=
  ∃ r ∈ table, r.1 ≤ c.toNat ∧ c.toNat ≤ r.2

/-- Whether the character `c` lies in one of the ranges. -/
def contains (table : Ranges) (c : Char) : Bool :=
  table.any fun r => r.1 ≤ c.toNat && c.toNat ≤ r.2

theorem contains_iff {table : Ranges} {c : Char} : contains table c = true ↔ Mem table c := by
  simp [contains, Mem]

end Ranges

end Scriptlet.Text
