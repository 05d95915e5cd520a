/-
  The canonical text gives the tree back, where no two statements run
  together.
-/
import Scriptlet.Proofs.Rendering.FixedPoint
import Scriptlet.Tree.Equality

namespace Scriptlet

open Grammar (nestingLimit)

/-- **The canonical text of a program is read as the same program again**, without a diagnostic.
    The levels that it opens are those counted on the tree. -/
theorem parse_text_bare {source : String} {p : Program} (h : parse source = (p, []))
    (hsep : p.separated = true) (hlevels : p.levels ≤ nestingLimit) :
    ∃ q : Program, parse p.text = (q, []) ∧ q.bare = p.bare ∧
      Derives p.levels .statements (tokenize p.text).dropLast q.statements := by
  obtain ⟨d, q, hder, -, hsame⟩ := Program.rederived_bare h
  obtain ⟨hbare, rfl⟩ := hsame hsep
  refine ⟨q, parse_eq_iff.2 ⟨p.levels, hlevels, hder⟩, hbare, ?_⟩
  rwa [dropLast_tokenize]

/-- The text has parentheses and a line break where the source has none, and fewer zeros. -/
theorem parse_text_bare_call :
    let p := (parse "f(007)(!a == b) var x = if (y) \x7b return -z * 2 \x7d").1
    p.text = "f(7)(((!a) == b))\nvar x = if (y) \x7b return ((-z) * 2); \x7d;" ∧
      ∃ q, parse p.text = (q, []) ∧ q.bare = p.bare := by
  have hclean : (parse "f(007)(!a == b) var x = if (y) \x7b return -z * 2 \x7d").2 = [] := by
    decide +kernel
  obtain ⟨q, hq, hbare, -⟩ := parse_text_bare (Prod.ext rfl hclean)
    (by decide +kernel) (by decide +kernel)
  exact ⟨by decide +kernel, q, hq, hbare⟩

end Scriptlet
