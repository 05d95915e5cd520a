/-
  The reader accepts exactly the language of the grammar.
-/
import Scriptlet.Proofs.Language.Soundness
import Scriptlet.Session

namespace Scriptlet

open Grammar (script)

/-- A round of reading a program differs from reading a statement by a record in the log. -/
theorem Grammar.program_eq (g : Grammar) (sub : Power → Parse Expr) :
    ∃ one, Walk.Alike one (g.stmt? sub) ∧ g.program sub = Walk.untilKind (fun _ => false) one := by
  refine ⟨_, fun r => ?_, rfl⟩
  simp only [Walk.run_bind]
  rcases (g.stmt? sub).run r with ⟨_ | s, r'⟩ <;> exact ⟨rfl, rfl, rfl, rfl⟩

/-- A reading of all tokens ahead is clean just if they are derived. -/
theorem Grammar.run_program_iff {n : Nat} {r : Reader} (hr : r.Spelled) (ss : List Stmt) :
    (((script.program (script.expr n)).run r).1 = ss ∧
      ((script.program (script.expr n)).run r).2.errors = r.errors) ↔
    Derived n .statements r.ahead ss := by
  have hkeeps := script.keeps_program (script.expr n)
  obtain ⟨one, hone, heq⟩ := script.program_eq (script.expr n)
  have hone' : Walk.Keeps one := ⟨fun r => by
    have hbefore := (script.keeps_stmt? (script.expr n)).before r
    rwa [Reader.Before, ← (hone r).2.errors] at hbefore⟩
  rw [heq]
  constructor
  · rintro ⟨rfl, hclean⟩
    obtain ⟨ts, hder, hahead, hstop⟩ := (sound_expr n).statements _ hone hr hclean
    have hend : ((Walk.untilKind (fun _ => false) one).run r).2.ahead = [] := by
      rcases h : ((Walk.untilKind (fun _ => false) one).run r).2.ahead with _ | ⟨t, rest⟩
      · rfl
      · exact absurd (hstop t (by simp [h])) (by decide)
    rwa [hahead, hend, List.append_nil]
  · rintro ⟨d, hd, hder⟩
    obtain ⟨r', -, herr, hrun⟩ := hder.read hr n hd (fun _ => false) one hone (by simp) r []
      (by simp) (by simp)
    rw [hrun]
    exact ⟨rfl, herr⟩

/-- A text is read without a diagnostic, as a program, just if its tokens are derived with the
    statements of the program. -/
theorem parse_eq_iff {text : String} {p : Program} :
    parse text = (p, []) ↔
      Derived Grammar.nestingLimit .statements (Scanner.ofText text).ahead p.statements := by
  have hiff := Grammar.run_program_iff (n := Grammar.nestingLimit)
    (r := .ofScanner (.ofText text)) (Scanner.spelled_ahead _) p.statements
  rw [parse_eq, Prod.mk.injEq, Array.toList_eq_nil_iff]
  refine Iff.trans (and_congr_left' ?_) hiff
  constructor
  · rintro rfl; rfl
  · exact fun h => congrArg Program.mk h

/-- The tokens of a text without the end token are those that the scanner gives. -/
theorem dropLast_tokenize (text : String) :
    (tokenize text).dropLast = (Scanner.ofText text).ahead := by
  simp [tokenize]

/-- **A text is read without a diagnostic exactly if the grammar derives its tokens** within the
    allowed levels. -/
theorem parse_accepts_iff (text : String) :
    (parse text).2 = [] ↔ Derivable (tokenize text).dropLast := by
  rw [dropLast_tokenize]
  constructor
  · intro h
    obtain ⟨d, hd, hder⟩ := parse_eq_iff.1 (show parse text = ((parse text).1, []) by rw [← h])
    exact ⟨d, hd, _, hder⟩
  · rintro ⟨d, hd, ss, hder⟩
    have hparse : parse text = (⟨ss⟩, []) := parse_eq_iff.2 ⟨d, hd, hder⟩
    rw [hparse]

end Scriptlet
