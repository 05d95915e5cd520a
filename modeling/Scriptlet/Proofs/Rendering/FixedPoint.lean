/-
  When a canonical text is read as a program of that text again
  (`parse_text_iff`).
-/
import Scriptlet.Proofs.Language.Acceptance
import Scriptlet.Proofs.Language.Levels
import Scriptlet.Proofs.Language.Relocation
import Scriptlet.Proofs.Rendering.Reread

namespace Scriptlet

open Grammar (nestingLimit)

/-- A shorter list of statements has a shorter text. -/
theorem Program.length_text_lt {p q : Program} (hp : p.statements ≠ [])
    (h : Stmt.listWidth p.statements < Stmt.listWidth q.statements) :
    p.text.length < q.text.length := by
  have hq : q.statements ≠ [] := by
    intro hq
    rw [hq] at h
    exact absurd h (Nat.not_lt_zero _)
  have hwidthp := Stmt.length_intercalate "\n" rfl hp
  have hwidthq := Stmt.length_intercalate "\n" rfl hq
  unfold Program.text
  omega

/-- The canonical text of a program read without a diagnostic is derived, as a longer program or as
    the same one. -/
theorem Program.rederived_bare {source : String} {p : Program} (h : parse source = (p, [])) :
    ∃ (d : Nat) (q : Program), Derives d .statements (Scanner.ofText p.text).ahead q.statements ∧
      (p.separated = false → p.text.length < q.text.length) ∧
      (p.separated = true → q.bare = p.bare ∧ d = p.levels) := by
  obtain ⟨d₀, -, hder⟩ := parse_eq_iff.1 h
  have hspelled : Stmt.SpelledAll False p.statements := hder.spelled (Scanner.spelled_ahead _)
  obtain ⟨d, ys, hys, hagain⟩ := (Stmt.listRederived p.statements hspelled).plain
  obtain ⟨zs, hzs, hunplaced⟩ := hys.relocate (Program.map_lexeme_ahead hspelled)
  refine ⟨d, ⟨zs⟩, hzs, fun hsep => ?_, fun hsep => ?_⟩
  · have htexts : Stmt.texts zs = Stmt.texts ys :=
      Stmt.texts_eq_of_retokenAll Retoken.keepsSpelling_unplaced hunplaced
    have hq : Program.text ⟨zs⟩ = Program.text ⟨ys⟩ := congrArg ("\n".intercalate ·) htexts
    rw [hq]
    refine Program.length_text_lt (fun hnil => ?_) (hagain.lt hsep)
    rw [Program.separated, hnil] at hsep
    exact absurd hsep (by decide)
  · obtain ⟨hsame, rfl⟩ := hagain.same hsep
    exact ⟨congrArg Program.mk ((Stmt.bare_eq_of_unplaced hunplaced).trans hsame), rfl⟩

/-- The canonical text of a program read without a diagnostic is derived, and what it is derived
    as. -/
theorem Program.rederived {source : String} {p : Program} (h : parse source = (p, [])) :
    ∃ (d : Nat) (q : Program), Derives d .statements (Scanner.ofText p.text).ahead q.statements ∧
      (p.separated = false → p.text.length < q.text.length) ∧
      (p.separated = true → q.text = p.text ∧ d = p.levels) := by
  obtain ⟨d, q, hder, hlonger, hsame⟩ := Program.rederived_bare h
  refine ⟨d, q, hder, hlonger, fun hsep => ?_⟩
  obtain ⟨hbare, hlevels⟩ := hsame hsep
  exact ⟨Program.text_eq_of_bare hbare, hlevels⟩

/-- **The canonical text of a program read without a diagnostic is read back to the same text just
    if** no expression statement has one that begins with a parenthesis right after it, and the
    text opens no more levels than are allowed. -/
theorem parse_text_iff {source : String} {p : Program} (h : parse source = (p, [])) :
    ((parse p.text).2 = [] ∧ (parse p.text).1.text = p.text) ↔
      p.separated = true ∧ p.levels ≤ nestingLimit := by
  obtain ⟨d, q, hder, hlonger, hsame⟩ := Program.rederived h
  constructor
  · rintro ⟨hclean, htext⟩
    obtain ⟨d', hd', hder'⟩ :=
      parse_eq_iff.1 (show parse p.text = ((parse p.text).1, []) by rw [← hclean])
    obtain ⟨rfl, hstatements⟩ := hder.unique hder' (Scanner.spelled_ahead _)
    have hq : (parse p.text).1.text = q.text := by rw [Program.text, ← hstatements, Program.text]
    cases hsep : p.separated with
    | false =>
      -- the text that is read has one derivation only, and its tree has a longer text
      have hlt := hlonger hsep
      rw [← hq, htext] at hlt
      exact absurd hlt (Nat.lt_irrefl _)
    | true => exact ⟨rfl, (hsame hsep).2 ▸ hd'⟩
  · rintro ⟨hsep, hlevels⟩
    obtain ⟨htext, rfl⟩ := hsame hsep
    have hparse : parse p.text = (q, []) := parse_eq_iff.2 ⟨_, hlevels, hder⟩
    rw [hparse]
    exact ⟨rfl, htext⟩

/-- A call after an expression statement does not begin with a parenthesis. -/
theorem parse_text_sum : let p := (parse "a * (b + c)\nf(-a)").1
    p.text = "(a * (b + c))\nf((-a))" ∧ (parse p.text).2 = [] ∧ (parse p.text).1.text = p.text := by
  have hclean : (parse "a * (b + c)\nf(-a)").2 = [] := by decide +kernel
  exact ⟨by decide +kernel,
    (parse_text_iff (Prod.ext rfl hclean)).2 ⟨by decide +kernel, by decide +kernel⟩⟩

/-- A statement that begins with an operation becomes the argument of the statement before. -/
theorem parse_text_negation : let p := (parse "a; -b").1
    (parse "a; -b").2 = [] ∧ p.text = "a\n(-b)" ∧ (parse p.text).1.text = "a((-b))" := by
  decide +kernel

end Scriptlet
