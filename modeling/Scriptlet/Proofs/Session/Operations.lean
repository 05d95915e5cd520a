/-
  What can be done with a session, and what each operation does to the levels
  and to the grammar.
-/
import Scriptlet.Session
import Mathlib.Algebra.Group.Nat.Defs

namespace Scriptlet

/-- A rule for a kind of token. -/
inductive Registration where
  | operand (k : Kind) (rule : OperandRule)
  | operator (k : Kind) (p : Power) (rule : OperatorRule)
  | statement (k : Kind) (rule : StatementRule)

/-- An operation on a session. -/
inductive Operation where
  | advance
  | expect (k : Kind)
  | synchronize
  | report (d : Diagnostic)
  | enter
  | leave
  | expr (p : Power)
  | operandBy (rule : OperandRule)
  | operatorBy (rule : OperatorRule) (left : Expr) (p : Power)
  | stmt
  | stmtBy (rule : StatementRule)
  | stmt?
  | block
  | program
  | register (new : Registration)
  | restoreScript

namespace Session

/-- Gives a kind of token a rule. -/
def register (s : Session) : Registration → Session
  | .operand k rule => s.setOperand k rule
  | .operator k p rule => s.setOperator k p rule
  | .statement k rule => s.setStatement k rule

/-- The session after an operation. -/
def after (s : Session) : Operation → Session
  | .advance => s.advance
  | .expect k => (s.expect k).2
  | .synchronize => s.synchronize
  | .report d => s.report d
  | .enter => s.enter.2
  | .leave => s.leave
  | .expr p => (s.expr p).2
  | .operandBy rule => (s.operandBy rule).2
  | .operatorBy rule left p => (s.operatorBy rule left p).2
  | .stmt => s.stmt.2
  | .stmtBy rule => (s.stmtBy rule).2
  | .stmt? => s.stmt?.2
  | .block => s.block.2
  | .program => s.program.2
  | .register new => s.register new
  | .restoreScript => s.restoreScript

/-- The session after one operation after another. -/
def run (s : Session) (ops : List Operation) : Session :=
  ops.foldl after s

variable {s : Session}

/-- What each operation keeps holds after all of them. -/
theorem run_induction {P : Session → Prop} (h : P s) (hstep : ∀ {s} op, P s → P (s.after op))
    (ops : List Operation) : P (s.run ops) := by
  induction ops generalizing s with
  | nil => exact h
  | cons op ops ih => exact ih (hstep op h)

/-- A level is opened, if there is one left. -/
theorem enter_cases (s : Session) :
    s.depth < Grammar.nestingLimit ∧ s.enter.2 = { s with depth := s.depth + 1 } ∨
      s.enter.2 = s := by
  unfold enter
  split
  · next h => exact .inl ⟨h, rfl⟩
  · exact .inr rfl

theorem program_of_unread (h : s.consumed = false) :
    s.program =
      (⟨((s.grammar.program s.sub).run s.reader).1⟩,
        { s with reader := ((s.grammar.program s.sub).run s.reader).2, consumed := true }) := by
  rw [program, h]
  rfl

/-- The program is read, or a warning is left. -/
theorem program_cases (s : Session) :
    s.program.2 = { (s.walk (s.grammar.program s.sub)).2 with consumed := true } ∨
      s.program.2 = (s.walk (Walk.note .repeated)).2 := by
  unfold program
  split
  · exact .inr rfl
  · exact .inl rfl

/-- Giving rules changes nothing but the grammar. -/
theorem register_eq (s : Session) (new : Registration) :
    ∃ g, s.register new = { s with grammar := g } := by
  cases new <;> exact ⟨_, rfl⟩

theorem foldl_register_eq (s : Session) (new : List Registration) :
    ∃ g, new.foldl register s = { s with grammar := g } := by
  induction new generalizing s with
  | nil => exact ⟨s.grammar, rfl⟩
  | cons first new ih =>
    obtain ⟨g, hfirst⟩ := register_eq s first
    obtain ⟨g', hnew⟩ := ih (s.register first)
    exact ⟨g', by rw [List.foldl_cons, hnew, hfirst]⟩

/-! ## Levels -/

/-- **Reading an expression opens a level, reads within it, and closes it.** -/
theorem expr_eq (s : Session) (p : Power) :
    s.expr p =
      match s.enter with
      | (.error d, s') => (.error d, s')
      | (.ok (), s') =>
        let out := s'.perform (s'.grammar.nested s'.sub p)
        (out.1, out.2.leave) := by
  by_cases hdepth : s.depth < Grammar.nestingLimit
  · have hlevels : Grammar.nestingLimit - s.depth = Grammar.nestingLimit - (s.depth + 1) + 1 := by
      omega
    rw [enter, if_pos hdepth, expr, sub, hlevels]
    rfl
  · rw [enter, if_neg hdepth, expr, sub, Nat.sub_eq_zero_of_le (Nat.le_of_not_lt hdepth)]
    rfl

theorem depth_program (s : Session) : s.program.2.depth = s.depth := by
  rcases program_cases s with hprogram | hprogram <;> (rw [hprogram]; rfl)

/-- An operation opens a level if there is one left, or closes one, or leaves the levels alone. -/
theorem depth_after (op : Operation) :
    s.depth < Grammar.nestingLimit ∧ (s.after op).depth = s.depth + 1 ∨
      (s.after op).depth = s.depth - 1 ∨ (s.after op).depth = s.depth := by
  cases op with
  | enter =>
    rcases enter_cases s with ⟨hlt, henter⟩ | henter
    · exact .inl ⟨hlt, congrArg depth henter⟩
    · exact .inr (.inr (congrArg depth henter))
  | leave => exact .inr (.inl rfl)
  | program => exact .inr (.inr (depth_program s))
  | register new =>
    obtain ⟨g, hregister⟩ := register_eq s new
    exact .inr (.inr (by rw [after, hregister]))
  | _ => exact .inr (.inr rfl)

theorem depth_after_le (op : Operation) (h : s.depth ≤ Grammar.nestingLimit) :
    (s.after op).depth ≤ Grammar.nestingLimit := by
  rcases depth_after (s := s) op with ⟨hlt, hdepth⟩ | hdepth | hdepth <;> omega

/-! ## Grammars -/

/-- An operation changes the grammar only where it gives rules. -/
theorem grammar_after (op : Operation) :
    (s.after op).grammar = s.grammar ∨ (∃ new, (s.after op).grammar = (s.register new).grammar) ∨
      (s.after op).grammar = s.grammar.overlay .script := by
  cases op with
  | enter =>
    refine .inl ?_
    rcases enter_cases s with ⟨-, henter⟩ | henter <;> (rw [after, henter])
  | program =>
    refine .inl ?_
    rcases program_cases s with hprogram | hprogram <;> (rw [after, hprogram]; rfl)
  | register new => exact .inr (.inl ⟨new, rfl⟩)
  | restoreScript => exact .inr (.inr rfl)
  | _ => exact .inl rfl

end Session

end Scriptlet
