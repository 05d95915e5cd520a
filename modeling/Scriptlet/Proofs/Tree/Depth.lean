/-
  How deep the tree of a text is. Taking in an operator opens no level, so
  what an expression goes on with is not counted (`chain_le_limit`).
-/
import Scriptlet.Proofs.Reading.Yields
import Scriptlet.Session

namespace Scriptlet

open Grammar (nestingLimit)

/-- The expression that a statement is made of, if it is there. -/
def Stmt.root? : Stmt → Option Expr
  | .var _ _ value? | .ret _ value? => value?
  | .expr _ e => some e

namespace Expr

/-- The expression that another one goes on with: the left operand, the callee. -/
inductive GoesOn : Expr → Expr → Prop
  | binary {t : Token} {op : String} {l r : Expr} : GoesOn (.binary t l op r) l
  | call {t : Token} {f : Expr} {as : List Expr} : GoesOn (.call t f as) f

/-- An expression and any other one right below it. Those of the statements in a block are right
    below the expression that the block belongs to. -/
inductive Encloses : Expr → Expr → Prop
  | unary {t : Token} {op : String} {e : Expr} : Encloses (.unary t op e) e
  | binary {t : Token} {op : String} {l r : Expr} : Encloses (.binary t l op r) r
  | condition {t : Token} {c : Expr} {b : Block} {a? : Option Block} :
      Encloses (.conditional t c b a?) c
  | consequence {t : Token} {c e : Expr} {b : Block} {a? : Option Block} {s : Stmt} :
      s ∈ b.statements → s.root? = some e → Encloses (.conditional t c b a?) e
  | alternative {t : Token} {c e : Expr} {b a : Block} {s : Stmt} :
      s ∈ a.statements → s.root? = some e → Encloses (.conditional t c b (some a)) e
  | function {t : Token} {ps : List Identifier} {b : Block} {s : Stmt} {e : Expr} :
      s ∈ b.statements → s.root? = some e → Encloses (.function t ps b) e
  | argument {t : Token} {f e : Expr} {as : List Expr} : e ∈ as → Encloses (.call t f as) e

/-- From the expression down there is a chain of `n` expressions, `k` of which are what the one
    above goes on with. -/
inductive Chain : Expr → ℕ → ℕ → Prop
  | single (e : Expr) : Chain e 1 0
  | goesOn {e l : Expr} {n k : ℕ} : e.GoesOn l → Chain l n k → Chain e (n + 1) (k + 1)
  | encloses {e e' : Expr} {n k : ℕ} : e.Encloses e' → Chain e' n k → Chain e (n + 1) k

/-- No chain has more than `n` expressions beside those that it goes on with. -/
def Within (n : ℕ) (e : Expr) : Prop :=
  ∀ m k, e.Chain m k → m ≤ n + k

variable {e : Expr} {n : ℕ}

theorem Within.of_parts (hleft : ∀ l, e.GoesOn l → l.Within (n + 1))
    (hinner : ∀ e', e.Encloses e' → e'.Within n) : e.Within (n + 1) := by
  intro m k h
  cases h with
  | single => omega
  | goesOn hl h =>
    have hle := hleft _ hl _ _ h
    omega
  | encloses he h =>
    have hle := hinner _ he _ _ h
    omega

theorem Within.succ (h : e.Within n) : e.Within (n + 1) := by
  intro m k hchain
  have hle := h m k hchain
  omega

end Expr

/-- The expression of the statement, if it is there, is within `n` levels. -/
def Stmt.Within (n : ℕ) (s : Stmt) : Prop :=
  ∀ e, s.root? = some e → e.Within n

/-! ## What is read with levels to spare -/

/-- Whatever `sub` reads is within `n` levels. -/
structure Shallow (n : ℕ) (sub : Power → Parse Expr) : Prop where
  within : ∀ {p r e r'}, (sub p).Yields r e r' → e.Within n

/-- What rounds give was given by one of them. -/
theorem Walk.exists_of_mem_untilKind {stop : Kind → Bool} {one : Walk (Option α)} {r : Reader}
    {a : α} (h : a ∈ ((untilKind stop one).run r).1) : ∃ c, (one.run c).1 = some a := by
  change a ∈ (rounds stop one r).1 at h
  fun_induction rounds stop one r with
  | case1 => cases h
  | case2 => cases h
  | case3 r _ _ _ _ here later ih =>
    rcases List.mem_append.1 h with h | h
    · exact ⟨r, Option.mem_toList.1 h⟩
    · exact ih h

/-- What is left after recovery has been read. -/
theorem Grammar.yields_of_recover {g : Grammar} {p : Parse α} {r : Reader} {a : α}
    (h : ((g.recover p).run r).1 = some a) : ∃ r', p.Yields r a r' := by
  rw [run_recover] at h
  rcases hon : p.on r with ⟨d | a', r'⟩
  · rw [hon] at h
    cases h
  · rw [hon] at h
    cases h
    exact ⟨r', hon⟩

namespace Shallow

variable {g : Grammar} {sub : Power → Parse Expr} {n : ℕ} {r r' : Reader} {e left : Expr}
  {s : Stmt} {b : Block} {p : Power}

theorem closedExpr (h : Shallow n sub) (hread : (Grammar.closedExpr sub).Yields r e r') :
    e.Within n := by
  obtain ⟨r₁, hsub, -⟩ := Grammar.yields_closedExpr.1 hread
  exact h.within hsub

theorem stmt (h : Shallow n sub) (hread : (g.stmt sub).Yields r s r') : s.Within n := by
  rw [Grammar.stmt, Parse.yields_current_bind] at hread
  intro e he
  cases hrule : (g.statement r.current.kind).getD .expr with
  | var =>
    rw [hrule] at hread
    obtain ⟨-, -, rfl, -⟩ := Grammar.yields_var.1 hread
    obtain ⟨_, hvalue⟩ := Grammar.yields_of_recover he
    exact h.closedExpr hvalue
  | ret =>
    rw [hrule] at hread
    obtain ⟨rfl, -⟩ := Grammar.yields_ret.1 hread
    obtain ⟨_, hvalue⟩ := Grammar.yields_of_recover he
    exact h.closedExpr hvalue
  | expr =>
    rw [hrule] at hread
    obtain ⟨e', hclosed, rfl⟩ := Grammar.yields_expr.1 hread
    cases he
    exact h.closedExpr hclosed

theorem stmt? (h : Shallow n sub) (hs : ((g.stmt? sub).run r).1 = some s) : s.Within n := by
  obtain ⟨_, hread⟩ := Grammar.yields_of_recover hs
  exact h.stmt hread

theorem block (h : Shallow n sub) (hread : (g.block sub).Yields r b r') :
    ∀ s ∈ b.statements, s.Within n := by
  obtain ⟨-, rfl, -⟩ := Grammar.yields_block.1 hread
  intro s hs
  obtain ⟨_, hround⟩ := Walk.exists_of_mem_untilKind hs
  exact h.stmt? hround

theorem conditional (h : Shallow n sub) (hread : (g.readOperand sub .conditional).Yields r e r') :
    e.Within (n + 1) := by
  obtain ⟨-, c, r₁, hsub, -, -, b, r₂, hblock, hrest⟩ := Grammar.yields_conditional.1 hread
  split at hrest
  · obtain ⟨-, a, hblock', rfl⟩ := hrest
    refine .of_parts (by rintro l ⟨⟩) fun e' he => ?_
    cases he with
    | condition => exact h.within hsub
    | consequence hs he => exact h.block hblock _ hs _ he
    | alternative hs he => exact h.block hblock' _ hs _ he
  · obtain ⟨rfl, -⟩ := hrest
    refine .of_parts (by rintro l ⟨⟩) fun e' he => ?_
    cases he with
    | condition => exact h.within hsub
    | consequence hs he => exact h.block hblock _ hs _ he

/-- An operand is a leaf, or opens a level for all that it encloses. -/
theorem operand {rule : OperandRule} (h : Shallow n sub)
    (hread : (g.readOperand sub rule).Yields r e r') : e.Within (n + 1) := by
  cases rule with
  | name =>
    rw [Grammar.readOperand, Parse.yields_identifier_bind, Parse.yields_pure] at hread
    obtain ⟨rfl, -⟩ := hread
    exact .of_parts (by rintro l ⟨⟩) (by rintro e' ⟨⟩)
  | integer =>
    rw [Grammar.readOperand, Parse.integer, Parse.yields_current_bind] at hread
    split at hread
    · obtain ⟨rfl, -⟩ := Parse.yields_pure.1 hread
      exact .of_parts (by rintro l ⟨⟩) (by rintro e' ⟨⟩)
    · exact absurd hread Parse.not_yields_throw
  | boolean =>
    rw [Grammar.readOperand, Parse.yields_current_bind, Parse.yields_pure] at hread
    obtain ⟨rfl, -⟩ := hread
    exact .of_parts (by rintro l ⟨⟩) (by rintro e' ⟨⟩)
  | unary =>
    obtain ⟨e₁, hsub, rfl⟩ := Grammar.yields_unary.1 hread
    refine .of_parts (by rintro l ⟨⟩) fun e' he => ?_
    cases he
    exact h.within hsub
  | group =>
    obtain ⟨r₁, hsub, -⟩ := Grammar.yields_group.1 hread
    exact (h.within hsub).succ
  | conditional => exact h.conditional hread
  | function =>
    obtain ⟨-, ps, r₁, -, -, b, hblock, rfl⟩ := Grammar.yields_function.1 hread
    refine .of_parts (by rintro l ⟨⟩) fun e' he => ?_
    cases he with
    | function hs he => exact h.block hblock _ hs _ he

/-- An operator opens a level for what comes after it, and none for what stands before. -/
theorem operator {rule : OperatorRule} (h : Shallow n sub) (hleft : left.Within (n + 1))
    (hread : (rule.read sub left p).Yields r e r') : e.Within (n + 1) := by
  cases rule with
  | binary =>
    obtain ⟨right, hsub, rfl⟩ := OperatorRule.yields_binary.1 hread
    refine .of_parts (fun l hl => ?_) fun e' he => ?_
    · cases hl
      exact hleft
    · cases he
      exact h.within hsub
  | call =>
    obtain ⟨as, hlist, rfl⟩ := OperatorRule.yields_call.1 hread
    have hitem : ∀ {c : Reader} {a c'}, (Grammar.item sub).Yields c a c' → a.Within n := by
      intro c a c' hread
      rw [Grammar.item, Parse.yields_advance_bind] at hread
      exact h.within hread
    have has : ∀ a ∈ as, a.Within n := by
      rcases hlist.parenthesised (fun as _ => ∀ a ∈ as, a.Within n)
        (fun hread => by simpa using hitem hread)
        (fun hall _ hread => by simpa using ⟨hitem hread, hall⟩) with ⟨-, rfl, -⟩ | ⟨_, hall, -⟩
      · simp
      · simpa using hall
    refine .of_parts (fun l hl => ?_) fun e' he => ?_
    · cases hl
      exact hleft
    · cases he with
      | argument ha => exact has _ ha

theorem nested (h : Shallow n sub) : Shallow (n + 1) (g.nested sub) := by
  refine ⟨fun {p r e r'} hread => ?_⟩
  obtain ⟨rule, first, r₁, -, hfirst, hloop⟩ := Grammar.yields_nested.1 hread
  refine hloop.whileNext (fun e _ => e.Within (n + 1)) ?_ (h.operand hfirst)
  intro left c x e' c' hleft _ hbody
  exact h.operator hleft hbody

end Shallow

/-- **What is read with `n` levels to spare is within `n` levels**, by any grammar. -/
theorem shallow_expr (g : Grammar) (n : ℕ) : Shallow n (g.expr n) := by
  induction n with
  | zero =>
    refine ⟨fun {p r e r'} hread => ?_⟩
    rw [Grammar.expr, Parse.yields_current_bind] at hread
    exact absurd hread Parse.not_yields_throw
  | succ n ih => exact ih.nested

/-! ## The program of a text -/

/-- **No chain of expressions in the tree of a text is longer than the levels allowed**, beside the
    left operands and callees in it, with or without diagnostics. -/
theorem chain_le_limit {source : String} {s : Stmt} {e : Expr} {n k : ℕ}
    (hs : s ∈ (parse source).1.statements) (he : s.root? = some e) (h : e.Chain n k) :
    n ≤ nestingLimit + k := by
  change s ∈ ((Grammar.script.program _).run _).1 at hs
  rw [Grammar.program_eq_untilKind] at hs
  obtain ⟨c, hround⟩ := Walk.exists_of_mem_untilKind hs
  have hkeep : ∀ (s? : Option Stmt) (r : Reader), ((Grammar.keep s?).run r).1 = s? := by
    intro s? r
    cases s? <;> rfl
  rw [Walk.run_bind, hkeep] at hround
  exact (shallow_expr _ _).stmt? hround e he n k h

/-- The number of expressions on the way down that takes the left operand, the callee or the operand
    after a unary operator each time, and how many of them the one above goes on with. -/
def Expr.descent : Expr → ℕ × ℕ
  | .unary _ _ e => (e.descent.1 + 1, e.descent.2)
  | .binary _ l _ _ => (l.descent.1 + 1, l.descent.2 + 1)
  | .call _ f _ => (f.descent.1 + 1, f.descent.2 + 1)
  | _ => (1, 0)

theorem Expr.chain_descent : ∀ e : Expr, e.Chain e.descent.1 e.descent.2
  | .unary _ _ e => .encloses .unary e.chain_descent
  | .binary _ l _ _ => .goesOn .binary l.chain_descent
  | .call _ f _ => .goesOn .call f.chain_descent
  | .name _ | .integer .. | .boolean .. | .conditional .. | .function .. => .single _

/-- A chain may be longer by its one left operand, with 127 unary operators before it. -/
theorem chain_le_limit_attained :
    let source := String.ofList (List.replicate 127 '-') ++ "1 + 1"
    ∃ s ∈ (parse source).1.statements, ∃ e, s.root? = some e ∧ e.Chain 129 1 ∧
      129 ≤ nestingLimit + 1 := by
  intro source
  have hdeep : ∃ s ∈ (parse source).1.statements, s.root?.map Expr.descent = some (129, 1) := by
    decide +kernel
  obtain ⟨s, hs, hdescent⟩ := hdeep
  obtain ⟨e, he, hdescent⟩ := Option.map_eq_some_iff.1 hdescent
  have hchain := e.chain_descent
  rw [hdescent] at hchain
  exact ⟨s, hs, e, he, hchain, chain_le_limit hs he hchain⟩

/-- Left operands are not bounded: a sum of 129 terms is read without a diagnostic, and its tree has
    a chain of 129 expressions. -/
theorem chain_exceeds_limit :
    let source := "1" ++ String.join (List.replicate 128 "+1")
    (parse source).2 = [] ∧ ¬ ∀ s ∈ (parse source).1.statements, ∀ e, s.root? = some e →
      ∀ n k, e.Chain n k → n ≤ nestingLimit := by
  intro source
  have hdeep : (parse source).2 = [] ∧
      ∃ s ∈ (parse source).1.statements, s.root?.map Expr.descent = some (129, 128) := by
    decide +kernel
  obtain ⟨hclean, s, hs, hdescent⟩ := hdeep
  obtain ⟨e, he, hdescent⟩ := Option.map_eq_some_iff.1 hdescent
  refine ⟨hclean, fun h => ?_⟩
  have hchain := e.chain_descent
  rw [hdescent] at hchain
  exact absurd (h s hs e he 129 128 hchain) (by decide)

end Scriptlet
