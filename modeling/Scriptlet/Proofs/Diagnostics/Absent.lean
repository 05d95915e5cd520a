/-
  No value is absent without a diagnostic.
-/
import Mathlib.Algebra.GroupWithZero.Nat
import Scriptlet.Proofs.Diagnostics.Grounds
import Scriptlet.Proofs.Diagnostics.Order
import Scriptlet.Proofs.Reading.Yields

namespace Scriptlet

open Grammar (script nestingLimit)

mutual

/-- The number of absent values in an expression. -/
def Expr.absent : Expr → ℕ
  | .name _ | .integer .. | .boolean .. => 0
  | .unary _ _ e => e.absent
  | .binary _ l _ r => l.absent + r.absent
  | .conditional _ c b none => c.absent + b.absent
  | .conditional _ c b (some a) => c.absent + b.absent + a.absent
  | .function _ _ b => b.absent
  | .call _ f as => f.absent + Expr.absentAll as

/-- The number of absent values in expressions. -/
def Expr.absentAll : List Expr → ℕ
  | [] => 0
  | e :: es => e.absent + Expr.absentAll es

/-- The number of absent values in a block. -/
def Block.absent : Block → ℕ
  | .mk _ ss => Stmt.absentAll ss

/-- The number of absent values in a statement, its own included. -/
def Stmt.absent : Stmt → ℕ
  | .var _ _ none | .ret _ none => 1
  | .var _ _ (some e) | .ret _ (some e) | .expr _ e => e.absent

/-- The number of absent values in statements. -/
def Stmt.absentAll : List Stmt → ℕ
  | [] => 0
  | s :: ss => s.absent + Stmt.absentAll ss

end

/-- The number of absent values in a program. -/
def Program.absent (p : Program) : ℕ :=
  Stmt.absentAll p.statements

theorem Expr.absentAll_eq (es : List Expr) : absentAll es = (es.map absent).sum := by
  induction es with
  | nil => rfl
  | cons e es ih => rw [absentAll, ih, List.map_cons, List.sum_cons]

theorem Stmt.absentAll_append (ss ss' : List Stmt) :
    absentAll (ss ++ ss') = absentAll ss + absentAll ss' := by
  induction ss with
  | nil => exact (Nat.zero_add _).symm
  | cons s ss ih => rw [List.cons_append, absentAll, absentAll, ih, Nat.add_assoc]

/-- The number of absent values in the value of a statement, which may be absent. -/
def Expr.absent? : Option Expr → ℕ
  | none => 1
  | some e => e.absent

theorem Stmt.absent_var (t : Token) (n : Identifier) (value? : Option Expr) :
    (Stmt.var t n value?).absent = Expr.absent? value? := by
  cases value? <;> rfl

theorem Stmt.absent_ret (t : Token) (value? : Option Expr) :
    (Stmt.ret t value?).absent = Expr.absent? value? := by
  cases value? <;> rfl

/-! ## What is reported while something is read -/

/-- For each absent value in what `sub` reads, a diagnostic has been reported meanwhile. -/
structure Accounts (sub : Power → Parse Expr) : Prop where
  account : ∀ {p r e r'}, (sub p).Yields r e r' → e.absent + r.errors.size ≤ r'.errors.size

theorem Reader.Before.size_le {r r' : Reader} (h : r.Before r') :
    r.errors.size ≤ r'.errors.size := by
  simpa using h.length_le

theorem Parse.Yields.size_le {p : Parse α} [hp : Parse.Keeps p] {r r' : Reader} {a : α}
    (h : p.Yields r a r') : r.errors.size ≤ r'.errors.size := by
  have hbefore := hp.before r
  rw [show p.on r = (.ok a, r') from h] at hbefore
  exact hbefore.size_le

namespace Accounts

variable {g : Grammar} {sub : Power → Parse Expr} {r r' : Reader} {e left : Expr} {s : Stmt}
  {b : Block} {p : Power}

theorem after (h : Accounts sub) (hread : (sub p).Yields r.advance e r') :
    e.absent + r.errors.size ≤ r'.errors.size := by
  have hle := h.account hread
  rwa [Reader.errors_advance] at hle

theorem closedExpr (h : Accounts sub) (hread : (Grammar.closedExpr sub).Yields r e r') :
    e.absent + r.errors.size ≤ r'.errors.size := by
  obtain ⟨r₁, hsub, rfl⟩ := Grammar.yields_closedExpr.1 hread
  have hle := h.account hsub
  split
  · rwa [Reader.errors_advance]
  · exact hle

variable [∀ p, Parse.Keeps (sub p)]

/-- An absent value is one that recovery has reported. -/
theorem value (h : Accounts sub) (r : Reader) :
    Expr.absent? ((g.recover (Grammar.closedExpr sub)).run r).1 + r.errors.size ≤
      ((g.recover (Grammar.closedExpr sub)).run r).2.errors.size := by
  have hkeeps := (inferInstance : Parse.Keeps (Grammar.closedExpr sub)).before r
  rw [Grammar.run_recover]
  rcases hon : (Grammar.closedExpr sub).on r with ⟨d | e, r'⟩
  · rw [hon] at hkeeps
    have hle := hkeeps.size_le
    show 1 + r.errors.size ≤ ((r'.report d).synchronize g.startsStatement).errors.size
    rw [Reader.synchronize_errors, Reader.errors_report, Array.size_push, Nat.add_comm]
    exact Nat.succ_le_succ hle
  · exact h.closedExpr hon

theorem stmt (h : Accounts sub) (hread : (g.stmt sub).Yields r s r') :
    s.absent + r.errors.size ≤ r'.errors.size := by
  rw [Grammar.stmt, Parse.yields_current_bind] at hread
  cases hrule : (g.statement r.current.kind).getD .expr with
  | var =>
    rw [hrule] at hread
    obtain ⟨-, -, rfl, rfl⟩ := Grammar.yields_var.1 hread
    rw [Stmt.absent_var]
    exact h.value r.advance.advance.advance
  | ret =>
    rw [hrule] at hread
    obtain ⟨rfl, rfl⟩ := Grammar.yields_ret.1 hread
    rw [Stmt.absent_ret]
    exact h.value r.advance
  | expr =>
    rw [hrule] at hread
    obtain ⟨e, hclosed, rfl⟩ := Grammar.yields_expr.1 hread
    exact h.closedExpr hclosed

theorem rounds (h : Accounts sub) (stop : Kind → Bool) {one : Walk (Option Stmt)}
    (hone : Walk.Alike one (g.stmt? sub)) (r : Reader) :
    Stmt.absentAll ((Walk.untilKind stop one).run r).1 + r.errors.size ≤
      ((Walk.untilKind stop one).run r).2.errors.size := by
  show Stmt.absentAll (Walk.rounds stop one r).1 + r.errors.size ≤
    (Walk.rounds stop one r).2.errors.size
  fun_induction Walk.rounds stop one r with
  | case1 => exact Nat.le_of_eq (Nat.zero_add _)
  | case2 => exact Nat.le_of_eq (Nat.zero_add _)
  | case3 r _ _ _ _ here later ih =>
    obtain ⟨hvalue, hlike⟩ := hone r
    have hround : Stmt.absentAll here.1.toList + r.errors.size ≤ here.2.errors.size := by
      rw [show here.1 = _ from hvalue, show here.2.errors = _ from hlike.errors]
      rw [Grammar.stmt?, Grammar.run_recover]
      rcases hon : (g.stmt sub).on r with ⟨d | s, r'⟩
      · have hbefore := (g.keeps_stmt? sub).before r
        rw [Grammar.stmt?, Grammar.run_recover, hon] at hbefore
        simpa [Stmt.absentAll] using hbefore.size_le
      · exact h.stmt hon
    show Stmt.absentAll (here.1.toList ++ later.1) + r.errors.size ≤ later.2.errors.size
    have hlater : Stmt.absentAll later.1 + here.2.errors.size ≤ later.2.errors.size := ih
    rw [Stmt.absentAll_append]
    omega

theorem block (h : Accounts sub) (hread : (g.block sub).Yields r b r') :
    b.absent + r.errors.size ≤ r'.errors.size := by
  obtain ⟨-, rfl, rfl⟩ := Grammar.yields_block.1 hread
  exact h.rounds (· = .closeBrace) (.refl _) r.advance

theorem conditional (h : Accounts sub) (hread : (g.readOperand sub .conditional).Yields r e r') :
    e.absent + r.errors.size ≤ r'.errors.size := by
  obtain ⟨-, c, r₁, hsub, -, -, b, r₂, hblock, hrest⟩ := Grammar.yields_conditional.1 hread
  have hc := h.account hsub
  have hb := h.block hblock
  simp only [Reader.errors_advance] at hc hb
  split at hrest
  · obtain ⟨-, a, hblock', rfl⟩ := hrest
    have ha := h.block hblock'
    simp only [Reader.errors_advance] at ha
    rw [Expr.absent]
    omega
  · obtain ⟨rfl, rfl⟩ := hrest
    rw [Expr.absent]
    omega

theorem function (h : Accounts sub) (hread : (g.readOperand sub .function).Yields r e r') :
    e.absent + r.errors.size ≤ r'.errors.size := by
  obtain ⟨-, ps, r₁, hps, -, b, hblock, rfl⟩ := Grammar.yields_function.1 hread
  have hle := hps.size_le
  have hb := h.block hblock
  simp only [Reader.errors_advance] at hle hb
  rw [Expr.absent]
  omega

theorem operand {rule : OperandRule} (h : Accounts sub)
    (hread : (g.readOperand sub rule).Yields r e r') :
    e.absent + r.errors.size ≤ r'.errors.size := by
  have hkeeps := hread.size_le
  cases rule with
  | name =>
    rw [Grammar.readOperand, Parse.yields_identifier_bind, Parse.yields_pure] at hread
    obtain ⟨rfl, -⟩ := hread
    simpa [Expr.absent] using hkeeps
  | integer =>
    rw [Grammar.readOperand, Parse.integer, Parse.yields_current_bind] at hread
    split at hread
    · obtain ⟨rfl, -⟩ := Parse.yields_pure.1 hread
      simpa [Expr.absent] using hkeeps
    · exact absurd hread Parse.not_yields_throw
  | boolean =>
    rw [Grammar.readOperand, Parse.yields_current_bind, Parse.yields_pure] at hread
    obtain ⟨rfl, -⟩ := hread
    simpa [Expr.absent] using hkeeps
  | unary =>
    obtain ⟨e, hsub, rfl⟩ := Grammar.yields_unary.1 hread
    have hle := h.after hsub
    rwa [Expr.absent]
  | group =>
    obtain ⟨r₁, hsub, -, rfl⟩ := Grammar.yields_group.1 hread
    have hle := h.after hsub
    rwa [Reader.errors_advance]
  | conditional => exact h.conditional hread
  | function => exact h.function hread

omit [∀ p, Parse.Keeps (sub p)] in
theorem operator {rule : OperatorRule} {n : ℕ} (h : Accounts sub)
    (hleft : left.absent + n ≤ r.errors.size) (hread : (rule.read sub left p).Yields r e r') :
    e.absent + n ≤ r'.errors.size := by
  cases rule with
  | binary =>
    obtain ⟨right, hsub, rfl⟩ := OperatorRule.yields_binary.1 hread
    have hright := h.after hsub
    rw [Expr.absent]
    omega
  | call =>
    obtain ⟨as, hlist, rfl⟩ := OperatorRule.yields_call.1 hread
    have hitem : ∀ {c : Reader} {a c'}, (Grammar.item sub).Yields c a c' →
        a.absent + c.errors.size ≤ c'.errors.size := by
      intro c a c' hread
      rw [Grammar.item, Parse.yields_advance_bind] at hread
      exact h.after hread
    have has : Expr.absentAll as + r.errors.size ≤ r'.errors.size := by
      rw [Expr.absentAll_eq]
      rcases hlist.parenthesised
        (fun as c => (as.map Expr.absent).sum + r.errors.size ≤ c.errors.size)
        (fun hread => by simpa using hitem hread)
        (fun {as c a c'} hle _ hread => by
          have hlater := hitem hread
          rw [Reader.errors_advance] at hlater
          rw [List.map_cons, List.sum_cons]
          omega) with ⟨-, rfl, rfl⟩ | ⟨c, hle, -, rfl⟩
      · simp
      · simpa using hle
    rw [Expr.absent]
    omega

theorem nested (h : Accounts sub) : Accounts (g.nested sub) := by
  refine ⟨fun {p r e r'} hread => ?_⟩
  obtain ⟨rule, first, r₁, -, hfirst, hloop⟩ := Grammar.yields_nested.1 hread
  refine hloop.whileNext (fun e c => e.absent + r.errors.size ≤ c.errors.size) ?_
    (h.operand hfirst)
  intro left c x e' c' hleft _ hbody
  exact h.operator (by rwa [Reader.errors_advance]) hbody

end Accounts

/-- **For each absent value in what is read, a diagnostic is reported**, by any grammar. -/
theorem accounts_expr (g : Grammar) (n : ℕ) : Accounts (g.expr n) := by
  induction n with
  | zero =>
    refine ⟨fun {p r e r'} hread => ?_⟩
    rw [Grammar.expr, Parse.yields_current_bind] at hread
    exact absurd hread Parse.not_yields_throw
  | succ n ih => exact ih.nested

/-! ## The diagnostics of a text -/

theorem filter_tokenize (source : String) :
    (tokenize source).filter (·.kind ≠ .eof) = (Scanner.ofText source).ahead := by
  rw [tokenize, List.filter_append, List.filter_eq_self.2 fun t ht => ?_]
  · simp
  · simpa using (Scanner.spelled_ahead _ t ht).kind_ne_eof

/-- **The diagnostics of a text stand in its order, there are no more of them than tokens, and no
    fewer than absent values.** Only the end of a text of 2³² - 1 characters on one line stands in
    the wrong place, in column 0, and the diagnostics there come last all the same. -/
theorem diagnostics_account {source : String} (h : source.length < 2 ^ 32) :
    ((parse source).2.Pairwise (fun d e => d.position ≤ e.position) ∨
      source.length + 1 = 2 ^ 32 ∧ '\n' ∉ source.toList ∧
        (parse source).2.Pairwise fun d e =>
          e.position = ⟨1, 0⟩ ∨ d.position ≠ ⟨1, 0⟩ ∧ d.position ≤ e.position) ∧
      (parse source).2.length ≤ ((tokenize source).filter (·.kind ≠ .eof)).length ∧
      (parse source).1.absent ≤ (parse source).2.length := by
  have hturned := script.turned_program nestingLimit (.ofScanner (.ofText source))
  have hsorted : (parse source).2.Pairwise fun d e =>
      Position.NotAfter (Scanner.ofText source).finish d.position e.position :=
    (hturned.sorted (Reader.sorted_ofText h)).errors
  refine ⟨?_, ?_, ?_⟩
  · by_cases hline : source.length + 1 = 2 ^ 32 ∧ '\n' ∉ source.toList
    · rw [finish_of_longest_line hline.1 hline.2] at hsorted
      exact .inr ⟨hline.1, hline.2, hsorted⟩
    · refine .inl (hsorted.imp_of_mem fun hd _ horder => ?_)
      rcases horder with hlast | ⟨-, hle⟩
      · obtain ⟨t, ht, hposition⟩ := exists_token_of_mem_parse hd
        rw [hlast, hposition]
        exact position_le_finish h hline ht
      · exact hle
  · rw [filter_tokenize]
    exact (Nat.le_add_right _ _).trans (hturned.number.trans (Nat.le_of_eq (Nat.zero_add _)))
  · obtain ⟨one, hone, hprogram⟩ := script.program_eq (script.expr nestingLimit)
    have haccount := (accounts_expr script nestingLimit).rounds (fun _ => false) hone
      (.ofScanner (.ofText source))
    rw [← hprogram] at haccount
    exact haccount

/-- Four diagnostics for eighteen tokens. The value of `x` is absent; that of `return` is lost with
    the statement that it is in, since two blocks are open at the end of the text. -/
theorem diagnostics_account_open :
    let source := "var x = ;\nf(function() \x7b return @; if (y) \x7b"
    source.length < 2 ^ 32 ∧ (parse source).2.length = 4 ∧
      ((tokenize source).filter (·.kind ≠ .eof)).length = 18 ∧ (parse source).1.absent = 1 ∧
      (parse source).2.Pairwise fun d e => d.position ≤ e.position := by
  intro source
  have hlength : source.length < 2 ^ 32 := by decide +kernel
  have hshort : source.length + 1 ≠ 2 ^ 32 := by decide +kernel
  have horder := (diagnostics_account hlength).1.resolve_right fun hfull => hshort hfull.1
  exact ⟨hlength, by decide +kernel, by decide +kernel, by decide +kernel, horder⟩

/-- On a line of 2³² - 1 characters, of which all but three are blanks, the diagnostic at the end
    stands before the other one. -/
theorem diagnostics_of_longest_line :
    let source := String.ofList ('@' :: ';' :: '(' :: List.replicate (2 ^ 32 - 4) ' ')
    source.length < 2 ^ 32 ∧
      (parse source).2 = [⟨.noOperand .illegal, ⟨1, 1⟩⟩, ⟨.noOperand .eof, ⟨1, 0⟩⟩] ∧
      ¬ (parse source).2.Pairwise fun d e => d.position ≤ e.position := by
  intro source
  have hchars : source.toList = "@;(".toList ++ List.replicate (2 ^ 32 - 4) ' ' :=
    String.toList_ofList
  -- `hchars` says all of the text; its value is dropped, so that no step writes it out
  clear_value source
  have hlength : source.toList.length + 1 = 2 ^ 32 := by
    rw [hchars, List.length_append, List.length_replicate]
    rfl
  have hline : '\n' ∉ source.toList := by
    rw [hchars, List.mem_append, not_or]
    exact ⟨by decide, fun hc => by cases List.eq_of_mem_replicate hc⟩
  have hblank : ∀ c ∈ List.replicate (2 ^ 32 - 4) ' ', isBlank c = true := by
    intro c hc
    rw [List.eq_of_mem_replicate hc]
    rfl
  have hahead : (Scanner.ofText source).ahead = (Scanner.ofText "@;(").ahead := by
    rw [Scanner.ofText, hchars]
    exact Scanner.ahead_followedBy_blanks (.ofText "@;(") hblank
  have hparse : (parse source).2 = [⟨.noOperand .illegal, ⟨1, 1⟩⟩, ⟨.noOperand .eof, ⟨1, 0⟩⟩] := by
    rw [String.length_toList] at hlength
    rw [parse_eq, Reader.ofScanner, hahead, finish_of_longest_line hlength hline]
    decide +kernel
  refine ⟨?_, hparse, ?_⟩
  · rw [← String.length_toList]
    omega
  · rw [hparse]
    decide

end Scriptlet
