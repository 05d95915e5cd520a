/-
  The tree of a text is made from its tokens, in their order and each used
  once, with or without diagnostics.
-/
import Scriptlet.Proofs.Language.Acceptance
import Scriptlet.Proofs.Reading.Yields
import Scriptlet.Proofs.Text.Places
import Scriptlet.Proofs.Tree.Nodes

namespace Scriptlet

open Grammar (script nestingLimit)

theorem Node.fits_expr {t : Token} {rule : OperandRule} (hk : t.kind ∈ rule.kinds) :
    (Node.expr t).Fits := by
  have hkinds : rule.kinds ⊆ [.identifier, .integer, .trueWord, .falseWord, .bang, .minus,
      .openParen, .ifWord, .functionWord] := by
    cases rule <;> decide
  exact hkinds hk

/-- What `sub` reads is made from the tokens that it has passed over. -/
structure Faithful (sub : Power → Parse Expr) : Prop where
  begins : ∀ {p r e r'}, (sub p).Yields r e r' → (Node.expr r.current).Fits
  gives : ∀ {p r e r'}, (sub p).Yields r e r' → Gives r.ahead e.nodes r'.advance.ahead

theorem Reader.advance_sublist (r : Reader) : r.advance.ahead.Sublist r.ahead :=
  List.tail_sublist _

/-! ## Recovering, and round after round -/

section

variable {g : Grammar} {r r' : Reader} {n : Node}

/-- The nodes of what was read, if it was. -/
def nodes? (f : α → List Node) : Option α → List Node
  | none => []
  | some a => f a

/-- What fails leaves no node. -/
theorem Gives.recover {p : Parse α} {f : α → List Node}
    (hp : ∀ {a r'}, p.Yields r a r' → Gives r.ahead (f a) r'.advance.ahead) :
    Gives r.ahead (nodes? f ((g.recover p).run r).1) ((g.recover p).run r).2.advance.ahead := by
  have hforward := (g.recover p).forward r
  rw [Grammar.run_recover] at hforward ⊢
  rcases hon : p.on r with ⟨d | a, r'⟩
  · rw [hon] at hforward
    exact .nil ((Reader.advance_sublist _).trans hforward.sublist)
  · exact hp hon

/-- A node holds the current token. -/
theorem Gives.current {k : Kind} {ns : List Node} {rest : List Token}
    (hk : r.current.kind = k) (hne : k ≠ .eof) (hn : n.held? = some r.current)
    (hfits : r.current.Spelled → n.Fits) (h : Gives r.advance.ahead ns rest) :
    Gives r.ahead (n :: ns) rest := by
  rw [Reader.ahead_of_current hk hne]
  exact h.cons hn hfits

/-- A node holds the current token, and is all that is read. -/
theorem Gives.single {k : Kind} (hk : r.current.kind = k) (hne : k ≠ .eof)
    (hn : n.held? = some r.current) (hfits : r.current.Spelled → n.Fits) :
    Gives r.ahead [n] r.advance.ahead :=
  .current hk hne hn hfits (.nil (List.Sublist.refl _))

/-- The items of a list are made one after another. -/
theorem Gives.parenthesised {item : Parse α} {f : α → List Node} {as : List α}
    (hitem : ∀ {r a r'}, item.Yields r a r' → Gives r.advance.ahead (f a) r'.advance.ahead)
    (h : (Parse.parenthesised item).Yields r as r') :
    Gives r.advance.ahead (as.flatMap f) r'.advance.ahead := by
  have hlist := h.parenthesised
    (fun as c => Gives r.advance.ahead (as.reverse.flatMap f) c.advance.ahead)
    (fun hread => by simpa using hitem hread)
    (fun {as c a c'} hgives _ hread => by
      have hlater := (hitem hread).skip (Reader.advance_sublist c.advance)
      simpa using hgives.append hlater)
  rcases hlist with ⟨-, rfl, rfl⟩ | ⟨c, hgives, -, rfl⟩
  · exact .nil (Reader.advance_sublist _)
  · rw [List.reverse_reverse] at hgives
    exact hgives.leave (Reader.advance_sublist _)

end

namespace Faithful

variable {sub : Power → Parse Expr} {r r' : Reader} {e left : Expr} {s : Stmt} {b : Block}
  {p : Power}

theorem closedExpr (h : Faithful sub) (hread : (Grammar.closedExpr sub).Yields r e r') :
    Gives r.ahead e.nodes r'.advance.ahead := by
  obtain ⟨r₁, hsub, rfl⟩ := Grammar.yields_closedExpr.1 hread
  refine (h.gives hsub).leave ?_
  split
  · exact Reader.advance_sublist _
  · exact List.Sublist.refl _

/-- The value of a statement is made from the tokens passed over, if it is there. -/
theorem value (h : Faithful sub) (r : Reader) :
    Gives r.ahead (nodes? Expr.nodes ((script.recover (Grammar.closedExpr sub)).run r).1)
      ((script.recover (Grammar.closedExpr sub)).run r).2.advance.ahead :=
  .recover h.closedExpr

/-- Statements are made from the tokens passed over, by any statement rule. -/
theorem stmt (h : Faithful sub) (hread : (script.stmt sub).Yields r s r') :
    Gives r.ahead s.nodes r'.advance.ahead := by
  rw [Grammar.stmt, Parse.yields_current_bind] at hread
  cases hrule : (script.statement r.current.kind).getD .expr with
  | var =>
    rw [hrule] at hread
    have hk := statement_eq_var hrule
    obtain ⟨hname, -, rfl, rfl⟩ := Grammar.yields_var.1 hread
    have hvalue := (h.value r.advance.advance.advance).skip (Reader.advance_sublist _)
    have hnodes := Gives.current hk (by decide) (n := .var r.current) rfl (fun _ => hk)
      (.current (r := r.advance) (n := .name ⟨r.next, r.next.literal⟩) hname (by decide) rfl
        (fun _ => ⟨hname, rfl⟩) hvalue)
    cases hout : ((script.recover (Grammar.closedExpr sub)).run r.advance.advance.advance).1 with
    | none => rwa [hout] at hnodes
    | some e => rwa [hout] at hnodes
  | ret =>
    rw [hrule] at hread
    have hk := statement_eq_ret hrule
    obtain ⟨rfl, rfl⟩ := Grammar.yields_ret.1 hread
    have hnodes := Gives.current hk (by decide) (n := .ret r.current) rfl (fun _ => hk)
      (h.value r.advance)
    cases hout : ((script.recover (Grammar.closedExpr sub)).run r.advance).1 with
    | none => rwa [hout] at hnodes
    | some e => rwa [hout] at hnodes
  | expr =>
    rw [hrule] at hread
    obtain ⟨e, hclosed, rfl⟩ := Grammar.yields_expr.1 hread
    obtain ⟨r₁, hsub, -⟩ := Grammar.yields_closedExpr.1 hclosed
    have hfits := h.begins hsub
    have hgives := h.closedExpr hclosed
    rw [Reader.ahead_of_current rfl fun he => by simp [Node.Fits, he] at hfits] at hgives ⊢
    exact hgives.begin hfits

/-- Every round makes a statement or none, and the token after it is passed over. -/
theorem rounds (h : Faithful sub) (stop : Kind → Bool) {one : Walk (Option Stmt)}
    (hone : Walk.Alike one (script.stmt? sub)) (r : Reader) :
    Gives r.ahead (Stmt.nodesAll ((Walk.untilKind stop one).run r).1)
      ((Walk.untilKind stop one).run r).2.ahead := by
  show Gives r.ahead (Stmt.nodesAll (Walk.rounds stop one r).1) (Walk.rounds stop one r).2.ahead
  fun_induction Walk.rounds stop one r with
  | case1 => exact .nil (List.Sublist.refl _)
  | case2 => exact .nil (List.Sublist.refl _)
  | case3 r _ _ _ _ here later ih =>
    obtain ⟨hvalue, hlike⟩ := hone r
    have hround : Gives r.ahead (nodes? Stmt.nodes here.1) here.2.advance.ahead := by
      rw [show here.1 = _ from hvalue, Reader.ahead_advance, show here.2.ahead = _ from hlike.ahead]
      exact .recover h.stmt
    have hnodes : Stmt.nodesAll (here.1.toList ++ later.1) =
        nodes? Stmt.nodes here.1 ++ Stmt.nodesAll later.1 := by
      cases here.1 <;> rfl
    rw [hnodes]
    exact hround.append ih

theorem block (h : Faithful sub) (hk : r.current.kind = .openBrace)
    (hread : (script.block sub).Yields r b r') : Gives r.ahead b.nodes r'.advance.ahead := by
  obtain ⟨-, rfl, rfl⟩ := Grammar.yields_block.1 hread
  refine .current hk (by decide) rfl (fun _ => hk) ?_
  exact (h.rounds _ (.refl _) r.advance).leave (Reader.advance_sublist _)

/-! ## Operands and operators -/

theorem integer (hk : r.current.kind = .integer) (hread : Parse.integer.Yields r e r') :
    Gives r.ahead e.nodes r'.advance.ahead := by
  rw [Parse.integer, Parse.yields_current_bind] at hread
  split at hread
  · next v hv =>
    obtain ⟨rfl, rfl⟩ := Parse.yields_pure.1 hread
    refine .single hk (by decide) rfl fun hspelled => ?_
    rw [hspelled.integer_eq hk] at hv
    split at hv <;> cases hv
    next hle =>
      refine ⟨hk, rfl, by omega, ?_⟩
      have hlargest : Numeral.largest = 2 ^ 63 - 1 := rfl
      omega
  · exact absurd hread Parse.not_yields_throw

theorem boolean (hk : r.current.kind ∈ OperandRule.boolean.kinds) :
    Gives r.ahead [.boolean r.current (r.current.kind = .trueWord)] r.advance.ahead := by
  have hcases : r.current.kind = .trueWord ∨ r.current.kind = .falseWord := by
    simpa [OperandRule.kinds] using hk
  refine .single rfl (fun he => by simp [he] at hcases) rfl fun hspelled => ⟨hcases, ?_⟩
  rcases hcases with htrue | hfalse
  · have hlit : r.current.literal = "true" := hspelled.literal_eq (by rw [htrue]; rfl)
    simp [htrue, hlit]
  · have hlit : r.current.literal = "false" := hspelled.literal_eq (by rw [hfalse]; rfl)
    simp [hfalse, hlit]

theorem function (h : Faithful sub) (hk : r.current.kind = .functionWord)
    (hread : (script.readOperand sub .function).Yields r e r') :
    Gives r.ahead e.nodes r'.advance.ahead := by
  obtain ⟨-, ps, r₁, hlist, hopen, b, hblock, rfl⟩ := Grammar.yields_function.1 hread
  have hparameter : ∀ {c : Reader} {i c'},
      (do Parse.expect .identifier; Walk.identifier : Parse Identifier).Yields c i c' →
      Gives c.advance.ahead [.name i] c'.advance.ahead := by
    intro c i c' hitem
    obtain ⟨hname, hi⟩ := Parse.yields_expect_bind.1 hitem
    cases hi
    exact .single (r := c.advance) hname (by decide) rfl fun _ => ⟨hname, rfl⟩
  have hps := Gives.parenthesised hparameter hlist
  rw [← List.map_eq_flatMap] at hps
  refine .current hk (by decide) rfl (fun _ => hk) ?_
  refine ((hps.skip (Reader.advance_sublist r.advance)).append ?_)
  exact h.block (r := r₁.advance) hopen hblock

theorem conditional (h : Faithful sub) (hk : r.current.kind = .ifWord)
    (hread : (script.readOperand sub .conditional).Yields r e r') :
    Gives r.ahead e.nodes r'.advance.ahead := by
  obtain ⟨-, c, r₁, hsub, -, hopen, b, r₂, hblock, hrest⟩ := Grammar.yields_conditional.1 hread
  have hc : Gives r.advance.ahead c.nodes r₁.advance.ahead :=
    (h.gives hsub).skip (Reader.advance_sublist _)
  have hb : Gives r₁.advance.ahead b.nodes r₂.advance.ahead :=
    (h.block (r := r₁.advance.advance) hopen hblock).skip (Reader.advance_sublist _)
  split at hrest
  · obtain ⟨hopen', a, hblock', rfl⟩ := hrest
    have ha : Gives r₂.advance.ahead a.nodes r'.advance.ahead :=
      (h.block (r := r₂.advance.advance) hopen' hblock').skip (Reader.advance_sublist _)
    exact .current hk (by decide) rfl (fun _ => hk) (hc.append (hb.append ha))
  · obtain ⟨rfl, rfl⟩ := hrest
    exact .current hk (by decide) rfl (fun _ => hk) (hc.append hb)

/-- Operands are made from the tokens passed over, by any operand rule. -/
theorem operand {rule : OperandRule} (h : Faithful sub)
    (hrule : script.operand r.current.kind = some rule)
    (hread : (script.readOperand sub rule).Yields r e r') :
    Gives r.ahead e.nodes r'.advance.ahead := by
  have hk := OperandRule.mem_kinds hrule
  cases rule with
  | name =>
    rw [Grammar.readOperand, Parse.yields_identifier_bind, Parse.yields_pure] at hread
    obtain ⟨rfl, rfl⟩ := hread
    have hkind := List.mem_singleton.1 hk
    exact .single hkind (by decide) rfl fun _ => ⟨hkind, rfl⟩
  | integer => exact integer (List.mem_singleton.1 hk) hread
  | boolean =>
    rw [Grammar.readOperand, Parse.yields_current_bind, Parse.yields_pure] at hread
    obtain ⟨rfl, rfl⟩ := hread
    exact boolean hk
  | unary =>
    obtain ⟨e, hsub, rfl⟩ := Grammar.yields_unary.1 hread
    have hcases : r.current.kind = .bang ∨ r.current.kind = .minus := by
      simpa [OperandRule.kinds] using hk
    exact .current rfl (fun he => by simp [he] at hcases) rfl (fun _ => ⟨hcases, rfl⟩)
      (h.gives hsub)
  | group =>
    obtain ⟨r₁, hsub, -, rfl⟩ := Grammar.yields_group.1 hread
    exact ((h.gives hsub).skip (Reader.advance_sublist _)).leave (Reader.advance_sublist _)
  | conditional => exact h.conditional (List.mem_singleton.1 hk) hread
  | function => exact h.function (List.mem_singleton.1 hk) hread

/-- An operator and what comes after it go on with the nodes before. -/
theorem operator {rule : OperatorRule} {ts : List Token} (h : Faithful sub)
    (hleft : Gives ts left.nodes r.ahead) (hrule : script.operator r.current.kind = some rule)
    (hread : (rule.read sub left p).Yields r e r') : Gives ts e.nodes r'.advance.ahead := by
  have hne : r.current.kind ≠ .eof := fun he => by rw [he] at hrule; cases hrule
  have hk := OperatorRule.mem_kinds hrule
  cases rule with
  | binary =>
    obtain ⟨right, hsub, rfl⟩ := OperatorRule.yields_binary.1 hread
    exact hleft.append (.current rfl hne rfl (fun _ => ⟨hk, rfl⟩) (h.gives hsub))
  | call =>
    obtain ⟨as, hlist, rfl⟩ := OperatorRule.yields_call.1 hread
    have hargument : ∀ {c : Reader} {e c'}, (Grammar.item sub).Yields c e c' →
        Gives c.advance.ahead e.nodes c'.advance.ahead := by
      intro c e c' hitem
      rw [Grammar.item, Parse.yields_advance_bind] at hitem
      exact h.gives hitem
    have has := Gives.parenthesised hargument hlist
    rw [← Expr.nodesAll_eq] at has
    exact hleft.append (.current rfl hne rfl (fun _ => List.mem_singleton.1 hk) has)

/-- With one level more, what is read is still made from the tokens passed over. -/
theorem nested (h : Faithful sub) : Faithful (script.nested sub) where
  begins {p r e r'} hread := by
    obtain ⟨rule, first, r₁, hrule, -, -⟩ := Grammar.yields_nested.1 hread
    exact Node.fits_expr (OperandRule.mem_kinds hrule)
  gives {p r e r'} hread := by
    obtain ⟨rule, first, r₁, hrule, hfirst, hloop⟩ := Grammar.yields_nested.1 hread
    refine hloop.whileNext (fun e c => Gives r.ahead e.nodes c.advance.ahead) ?_
      (h.operand hrule hfirst)
    intro left c x e' c' hleft hbinding hbody
    exact h.operator hleft (Grammar.operator_of_binding hbinding) hbody

end Faithful

/-- **Reading makes nodes from the tokens that it passes over.** -/
theorem faithful_expr (n : Nat) : Faithful (script.expr n) := by
  induction n with
  | zero =>
    have hnone : ∀ {p r e r'}, ¬ (script.expr 0 p).Yields r e r' := by
      intro p r e r' hread
      rw [Grammar.expr, Parse.yields_current_bind] at hread
      exact Parse.not_yields_throw hread
    exact ⟨fun hread => absurd hread hnone, fun hread => absurd hread hnone⟩
  | succ n ih => exact ih.nested

/-! ## The program of a text -/

/-- **The tree of a text is made from its tokens**, each of which is used once at most and in its
    place, and every node fits its token. It is so with and without diagnostics. -/
theorem nodes_faithful {source : String} (h : source.length < 2 ^ 32) :
    (parse source).1.held.Sublist (tokenize source) ∧
      (parse source).1.held.Pairwise (fun t u => t.position < u.position) ∧
      ∀ n ∈ (parse source).1.nodes, n.token ∈ tokenize source ∧ n.Fits := by
  obtain ⟨one, hone, hprogram⟩ := script.program_eq (script.expr nestingLimit)
  have hgives := (faithful_expr nestingLimit).rounds (fun _ => false) hone
    (.ofScanner (.ofText source))
  rw [← hprogram] at hgives
  have hheld : (parse source).1.held.Sublist (Scanner.ofText source).ahead :=
    (List.sublist_append_left _ _).trans hgives.sublist
  have hplaces : (Scanner.ofText source).ahead.Pairwise fun t u => t.position < u.position := by
    refine Scanner.pairwise_ahead Position.atMost_start ?_
    have hlength : (Scanner.ofText source).rest.length = source.length := String.length_toList
    omega
  refine ⟨hheld.trans (List.sublist_append_left _ _), hplaces.sublist hheld, fun n hn => ?_⟩
  have hmem : n.token ∈ (Scanner.ofText source).ahead := hgives.mem n hn
  exact ⟨List.mem_append_left _ hmem, hgives.fits n hn (Scanner.spelled_ahead _ _ hmem)⟩

/-- Three faults, at each of which tokens are passed over that no node holds. -/
theorem nodes_faithful_broken :
    let source := "var x = f(a, (-1)) @; var y = ; if (!z) \x7b c d( \x7d else \x7b \x7d"
    source.length < 2 ^ 32 ∧ (parse source).2.length = 3 ∧
      (parse source).1.held.map (·.literal) =
        ["var", "x", "f", "(", "a", "-", "1", "var", "y", "if", "!", "z", "\x7b", "c"] ∧
      (parse source).1.held.Sublist (tokenize source) := by
  intro source
  have hlength : source.length < 2 ^ 32 := by decide +kernel
  exact ⟨hlength, by decide +kernel, by decide +kernel, (nodes_faithful hlength).1⟩

end Scriptlet
