/-
  Missing `;` can be put in one after another, until every statement has its
  own (`parse_closed`).
-/
import Scriptlet.Proofs.Language.OpenEnd
import Scriptlet.Proofs.Tree.Nodes

namespace Scriptlet

/-! ## Counts -/

/-- The number of tokens `;`. -/
@[simp] def semicolons (ts : List Token) : ℕ :=
  ts.countP (·.kind = .semicolon)

/-- Whether the node is a statement. -/
@[simp] def Node.isStatement : Node → Bool
  | var _ | ret _ | expr _ => true
  | _ => false

/-- The nodes within a phrase. A statement is not within itself. -/
@[simp] def Phrase.within : (p : Phrase) → p.Tree → List Node
  | .expr _ => Expr.nodes
  | .items | .arguments => Expr.nodesAll
  | .block => Block.nodes
  | .statement => fun s => s.nodes.tail
  | .statements => Stmt.nodesAll

/-- The number of statements within a phrase, at any depth. -/
@[simp] def Phrase.statementCount (p : Phrase) (x : p.Tree) : ℕ :=
  (p.within x).countP Node.isStatement

theorem Stmt.countP_nodes (s : Stmt) :
    s.nodes.countP Node.isStatement = s.nodes.tail.countP Node.isStatement + 1 := by
  rcases s with ⟨t, n, _ | e⟩ | ⟨t, _ | e⟩ | ⟨t, e⟩ <;>
    exact List.countP_cons_of_pos rfl

theorem Names.semicolons {ts : List Token} {is : List Identifier} (h : Names ts is) :
    semicolons ts = 0 := by
  induction h with
  | one hk => simp [hk]
  | more hk hc _ ih => simpa [hk, hc] using ih

theorem Parameters.semicolons {ts : List Token} {is : List Identifier} (h : Parameters ts is) :
    semicolons ts = 0 := by
  cases h with
  | none => rfl
  | some h => exact h.semicolons

theorem ne_semicolon_of_mem {k : Kind} {l : Tier} (h : k ∈ l.operators) : k ≠ .semicolon := by
  rintro rfl
  cases l <;> simp [Tier.operators] at h

/-! ## What is missing -/

/-- All but `m` of the statements within the phrase have a `;`, and there is a place where one is
    missing if that is not none. -/
def Missing (d : ℕ) (p : Phrase) (ts : List Token) (x : p.Tree) (m : ℕ) : Prop :=
  semicolons ts + m = p.statementCount x ∧
    ((∀ us vs, ts = us ++ vs → ¬ OpenEnd d p us vs x) → m = 0)

namespace Missing

variable {d d' d₁ m m₁ : ℕ} {p p' p₁ : Phrase} {ts ts' ts₁ : List Token} {x : p.Tree} {x' : p'.Tree}
  {x₁ : p₁.Tree}

/-- What is missing in a part is missing in the whole. -/
theorem part (h : Missing d p ts x m)
    (hcount : semicolons ts' + p.statementCount x = p'.statementCount x' + semicolons ts)
    (hplace : ∀ us vs, ts = us ++ vs → OpenEnd d p us vs x →
      ∃ us' vs', ts' = us' ++ vs' ∧ OpenEnd d' p' us' vs' x') : Missing d' p' ts' x' m := by
  obtain ⟨hm, hall⟩ := h
  refine ⟨by omega, fun hnone => hall fun us vs hts hopen => ?_⟩
  obtain ⟨us', vs', hts', hopen'⟩ := hplace us vs hts hopen
  exact hnone us' vs' hts' hopen'

/-- What is missing in either of two parts is missing in the whole. -/
theorem parts (h : Missing d p ts x m) (h₁ : Missing d₁ p₁ ts₁ x₁ m₁)
    (hcount : semicolons ts' + (p.statementCount x + p₁.statementCount x₁) =
      p'.statementCount x' + (semicolons ts + semicolons ts₁))
    (hplace : ∀ us vs, ts = us ++ vs → OpenEnd d p us vs x →
      ∃ us' vs', ts' = us' ++ vs' ∧ OpenEnd d' p' us' vs' x')
    (hplace₁ : ∀ us vs, ts₁ = us ++ vs → OpenEnd d₁ p₁ us vs x₁ →
      ∃ us' vs', ts' = us' ++ vs' ∧ OpenEnd d' p' us' vs' x') : Missing d' p' ts' x' (m + m₁) := by
  obtain ⟨hm, hall⟩ := h
  obtain ⟨hm₁, hall₁⟩ := h₁
  refine ⟨by omega, fun hnone => ?_⟩
  have hzero : m = 0 := hall fun us vs hts hopen => by
    obtain ⟨us', vs', hts', hopen'⟩ := hplace us vs hts hopen
    exact hnone us' vs' hts' hopen'
  have hzero₁ : m₁ = 0 := hall₁ fun us vs hts hopen => by
    obtain ⟨us', vs', hts', hopen'⟩ := hplace₁ us vs hts hopen
    exact hnone us' vs' hts' hopen'
  rw [hzero, hzero₁]

end Missing

/-- **A phrase has a `;` for each of its statements**, or a place where one is missing. -/
theorem Derives.missing {d : ℕ} {p : Phrase} {ts : List Token} {x : p.Tree}
    (h : Derives d p ts x) : ∃ m, Missing d p ts x m := by
  induction h with
  | name hk => exact ⟨0, by simp [Expr.nodes, hk], fun _ => rfl⟩
  | integer hk => exact ⟨0, by simp [Expr.nodes, hk], fun _ => rfl⟩
  | boolean hk => exact ⟨0, by rcases hk with hk | hk <;> simp [Expr.nodes, hk], fun _ => rfl⟩
  | group ho _ hc ih =>
    obtain ⟨m, hm⟩ := ih
    refine ⟨m, hm.part ?_ fun us vs h hopen => ⟨_, _, by simp [h], .group ho hopen hc⟩⟩
    simp [ho, hc]
    omega
  | conditional hi ho he hc hb ih ih₁ =>
    obtain ⟨m, hm⟩ := ih
    obtain ⟨m₁, hm₁⟩ := ih₁
    refine ⟨m + m₁, hm.parts hm₁ ?_
      (fun us vs h hopen => ⟨_, _, by simp [h], .conditionalTest hi ho hopen hc hb⟩)
      fun us vs h hopen => ⟨_, _, by simp [h], .conditionalBlock hi ho he hc hopen⟩⟩
    simp [Expr.nodes, hi, ho, hc]
    omega
  | alternative hi ho he hc hb hw ha ih ih₁ ih₂ =>
    obtain ⟨m, hm, hall⟩ := ih
    obtain ⟨m₁, hm₁, hall₁⟩ := ih₁
    obtain ⟨m₂, hm₂, hall₂⟩ := ih₂
    refine ⟨m + m₁ + m₂, ?_, fun hnone => ?_⟩
    · simp [Expr.nodes, hi, ho, hc, hw] at hm hm₁ hm₂ ⊢
      omega
    · rw [hall fun us vs h hopen =>
          hnone _ _ (by simp [h]) (.alternativeTest hi ho hopen hc hb hw ha),
        hall₁ fun us vs h hopen =>
          hnone _ _ (by simp [h]) (.alternativeBlock hi ho he hc hopen hw ha),
        hall₂ fun us vs h hopen =>
          hnone _ _ (by simp [h]) (.alternativeElse hi ho he hc hb hw hopen)]
  | @function d f o c ps bs is b hf ho hps hc _ ih =>
    have hnames : ps.countP (·.kind = .semicolon) = 0 := hps.semicolons
    have hnodes : (is.map Node.name).countP Node.isStatement = 0 := by
      simp [List.countP_eq_zero]
    obtain ⟨m, hm⟩ := ih
    refine ⟨m, hm.part ?_ fun us vs h hopen => ⟨_, _, by simp [h], .function hf ho hps hc hopen⟩⟩
    simp [Expr.nodes, hf, ho, hc, hnames, hnodes]
    omega
  | call he ho has hc ih ih₁ =>
    obtain ⟨m, hm⟩ := ih
    obtain ⟨m₁, hm₁⟩ := ih₁
    refine ⟨m + m₁, hm.parts hm₁ ?_
      (fun us vs h hopen => ⟨_, _, by simp [h], .callee hopen ho has hc⟩)
      fun us vs h hopen => ⟨_, _, by simp [h], .callArguments he ho hopen hc⟩⟩
    simp [Expr.nodes, ho, hc]
    omega
  | unary ht _ ih =>
    obtain ⟨m, hm⟩ := ih
    refine ⟨m, hm.part ?_ fun us vs h hopen => ⟨_, _, by simp [h], .unary ht hopen⟩⟩
    rcases ht with ht | ht <;> simp [Expr.nodes, ht] <;> omega
  | binary he ht he₁ ih ih₁ =>
    obtain ⟨m, hm⟩ := ih
    obtain ⟨m₁, hm₁⟩ := ih₁
    refine ⟨m + m₁, hm.parts hm₁ ?_
      (fun us vs h hopen => ⟨_, _, by simp [h], .binaryLeft hopen ht he₁⟩)
      fun us vs h hopen => ⟨_, _, by simp [h], .binaryRight he ht hopen⟩⟩
    simp [Expr.nodes, ne_semicolon_of_mem ht]
    omega
  | tighter _ ih =>
    obtain ⟨m, hm⟩ := ih
    exact ⟨m, hm.part (Nat.add_comm _ _) fun us vs h hopen => ⟨us, vs, h, .tighter hopen⟩⟩
  | item _ ih =>
    obtain ⟨m, hm⟩ := ih
    refine ⟨m, hm.part ?_ fun us vs h hopen => ⟨_, _, by simp [h], .item hopen⟩⟩
    simp [Expr.nodesAll]
    omega
  | items he hc hes ih ih₁ =>
    obtain ⟨m, hm⟩ := ih
    obtain ⟨m₁, hm₁⟩ := ih₁
    refine ⟨m + m₁, hm.parts hm₁ ?_
      (fun us vs h hopen => ⟨_, _, by simp [h], .firstItem hopen hc hes⟩)
      fun us vs h hopen => ⟨_, _, by simp [h], .otherItems he hc hopen⟩⟩
    simp [Expr.nodesAll, hc]
    omega
  | noArguments => exact ⟨0, rfl, fun _ => rfl⟩
  | arguments _ ih =>
    obtain ⟨m, hm⟩ := ih
    exact ⟨m, hm.part (Nat.add_comm _ _) fun us vs h hopen => ⟨us, vs, h, .arguments hopen⟩⟩
  | block ho _ hc ih =>
    obtain ⟨m, hm⟩ := ih
    refine ⟨m, hm.part ?_ fun us vs h hopen => ⟨_, _, by simp [h], .block ho hopen hc⟩⟩
    simp [Block.nodes, ho, hc]
    omega
  | var hv hx ha _ ih =>
    obtain ⟨m, hm⟩ := ih
    refine ⟨m, hm.part ?_ fun us vs h hopen => ⟨_, _, by simp [h], .var hv hx ha hopen⟩⟩
    simp [Stmt.nodes, hv, hx, ha]
    omega
  | ret hw _ ih =>
    obtain ⟨m, hm⟩ := ih
    refine ⟨m, hm.part ?_ fun us vs h hopen => ⟨_, _, by simp [h], .ret hw hopen⟩⟩
    simp [Stmt.nodes, hw]
    omega
  | expr _ ih =>
    obtain ⟨m, hm⟩ := ih
    refine ⟨m, hm.part (Nat.add_comm _ _) fun us vs h hopen => ?_⟩
    obtain ⟨t, us, rfl⟩ := List.exists_cons_of_ne_nil hopen.ne_nil
    obtain ⟨rfl, -⟩ := List.cons.inj h
    exact ⟨_, _, h, .expr hopen⟩
  | empty => exact ⟨0, rfl, fun _ => rfl⟩
  | closed hs hc hss ih ih₁ =>
    obtain ⟨m, hm⟩ := ih
    obtain ⟨m₁, hm₁⟩ := ih₁
    refine ⟨m + m₁, hm.parts hm₁ ?_
      (fun us vs h hopen => ⟨_, _, by simp [h], .closedStatement hopen hc hss⟩)
      fun us vs h hopen => ⟨_, _, by simp [h], .closedRest hs hc hopen⟩⟩
    simp [Stmt.nodesAll, Stmt.countP_nodes, hc]
    omega
  | opened hs hnext hss ih ih₁ =>
    obtain ⟨m, hm, -⟩ := ih
    obtain ⟨m₁, hm₁, -⟩ := ih₁
    refine ⟨m + m₁ + 1, ?_, fun hnone => absurd (.here hs hnext hss) (hnone _ _ rfl)⟩
    simp [Stmt.nodesAll, Stmt.countP_nodes] at hm hm₁ ⊢
    omega

/-! ## A program with all its semicolons -/

variable {text : String} {d : ℕ} {ts us : List Token} {ss : List Stmt}

theorem Same.semicolons (h : Same us ts) : semicolons us = semicolons ts := by
  have hcount := congrArg (List.countP (·.kind = .semicolon)) h
  rwa [List.countP_map, List.countP_map] at hcount

/-- One `;` after another is put into a text, as long as one is missing. -/
theorem exists_closed (n : ℕ) (hsame : Same (Scanner.ofText text).ahead ts)
    (h : Derives d .statements ts ss)
    (hcount : semicolons ts + n = Phrase.statements.statementCount ss) : ∃ closed us,
      Same (Scanner.ofText closed).ahead us ∧ Derives d .statements us ss ∧
      semicolons us = Phrase.statements.statementCount ss ∧
      us.filter (·.kind ≠ .semicolon) = ts.filter (·.kind ≠ .semicolon) := by
  induction n generalizing text ts with
  | zero => exact ⟨text, ts, hsame, h, hcount, rfl⟩
  | succ n ih =>
    obtain ⟨m, hm, hall⟩ := h.missing
    have hplace : ∃ us vs, ts = us ++ vs ∧ OpenEnd d .statements us vs ss := by
      by_contra hnone
      push Not at hnone
      have hzero := hall hnone
      omega
    obtain ⟨us, vs, rfl, hopen⟩ := hplace
    have hone : semicolons (us ++ ([Kind.semicolon.token] ++ vs)) = semicolons (us ++ vs) + 1 := by
      simp [Kind.token]
      omega
    obtain ⟨closed, ws, hclosed, hderives, hws, hothers⟩ :=
      ih (same_insertSemicolon hsame) (hopen.derives_ending (.semicolon rfl)) (by omega)
    refine ⟨closed, ws, hclosed, hderives, hws, hothers.trans ?_⟩
    simp [Kind.token]

/-- **Every program can be written with a `;` after each of its statements**, at any depth, and
    otherwise as it is. -/
theorem parse_closed {p : Program} (h : parse text = (p, [])) : ∃ closed q,
    parse closed = (q, []) ∧
    Stmt.retokenAll .unplaced q.statements = Stmt.retokenAll .unplaced p.statements ∧
    semicolons (tokenize closed).dropLast = Phrase.statements.statementCount p.statements ∧
    (lexemes closed.toList).filter (·.kind ≠ .semicolon) =
      (lexemes text.toList).filter (·.kind ≠ .semicolon) := by
  obtain ⟨d, hd, hprogram⟩ := parse_eq_iff.1 h
  obtain ⟨m, hm, -⟩ := hprogram.missing
  obtain ⟨closed, us, hsame, hderives, hcount, hothers⟩ := exists_closed m rfl hprogram hm
  obtain ⟨qs, hqs, hunplaced⟩ := hderives.relocate hsame
  refine ⟨closed, ⟨qs⟩, parse_eq_iff.2 ⟨d, hd, hqs⟩, hunplaced, ?_, ?_⟩
  · rw [dropLast_tokenize, hsame.semicolons, hcount]
  · have hfilter : ∀ ws : List Token, (ws.map Token.lexeme).filter (·.kind ≠ .semicolon) =
        (ws.filter (·.kind ≠ .semicolon)).map Token.lexeme := fun ws => List.filter_map
    have hclosed : lexemes closed.toList = us.map Token.lexeme :=
      (Scanner.map_lexeme_ahead _).symm.trans hsame
    have htext : lexemes text.toList = (Scanner.ofText text).ahead.map Token.lexeme :=
      (Scanner.map_lexeme_ahead (Scanner.ofText text)).symm
    rw [hclosed, htext, hfilter, hfilter, hothers]

end Scriptlet
