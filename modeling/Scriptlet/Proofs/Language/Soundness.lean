/-
  What is read without a diagnostic is derived by the grammar, and the tree is
  that of the derivation.
-/
import Scriptlet.Proofs.Language.Completeness
import Scriptlet.Proofs.Reading.Keeps

namespace Scriptlet

open Grammar (script)

/-- The tokens `ts` are a phrase with the tree `x`, in no more than `n` levels. -/
def Derived (n : Nat) (p : Phrase) (ts : List Token) (x : p.Tree) : Prop :=
  ∃ d ≤ n, Derives d p ts x

/-- From `r` to `r'`, the last token included, stand the tokens `ts`. -/
def Reader.Spans (r r' : Reader) (ts : List Token) : Prop :=
  r.ahead = ts ++ r'.advance.ahead

/-- All tokens to come are spelled as their kinds say. -/
def Reader.Spelled (r : Reader) : Prop :=
  ∀ t ∈ r.ahead, t.Spelled

/-- Whatever `sub` reads cleanly is derived, in fewer than `n` levels. -/
def Sound (n : Nat) (sub : Power → Parse Expr) : Prop :=
  ∀ p : Power, p ≤ .unary → ∀ (r : Reader) e r', r.Spelled → (sub p).Reads r e r' →
    ∃ d < n, ∃ l : Tier, p.tier ≤ l ∧ ∃ ts, r.Spans r' ts ∧ Derives d (.expr l) ts e ∧
      script.precedence r'.next.kind ≤ p

namespace Reader

variable {r r' : Reader}

theorem Spelled.of_suffix (h : r.Spelled) (h' : r'.ahead <:+ r.ahead) : r'.Spelled :=
  fun t ht => h t (h'.mem ht)

theorem Spelled.advance (h : r.Spelled) : r.advance.Spelled :=
  h.of_suffix (List.tail_suffix _)

end Reader

theorem Parse.Reads.spelled {p : Parse α} {r r' : Reader} {a : α} (h : p.Reads r a r')
    (hr : r.Spelled) : r'.Spelled :=
  hr.of_suffix (by have := p.on_suffix r; rwa [h.1] at this)

section

variable {n : Nat} {sub : Power → Parse Expr} {r r' : Reader} {e : Expr}

/-- From `r` to `r'` stand the tokens `ts`, and a `;` if it is not left out. -/
def Reader.Ends (r r' : Reader) (ts : List Token) : Prop :=
  (∃ c : Token, c.kind = .semicolon ∧ r.Spans r' (ts ++ [c])) ∨
    (r.Spans r' ts ∧ ¬ r'.next.kind.goesOn)

theorem Sound.whole (h : Sound n sub) (hr : r.Spelled) (hread : (sub .lowest).Reads r e r') :
    ∃ d < n, ∃ ts, r.Spans r' ts ∧ Derives d (.expr .equality) ts e ∧
      ¬ r'.next.kind.goesOn := by
  obtain ⟨d, hd, l, hl, ts, hspan, hder, hnext⟩ := h .lowest (by decide) r e r' hr hread
  refine ⟨d, hd, ts, hspan, hder.loosen hl, ?_⟩
  rw [goesOn_iff, Power.le_lowest_iff.1 hnext]
  simp

variable [∀ p, Parse.Keeps (sub p)]

theorem Sound.closedExpr (h : Sound n sub) (hr : r.Spelled)
    (hread : (Grammar.closedExpr sub).Reads r e r') :
    ∃ d < n, ∃ ts, Derives d (.expr .equality) ts e ∧ r.Ends r' ts := by
  rw [Grammar.closedExpr, Parse.reads_bind] at hread
  obtain ⟨_, r₁, hsub, hread⟩ := hread
  rw [Parse.reads_optional_bind, Parse.reads_pure] at hread
  obtain ⟨rfl, rfl⟩ := hread
  obtain ⟨d, hd, ts, hspan, hder, hnext⟩ := h.whole hr hsub
  refine ⟨d, hd, ts, hder, ?_⟩
  split
  · next hk =>
    refine .inl ⟨r₁.next, hk, ?_⟩
    rw [Reader.Spans, hspan, Reader.ahead_advance_of_next hk (by decide)]
    simp
  · exact .inr ⟨hspan, hnext⟩

/-! ## Statements and blocks -/

theorem statement_eq_var {k : Kind} (h : (script.statement k).getD .expr = .var) :
    k = .varWord := by
  revert h; cases k <;> decide

theorem statement_eq_ret {k : Kind} (h : (script.statement k).getD .expr = .ret) :
    k = .returnWord := by
  revert h; cases k <;> decide

theorem Reader.Ends.cons {t : Token} {ts : List Token} (h : r.advance.Ends r' ts)
    (ht : r.ahead = t :: r.advance.ahead) : r.Ends r' (t :: ts) := by
  simp only [Ends, Spans] at h ⊢
  rw [ht]
  rcases h with ⟨c, hc, h⟩ | ⟨h, hnext⟩
  · exact .inl ⟨c, hc, by rw [h]; rfl⟩
  · exact .inr ⟨by rw [h]; rfl, hnext⟩

theorem Sound.stmt {s : Stmt} (h : Sound n sub) (hr : r.Spelled)
    (hread : (script.stmt sub).Reads r s r') :
    ∃ ts, Derived n .statement ts s ∧ r.Ends r' ts := by
  rw [Grammar.stmt, Parse.reads_current_bind] at hread
  cases hrule : (script.statement r.current.kind).getD .expr with
  | var =>
    have hk := statement_eq_var hrule
    simp only [hrule, Grammar.readStatement, Parse.reads_current_bind, Parse.reads_expect_bind,
      Parse.reads_identifier_bind, Parse.reads_advance_bind] at hread
    obtain ⟨hx, ha, hread⟩ := hread
    simp only [Parse.reads_bind, Parse.reads_recover, Parse.reads_pure] at hread
    obtain ⟨_, _, ⟨e, rfl, hclosed⟩, rfl, rfl⟩ := hread
    obtain ⟨d, hd, ts, hder, hends⟩ := h.closedExpr hr.advance.advance.advance hclosed
    have hx' := Reader.ahead_advance_of_next hx (by decide)
    have ha' := Reader.ahead_advance_of_next ha (by decide)
    rw [Reader.current_of_ahead hx']
    exact ⟨_, ⟨d + 1, hd, .var hk hx ha hder⟩, ((hends.cons ha').cons hx').cons
      (Reader.ahead_of_current hk (by decide))⟩
  | ret =>
    have hk := statement_eq_ret hrule
    simp only [hrule, Grammar.readStatement, Parse.reads_current_bind,
      Parse.reads_advance_bind] at hread
    simp only [Parse.reads_bind, Parse.reads_recover, Parse.reads_pure] at hread
    obtain ⟨_, _, ⟨e, rfl, hclosed⟩, rfl, rfl⟩ := hread
    obtain ⟨d, hd, ts, hder, hends⟩ := h.closedExpr hr.advance hclosed
    exact ⟨_, ⟨d + 1, hd, .ret hk hder⟩, hends.cons (Reader.ahead_of_current hk (by decide))⟩
  | expr =>
    simp only [hrule, Grammar.readStatement, Parse.reads_current_bind] at hread
    simp only [Parse.reads_bind, Parse.reads_pure] at hread
    obtain ⟨_, _, hclosed, rfl, rfl⟩ := hread
    obtain ⟨d, hd, ts, hder, hends⟩ := h.closedExpr hr hclosed
    obtain ⟨t, us, rfl, -⟩ := hder.begins
    have ht : r.current = t := by
      simp only [Reader.Ends, Reader.Spans] at hends
      rcases hends with ⟨c, -, hspan⟩ | ⟨hspan, -⟩ <;> exact Reader.current_of_ahead hspan
    subst ht
    exact ⟨_, ⟨d + 1, hd, .expr hder⟩, hends⟩

theorem Sound.statements (h : Sound n sub) (stop : Kind → Bool) {one : Walk (Option Stmt)}
    [hkeeps : Walk.Keeps one] (hone : Walk.Alike one (script.stmt? sub)) (hr : r.Spelled)
    (hclean : ((Walk.untilKind stop one).run r).2.errors = r.errors) :
    ∃ ts, Derived n .statements ts ((Walk.untilKind stop one).run r).1 ∧
      r.ahead = ts ++ ((Walk.untilKind stop one).run r).2.ahead ∧
      ∀ t ∈ ((Walk.untilKind stop one).run r).2.ahead.head?, stop t.kind = true := by
  change (Walk.rounds stop one r).2.errors = _ at hclean
  change ∃ ts, Derived n .statements ts (Walk.rounds stop one r).1 ∧
    r.ahead = ts ++ (Walk.rounds stop one r).2.ahead ∧
      ∀ t ∈ (Walk.rounds stop one r).2.ahead.head?, stop t.kind = true
  -- diagnostics are only added, so that the whole run is clean just if every round is
  fun_induction Walk.rounds stop one r with
  | case1 r hahead => exact ⟨[], ⟨0, Nat.zero_le _, .empty⟩, rfl, by simp [hahead]⟩
  | case2 r t rest hahead hstop =>
    exact ⟨[], ⟨0, Nat.zero_le _, .empty⟩, rfl, by simpa [hahead] using hstop⟩
  | case3 r t rest hahead hstop here later ih =>
    have hlater := (Walk.keeps_untilKind stop one).before here.2.advance
    have hhere : here.2.errors = r.errors := (hkeeps.before r).eq_left hlater hclean
    obtain ⟨hvalue, hahead', herrors, -⟩ := hone r
    rcases hout : (script.stmt? sub).run r with ⟨s?, r₁⟩
    rw [hout] at hvalue hahead' herrors
    obtain ⟨s, rfl, hread⟩ := Parse.reads_recover.1
      (Parse.reads_lift.2 ⟨hout, herrors.symm.trans hhere⟩)
    obtain ⟨ts, ⟨d, hd, hder⟩, hends⟩ := h.stmt hr hread
    have hspelled : here.2.advance.Spelled :=
      (hr.of_suffix (one.forward r)).advance
    obtain ⟨us, ⟨d₁, hd₁, hder₁⟩, hahead₁, hstop₁⟩ := ih hspelled (hclean.trans hhere.symm)
    have hnext : here.2.advance.ahead = r₁.advance.ahead := congrArg List.tail hahead'
    rw [show here.1 = some s from hvalue]
    rcases hends with ⟨c, hc, hspan⟩ | ⟨hspan, hgo⟩
    · refine ⟨ts ++ c :: us, ⟨max d d₁, by omega, .closed hder hc hder₁⟩, ?_, hstop₁⟩
      rw [Reader.Spans] at hspan
      rw [hspan, ← hnext, hahead₁]
      simp [later]
    · refine ⟨ts ++ us, ⟨max d d₁, by omega, .opened hder ?_ hder₁⟩, ?_, hstop₁⟩
      · rw [Reader.kind_next, ← hnext, hahead₁] at hgo
        cases us with
        | nil => rw [goesOn_iff]; simp; rfl
        | cons u us => exact hgo
      · rw [Reader.Spans] at hspan
        rw [hspan, ← hnext, hahead₁]
        simp [later]

theorem Sound.block {b : Block} (h : Sound n sub) (hr : r.Spelled)
    (hk : r.current.kind = .openBrace) (hread : (script.block sub).Reads r b r') :
    ∃ ts, Derived n .block ts b ∧ r.Spans r' ts := by
  rw [Grammar.block, Parse.reads_current_bind, Parse.reads_advance_bind, Parse.reads_bind] at hread
  obtain ⟨ss, r₁, hloop, hread⟩ := hread
  rw [Parse.reads_current_bind] at hread
  obtain ⟨hrun, hclean⟩ := Parse.reads_lift.1 hloop
  obtain ⟨ts, ⟨d, hd, hder⟩, hahead, hstop⟩ :=
    h.statements (· = .closeBrace) (.refl _) hr.advance (by rw [hrun]; exact hclean)
  rw [hrun] at hder hahead hstop
  split at hread
  · exact absurd hread Parse.reads_throw_bind
  · next hne =>
    obtain ⟨rfl, rfl⟩ := Parse.reads_pure.1 hread
    have hclose := Reader.ahead_of_current rfl hne
    have hkind : r'.current.kind = .closeBrace := by
      rw [hclose] at hstop
      simpa using hstop
    refine ⟨_, ⟨d, hd, .block hk hder hkind⟩, ?_⟩
    rw [Reader.Spans, Reader.ahead_of_current hk (by decide), hahead, hclose]
    simp

/-! ## Operands -/

/-- What a clean reading of an operand leaves behind. -/
def Reader.Operand (n : Nat) (r r' : Reader) (e : Expr) : Prop :=
  ∃ l : Tier, Tier.unary ≤ l ∧ ∃ ts, Derived n (.expr l) ts e ∧ r.Spans r' ts ∧
    script.precedence r'.next.kind ≤ l.power

theorem Reader.Operand.of_primary {ts : List Token} (h : Derived n (.expr .primary) ts e)
    (hspan : r.Spans r' ts) : Reader.Operand n r r' e := by
  refine ⟨.primary, by decide, ts, h, hspan, ?_⟩
  cases r'.next.kind <;> decide

theorem Sound.integer (h : r.Spelled) (hk : r.current.kind = .integer)
    (hread : Parse.integer.Reads r e r') : Reader.Operand n r r' e := by
  have hcur := Reader.ahead_of_current hk (by decide)
  have hspelled := h r.current (by rw [hcur]; exact List.mem_cons_self)
  rw [Parse.integer, Parse.reads_current_bind, hspelled.integer_eq hk] at hread
  split at hread
  · next v hv =>
    obtain ⟨rfl, rfl⟩ := Parse.reads_pure.1 hread
    split at hv <;> cases hv
    next hle => exact .of_primary ⟨0, Nat.zero_le _, .integer hk hle⟩ hcur
  · exact absurd hread Parse.reads_throw

theorem Sound.group (h : Sound n sub) (hr : r.Spelled) (hk : r.current.kind = .openParen)
    (hread : (script.readOperand sub .group).Reads r e r') : Reader.Operand n r r' e := by
  rw [Grammar.readOperand, Parse.reads_advance_bind, Parse.reads_bind] at hread
  obtain ⟨_, r₁, hsub, hread⟩ := hread
  rw [Parse.reads_expect_bind, Parse.reads_pure] at hread
  obtain ⟨hclose, rfl, rfl⟩ := hread
  obtain ⟨d, hd, ts, hspan, hder, -⟩ := h.whole hr.advance hsub
  refine .of_primary ⟨d + 1, hd, .group hk hder hclose⟩ ?_
  rw [Reader.Spans] at hspan ⊢
  rw [Reader.ahead_of_current hk (by decide), hspan,
    Reader.ahead_advance_of_next hclose (by decide)]
  simp

theorem Sound.unary (h : Sound n sub) (hr : r.Spelled)
    (hk : r.current.kind = .bang ∨ r.current.kind = .minus)
    (hread : (script.readOperand sub .unary).Reads r e r') : Reader.Operand n r r' e := by
  rw [Grammar.readOperand, Parse.reads_current_bind, Parse.reads_advance_bind,
    Parse.reads_bind] at hread
  obtain ⟨e, r₁, hsub, hread⟩ := hread
  obtain ⟨rfl, rfl⟩ := Parse.reads_pure.1 hread
  obtain ⟨d, hd, l, hl, ts, hspan, hder, hnext⟩ := h .unary (by decide) _ _ _ hr.advance hsub
  refine ⟨.unary, by decide, _, ⟨d + 1, hd, .unary hk (hder.loosen hl)⟩, ?_, hnext⟩
  rw [Reader.Spans] at hspan ⊢
  rw [List.cons_append, ← hspan]
  rcases hk with hk | hk <;> exact Reader.ahead_of_current hk (by decide)

/-- The names between the parentheses of a function. -/
theorem names_of_reads {r r' : Reader} {acc is : List Identifier}
    (hread : (Parse.more (do Parse.expect .identifier; Walk.identifier) acc).Reads r is r') :
    ∃ ts ps, Names ts ps ∧ r.advance.ahead = ts ++ r'.advance.ahead ∧
      is = ps.reverse ++ acc := by
  obtain ⟨i, r₁, hitem, hrest⟩ := Parse.reads_more.1 hread
  rw [Parse.reads_expect_bind, Walk.identifier, Parse.reads_lift] at hitem
  obtain ⟨hk, ⟨⟩, -⟩ := hitem
  have ht := Reader.ahead_advance_of_next hk (by decide)
  rcases hrest with ⟨-, rfl, rfl⟩ | ⟨hcomma, hmore⟩
  · exact ⟨[r.next], [⟨r.next, r.next.literal⟩], .one hk, by simpa using ht,
      by simp [Reader.current_of_ahead ht]⟩
  · obtain ⟨ts, ps, hnames, hahead, rfl⟩ := names_of_reads hmore
    have hc := Reader.ahead_advance_of_next hcomma (by decide)
    refine ⟨_, _, .more hk hcomma hnames, ?_, by simp [Reader.current_of_ahead ht]⟩
    rw [ht, hc, hahead]
    simp
termination_by r.ahead.length
decreasing_by
  have := congrArg List.length ht
  simp only [Reader.ahead_advance, List.length_tail, List.length_cons] at this ⊢
  omega

theorem parameters_of_reads {is : List Identifier}
    (hread : (Parse.parenthesised (do Parse.expect .identifier; Walk.identifier)).Reads r is r') :
    ∃ ts c, Parameters ts is ∧ c.kind = .closeParen ∧
      r.advance.ahead = ts ++ c :: r'.advance.ahead := by
  rcases Parse.reads_parenthesised.1 hread with ⟨hk, rfl, rfl⟩ | ⟨-, bs, r₁, hmore, hk, rfl, rfl⟩
  · exact ⟨[], r.next, .none, hk, Reader.ahead_advance_of_next hk (by decide)⟩
  · obtain ⟨ts, ps, hnames, hahead, rfl⟩ := names_of_reads hmore
    refine ⟨ts, r₁.next, .some (by simpa using hnames), hk, ?_⟩
    rw [hahead, Reader.ahead_advance_of_next hk (by decide)]

theorem Sound.function (h : Sound n sub) (hr : r.Spelled) (hk : r.current.kind = .functionWord)
    (hread : (script.readOperand sub .function).Reads r e r') : Reader.Operand n r r' e := by
  rw [Grammar.readOperand, Parse.reads_current_bind, Parse.reads_expect_bind,
    Parse.reads_bind] at hread
  obtain ⟨ho, is, r₁, hlist, hread⟩ := hread
  rw [Parse.reads_expect_bind, Parse.reads_bind] at hread
  obtain ⟨hb, b, r₂, hblock, hread⟩ := hread
  obtain ⟨rfl, rfl⟩ := Parse.reads_pure.1 hread
  obtain ⟨ps, c, hps, hc, hahead⟩ := parameters_of_reads hlist
  have hopen := Reader.ahead_advance_of_next hb (by decide)
  obtain ⟨bs, ⟨d, hd, hder⟩, hspan⟩ := h.block (hlist.spelled hr.advance).advance
    (by rw [Reader.current_of_ahead hopen]; exact hb) hblock
  refine .of_primary ⟨d, hd, .function hk ho hps hc hder⟩ ?_
  rw [Reader.Spans] at hspan ⊢
  rw [Reader.ahead_of_current hk (by decide), Reader.ahead_advance_of_next ho (by decide), hahead,
    hspan]
  simp

/-- The part that conditionals have in common: up to the end of their first block. -/
theorem Sound.condition {α : Type} {a : α} {f : Expr → Block → Parse α}
    [∀ e b, Parse.Keeps (f e b)] (h : Sound n sub) (hr : r.Spelled)
    (hk : r.current.kind = .ifWord)
    (hread : Parse.Reads (do
      Parse.expect .openParen
      Walk.advance
      let condition ← sub .lowest
      Parse.expect .closeParen
      Parse.expect .openBrace
      let consequence ← script.block sub
      f condition consequence) r a r') :
    ∃ e b r₁, (f e b).Reads r₁ a r' ∧ r₁.Spelled ∧ ∃ d d₁ o c ts bs, d < n ∧ d₁ ≤ n ∧
      o.kind = .openParen ∧ Derives d (.expr .equality) ts e ∧ c.kind = .closeParen ∧
      Derives d₁ .block bs b ∧ r.Spans r₁ (r.current :: o :: ts ++ c :: bs) := by
  rw [Parse.reads_expect_bind, Parse.reads_advance_bind, Parse.reads_bind] at hread
  obtain ⟨ho, e, r₁, hsub, hread⟩ := hread
  rw [Parse.reads_expect_bind, Parse.reads_expect_bind, Parse.reads_bind] at hread
  obtain ⟨hc, hb, b, r₂, hblock, hread⟩ := hread
  obtain ⟨d, hd, ts, hspan, hder, -⟩ := h.whole hr.advance.advance hsub
  have hspelled := hsub.spelled hr.advance.advance
  have hopen := Reader.ahead_advance_of_next hb (by decide)
  obtain ⟨bs, ⟨d₁, hd₁, hder₁⟩, hspan₁⟩ := h.block hspelled.advance.advance
    (by rw [Reader.current_of_ahead hopen]; exact hb) hblock
  refine ⟨e, b, r₂, hread, hblock.spelled hspelled.advance.advance, d, d₁, _, _, ts, bs, hd, hd₁,
    ho, hder, hc, hder₁, ?_⟩
  rw [Reader.Spans] at hspan hspan₁ ⊢
  rw [Reader.ahead_of_current hk (by decide), Reader.ahead_advance_of_next ho (by decide), hspan,
    Reader.ahead_advance_of_next hc (by decide), hspan₁]
  simp

theorem Sound.conditional (h : Sound n sub) (hr : r.Spelled) (hk : r.current.kind = .ifWord)
    (hread : (script.readOperand sub .conditional).Reads r e r') : Reader.Operand n r r' e := by
  rw [Grammar.readOperand, Parse.reads_current_bind] at hread
  obtain ⟨c, b, r₁, hread, hspelled, d, d₁, o, p, ts, bs, hd, hd₁, ho, hder, hp, hder₁, hspan⟩ :=
    h.condition hr hk hread
  rw [Parse.reads_next_bind] at hread
  split at hread
  · next hw =>
    rw [Parse.reads_advance_bind, Parse.reads_expect_bind, Parse.reads_bind] at hread
    obtain ⟨hb, a, r₂, hblock, hread⟩ := hread
    obtain ⟨rfl, rfl⟩ := Parse.reads_pure.1 hread
    have hopen := Reader.ahead_advance_of_next hb (by decide)
    obtain ⟨as, ⟨d₂, hd₂, hder₂⟩, hspan₂⟩ := h.block hspelled.advance.advance
      (by rw [Reader.current_of_ahead hopen]; exact hb) hblock
    refine .of_primary ⟨_, by omega, .alternative hk ho hder hp hder₁ hw hder₂⟩ ?_
    rw [Reader.Spans] at hspan hspan₂ ⊢
    rw [hspan, Reader.ahead_advance_of_next hw (by decide), hspan₂]
    simp
  · obtain ⟨rfl, rfl⟩ := Parse.reads_pure.1 hread
    exact .of_primary ⟨_, by omega, .conditional hk ho hder hp hder₁⟩ hspan

/-- Operand rules are sound. -/
theorem Sound.operand {rule : OperandRule} (h : Sound n sub) (hr : r.Spelled)
    (hrule : script.operand r.current.kind = some rule)
    (hread : (script.readOperand sub rule).Reads r e r') : Reader.Operand n r r' e := by
  have hk := OperandRule.mem_kinds hrule
  cases rule with
  | name =>
    have hname := List.mem_singleton.1 hk
    rw [Grammar.readOperand, Parse.reads_identifier_bind, Parse.reads_pure] at hread
    obtain ⟨rfl, rfl⟩ := hread
    exact .of_primary ⟨0, Nat.zero_le _, .name hname⟩ (Reader.ahead_of_current hname (by decide))
  | integer => exact Sound.integer hr (List.mem_singleton.1 hk) hread
  | boolean =>
    have hword : r.current.kind = .trueWord ∨ r.current.kind = .falseWord := by
      simpa [OperandRule.kinds] using hk
    rw [Grammar.readOperand, Parse.reads_current_bind, Parse.reads_pure] at hread
    obtain ⟨rfl, rfl⟩ := hread
    refine .of_primary ⟨0, Nat.zero_le _, .boolean hword⟩ ?_
    rcases hword with hword | hword <;> exact Reader.ahead_of_current hword (by decide)
  | unary => exact h.unary hr (by simpa [OperandRule.kinds] using hk) hread
  | group => exact h.group hr (List.mem_singleton.1 hk) hread
  | conditional => exact h.conditional hr (List.mem_singleton.1 hk) hread
  | function => exact h.function hr (List.mem_singleton.1 hk) hread

/-! ## Operators -/

/-- The arguments between the parentheses of a call. -/
theorem Sound.items {r r' : Reader} {acc es : List Expr} (h : Sound n sub) (hr : r.Spelled)
    (hread : (Parse.more (Grammar.item sub) acc).Reads r es r') :
    ∃ ts fs, Derived n .items ts fs ∧ r.advance.ahead = ts ++ r'.advance.ahead ∧
      es = fs.reverse ++ acc := by
  obtain ⟨e, r₁, hitem, hrest⟩ := Parse.reads_more.1 hread
  rw [Grammar.item, Parse.reads_advance_bind] at hitem
  obtain ⟨d, hd, ts, hspan, hder, -⟩ := h.whole hr.advance hitem
  rcases hrest with ⟨-, rfl, rfl⟩ | ⟨hcomma, hmore⟩
  · exact ⟨ts, [e], ⟨d + 1, hd, .item hder⟩, hspan, rfl⟩
  · have hc := Reader.ahead_advance_of_next hcomma (by decide)
    have hshort : r₁.advance.ahead.length < r.ahead.length := by
      have hlen := congrArg List.length hspan
      have hpos := congrArg List.length hc
      simp only [Reader.ahead_advance, List.length_tail, List.length_append,
        List.length_cons] at hlen hpos ⊢
      omega
    obtain ⟨us, fs, ⟨d₁, hd₁, hder₁⟩, hahead, rfl⟩ :=
      h.items (hitem.spelled hr.advance).advance hmore
    refine ⟨_, _, ⟨_, by omega, .items hder hcomma hder₁⟩, ?_, by simp⟩
    rw [Reader.Spans] at hspan
    rw [hspan, hc, hahead]
    simp
termination_by r.ahead.length
decreasing_by simpa using hshort

theorem Sound.arguments {es : List Expr} (h : Sound n sub) (hr : r.Spelled)
    (hread : (Parse.parenthesised (Grammar.item sub)).Reads r es r') :
    ∃ ts c, Derived n .arguments ts es ∧ c.kind = .closeParen ∧
      r.advance.ahead = ts ++ c :: r'.advance.ahead := by
  rcases Parse.reads_parenthesised.1 hread with ⟨hk, rfl, rfl⟩ | ⟨-, fs, r₁, hmore, hk, rfl, rfl⟩
  · exact ⟨[], r.next, ⟨0, Nat.zero_le _, .noArguments⟩, hk,
      Reader.ahead_advance_of_next hk (by decide)⟩
  · obtain ⟨ts, fs, ⟨d, hd, hder⟩, hahead, rfl⟩ := h.items hr hmore
    refine ⟨ts, r₁.next, ⟨d, hd, by simpa using .arguments hder⟩, hk, ?_⟩
    rw [hahead, Reader.ahead_advance_of_next hk (by decide)]

/-- What has been read of an expression, from `r₀` to `r`: it is derived on a tier of which an
    expression above `p` may be, and what comes next binds no more tightly than its operators. -/
def Reader.SoFar (n : Nat) (p : Power) (r₀ : Reader) (e : Expr) (r : Reader) : Prop :=
  r.Spelled ∧ ∃ l : Tier, p.tier ≤ l ∧ ∃ ts, Derived n (.expr l) ts e ∧ r₀.Spans r ts ∧
    script.precedence r.next.kind ≤ l.power

/-- A round of the loop over operators keeps what has been read derived. -/
theorem Sound.operator {p q : Power} {rule : OperatorRule} {r₀ : Reader} {left : Expr}
    (h : Sound n sub) (hsofar : Reader.SoFar n p r₀ left r)
    (hrule : script.binding p r.next.kind = some (rule, q))
    (hread : (rule.read sub left q).Reads r.advance e r') : Reader.SoFar n p r₀ e r' := by
  obtain ⟨hr, l, hl, ts, ⟨d, hd, hder⟩, hspan, hnext⟩ := hsofar
  refine ⟨hread.spelled hr.advance, ?_⟩
  rcases binding_cases p r.next.kind with ⟨hnone, -⟩ | ⟨m, hm, hpm, hsome⟩ | ⟨ho, hp, hsome⟩
  · rw [hnone] at hrule; cases hrule
  -- what has been read may be of a tighter tier than the operator, and is loosened to it
  · obtain ⟨rfl, rfl⟩ := Prod.mk.inj (Option.some.inj (hsome.symm.trans hrule))
    rw [precedence_of_mem hm] at hnext
    have ht : r.advance.ahead = r.next :: r.advance.advance.ahead :=
      Reader.ahead_advance_of_next rfl fun he => by
        rw [he] at hm; cases m <;> simp [Tier.operators] at hm
    rw [OperatorRule.read, Parse.reads_current_bind, Parse.reads_advance_bind,
      Parse.reads_bind] at hread
    obtain ⟨right, r₁, hsub, hread⟩ := hread
    obtain ⟨rfl, rfl⟩ := Parse.reads_pure.1 hread
    obtain ⟨d₁, hd₁, l₁, hl₁, us, hspan₁, hder₁, hnext₁⟩ :=
      h m.power (power_le_unary hm) _ _ _ hr.advance.advance hsub
    rw [tier_power hm] at hl₁
    rw [Reader.current_of_ahead ht]
    refine ⟨m, tier_le_of_lt_power hm hpm, _, ⟨max d (d₁ + 1), by omega,
      .binary (hder.loosen (le_of_power_le hm hnext)) hm (hder₁.loosen hl₁)⟩, ?_, hnext₁⟩
    rw [Reader.Spans] at hspan hspan₁ ⊢
    rw [hspan, ht, hspan₁]
    simp
  · obtain ⟨rfl, rfl⟩ := Prod.mk.inj (Option.some.inj (hsome.symm.trans hrule))
    have hahead := Reader.ahead_advance_of_next ho (by decide)
    rw [OperatorRule.read, Parse.reads_current_bind, Parse.reads_bind] at hread
    obtain ⟨es, r₁, hlist, hread⟩ := hread
    obtain ⟨rfl, rfl⟩ := Parse.reads_pure.1 hread
    obtain ⟨us, c, ⟨d₁, hd₁, hder₁⟩, hc, hahead₁⟩ := h.arguments hr.advance hlist
    rw [ho] at hnext
    rw [Reader.current_of_ahead hahead]
    refine ⟨.call, tier_le_call_of_lt hp, _, ⟨max d d₁, by omega,
      .call (hder.loosen (call_le_of_power_le hnext)) ho hder₁ hc⟩, ?_, ?_⟩
    · rw [Reader.Spans] at hspan ⊢
      rw [hspan, hahead, hahead₁]
      simp
    · cases r'.next.kind <;> decide

/-- Reading an operand and the operators after it is sound, with one level more. -/
theorem Sound.nested (h : Sound n sub) : Sound (n + 1) (script.nested sub) := by
  intro p hp r e r' hr hread
  rw [Grammar.nested, Parse.reads_current_bind] at hread
  split at hread
  · exact absurd hread Parse.reads_throw
  · next rule hrule =>
    obtain ⟨first, r₁, hfirst, hloop⟩ := Parse.reads_bind.1 hread
    obtain ⟨l, hl, ts, hder, hspan, hnext⟩ := h.operand hr hrule hfirst
    have hstart : Reader.SoFar n p r first r₁ :=
      ⟨hfirst.spelled hr, l, Tier.le_trans (tier_le_unary hp) hl, ts, hder, hspan, hnext⟩
    obtain ⟨⟨-, m, hm, us, ⟨d, hd, hder'⟩, hspan', hnext'⟩, hnone⟩ :=
      hloop.whileNext (Reader.SoFar n p r) (fun _ _ x _ _ hsofar hrule _ hread =>
        h.operator hsofar hrule hread) hstart
    refine ⟨d, by omega, m, hm, us, hspan', hder', ?_⟩
    by_cases hend : r'.advance.ahead = []
    · rw [Reader.kind_next, hend]
      cases p <;> decide
    · exact precedence_le_of_binding (hnone hend)

theorem sound_expr (n : Nat) : Sound n (script.expr n) := by
  induction n with
  | zero =>
    intro p _ r e r' _ hread
    rw [Grammar.expr, Parse.reads_current_bind] at hread
    exact absurd hread Parse.reads_throw
  | succ n ih => exact ih.nested

end

end Scriptlet
