/-
  A derivation needs the levels it opens: with fewer to spare, its tokens are
  not read without a diagnostic.
-/
import Scriptlet.Proofs.Language.Soundness

namespace Scriptlet

open Grammar (script)

/-- A clean reading of the tokens `ts` has at least `d` levels to spare. -/
def Needs (d : Nat) : Phrase → List Token → Prop
  | .expr l, ts => ∀ n (p : Power), p.tier ≤ l → ∀ (r : Reader) rest e r', r.ahead = ts ++ rest →
      script.precedence (firstKind rest) ≤ l.power → firstKind rest ≠ .elseWord →
      (script.nested (script.expr n) p).Reads r e r' → d ≤ n
  | .items, ts => ∀ n acc (r : Reader) c rest es r', r.ahead = c :: ts ++ rest →
      firstKind rest = .closeParen →
      (Parse.more (Grammar.item (script.expr n)) acc).Reads r es r' → d ≤ n
  | .arguments, ts => ∀ n (r : Reader) o c rest es r', r.ahead = o :: ts ++ c :: rest →
      c.kind = .closeParen →
      (Parse.parenthesised (Grammar.item (script.expr n))).Reads r es r' → d ≤ n
  | .block, ts => ∀ n (r : Reader) rest b r', r.ahead = ts ++ rest →
      (script.block (script.expr n)).Reads r b r' → d ≤ n
  | .statement, ts => ∀ n (r : Reader) rest s r', r.ahead = ts ++ rest →
      ¬ (firstKind rest).goesOn → firstKind rest ≠ .elseWord →
      (script.stmt (script.expr n)).Reads r s r' → d ≤ n
  | .statements, ts => ∀ n (stop : Kind → Bool) one, Walk.Alike one (script.stmt? (script.expr n)) →
      Walk.Keeps one → (∀ k, stop k = true → k = .closeBrace) → ∀ (r : Reader) rest,
      r.ahead = ts ++ rest → (∀ t ∈ rest.head?, stop t.kind = true) →
      ((Walk.untilKind stop one).run r).2.errors = r.errors → d ≤ n

section

variable {d n : Nat} {l : Tier} {ts rest : List Token} {e : Expr} {t : Token} {p : Power}
  {r r' : Reader}

theorem Needs.expr (h : Needs d (.expr l) ts) (hp : p.tier ≤ l) (hr : r.ahead = ts ++ rest)
    (hnext : script.precedence (firstKind rest) ≤ l.power) (helse : firstKind rest ≠ .elseWord)
    (hread : (script.expr n p).Reads r e r') : d < n := by
  cases n with
  | zero =>
    rw [Grammar.expr, Parse.reads_current_bind] at hread
    exact absurd hread Parse.reads_throw
  | succ n => exact Nat.lt_succ_of_le (h n p hp r rest e r' hr hnext helse hread)

theorem Needs.whole (h : Needs d (.expr .equality) ts) (hr : r.ahead = ts ++ rest)
    (hnext : ¬ (firstKind rest).goesOn) (helse : firstKind rest ≠ .elseWord)
    (hread : (script.expr n .lowest).Reads r e r') : d < n :=
  h.expr (by decide) hr (precedence_le_of_not_goesOn hnext _) helse hread

theorem Needs.closedExpr (h : Needs d (.expr .equality) ts) (hr : r.ahead = ts ++ rest)
    (hnext : ¬ (firstKind rest).goesOn) (helse : firstKind rest ≠ .elseWord)
    (hread : (Grammar.closedExpr (script.expr n)).Reads r e r') : d < n := by
  rw [Grammar.closedExpr, Parse.reads_bind] at hread
  obtain ⟨_, _, hsub, -⟩ := hread
  exact h.whole hr hnext helse hsub

/-- A clean reading of an operand, where an expression begins with one. -/
theorem Parse.Reads.operand {sub : Power → Parse Expr} [∀ p, Parse.Keeps (sub p)]
    {rule : OperandRule} (h : (script.nested sub p).Reads r e r') (hr : r.ahead = t :: rest)
    (hrule : script.operand t.kind = some rule) :
    ∃ e' r₁, (script.readOperand sub rule).Reads r e' r₁ := by
  rw [Grammar.nested, Parse.reads_current_bind, Reader.current_of_ahead hr, hrule] at h
  obtain ⟨e', r₁, hread, -⟩ := Parse.reads_bind.1 h
  exact ⟨e', r₁, hread⟩

/-- What is still to be read cleanly after a part that is read. -/
theorem Parse.Reads.remaining {α : Type} {q q' : Parse α} {a : α} {r₁ : Reader}
    (h : q.Reads r a r') (hon : q.on r = q'.on r₁) (herr : r₁.errors = r.errors) :
    q'.Reads r₁ a r' :=
  ⟨hon.symm.trans h.1, h.2.trans herr.symm⟩

/-- The operator that is taken in first is read cleanly. -/
theorem Parse.Reads.operator {sub : Power → Parse Expr} [∀ p, Parse.Keeps (sub p)] {u : Token}
    {rule : OperatorRule} {q : Power} {e' : Expr} (h : (script.goOn sub p e).Reads r e' r')
    (hr : r.ahead = t :: u :: rest) (hrule : script.binding p u.kind = some (rule, q)) :
    ∃ e₁ r₁, (rule.read sub e q).Reads r.advance e₁ r₁ := by
  have hbind : (rule.read sub e q >>= script.goOn sub p).Reads r.advance e' r' := by
    refine h.remaining ?_ r.errors_advance
    rw [Grammar.on_goOn_of_some hr hrule, Parse.on_bind]
    rcases (rule.read sub e q).on r.advance with ⟨_ | _, _⟩ <;> rfl
  have hkeeps : ∀ e, Parse.Keeps (script.goOn sub p e) := fun e => by
    unfold Grammar.goOn; infer_instance
  obtain ⟨e₁, r₁, hread, -⟩ := Parse.reads_bind.1 hbind
  exact ⟨e₁, r₁, hread⟩

end

/-! ## The phrases, one by one -/

namespace Needs

section

variable {d d₁ d₂ : Nat} {l : Tier} {ts us as bs : List Token} {e e₁ : Expr} {es : List Expr}
  {b a : Block} {t o c i w : Token}

theorem group (ho : o.kind = .openParen) (h : Needs d (.expr .equality) ts)
    (hc : c.kind = .closeParen) : Needs (d + 1) (.expr .primary) (o :: ts ++ [c]) := by
  intro n p _ r rest e r' hr _ _ hread
  obtain ⟨_, _, hread⟩ := hread.operand hr (by rw [ho]; rfl : _ = some OperandRule.group)
  rw [Grammar.readOperand, Parse.reads_advance_bind, Parse.reads_bind] at hread
  obtain ⟨_, _, hsub, -⟩ := hread
  exact h.whole (show r.advance.ahead = ts ++ (c :: rest) by simp [hr])
    (by simp [hc, goesOn_iff]; rfl) (by simp [hc]) hsub

/-- The part that conditionals have in common: up to the end of their first block. -/
theorem condition {α : Type} {x : α} {f : Expr → Block → Parse α} [∀ e b, Parse.Keeps (f e b)]
    {n : Nat} {r r' : Reader} {rest : List Token} (h : Needs d (.expr .equality) ts)
    (hreads : Read d (.expr .equality) ts e) (hc : c.kind = .closeParen) (hb : Needs d₁ .block bs)
    (hbreads : Read d₁ .block bs b) (hbegins : Phrase.block.Begins bs)
    (hr : r.ahead = i :: o :: ts ++ c :: (bs ++ rest))
    (hread : Parse.Reads (do
      Parse.expect .openParen
      Walk.advance
      let condition ← script.expr n .lowest
      Parse.expect .closeParen
      Parse.expect .openBrace
      let consequence ← script.block (script.expr n)
      f condition consequence) r x r') :
    d < n ∧ d₁ ≤ n ∧ ∃ r₁, r.Arrives r₁ rest ∧ (f e b).Reads r₁ x r' := by
  rw [Parse.reads_expect_bind, Parse.reads_advance_bind, Parse.reads_bind] at hread
  obtain ⟨-, e', r₁, hsub, hread⟩ := hread
  rw [Parse.reads_expect_bind, Parse.reads_expect_bind, Parse.reads_bind] at hread
  obtain ⟨-, -, b', r₂, hblock, hread⟩ := hread
  have hadv : r.advance.advance.ahead = ts ++ (c :: (bs ++ rest)) := by simp [hr]
  have hd := h.whole hadv (by simp [hc, goesOn_iff]; rfl) (by simp [hc]) hsub
  obtain ⟨_, harr, hon⟩ := hreads.whole hd hadv (by simp [hc, goesOn_iff]; rfl) (by simp [hc])
  obtain ⟨⟨⟩, ⟨⟩⟩ := Prod.mk.inj (hsub.1.symm.trans hon)
  obtain ⟨g, gs, rfl, -⟩ := hbegins
  have hahead := harr.step.1.step.2.1
  have hd₁ := hb n _ rest b' r₂ hahead hblock
  obtain ⟨_, harr₁, hon₁⟩ := hbreads n hd₁ _ rest hahead
  obtain ⟨⟨⟩, ⟨⟩⟩ := Prod.mk.inj (hblock.1.symm.trans hon₁)
  exact ⟨hd, hd₁, r₂, harr₁.after (by simpa using harr.errors), hread⟩

theorem conditional (hi : i.kind = .ifWord) (h : Needs d (.expr .equality) ts)
    (hreads : Read d (.expr .equality) ts e) (hc : c.kind = .closeParen) (hb : Needs d₁ .block bs)
    (hbreads : Read d₁ .block bs b) (hbegins : Phrase.block.Begins bs) :
    Needs (max (d + 1) d₁) (.expr .primary) (i :: o :: ts ++ c :: bs) := by
  intro n p _ r rest e r' hr _ _ hread
  obtain ⟨_, _, hread⟩ := hread.operand hr (by rw [hi]; rfl : _ = some OperandRule.conditional)
  rw [Grammar.readOperand, Parse.reads_current_bind] at hread
  obtain ⟨hd, hd₁, -⟩ := condition h hreads hc hb hbreads hbegins (by simpa using hr) hread
  omega

theorem alternative (hi : i.kind = .ifWord) (h : Needs d (.expr .equality) ts)
    (hreads : Read d (.expr .equality) ts e) (hc : c.kind = .closeParen) (hb : Needs d₁ .block bs)
    (hbreads : Read d₁ .block bs b) (hbegins : Phrase.block.Begins bs) (hw : w.kind = .elseWord)
    (ha : Needs d₂ .block as) (habegins : Phrase.block.Begins as) :
    Needs (max (max (d + 1) d₁) d₂) (.expr .primary) (i :: o :: ts ++ c :: (bs ++ w :: as)) := by
  intro n p _ r rest e r' hr _ _ hread
  obtain ⟨_, _, hread⟩ := hread.operand hr (by rw [hi]; rfl : _ = some OperandRule.conditional)
  rw [Grammar.readOperand, Parse.reads_current_bind] at hread
  obtain ⟨hd, hd₁, r₁, harr, hread⟩ :=
    condition h hreads hc hb hbreads hbegins
      (show r.ahead = i :: o :: ts ++ c :: (bs ++ (w :: as ++ rest)) by simpa using hr) hread
  rw [Parse.reads_next_bind, harr.kind_next, List.cons_append, firstKind_cons, if_pos hw,
    Parse.reads_advance_bind, Parse.reads_expect_bind, Parse.reads_bind] at hread
  obtain ⟨-, a', r₂, hblock, -⟩ := hread
  obtain ⟨g, gs, rfl, -⟩ := habegins
  have hd₂ := ha n _ rest a' r₂ harr.step.1.step.2.1 hblock
  omega

theorem function {ps : List Token} {is : List Identifier} (hi : i.kind = .functionWord)
    (hps : Parameters ps is) (hc : c.kind = .closeParen) (hb : Needs d .block bs) :
    Needs d (.expr .primary) (i :: o :: ps ++ c :: bs) := by
  intro n p _ r rest e r' hr _ _ hread
  obtain ⟨_, _, hread⟩ := hread.operand hr (by rw [hi]; rfl : _ = some OperandRule.function)
  rw [Grammar.readOperand, Parse.reads_current_bind, Parse.reads_expect_bind,
    Parse.reads_bind] at hread
  obtain ⟨-, is', r₁, hlist, hread⟩ := hread
  rw [Parse.reads_expect_bind, Parse.reads_bind] at hread
  obtain ⟨hopen, b', r₂, hblock, -⟩ := hread
  obtain ⟨_, harr, hon⟩ := Read.parameters hps
    (show r.advance.ahead = o :: ps ++ c :: (bs ++ rest) by simp [hr]) hc
  obtain ⟨⟨⟩, ⟨⟩⟩ := Prod.mk.inj (hlist.1.symm.trans hon)
  obtain ⟨t, ht⟩ := harr.ahead
  exact hb n _ rest b' r₂ (by simp [ht]) hblock

theorem call (h : Needs d (.expr .call) ts) (hreads : Read d (.expr .call) ts e)
    (ho : o.kind = .openParen) (ha : Needs d₁ .arguments as) (hc : c.kind = .closeParen) :
    Needs (max d d₁) (.expr .call) (ts ++ o :: as ++ [c]) := by
  intro n p hp r rest e' r' hr _ _ hread
  have hahead : r.ahead = ts ++ (o :: as ++ c :: rest) := by simp [hr]
  have hnext : script.precedence (firstKind (o :: as ++ c :: rest)) ≤ Tier.call.power := by
    simp [ho]; decide
  have helse : firstKind (o :: as ++ c :: rest) ≠ .elseWord := by simp [ho]
  have hd := h n p hp r _ e' r' hahead hnext helse hread
  obtain ⟨r₁, harr, hon⟩ := hreads n hd p hp r _ hahead hnext helse
  obtain ⟨t, ht⟩ := harr.ahead
  obtain ⟨_, _, hcall⟩ := (hread.remaining hon harr.errors).operator ht
    (by rw [ho]; exact binding_openParen (lt_call_of_tier_le hp))
  rw [OperatorRule.read, Parse.reads_current_bind, Parse.reads_bind] at hcall
  obtain ⟨es, r₂, hlist, -⟩ := hcall
  have hd₁ := ha n r₁.advance o c rest es r₂ harr.step.2.1 hc hlist
  omega

theorem unary (hk : t.kind = .bang ∨ t.kind = .minus) (h : Needs d (.expr .unary) ts) :
    Needs (d + 1) (.expr .unary) (t :: ts) := by
  intro n p _ r rest e r' hr hnext helse hread
  have hrule : script.operand t.kind = some .unary := by
    rcases hk with hk | hk <;> rw [hk] <;> rfl
  obtain ⟨_, _, hread⟩ := hread.operand hr hrule
  rw [Grammar.readOperand, Parse.reads_current_bind, Parse.reads_advance_bind,
    Parse.reads_bind] at hread
  obtain ⟨_, _, hsub, -⟩ := hread
  exact h.expr (by decide) (show r.advance.ahead = ts ++ rest by simp [hr]) hnext helse hsub

theorem binary (h : Needs d (.expr l) ts) (hreads : Read d (.expr l) ts e)
    (hk : t.kind ∈ l.operators) (h₁ : Needs d₁ (.expr l.tighter) us) :
    Needs (max d (d₁ + 1)) (.expr l) (ts ++ t :: us) := by
  intro n p hp r rest e' r' hr hnext helse hread
  have hahead : r.ahead = ts ++ (t :: us ++ rest) := by simp [hr]
  have hnext' : script.precedence (firstKind (t :: us ++ rest)) ≤ l.power := by
    simp [precedence_of_mem hk, Power.le_iff]
  have helse' : firstKind (t :: us ++ rest) ≠ .elseWord := ne_else_of_mem hk
  have hd := h n p hp r _ e' r' hahead hnext' helse' hread
  -- there are enough levels for the left operand, so that it is known where the right one begins
  obtain ⟨r₁, harr, hon⟩ := hreads n hd p hp r _ hahead hnext' helse'
  obtain ⟨u, hu⟩ := harr.ahead
  obtain ⟨_, _, hright⟩ := (hread.remaining hon harr.errors).operator hu
    (binding_of_mem hk (lt_power_of_tier_le hk hp))
  rw [OperatorRule.read, Parse.reads_current_bind, Parse.reads_advance_bind,
    Parse.reads_bind] at hright
  obtain ⟨_, _, hsub, -⟩ := hright
  have hd₁ := h₁.expr (by rw [tier_power hk]; exact Nat.le_refl _)
    (show r₁.advance.advance.ahead = us ++ rest by simp [hu])
    (Power.le_trans hnext (Tier.power_le_tighter l)) helse hsub
  omega

theorem tighter (h : Needs d (.expr l.tighter) ts) : Needs d (.expr l) ts := by
  intro n p hp r rest e r' hr hnext helse hread
  exact h n p (Tier.le_trans hp (Tier.le_tighter l)) r rest e r' hr
    (Power.le_trans hnext (Tier.power_le_tighter l)) helse hread

theorem on_item {n : Nat} {r r' : Reader} {rest : List Token} (h : Needs d (.expr .equality) ts)
    (hr : r.ahead = c :: ts ++ rest) (hnext : ¬ (firstKind rest).goesOn)
    (helse : firstKind rest ≠ .elseWord)
    (hread : (Grammar.item (script.expr n)).Reads r e r') : d + 1 ≤ n := by
  rw [Grammar.item, Parse.reads_advance_bind] at hread
  exact h.whole (show r.advance.ahead = ts ++ rest by simp [hr]) hnext helse hread

theorem item (h : Needs d (.expr .equality) ts) : Needs (d + 1) .items ts := by
  intro n acc r c rest es r' hr hrest hread
  obtain ⟨_, _, hitem, -⟩ := Parse.reads_more.1 hread
  exact h.on_item hr (by simp [hrest, goesOn_iff]; rfl) (by simp [hrest]) hitem

theorem items (h : Needs d (.expr .equality) ts) (hreads : Read d (.expr .equality) ts e)
    (hc : c.kind = .comma) (h₁ : Needs d₁ .items us) :
    Needs (max (d + 1) d₁) .items (ts ++ c :: us) := by
  intro n acc r u rest es r' hr hrest hread
  obtain ⟨_, r₁, hitem, hmore⟩ := Parse.reads_more.1 hread
  have hahead : r.ahead = u :: ts ++ (c :: us ++ rest) := by simp [hr]
  have hnext : ¬ (firstKind (c :: us ++ rest)).goesOn := by simp [hc, goesOn_iff]; rfl
  have helse : firstKind (c :: us ++ rest) ≠ .elseWord := by simp [hc]
  have hd := h.on_item hahead hnext helse hitem
  obtain ⟨_, harr, hon⟩ := hreads.on_item hd hahead hnext helse
  obtain ⟨⟨⟩, ⟨⟩⟩ := Prod.mk.inj (hitem.1.symm.trans hon)
  rcases hmore with ⟨hne, -⟩ | ⟨-, hmore⟩
  · exact absurd (harr.kind_next.trans hc) hne
  · have hd₁ := h₁ n _ r₁.advance c rest es r' harr.step.2.1 hrest hmore
    omega

theorem arguments (h : Needs d .items ts) (hbegins : Phrase.items.Begins ts) :
    Needs d .arguments ts := by
  intro n r o c rest es r' hr hc hread
  obtain ⟨t, us, rfl, hk⟩ := hbegins
  rcases Parse.reads_parenthesised.1 hread with ⟨hnone, -⟩ | ⟨-, fs, r₁, hmore, -⟩
  · rw [Reader.next_of_ahead hr] at hnone
    rw [hnone] at hk; cases hk
  · exact h n [] r o (c :: rest) fs r₁ hr hc hmore

theorem block (h : Needs d .statements ts) (hc : c.kind = .closeBrace) :
    Needs d .block (o :: ts ++ [c]) := by
  intro n r rest b r' hr hread
  rw [Grammar.block, Parse.reads_current_bind, Parse.reads_advance_bind, Parse.reads_bind] at hread
  obtain ⟨ss, r₁, hloop, -⟩ := hread
  obtain ⟨hrun, hclean⟩ := Parse.reads_lift.1 hloop
  exact h n (· = .closeBrace) _ (.refl _) inferInstance (by simp) r.advance (c :: rest)
    (by simp [hr]) (by simp [hc]) (by rw [hrun]; exact hclean)

end

/-! ### Statements -/

section

variable {d d₁ : Nat} {ts us : List Token} {t v x a c : Token} {s : Stmt}

theorem var (hv : v.kind = .varWord) (h : Needs d (.expr .equality) ts) :
    Needs (d + 1) .statement (v :: x :: a :: ts) := by
  intro n r rest s r' hr hnext helse hread
  have hrule : (script.statement r.current.kind).getD .expr = .var := by
    rw [Reader.current_of_ahead hr, hv]; rfl
  rw [Grammar.stmt, Parse.reads_current_bind, hrule] at hread
  simp only [Grammar.readStatement, Parse.reads_current_bind, Parse.reads_expect_bind,
    Parse.reads_identifier_bind, Parse.reads_advance_bind] at hread
  obtain ⟨-, -, hread⟩ := hread
  simp only [Parse.reads_bind, Parse.reads_recover] at hread
  obtain ⟨_, _, ⟨e, -, hclosed⟩, -⟩ := hread
  exact h.closedExpr (show r.advance.advance.advance.ahead = ts ++ rest by simp [hr]) hnext helse
    hclosed

theorem ret (hw : t.kind = .returnWord) (h : Needs d (.expr .equality) ts) :
    Needs (d + 1) .statement (t :: ts) := by
  intro n r rest s r' hr hnext helse hread
  have hrule : (script.statement r.current.kind).getD .expr = .ret := by
    rw [Reader.current_of_ahead hr, hw]; rfl
  rw [Grammar.stmt, Parse.reads_current_bind, hrule, Grammar.readStatement,
    Parse.reads_current_bind, Parse.reads_advance_bind] at hread
  simp only [Parse.reads_bind, Parse.reads_recover] at hread
  obtain ⟨_, _, ⟨e, -, hclosed⟩, -⟩ := hread
  exact h.closedExpr (show r.advance.ahead = ts ++ rest by simp [hr]) hnext helse hclosed

theorem expression (h : Needs d (.expr .equality) (t :: ts))
    (hbegins : (Phrase.expr .equality).Begins (t :: ts)) :
    Needs (d + 1) .statement (t :: ts) := by
  intro n r rest s r' hr hnext helse hread
  have hrule : (script.statement r.current.kind).getD .expr = .expr := by
    obtain ⟨u, us, ⟨⟩, hk⟩ := hbegins
    rw [Reader.current_of_ahead hr]
    revert hk
    cases t.kind <;> decide
  rw [Grammar.stmt, Parse.reads_current_bind, hrule, Grammar.readStatement,
    Parse.reads_current_bind, Parse.reads_bind] at hread
  obtain ⟨e, _, hclosed, -⟩ := hread
  exact h.closedExpr hr hnext helse hclosed

/-- A statement that a clean reading begins with. -/
theorem round {n : Nat} {stop : Kind → Bool} {one : Walk (Option Stmt)} {r : Reader}
    {rest : List Token} (h : Needs d .statement ts) (hreads : Read d .statement ts s)
    (hbegins : Phrase.statement.Begins ts) (hone : Walk.Alike one (script.stmt? (script.expr n)))
    (hkeeps : Walk.Keeps one) (hstop : ∀ k, stop k = true → k = .closeBrace)
    (hr : r.ahead = ts ++ rest) (hnext : ¬ (firstKind rest).goesOn)
    (helse : firstKind rest ≠ .elseWord)
    (hclean : ((Walk.untilKind stop one).run r).2.errors = r.errors) :
    d ≤ n ∧ ∃ r₁, r.Arrives r₁ (afterSemicolon rest) ∧
      ((Walk.untilKind stop one).run r₁.advance).2.errors = r₁.advance.errors := by
  obtain ⟨u, us, rfl, hu⟩ := id hbegins
  have hgo : stop u.kind = false := by
    cases hs : stop u.kind with
    | false => rfl
    | true => rw [hstop _ hs] at hu; rcases hu with hu | hu <;> cases hu
  have hclean' := hclean
  rw [Walk.run_untilKind_of_not_stop hr hgo] at hclean'
  have hlater := (Walk.keeps_untilKind stop one).before (one.run r).2.advance
  have hhere : (one.run r).2.errors = r.errors := (hkeeps.before r).eq_left hlater hclean'
  rcases hout : (script.stmt? (script.expr n)).run r with ⟨s?, r₂⟩
  have hr₂ : r₂.errors = r.errors := by
    rw [← hhere, (hone r).2.errors, hout]
  obtain ⟨s', -, hstmt⟩ := Parse.reads_recover.1 (Parse.reads_lift.2 ⟨hout, hr₂⟩)
  have hd := h n r rest s' r₂ hr hnext helse hstmt
  obtain ⟨r₁, harr, hrun⟩ := hreads.round hbegins hd hone hstop hr hnext helse
  refine ⟨hd, r₁, harr, ?_⟩
  rw [hrun] at hclean
  exact hclean.trans harr.errors.symm

theorem closed (h : Needs d .statement ts) (hreads : Read d .statement ts s)
    (hbegins : Phrase.statement.Begins ts) (hc : c.kind = .semicolon)
    (h₁ : Needs d₁ .statements us) : Needs (max d d₁) .statements (ts ++ c :: us) := by
  intro n stop one hone hkeeps hstop r rest hr hrest hclean
  obtain ⟨hd, r₁, harr, hclean₁⟩ := h.round hreads hbegins hone hkeeps hstop
    (show r.ahead = ts ++ (c :: us ++ rest) by simp [hr]) (by simp [hc, goesOn_iff]; rfl)
    (by simp [hc]) hclean
  obtain ⟨t, ht⟩ := harr.ahead
  have hd₁ := h₁ n stop one hone hkeeps hstop r₁.advance rest
    (by simp [ht, afterSemicolon, hc]) hrest hclean₁
  omega

theorem opened (h : Needs d .statement ts) (hreads : Read d .statement ts s)
    (hbegins : Phrase.statement.Begins ts) (hnext : ¬ (firstKind us).goesOn)
    (hbegins₁ : Phrase.statements.Begins us) (h₁ : Needs d₁ .statements us) :
    Needs (max d d₁) .statements (ts ++ us) := by
  intro n stop one hone hkeeps hstop r rest hr hrest hclean
  obtain ⟨hgo, helse, hafter⟩ := hbegins₁.firstKind_append hstop hrest hnext
  obtain ⟨hd, r₁, harr, hclean₁⟩ := h.round hreads hbegins hone hkeeps hstop
    (show r.ahead = ts ++ (us ++ rest) by simp [hr]) hgo helse hclean
  rw [hafter] at harr
  obtain ⟨t, ht⟩ := harr.ahead
  have hd₁ := h₁ n stop one hone hkeeps hstop r₁.advance rest (by simp [ht]) hrest hclean₁
  omega

end

end Needs

/-- **A derivation needs the levels it opens.** -/
theorem Derives.needs {d : Nat} {p : Phrase} {ts : List Token} {x : p.Tree}
    (h : Derives d p ts x) (hspelled : ∀ t ∈ ts, t.Spelled) : Needs d p ts := by
  induction h with
  | name | integer | boolean => exact fun _ _ _ _ _ _ _ _ _ _ _ => Nat.zero_le _
  | group ho _ hc ih => exact .group ho (ih fun t ht => hspelled t (by simp [ht])) hc
  | conditional hi _ h hc hb ih ih₁ =>
    exact .conditional hi (ih fun t ht => hspelled t (by simp [ht]))
      (h.read fun t ht => hspelled t (by simp [ht])) hc
      (ih₁ fun t ht => hspelled t (by simp [ht]))
      (hb.read fun t ht => hspelled t (by simp [ht])) hb.begins
  | alternative hi _ h hc hb hw ha ih ih₁ ih₂ =>
    exact .alternative hi (ih fun t ht => hspelled t (by simp [ht]))
      (h.read fun t ht => hspelled t (by simp [ht])) hc
      (ih₁ fun t ht => hspelled t (by simp [ht]))
      (hb.read fun t ht => hspelled t (by simp [ht])) hb.begins hw
      (ih₂ fun t ht => hspelled t (by simp [ht])) ha.begins
  | function hf _ hps hc _ ih =>
    exact .function hf hps hc (ih fun t ht => hspelled t (by simp [ht]))
  | call h ho _ hc ih ih₁ =>
    exact .call (ih fun t ht => hspelled t (by simp [ht]))
      (h.read fun t ht => hspelled t (by simp [ht])) ho
      (ih₁ fun t ht => hspelled t (by simp [ht])) hc
  | unary hk _ ih => exact .unary hk (ih fun t ht => hspelled t (by simp [ht]))
  | binary h hk _ ih ih₁ =>
    exact .binary (ih fun t ht => hspelled t (by simp [ht]))
      (h.read fun t ht => hspelled t (by simp [ht])) hk
      (ih₁ fun t ht => hspelled t (by simp [ht]))
  | tighter _ ih => exact .tighter (ih hspelled)
  | item _ ih => exact .item (ih hspelled)
  | items h hc _ ih ih₁ =>
    exact .items (ih fun t ht => hspelled t (by simp [ht]))
      (h.read fun t ht => hspelled t (by simp [ht])) hc
      (ih₁ fun t ht => hspelled t (by simp [ht]))
  | noArguments => exact fun _ _ _ _ _ _ _ _ _ _ => Nat.zero_le _
  | arguments h ih => exact .arguments (ih hspelled) h.begins
  | block _ _ hc ih => exact .block (ih fun t ht => hspelled t (by simp [ht])) hc
  | var hv _ _ _ ih => exact .var hv (ih fun t ht => hspelled t (by simp [ht]))
  | ret hw _ ih => exact .ret hw (ih fun t ht => hspelled t (by simp [ht]))
  | expr h ih => exact .expression (ih hspelled) h.begins
  | empty => exact fun _ _ _ _ _ _ _ _ _ _ _ => Nat.zero_le _
  | closed h hc _ ih ih₁ =>
    exact .closed (ih fun t ht => hspelled t (by simp [ht]))
      (h.read fun t ht => hspelled t (by simp [ht])) h.begins hc
      (ih₁ fun t ht => hspelled t (by simp [ht]))
  | opened h hnext h₁ ih ih₁ =>
    exact .opened (ih fun t ht => hspelled t (by simp [ht]))
      (h.read fun t ht => hspelled t (by simp [ht])) h.begins hnext h₁.begins
      (ih₁ fun t ht => hspelled t (by simp [ht]))

/-- The tokens of a program are derived in one way only: all derivations have the same tree and
    open equally many levels. -/
theorem Derives.unique {d d' : Nat} {ts : List Token} {ss ss' : List Stmt}
    (h : Derives d .statements ts ss) (h' : Derives d' .statements ts ss')
    (hspelled : ∀ t ∈ ts, t.Spelled) : d = d' ∧ ss = ss' := by
  have hread : ∀ {d ss}, Derives d .statements ts ss → ∀ n, d ≤ n → ∃ r',
      r'.errors = #[] ∧ (Walk.untilKind (fun _ => false) (script.stmt? (script.expr n))).run
        ⟨ts, .start, #[], #[]⟩ = (ss, r') := by
    intro d ss h n hn
    obtain ⟨r', -, herr, hrun⟩ := h.read hspelled n hn (fun _ => false) _ (.refl _) (by simp)
      ⟨ts, .start, #[], #[]⟩ [] (by simp) (by simp)
    exact ⟨r', herr, hrun⟩
  have hneeds : ∀ {d ss}, Derives d .statements ts ss → ∀ n,
      ((Walk.untilKind (fun _ => false) (script.stmt? (script.expr n))).run
        ⟨ts, .start, #[], #[]⟩).2.errors = #[] → d ≤ n := by
    intro d ss h n hclean
    exact h.needs hspelled n (fun _ => false) _ (.refl _) inferInstance (by simp)
      ⟨ts, .start, #[], #[]⟩ [] (by simp) (by simp) hclean
  have hle : ∀ {d d' ss ss'}, Derives d .statements ts ss → Derives d' .statements ts ss' →
      d ≤ d' := by
    intro d d' ss ss' h h'
    obtain ⟨r', herr, hrun⟩ := hread h' d' (Nat.le_refl _)
    exact hneeds h d' (by rw [hrun]; exact herr)
  obtain rfl := Nat.le_antisymm (hle h h') (hle h' h)
  obtain ⟨r₁, -, hrun⟩ := hread h d (Nat.le_refl _)
  obtain ⟨r₂, -, hrun'⟩ := hread h' d (Nat.le_refl _)
  exact ⟨rfl, (Prod.mk.inj (hrun.symm.trans hrun')).1⟩

end Scriptlet
