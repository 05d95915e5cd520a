/-
  What the grammar derives is read, without a diagnostic and as the tree of
  the derivation.

  Of an expression `Read` speaks while its loop is still going on: reading its
  tokens and going on is the same as going on from their tree.
-/
import Scriptlet.Proofs.Language.Binding
import Scriptlet.Proofs.Reading.Steps
import Scriptlet.Proofs.Text.Spelling

namespace Scriptlet

open Grammar (script)

/-! ## What reading a phrase does -/

/-- The tokens after a statement and its `;`. -/
def afterSemicolon : List Token → List Token
  | [] => []
  | t :: ts => if t.kind = .semicolon then ts else t :: ts

/-- What follows a statement without `;`: the next statement, or else the end of them all. -/
theorem Phrase.Begins.firstKind_append {us rest : List Token} {stop : Kind → Bool}
    (h : Phrase.statements.Begins us) (hstop : ∀ k, stop k = true → k = .closeBrace)
    (hrest : ∀ t ∈ rest.head?, stop t.kind = true) (hnext : ¬ (firstKind us).goesOn) :
    ¬ (firstKind (us ++ rest)).goesOn ∧ firstKind (us ++ rest) ≠ .elseWord ∧
      afterSemicolon (us ++ rest) = us ++ rest := by
  cases us with
  | nil =>
    cases rest with
    | nil => exact ⟨by simp [goesOn_iff]; rfl, by simp, rfl⟩
    | cons t rest =>
      have hk := hstop _ (hrest t rfl)
      exact ⟨by simp [hk, goesOn_iff]; rfl, by simp [hk], by simp [afterSemicolon, hk]⟩
  | cons t us =>
    have hk := h t us rfl
    refine ⟨hnext, ?_, ?_⟩
    · intro he; rw [List.cons_append, firstKind_cons] at he; rw [he] at hk; simp [script] at hk
    · refine if_neg fun he => ?_
      rw [he] at hk; simp [script] at hk

/-- A reader that differs from another one in its log at most. -/
structure Reader.Like (r r' : Reader) : Prop where
  ahead : r.ahead = r'.ahead
  errors : r.errors = r'.errors
  finish : r.finish = r'.finish

/-- A walk that does what another one does, but for the log. -/
def Walk.Alike (v w : Walk α) : Prop :=
  ∀ r, (v.run r).1 = (w.run r).1 ∧ (v.run r).2.Like (w.run r).2

theorem Walk.Alike.refl (w : Walk α) : Alike w w :=
  fun _ => ⟨rfl, rfl, rfl, rfl⟩

/-- What the reading of a phrase does on the tokens `ts` with `d` levels to spare, or more. -/
def Read (d : Nat) : (p : Phrase) → List Token → p.Tree → Prop
  | .expr l, ts, e => ∀ n, d ≤ n → ∀ p : Power, p.tier ≤ l → ∀ (r : Reader) rest,
      r.ahead = ts ++ rest → script.precedence (firstKind rest) ≤ l.power →
      firstKind rest ≠ .elseWord → ∃ r', r.Arrives r' rest ∧
        (script.nested (script.expr n) p).on r = (script.goOn (script.expr n) p e).on r'
  | .items, ts, es => ∀ n, d ≤ n → ∀ acc (r : Reader) c rest, r.ahead = c :: ts ++ rest →
      firstKind rest = .closeParen → ∃ r', r.Arrives r' rest ∧
        (Parse.more (Grammar.item (script.expr n)) acc).on r = (.ok (es.reverse ++ acc), r')
  | .arguments, ts, es => ∀ n, d ≤ n → ∀ (r : Reader) o c rest, r.ahead = o :: ts ++ c :: rest →
      c.kind = .closeParen → ∃ r', r.Arrives r' rest ∧
        (Parse.parenthesised (Grammar.item (script.expr n))).on r = (.ok es, r')
  | .block, ts, b => ∀ n, d ≤ n → ∀ (r : Reader) rest, r.ahead = ts ++ rest →
      ∃ r', r.Arrives r' rest ∧ (script.block (script.expr n)).on r = (.ok b, r')
  | .statement, ts, s => ∀ n, d ≤ n → ∀ (r : Reader) rest, r.ahead = ts ++ rest →
      ¬ (firstKind rest).goesOn → firstKind rest ≠ .elseWord →
      ∃ r', r.Arrives r' (afterSemicolon rest) ∧
        (script.stmt (script.expr n)).on r = (.ok s, r')
  | .statements, ts, ss => ∀ n, d ≤ n → ∀ (stop : Kind → Bool) one,
      Walk.Alike one (script.stmt? (script.expr n)) → (∀ k, stop k = true → k = .closeBrace) →
      ∀ (r : Reader) rest, r.ahead = ts ++ rest → (∀ t ∈ rest.head?, stop t.kind = true) →
      ∃ r', r'.ahead = rest ∧ r'.errors = r.errors ∧ (Walk.untilKind stop one).run r = (ss, r')

section

variable {d n : Nat} {l : Tier} {ts rest : List Token} {t : Token} {e : Expr} {p : Power}
  {r r' : Reader}

/-- A whole expression is read where the token after it binds no more tightly. -/
theorem Read.expr (h : Read d (.expr l) ts e) (hn : d < n) (hp : p.tier ≤ l) (hpl : p ≤ l.power)
    (hr : r.ahead = ts ++ rest) (hnext : script.precedence (firstKind rest) ≤ p)
    (helse : firstKind rest ≠ .elseWord) :
    ∃ r', r.Arrives r' rest ∧ (script.expr n p).on r = (.ok e, r') := by
  obtain ⟨m, rfl⟩ := Nat.exists_eq_add_of_lt hn
  obtain ⟨r', harr, hon⟩ := h (d + m) (Nat.le_add_right ..) p hp r rest hr
    (Power.le_trans hnext hpl) helse
  refine ⟨r', harr, hon.trans (Grammar.on_goOn_of_none ?_)⟩
  rw [harr.kind_next]
  exact binding_of_le hnext

/-- The loosest expressions, which stand wherever no operator may follow. -/
theorem Read.whole (h : Read d (.expr .equality) ts e) (hn : d < n) (hr : r.ahead = ts ++ rest)
    (hnext : ¬ (firstKind rest).goesOn) (helse : firstKind rest ≠ .elseWord) :
    ∃ r', r.Arrives r' rest ∧ (script.expr n .lowest).on r = (.ok e, r') :=
  h.expr hn (by decide) (by decide) hr (precedence_le_of_not_goesOn hnext _) helse

/-- An expression that an operand rule reads. -/
theorem Read.of_operand {rule : OperandRule} (hrule : script.operand t.kind = some rule)
    (h : ∀ n, d ≤ n → ∀ (r : Reader) rest, r.ahead = t :: ts ++ rest →
      script.precedence (firstKind rest) ≤ l.power → firstKind rest ≠ .elseWord →
      ∃ r', r.Arrives r' rest ∧ (script.readOperand (script.expr n) rule).on r = (.ok e, r')) :
    Read d (.expr l) (t :: ts) e := by
  intro n hn p _ r rest hr hnext helse
  obtain ⟨r', harr, hon⟩ := h n hn r rest hr hnext helse
  refine ⟨r', harr, ?_⟩
  rw [Grammar.on_nested hr hrule, hon]

/-- A token that is an operand by itself. -/
theorem Read.of_token {rule : OperandRule} (hrule : script.operand t.kind = some rule)
    (h : ∀ n r, r.current = t → (script.readOperand (script.expr n) rule).on r = (.ok e, r)) :
    Read d (.expr l) [t] e := by
  refine Read.of_operand hrule fun n _ r rest hr _ _ => ?_
  exact ⟨r, .here hr, h n r (Reader.current_of_ahead hr)⟩

theorem Read.closedExpr (h : Read d (.expr .equality) ts e) (hn : d < n)
    (hr : r.ahead = ts ++ rest) (hnext : ¬ (firstKind rest).goesOn)
    (helse : firstKind rest ≠ .elseWord) :
    ∃ r', r.Arrives r' (afterSemicolon rest) ∧
      (Grammar.closedExpr (script.expr n)).on r = (.ok e, r') := by
  obtain ⟨r', harr, hon⟩ := h.whole hn hr hnext helse
  rw [Grammar.on_closedExpr, hon]
  simp only [harr.kind_next]
  cases rest with
  | nil => exact ⟨r', harr, rfl⟩
  | cons u us =>
    by_cases hu : u.kind = .semicolon
    · exact ⟨r'.advance, by simpa [afterSemicolon, hu] using harr.step.1, by simp [hu]⟩
    · exact ⟨r', by simpa [afterSemicolon, hu] using harr, by simp [hu]⟩

end

/-! ## The phrases, one by one -/

namespace Read

section

variable {d d₁ d₂ : Nat} {l : Tier} {ts us as bs : List Token} {e e₁ : Expr} {es : List Expr}
  {b a : Block} {t o c i w : Token}

theorem name (hk : t.kind = .identifier) : Read 0 (.expr .primary) [t] (.name ⟨t, t.literal⟩) := by
  refine of_token (by rw [hk]; rfl) fun n r ht => ?_
  subst ht; rfl

theorem integer (hk : t.kind = .integer) (hle : t.decimal ≤ Numeral.largest) (ht : t.Spelled) :
    Read 0 (.expr .primary) [t] (.integer t t.decimal) := by
  refine of_token (by rw [hk]; rfl) fun n r hr => ?_
  have hv := ht.integer_eq hk
  rw [if_pos hle] at hv
  simp only [Grammar.readOperand, Parse.integer, Parse.on_bind, Parse.on_lift, hr, hv,
    Parse.on_pure]

theorem boolean (hk : t.kind = .trueWord ∨ t.kind = .falseWord) :
    Read 0 (.expr .primary) [t] (.boolean t (t.kind = .trueWord)) := by
  have hrule : script.operand t.kind = some .boolean := by
    rcases hk with hk | hk <;> rw [hk] <;> rfl
  refine of_token hrule fun n r ht => ?_
  subst ht; rfl

theorem group (ho : o.kind = .openParen) (h : Read d (.expr .equality) ts e)
    (hc : c.kind = .closeParen) : Read (d + 1) (.expr .primary) (o :: ts ++ [c]) e := by
  refine of_operand (by rw [ho]; rfl) fun n hn r rest hr _ _ => ?_
  have hadv : r.advance.ahead = ts ++ (c :: rest) := by simp [hr]
  obtain ⟨r', harr, hon⟩ := h.whole hn hadv (by simp [hc, goesOn_iff]; rfl) (by simp [hc])
  refine ⟨r'.advance, harr.step.1.after rfl, ?_⟩
  simp only [Grammar.readOperand, Parse.on_bind, Parse.on_lift, hon, harr.on_expect hc,
    Parse.on_pure]

/-- The part that conditionals have in common: up to the end of their first block. -/
theorem condition {n : Nat} {r : Reader} {rest : List Token} (ho : o.kind = .openParen)
    (h : Read d (.expr .equality) ts e) (hc : c.kind = .closeParen) (hb : Read d₁ .block bs b)
    (hbegins : Phrase.block.Begins bs) (hn : max (d + 1) d₁ ≤ n)
    (hr : r.ahead = i :: o :: ts ++ c :: (bs ++ rest)) :
    ∃ r₁ r₂ r₃, (Parse.expect .openParen).on r = (.ok (), r.advance) ∧
      (script.expr n .lowest).on r.advance.advance = (.ok e, r₁) ∧
      (Parse.expect .closeParen).on r₁ = (.ok (), r₂) ∧
      (Parse.expect .openBrace).on r₂ = (.ok (), r₂.advance) ∧
      (script.block (script.expr n)).on r₂.advance = (.ok b, r₃) ∧ r.Arrives r₃ rest := by
  have hadv : r.advance.advance.ahead = ts ++ (c :: (bs ++ rest)) := by simp [hr]
  obtain ⟨r₁, harr, hon⟩ := h.whole (n := n) (by omega) hadv (by simp [hc, goesOn_iff]; rfl)
    (by simp [hc])
  obtain ⟨f, fs, rfl, hf⟩ := hbegins
  obtain ⟨harr₂, -, -⟩ := harr.step
  obtain ⟨r₃, harr₃, hon₃⟩ := hb n (by omega) r₁.advance.advance rest harr₂.step.2.1
  refine ⟨r₁, r₁.advance, r₃, Parse.on_expect_of_ahead hr ho, hon, harr.on_expect hc,
    harr₂.on_expect hf, hon₃, harr₃.after harr₂.errors⟩

theorem conditional (hi : i.kind = .ifWord) (ho : o.kind = .openParen)
    (h : Read d (.expr .equality) ts e) (hc : c.kind = .closeParen) (hb : Read d₁ .block bs b)
    (hbegins : Phrase.block.Begins bs) : Read (max (d + 1) d₁) (.expr .primary)
      (i :: o :: ts ++ c :: bs) (.conditional i e b none) := by
  refine of_operand (by rw [hi]; rfl) fun n hn r rest hr _ helse => ?_
  obtain ⟨r₁, r₂, r₃, hon₁, hon₂, hon₃, hon₄, hon₅, harr⟩ :=
    condition ho h hc hb hbegins hn (by simpa using hr)
  refine ⟨r₃, harr, ?_⟩
  simp only [Grammar.readOperand, Parse.on_bind, Parse.on_lift, hon₁, hon₂, hon₃, hon₄, hon₅,
    harr.kind_next, if_neg helse, Parse.on_pure, Reader.current_of_ahead hr]

theorem alternative (hi : i.kind = .ifWord) (ho : o.kind = .openParen)
    (h : Read d (.expr .equality) ts e) (hc : c.kind = .closeParen) (hb : Read d₁ .block bs b)
    (hbegins : Phrase.block.Begins bs) (hw : w.kind = .elseWord) (ha : Read d₂ .block as a)
    (habegins : Phrase.block.Begins as) : Read (max (max (d + 1) d₁) d₂) (.expr .primary)
      (i :: o :: ts ++ c :: (bs ++ w :: as)) (.conditional i e b (some a)) := by
  refine of_operand (by rw [hi]; rfl) fun n hn r rest hr _ _ => ?_
  obtain ⟨r₁, r₂, r₃, hon₁, hon₂, hon₃, hon₄, hon₅, harr⟩ :=
    condition (n := n) ho h hc hb hbegins (by omega) (by simpa using hr)
  obtain ⟨f, fs, rfl, hf⟩ := habegins
  obtain ⟨harr₃, -, -⟩ := harr.step
  obtain ⟨r₄, harr₄, hon₆⟩ := ha n (by omega) r₃.advance.advance rest harr₃.step.2.1
  refine ⟨r₄, harr₄.after harr.errors, ?_⟩
  simp only [Grammar.readOperand, Parse.on_bind, Parse.on_lift, hon₁, hon₂, hon₃, hon₄, hon₅,
    harr.kind_next, firstKind_cons, hw, if_true, harr₃.on_expect hf, hon₆, Parse.on_pure,
    Reader.current_of_ahead hr]

/-- The names between the parentheses of a function. -/
theorem names {ps : List Token} {is : List Identifier} (h : Names ps is) :
    ∀ (acc : List Identifier) (r : Reader) c rest, r.ahead = c :: ps ++ rest →
      firstKind rest = .closeParen → ∃ r', r.Arrives r' rest ∧
        (Parse.more (do Parse.expect .identifier; Walk.identifier) acc).on r =
          (.ok (is.reverse ++ acc), r') := by
  have hitem : ∀ {c t : Token} {us : List Token} {r : Reader}, r.ahead = c :: t :: us →
      t.kind = .identifier →
      Parse.on (do Parse.expect .identifier; Walk.identifier) r =
        (.ok ⟨t, t.literal⟩, r.advance) := by
    intro c t us r hr hk
    simp only [Parse.on_bind, Parse.on_expect_of_ahead hr hk, Parse.on_lift, Walk.identifier,
      Walk.run_bind, Walk.run_pure, Reader.current, hr, Reader.ahead_advance, List.tail_cons,
      List.headD_cons]
  induction h with
  | @one t hk =>
    intro acc r c rest hr hrest
    have harr : r.Arrives r.advance rest := .advance hr
    refine ⟨r.advance, harr, Parse.on_more_of_last (hitem hr hk) ?_⟩
    rw [harr.kind_next, hrest]
    decide
  | @more t o ps is hk ho _ ih =>
    intro acc r c rest hr hrest
    obtain ⟨r', harr, hon⟩ := ih (⟨t, t.literal⟩ :: acc) r.advance.advance o rest
      (by simp [hr]) hrest
    refine ⟨r', harr.after rfl, ?_⟩
    rw [Parse.on_more_of_comma (hitem hr hk) (Reader.ahead_advance_of_ahead hr) ho, hon]
    simp

theorem parameters {ps : List Token} {is : List Identifier} {r : Reader} {rest : List Token}
    (h : Parameters ps is) (hr : r.ahead = o :: ps ++ c :: rest) (hc : c.kind = .closeParen) :
    ∃ r', r.Arrives r' rest ∧
      (Parse.parenthesised (do Parse.expect .identifier; Walk.identifier)).on r = (.ok is, r') := by
  cases h with
  | none => exact ⟨r.advance, .advance hr, Parse.on_parenthesised_of_none
      (by rw [Reader.next_of_ahead hr, hc])⟩
  | some h =>
    obtain ⟨r', harr, hon⟩ := names h [] r o (c :: rest) hr hc
    refine ⟨r'.advance, harr.step.1, ?_⟩
    have hr' : r.next.kind ≠ .closeParen := by
      cases h with
      | one hk => rw [Reader.next_of_ahead hr, hk]; decide
      | more hk => rw [Reader.next_of_ahead hr, hk]; decide
    rw [Parse.on_parenthesised_of_more hr' hon harr hc]
    simp

theorem function {ps : List Token} {is : List Identifier} (hi : i.kind = .functionWord)
    (ho : o.kind = .openParen) (hps : Parameters ps is) (hc : c.kind = .closeParen)
    (hb : Read d .block bs b) (hbegins : Phrase.block.Begins bs) :
    Read d (.expr .primary) (i :: o :: ps ++ c :: bs) (.function i is b) := by
  refine of_operand (by rw [hi]; rfl) fun n hn r rest hr _ _ => ?_
  obtain ⟨r₁, harr, hon₁⟩ := parameters hps
    (show r.advance.ahead = o :: ps ++ c :: (bs ++ rest) by simp [hr]) hc
  obtain ⟨f, fs, rfl, hf⟩ := hbegins
  obtain ⟨r₂, harr₂, hon₂⟩ := hb n hn r₁.advance rest harr.step.2.1
  refine ⟨r₂, harr₂.after harr.errors, ?_⟩
  simp only [Grammar.readOperand, Parse.on_bind, Parse.on_lift, Parse.on_expect_of_ahead hr ho,
    hon₁, harr.on_expect hf, hon₂, Parse.on_pure, Reader.current_of_ahead hr]

theorem call (h : Read d (.expr .call) ts e) (ho : o.kind = .openParen)
    (ha : Read d₁ .arguments as es) (hc : c.kind = .closeParen) :
    Read (max d d₁) (.expr .call) (ts ++ o :: as ++ [c]) (.call o e es) := by
  intro n hn p hp r rest hr _ _
  obtain ⟨r₁, harr, hon⟩ := h n (by omega) p hp r (o :: as ++ c :: rest) (by simp [hr])
    (by simp [ho]; decide) (by simp [ho])
  obtain ⟨t, ht⟩ := harr.ahead
  obtain ⟨r₂, harr₂, hon₂⟩ := ha n (by omega) r₁.advance o c rest harr.step.2.1 hc
  refine ⟨r₂, harr₂.after harr.errors, ?_⟩
  rw [hon, Grammar.on_goOn_of_some ht (by rw [ho]; exact binding_openParen (lt_call_of_tier_le hp))]
  have hread : (OperatorRule.call.read (script.expr n) e .call).on r₁.advance =
      (.ok (.call o e es), r₂) := by
    simp only [OperatorRule.read, Parse.on_bind, Parse.on_lift, Parse.on_pure,
      Reader.current_of_ahead harr.step.2.1]
    rw [show (do Walk.advance; script.expr n .lowest : Parse Expr) =
      Grammar.item (script.expr n) from rfl, hon₂]
  rw [hread]

theorem unary (hk : t.kind = .bang ∨ t.kind = .minus) (h : Read d (.expr .unary) ts e) :
    Read (d + 1) (.expr .unary) (t :: ts) (.unary t t.literal e) := by
  have hrule : script.operand t.kind = some .unary := by
    rcases hk with hk | hk <;> rw [hk] <;> rfl
  refine of_operand hrule fun n hn r rest hr hnext helse => ?_
  obtain ⟨r', harr, hon⟩ := h.expr (n := n) (p := .unary) (r := r.advance) hn (by decide)
    (by decide) (by simp [hr]) hnext helse
  refine ⟨r', harr.after rfl, ?_⟩
  simp only [Grammar.readOperand, Parse.on_bind, Parse.on_lift, hon, Parse.on_pure,
    Reader.current_of_ahead hr]

theorem binary (h : Read d (.expr l) ts e) (hk : t.kind ∈ l.operators)
    (h₁ : Read d₁ (.expr l.tighter) us e₁) :
    Read (max d (d₁ + 1)) (.expr l) (ts ++ t :: us) (.binary t e t.literal e₁) := by
  intro n hn p hp r rest hr hnext helse
  obtain ⟨r₁, harr, hon⟩ := h n (by omega) p hp r (t :: us ++ rest) (by simp [hr])
    (by simp [precedence_of_mem hk, Power.le_iff])
    (ne_else_of_mem hk)
  obtain ⟨u, hu⟩ := harr.ahead
  obtain ⟨r₂, harr₂, hon₂⟩ := h₁.expr (n := n) (p := l.power) (r := r₁.advance.advance)
    (by omega) (by rw [tier_power hk]; exact Nat.le_refl _) (Tier.power_le_tighter l)
    (by simp [hu]) hnext helse
  refine ⟨r₂, harr₂.after harr.errors, ?_⟩
  -- the loop stands behind the left operand, and takes the operator in
  rw [hon, Grammar.on_goOn_of_some hu (binding_of_mem hk (lt_power_of_tier_le hk hp))]
  have hread : (OperatorRule.binary.read (script.expr n) e l.power).on r₁.advance =
      (.ok (.binary t e t.literal e₁), r₂) := by
    simp only [OperatorRule.read, Parse.on_bind, Parse.on_lift, Parse.on_pure,
      Reader.current_of_ahead harr.step.2.1, hon₂]
  rw [hread]

theorem tighter (h : Read d (.expr l.tighter) ts e) : Read d (.expr l) ts e := by
  intro n hn p hp r rest hr hnext helse
  exact h n hn p (Tier.le_trans hp (Tier.le_tighter l)) r rest hr
    (Power.le_trans hnext (Tier.power_le_tighter l)) helse

/-- The first item of a list. -/
theorem on_item {n : Nat} {r : Reader} {rest : List Token} (h : Read d (.expr .equality) ts e)
    (hn : d + 1 ≤ n) (hr : r.ahead = c :: ts ++ rest) (hnext : ¬ (firstKind rest).goesOn)
    (helse : firstKind rest ≠ .elseWord) :
    ∃ r', r.Arrives r' rest ∧ (Grammar.item (script.expr n)).on r = (.ok e, r') := by
  obtain ⟨r', harr, hon⟩ := h.whole (n := n) (r := r.advance) hn (by simp [hr]) hnext helse
  refine ⟨r', harr.after rfl, ?_⟩
  simp only [Grammar.item, Parse.on_bind, Parse.on_lift, hon]

theorem item (h : Read d (.expr .equality) ts e) : Read (d + 1) .items ts [e] := by
  intro n hn acc r c rest hr hrest
  obtain ⟨r', harr, hon⟩ := h.on_item hn hr (by simp [hrest, goesOn_iff]; rfl) (by simp [hrest])
  refine ⟨r', harr, Parse.on_more_of_last hon ?_⟩
  rw [harr.kind_next, hrest]
  decide

theorem items (h : Read d (.expr .equality) ts e) (hc : c.kind = .comma)
    (h₁ : Read d₁ .items us es) : Read (max (d + 1) d₁) .items (ts ++ c :: us) (e :: es) := by
  intro n hn acc r u rest hr hrest
  obtain ⟨r₁, harr, hon⟩ := h.on_item (n := n) (by omega)
    (show r.ahead = u :: ts ++ (c :: us ++ rest) by simp [hr])
    (by simp [hc, goesOn_iff]; rfl) (by simp [hc])
  obtain ⟨r₂, harr₂, hon₂⟩ := h₁ n (by omega) (e :: acc) r₁.advance c rest harr.step.2.1 hrest
  refine ⟨r₂, harr₂.after harr.errors, ?_⟩
  obtain ⟨t, ht⟩ := harr.ahead
  rw [Parse.on_more_of_comma hon ht hc, hon₂]
  simp

theorem noArguments : Read 0 .arguments [] [] := by
  intro n _ r o c rest hr hc
  exact ⟨r.advance, .advance hr, Parse.on_parenthesised_of_none
    (by rw [Reader.next_of_ahead hr, hc])⟩

theorem arguments (h : Read d .items ts es) (hbegins : Phrase.items.Begins ts) :
    Read d .arguments ts es := by
  intro n hn r o c rest hr hc
  obtain ⟨r', harr, hon⟩ := h n hn [] r o (c :: rest) hr hc
  refine ⟨r'.advance, harr.step.1, ?_⟩
  obtain ⟨t, us, rfl, hk⟩ := hbegins
  have hnext : r.next.kind ≠ .closeParen := by
    rw [Reader.next_of_ahead hr]
    intro h; rw [h] at hk; cases hk
  rw [Parse.on_parenthesised_of_more hnext hon harr hc]
  simp

theorem block {ss : List Stmt} (h : Read d .statements ts ss) (hc : c.kind = .closeBrace) :
    Read d .block (o :: ts ++ [c]) (.mk o ss) := by
  intro n hn r rest hr
  obtain ⟨r', hahead, herr, hon⟩ := h n hn (· = .closeBrace) _ (.refl _) (by simp) r.advance
    (c :: rest) (by simp [hr]) (by simp [hc])
  refine ⟨r', .after (.here hahead) herr, ?_⟩
  simp only [Grammar.block, Parse.on_bind, Parse.on_lift, hon, Reader.current_of_ahead hahead, hc,
    Reader.current_of_ahead hr]
  simp

end

/-! ### Statements -/

section

variable {d d₁ : Nat} {ts us : List Token} {e : Expr} {t v x a c : Token} {s : Stmt}
  {ss : List Stmt}

theorem var (hv : v.kind = .varWord) (hx : x.kind = .identifier) (ha : a.kind = .assign)
    (h : Read d (.expr .equality) ts e) :
    Read (d + 1) .statement (v :: x :: a :: ts) (.var v ⟨x, x.literal⟩ (some e)) := by
  intro n hn r rest hr hnext helse
  have hr₁ : r.advance.ahead = x :: a :: (ts ++ rest) := by simp [hr]
  obtain ⟨r', harr, hon⟩ := h.closedExpr (n := n) (r := r.advance.advance.advance) hn
    (by simp [hr]) hnext helse
  refine ⟨r', harr.after rfl, ?_⟩
  rw [Grammar.on_stmt hr (by rw [hv]; rfl : _ = StatementRule.var)]
  simp only [Parse.on_bind, Parse.on_lift, Grammar.readStatement, Parse.on_expect_of_ahead hr hx,
    Walk.identifier, Walk.run_bind, Walk.run_pure,
    Parse.on_expect_of_ahead hr₁ ha, Grammar.run_recover, hon, Parse.on_pure,
    Reader.current_of_ahead hr, Reader.current_of_ahead hr₁]

theorem ret (hw : t.kind = .returnWord) (h : Read d (.expr .equality) ts e) :
    Read (d + 1) .statement (t :: ts) (.ret t (some e)) := by
  intro n hn r rest hr hnext helse
  obtain ⟨r', harr, hon⟩ := h.closedExpr (n := n) (r := r.advance) hn (by simp [hr]) hnext helse
  refine ⟨r', harr.after rfl, ?_⟩
  rw [Grammar.on_stmt hr (by rw [hw]; rfl : _ = StatementRule.ret)]
  simp only [Parse.on_bind, Parse.on_lift, Grammar.readStatement, Grammar.run_recover, hon,
    Parse.on_pure, Reader.current_of_ahead hr]

theorem statement (h : Read d (.expr .equality) (t :: ts) e)
    (hbegins : (Phrase.expr .equality).Begins (t :: ts)) :
    Read (d + 1) .statement (t :: ts) (.expr t e) := by
  intro n hn r rest hr hnext helse
  obtain ⟨r', harr, hon⟩ := h.closedExpr (n := n) hn hr hnext helse
  refine ⟨r', harr, ?_⟩
  have hrule : (script.statement t.kind).getD .expr = .expr := by
    obtain ⟨u, us, ⟨⟩, hk⟩ := hbegins
    revert hk
    cases t.kind <;> decide
  rw [Grammar.on_stmt hr hrule]
  simp only [Parse.on_bind, Parse.on_lift, Grammar.readStatement, hon, Parse.on_pure,
    Reader.current_of_ahead hr]

theorem empty : Read 0 .statements [] [] := by
  intro n _ stop one _ _ r rest hr hstop
  refine ⟨r, hr, rfl, Walk.run_untilKind_of_stop fun t us ht => hstop t ?_⟩
  rw [← List.nil_append rest, ← hr, ht]
  rfl

/-- A statement is read in a round of its own, up to the token before the next statement. -/
theorem round {n : Nat} {stop : Kind → Bool} {one : Walk (Option Stmt)} {r : Reader}
    {rest : List Token} (h : Read d .statement ts s) (hbegins : Phrase.statement.Begins ts)
    (hn : d ≤ n) (hone : Walk.Alike one (script.stmt? (script.expr n)))
    (hstop : ∀ k, stop k = true → k = .closeBrace) (hr : r.ahead = ts ++ rest)
    (hnext : ¬ (firstKind rest).goesOn) (helse : firstKind rest ≠ .elseWord) :
    ∃ r', r.Arrives r' (afterSemicolon rest) ∧ (Walk.untilKind stop one).run r =
      (s :: ((Walk.untilKind stop one).run r'.advance).1,
        ((Walk.untilKind stop one).run r'.advance).2) := by
  obtain ⟨r', harr, hon⟩ := h n hn r rest hr hnext helse
  obtain ⟨u, us, rfl, hu⟩ := hbegins
  have hrun : (script.stmt? (script.expr n)).run r = (some s, r') := by
    rw [Grammar.stmt?, Grammar.run_recover, hon]
  obtain ⟨hvalue, hahead, herrors, -⟩ := hone r
  rw [hrun] at hvalue hahead herrors
  refine ⟨(one.run r).2, ⟨?_, herrors.trans harr.errors⟩, ?_⟩
  · rw [hahead]; exact harr.ahead
  · rw [Walk.run_untilKind_of_not_stop hr, hvalue]
    · rfl
    · cases hs : stop u.kind with
      | false => rfl
      | true => rw [hstop _ hs] at hu; rcases hu with hu | hu <;> cases hu

theorem closed (h : Read d .statement ts s) (hbegins : Phrase.statement.Begins ts)
    (hc : c.kind = .semicolon) (h₁ : Read d₁ .statements us ss) :
    Read (max d d₁) .statements (ts ++ c :: us) (s :: ss) := by
  intro n hn stop one hone hstop r rest hr hrest
  obtain ⟨r₁, harr, hrun⟩ := h.round hbegins (by omega) hone hstop
    (show r.ahead = ts ++ (c :: us ++ rest) by simp [hr]) (by simp [hc, goesOn_iff]; rfl)
    (by simp [hc])
  obtain ⟨t, ht⟩ := harr.ahead
  obtain ⟨r₂, hahead, herr, hrun₂⟩ := h₁ n (by omega) stop one hone hstop r₁.advance rest
    (by simp [ht, afterSemicolon, hc]) hrest
  refine ⟨r₂, hahead, herr.trans harr.errors, ?_⟩
  rw [hrun, hrun₂]

theorem opened (h : Read d .statement ts s) (hbegins : Phrase.statement.Begins ts)
    (hnext : ¬ (firstKind us).goesOn) (h₁ : Read d₁ .statements us ss)
    (hbegins₁ : Phrase.statements.Begins us) :
    Read (max d d₁) .statements (ts ++ us) (s :: ss) := by
  intro n hn stop one hone hstop r rest hr hrest
  have hfirst := hbegins₁.firstKind_append hstop hrest hnext
  obtain ⟨r₁, harr, hrun⟩ := h.round hbegins (by omega) hone hstop
    (show r.ahead = ts ++ (us ++ rest) by simp [hr]) hfirst.1 hfirst.2.1
  rw [hfirst.2.2] at harr
  obtain ⟨t, ht⟩ := harr.ahead
  obtain ⟨r₂, hahead, herr, hrun₂⟩ := h₁ n (by omega) stop one hone hstop r₁.advance rest
    (by simp [ht]) hrest
  refine ⟨r₂, hahead, herr.trans harr.errors, ?_⟩
  rw [hrun, hrun₂]

end

end Read

/-- **Whatever the grammar derives is read.** -/
theorem Derives.read {d : Nat} {p : Phrase} {ts : List Token} {x : p.Tree}
    (h : Derives d p ts x) (hspelled : ∀ t ∈ ts, t.Spelled) : Read d p ts x := by
  induction h with
  | name hk => exact .name hk
  | integer hk hle => exact .integer hk hle (hspelled _ (by simp))
  | boolean hk => exact .boolean hk
  | group ho _ hc ih => exact .group ho (ih fun t ht => hspelled t (by simp [ht])) hc
  | conditional hi ho _ hc hb ih ih₁ =>
    exact .conditional hi ho (ih fun t ht => hspelled t (by simp [ht])) hc
      (ih₁ fun t ht => hspelled t (by simp [ht])) hb.begins
  | alternative hi ho _ hc hb hw ha ih ih₁ ih₂ =>
    exact .alternative hi ho (ih fun t ht => hspelled t (by simp [ht])) hc
      (ih₁ fun t ht => hspelled t (by simp [ht])) hb.begins hw
      (ih₂ fun t ht => hspelled t (by simp [ht])) ha.begins
  | function hf ho hps hc hb ih =>
    exact .function hf ho hps hc (ih fun t ht => hspelled t (by simp [ht])) hb.begins
  | call _ ho _ hc ih ih₁ =>
    exact .call (ih fun t ht => hspelled t (by simp [ht])) ho
      (ih₁ fun t ht => hspelled t (by simp [ht])) hc
  | unary hk _ ih => exact .unary hk (ih fun t ht => hspelled t (by simp [ht]))
  | binary _ hk _ ih ih₁ =>
    exact .binary (ih fun t ht => hspelled t (by simp [ht])) hk
      (ih₁ fun t ht => hspelled t (by simp [ht]))
  | tighter _ ih => exact .tighter (ih hspelled)
  | item _ ih => exact .item (ih hspelled)
  | items _ hc _ ih ih₁ =>
    exact .items (ih fun t ht => hspelled t (by simp [ht])) hc
      (ih₁ fun t ht => hspelled t (by simp [ht]))
  | noArguments => exact .noArguments
  | arguments h ih => exact .arguments (ih hspelled) h.begins
  | block _ _ hc ih => exact .block (ih fun t ht => hspelled t (by simp [ht])) hc
  | var hv hx ha _ ih => exact .var hv hx ha (ih fun t ht => hspelled t (by simp [ht]))
  | ret hw _ ih => exact .ret hw (ih fun t ht => hspelled t (by simp [ht]))
  | expr h ih => exact .statement (ih hspelled) h.begins
  | empty => exact .empty
  | closed h hc _ ih ih₁ =>
    exact .closed (ih fun t ht => hspelled t (by simp [ht])) h.begins hc
      (ih₁ fun t ht => hspelled t (by simp [ht]))
  | opened h hnext h₁ ih ih₁ =>
    exact .opened (ih fun t ht => hspelled t (by simp [ht])) h.begins hnext
      (ih₁ fun t ht => hspelled t (by simp [ht])) h₁.begins

end Scriptlet
