/-
  The canonical tokens of a tree are derived again: by themselves, inside the
  parentheses of a condition, and right after another expression, which is
  then called.
-/
import Scriptlet.Proofs.Language.Binding
import Scriptlet.Proofs.Rendering.Leading
import Scriptlet.Proofs.Rendering.Separation
import Scriptlet.Proofs.Rendering.Width

namespace Scriptlet

/-- What is written in `width` characters is read as something of `width'` characters, which is the
    same just if it is separated. -/
structure Reread (separated : Bool) (width width' : Nat) (same : Prop) : Prop where
  le : width ≤ width'
  lt : separated = false → width < width'
  same : separated = true → same

namespace Reread

variable {s s₁ s₂ : Bool} {w w' w₁ w₁' w₂ w₂' : Nat} {P Q P₁ P₂ : Prop}

theorem of_eq (h : w = w') (hP : P) : Reread true w w' P :=
  ⟨Nat.le_of_eq h, Bool.noConfusion, fun _ => hP⟩

theorem imp (h : Reread s w w' P) (n : Nat) (hw : w₁ = w + n) (hw' : w₁' = w' + n) (hPQ : P → Q) :
    Reread s w₁ w₁' Q where
  le := by have := h.le; omega
  lt hs := by have := h.lt hs; omega
  same hs := hPQ (h.same hs)

theorem and (h₁ : Reread s₁ w₁ w₁' P₁) (h₂ : Reread s₂ w₂ w₂' P₂) (n : Nat)
    (hw : w = w₁ + w₂ + n) (hw' : w' = w₁' + w₂' + n) (hQ : P₁ → P₂ → Q) :
    Reread (s₁ && s₂) w w' Q where
  le := by have := h₁.le; have := h₂.le; omega
  lt hs := by
    have hle₁ := h₁.le
    have hle₂ := h₂.le
    rcases Bool.and_eq_false_iff.1 hs with hs | hs
    · have := h₁.lt hs; omega
    · have := h₂.lt hs; omega
  same hs := by
    obtain ⟨hs₁, hs₂⟩ := Bool.and_eq_true_iff.1 hs
    exact hQ (h₁.same hs₁) (h₂.same hs₂)

/-- What is read again may be a part of what is read again. -/
theorem trans (h₁ : Reread s₁ w₁ w₁' P₁) (n : Nat) (h₂ : Reread s₂ (w₁' + n) w' P₂)
    (hQ : P₁ → P₂ → Q) : Reread (s₁ && s₂) (w₁ + n) w' Q where
  le := by have := h₁.le; have := h₂.le; omega
  lt hs := by
    have hle₁ := h₁.le
    have hle₂ := h₂.le
    rcases Bool.and_eq_false_iff.1 hs with hs | hs
    · have := h₁.lt hs; omega
    · have := h₂.lt hs; omega
  same hs := by
    obtain ⟨hs₁, hs₂⟩ := Bool.and_eq_true_iff.1 hs
    exact hQ (h₁.same hs₁) (h₂.same hs₂)

end Reread

/-- The tree `y`, of `k` levels, is what the canonical text of `x` is read as. -/
structure Expr.Again (x : Expr) (k : Nat) (y : Expr) : Prop where
  reread : Reread x.separated x.text.length y.text.length
    (y.retoken .bare = x.retoken .bare ∧ k = x.levels)
  isOperation : y.isOperation = x.isOperation

/-- The tokens of an expression inside the parentheses of a condition. -/
def Expr.inside : Expr → List Token
  | .unary t _ e => t.unplaced :: e.tokens
  | .binary t l _ r => l.tokens ++ t.unplaced :: r.tokens
  | e => e.tokens

theorem Expr.condition_tokens (e : Expr) :
    (if e.isOperation then e.tokens else parenthesised e.tokens) = parenthesised e.inside := by
  cases e with
  | conditional t c b a => cases a <;> simp [isOperation, inside]
  | _ => simp [isOperation, inside, tokens]

/-- The block `y`, of `k` levels, is what the canonical text of `b` is read as. -/
def Block.Again (b : Block) (k : Nat) (y : Block) : Prop :=
  Reread b.separated b.text.length y.text.length (y.retoken .bare = b.retoken .bare ∧ k = b.levels)

/-- What is derived from the canonical tokens of an expression. -/
structure Expr.Rederived (x : Expr) : Prop where
  inside : ∃ h y, Derives h (.expr .equality) x.inside y ∧
    x.Again (if x.isOperation then h + 1 else h) y
  plain : ∃ h y, Derives h (.expr .call) x.tokens y ∧ x.Again h y
  /-- After another expression, the tokens of an operation are its argument. -/
  graft : x.opens = true → ∀ {d ts e}, Derives d (.expr .call) ts e →
    ∃ h y, Derives h (.expr .call) (ts ++ x.tokens) y ∧
      e.text.length + x.text.length + 2 ≤ y.text.length

/-- What is derived from the canonical tokens of a block. -/
def Block.Rederived (b : Block) : Prop :=
  ∃ h y, Derives h .block b.tokens y ∧ b.Again h y

/-- What is derived from the canonical tokens of arguments. -/
def Expr.ListRederived (es : List Expr) : Prop :=
  ∃ h ys, ys ≠ [] ∧ Derives h .items (Expr.listTokens es) ys ∧
    Reread (Expr.separatedAll es) (Expr.listWidth es) (Expr.listWidth ys)
      (Expr.retokenAll .bare ys = Expr.retokenAll .bare es ∧ h = Expr.listLevels es)

theorem Kind.kind_token (k : Kind) : k.token.kind = k := rfl

/-- An expression that is no operation and does not begin with one. -/
theorem Expr.Rederived.of_closed {x : Expr} (hop : x.isOperation = false) (hopens : x.opens = false)
    (hinside : x.inside = x.tokens)
    (h : ∃ h y, Derives h (.expr .call) x.tokens y ∧ x.Again h y) : x.Rederived where
  inside := by
    obtain ⟨h, y, hder, hagain⟩ := h
    exact ⟨h, y, hinside ▸ hder.loosen (by decide), by simpa [hop] using hagain⟩
  plain := h
  graft hx := by rw [hopens] at hx; cases hx

/-- An operation, in its parentheses. -/
theorem Expr.Rederived.of_operation {x : Expr} (hop : x.isOperation = true)
    (htokens : x.tokens = parenthesised x.inside)
    (h : ∃ h y, Derives h (.expr .equality) x.inside y ∧ x.Again (h + 1) y) : x.Rederived where
  inside := by
    obtain ⟨h, y, hder, hagain⟩ := h
    exact ⟨h, y, hder, by simpa [hop] using hagain⟩
  plain := by
    obtain ⟨h, y, hder, hagain⟩ := h
    have hgroup := Derives.group (Kind.kind_token .openParen) hder (Kind.kind_token .closeParen)
    exact ⟨h + 1, y, htokens ▸ hgroup.loosen (by decide), hagain⟩
  graft _ d ts e he := by
    obtain ⟨h, y, hder, hagain⟩ := h
    have hcall := Derives.call he (Kind.kind_token .openParen) (.arguments (.item hder))
      (Kind.kind_token .closeParen)
    refine ⟨_, _, by rw [htokens]; simpa [parenthesised] using hcall, ?_⟩
    rw [Expr.length_text_call, Expr.listWidth_singleton]
    have hle := hagain.reread.le
    omega

/-! ## The expressions, one by one -/

namespace Expr.Rederived

section

variable {t : Token} {v : Int} {w : Bool} {op : String} {c e l r f : Expr} {as : List Expr}
  {a b : Block} {ps : List Identifier} {i : Identifier}

theorem name (h : i.Spelled) : (Expr.name i).Rederived := by
  refine .of_closed rfl rfl rfl ⟨0, .name ⟨i.token.unplaced, i.token.literal⟩, ?_, ?_⟩
  · exact Derives.loosen (.name h.1.1) (by decide)
  · refine ⟨.of_eq ?_ ⟨?_, rfl⟩, rfl⟩
    · rw [text, text, h.2]
    · simp [retoken, Identifier.retoken, Retoken.bare, h.2]

theorem integer (ht : t.Is .integer) (hle : t.decimal ≤ Numeral.largest) :
    (Expr.integer t t.decimal).Rederived := by
  refine .of_closed rfl rfl rfl ⟨0, .integer t.stripped t.stripped.decimal, ?_, ?_⟩
  · exact Derives.loosen (.integer ht.1 (by rwa [t.decimal_stripped])) (by decide)
  · rw [t.decimal_stripped]
    exact ⟨.of_eq rfl ⟨by simp [retoken, Retoken.bare], rfl⟩, rfl⟩

theorem boolean (h : t.Is .trueWord ∧ w = true ∨ t.Is .falseWord ∧ w = false) :
    (Expr.boolean t w).Rederived := by
  have hk : t.unplaced.kind = .trueWord ∨ t.unplaced.kind = .falseWord := by
    rcases h with ⟨h, -⟩ | ⟨h, -⟩
    · exact .inl h.1
    · exact .inr h.1
  have hw : decide (t.unplaced.kind = .trueWord) = w := by
    rcases h with ⟨⟨h, -⟩, rfl⟩ | ⟨⟨h, -⟩, rfl⟩ <;> simp [h]
  refine .of_closed rfl rfl rfl ⟨0, .boolean t.unplaced (t.unplaced.kind = .trueWord), ?_, ?_⟩
  · exact Derives.loosen (.boolean hk) (by decide)
  · rw [hw]
    exact ⟨.of_eq rfl ⟨by simp [retoken, Retoken.bare], rfl⟩, rfl⟩

theorem unary (ht : t.Is .bang ∨ t.Is .minus) (he : e.Rederived) :
    (Expr.unary t t.literal e).Rederived := by
  have hk : t.unplaced.kind = .bang ∨ t.unplaced.kind = .minus := by
    rcases ht with ht | ht
    · exact .inl ht.1
    · exact .inr ht.1
  obtain ⟨h, y, hder, hagain⟩ := he.plain
  refine .of_operation rfl rfl ⟨h + 1, .unary t.unplaced t.literal y, ?_, ?_⟩
  · exact (Derives.unary hk (hder.loosen (by decide))).loosen (by decide)
  · refine ⟨hagain.reread.imp (t.literal.length + 2) ?_ ?_ ?_, rfl⟩
    · rw [length_text_unary]; omega
    · rw [length_text_unary]; omega
    · rintro ⟨hsame, rfl⟩
      exact ⟨by simp [retoken, Retoken.bare] at hsame ⊢; exact hsame, rfl⟩

theorem binary {m : Tier} (hm : t.kind ∈ m.operators) (hl : l.Rederived) (hr : r.Rederived) :
    (Expr.binary t l t.literal r).Rederived := by
  obtain ⟨h, y, hder, hagain⟩ := hl.plain
  obtain ⟨h₁, z, hder₁, hagain₁⟩ := hr.plain
  refine .of_operation rfl rfl ⟨max h (h₁ + 1), .binary t.unplaced y t.literal z, ?_, ?_⟩
  · obtain ⟨hcall, htighter⟩ := tighter_le_call_of_mem hm
    exact (Derives.binary (t := t.unplaced) (hder.loosen hcall) hm
      (hder₁.loosen htighter)).loosen m.equality_le
  · refine ⟨hagain.reread.and hagain₁.reread (t.literal.length + 4) ?_ ?_ ?_, rfl⟩
    · rw [length_text_binary]; omega
    · rw [length_text_binary]; omega
    · rintro ⟨hsame, rfl⟩ ⟨hsame₁, rfl⟩
      exact ⟨by simp [retoken, Retoken.bare] at hsame hsame₁ ⊢; exact ⟨hsame, hsame₁⟩, rfl⟩

/-- A condition, with the parentheses around it. -/
theorem condition (hc : c.Rederived) : ∃ h y, Derives h (.expr .equality) c.inside y ∧
    Reread c.separated c.conditionWidth y.conditionWidth (y.retoken .bare = c.retoken .bare ∧
      h + 1 = if c.isOperation then c.levels else c.levels + 1) := by
  obtain ⟨h, y, hder, hagain⟩ := hc.inside
  refine ⟨h, y, hder, ?_⟩
  unfold conditionWidth
  rw [hagain.isOperation]
  split
  · next hop =>
    rw [if_pos hop] at hagain
    exact hagain.reread
  · next hop =>
    rw [if_neg hop] at hagain
    exact hagain.reread.imp 2 rfl rfl fun ⟨hsame, hk⟩ => ⟨hsame, congrArg (· + 1) hk⟩

theorem conditional (ht : t.Is .ifWord) (hc : c.Rederived) (hb : b.Rederived) :
    (Expr.conditional t c b none).Rederived := by
  obtain ⟨h, y, hder, hagain⟩ := hc.condition
  obtain ⟨h₁, z, hder₁, hagain₁⟩ := hb
  refine .of_closed rfl rfl rfl ⟨max (h + 1) h₁, .conditional t.unplaced y z none, ?_, ?_⟩
  · rw [tokens, condition_tokens]
    have hif := Derives.conditional (i := t.unplaced) ht.1 (Kind.kind_token .openParen) hder
      (Kind.kind_token .closeParen) hder₁
    simpa [parenthesised] using hif.loosen (l := .call) (by decide)
  · refine ⟨hagain.and hagain₁ 4 ?_ ?_ ?_, rfl⟩
    · rw [length_text_conditional]
    · rw [length_text_conditional]
    · rintro ⟨hsame, hk⟩ ⟨hsame₁, rfl⟩
      refine ⟨by simp [retoken, Retoken.bare] at hsame hsame₁ ⊢; exact ⟨hsame, hsame₁⟩, ?_⟩
      rw [levels, hk]

theorem alternative (ht : t.Is .ifWord) (hc : c.Rederived) (hb : b.Rederived)
    (ha : a.Rederived) : (Expr.conditional t c b (some a)).Rederived := by
  obtain ⟨h, y, hder, hagain⟩ := hc.condition
  obtain ⟨h₁, z, hder₁, hagain₁⟩ := hb
  obtain ⟨h₂, x, hder₂, hagain₂⟩ := ha
  refine .of_closed rfl rfl rfl
    ⟨max (max (h + 1) h₁) h₂, .conditional t.unplaced y z (some x), ?_, ?_⟩
  · rw [tokens, condition_tokens]
    have hif := Derives.alternative (i := t.unplaced) ht.1 (Kind.kind_token .openParen) hder
      (Kind.kind_token .closeParen) hder₁ (Kind.kind_token .elseWord) hder₂
    simpa [parenthesised] using hif.loosen (l := .call) (by decide)
  · refine ⟨(hagain.and hagain₁ 0 rfl rfl fun h₁ h₂ => And.intro h₁ h₂).and hagain₂ 10 ?_ ?_ ?_,
      rfl⟩
    · rw [length_text_alternative]; rfl
    · rw [length_text_alternative]; rfl
    · rintro ⟨⟨hsame, hk⟩, hsame₁, rfl⟩ ⟨hsame₂, rfl⟩
      refine ⟨?_, by rw [levels, hk]⟩
      simp [retoken, Retoken.bare] at hsame hsame₁ hsame₂ ⊢
      exact ⟨hsame, hsame₁, hsame₂⟩

/-- The names between the parentheses of a function. -/
theorem names : ∀ {ps : List Identifier}, ps ≠ [] → (∀ i ∈ ps, i.Spelled) → ∃ qs,
    Names (Identifier.tokens ps) qs ∧ qs.map (·.value) = ps.map (·.value) ∧
      qs.map (·.retoken .bare) = ps.map (·.retoken .bare)
  | [], hne, _ => absurd rfl hne
  | [i], _, h => by
    obtain ⟨hi, hv⟩ := h i (by simp)
    refine ⟨_, .one hi.1, by simp [hv], ?_⟩
    simp [Identifier.retoken, Retoken.bare, hv]
  | i :: j :: ps, _, h => by
    obtain ⟨hi, hv⟩ := h i (by simp)
    obtain ⟨qs, hder, hvalues, hsame⟩ :=
      names (List.cons_ne_nil j ps) fun k hk => h k (List.mem_cons_of_mem i hk)
    refine ⟨_, .more hi.1 (Kind.kind_token .comma) hder, ?_, ?_⟩
    · rw [List.map_cons, List.map_cons, hvalues, hv, Token.literal_unplaced]
    · rw [List.map_cons, List.map_cons, hsame]
      simp [Identifier.retoken, Retoken.bare, hv]

theorem parameters (h : ∀ i ∈ ps, i.Spelled) : ∃ qs,
    Parameters (Identifier.tokens ps) qs ∧ qs.map (·.value) = ps.map (·.value) ∧
      qs.map (·.retoken .bare) = ps.map (·.retoken .bare) := by
  by_cases hne : ps = []
  · subst hne; exact ⟨[], .none, rfl, rfl⟩
  · obtain ⟨qs, hder, hqs⟩ := names hne h
    exact ⟨qs, .some hder, hqs⟩

theorem function (ht : t.Is .functionWord) (hps : ∀ i ∈ ps, i.Spelled) (hb : b.Rederived) :
    (Expr.function t ps b).Rederived := by
  obtain ⟨qs, hqs, hvalues, hsame⟩ := parameters hps
  obtain ⟨h, y, hder, hagain⟩ := hb
  refine .of_closed rfl rfl rfl ⟨h, .function t.unplaced qs y, ?_, ?_⟩
  · have hfunction := Derives.function (f := t.unplaced) ht.1 (Kind.kind_token .openParen) hqs
      (Kind.kind_token .closeParen) hder
    simpa [tokens, parenthesised] using hfunction.loosen (l := .call) (by decide)
  · refine ⟨hagain.imp (t.literal.length + (", ".intercalate (ps.map (·.value))).length + 3)
      ?_ ?_ ?_, rfl⟩
    · rw [length_text_function]; omega
    · rw [length_text_function, hvalues, Token.literal_unplaced]; omega
    · rintro ⟨hsame₁, rfl⟩
      refine ⟨?_, rfl⟩
      simp only [retoken, hsame, hsame₁]
      rfl

theorem call (ht : t.Is .openParen) (hf : f.Rederived)
    (has : as ≠ [] → Expr.ListRederived as) : (Expr.call t f as).Rederived := by
  have hargs : ∃ h ys, Derives h .arguments (Expr.listTokens as) ys ∧
      Reread (Expr.separatedAll as) (Expr.listWidth as) (Expr.listWidth ys)
        (Expr.retokenAll .bare ys = Expr.retokenAll .bare as ∧ h = Expr.listLevels as) := by
    by_cases hne : as = []
    · subst hne
      exact ⟨0, [], .noArguments, .of_eq rfl ⟨rfl, rfl⟩⟩
    · obtain ⟨h, ys, -, hder, hagain⟩ := has hne
      exact ⟨h, ys, .arguments hder, hagain⟩
  obtain ⟨h, ys, hder, hagain⟩ := hargs
  -- whatever the callee becomes, the arguments after it stay arguments
  have hcall : ∀ {d ts e}, Derives d (.expr .call) ts e →
      Derives (max d h) (.expr .call) (ts ++ parenthesised (Expr.listTokens as))
        (.call Kind.openParen.token e ys) := by
    intro d ts e he
    have := Derives.call he (Kind.kind_token .openParen) hder (Kind.kind_token .closeParen)
    simpa [parenthesised] using this
  have hplain : ∃ k y, Derives k (.expr .call) (Expr.call t f as).tokens y ∧
      (Expr.call t f as).Again k y := by
    obtain ⟨d, y, hy, hagain₁⟩ := hf.plain
    refine ⟨_, .call Kind.openParen.token y ys, hcall hy, hagain₁.reread.and hagain 2 ?_ ?_ ?_,
      rfl⟩
    · rw [length_text_call]
    · rw [length_text_call]
    · rintro ⟨hsame₁, rfl⟩ ⟨hsame, rfl⟩
      refine ⟨?_, rfl⟩
      simp only [retoken, hsame, hsame₁]
      exact congrArg (Expr.call · _ _) (ht.unplaced_eq (w := "(") rfl).symm
  refine ⟨?_, hplain, fun hopens d ts e he => ?_⟩
  · obtain ⟨k, y, hy, hagain⟩ := hplain
    exact ⟨k, y, hy.loosen (by decide), hagain⟩
  · obtain ⟨k, y, hy, hle⟩ := hf.graft hopens he
    refine ⟨_, _, by rw [tokens, ← List.append_assoc]; exact hcall hy, ?_⟩
    rw [length_text_call, length_text_call]
    have := hagain.le
    omega

end

end Expr.Rederived

/-! ## Lists of expressions, blocks and statements -/

theorem Expr.ListRederived.one {e : Expr} (he : e.Rederived) : Expr.ListRederived [e] := by
  obtain ⟨h, y, hder, hagain⟩ := he.plain
  refine ⟨h + 1, [y], by simp, .item (hder.loosen (by decide)), ?_⟩
  have hsep : Expr.separatedAll [e] = e.separated := by simp [separatedAll]
  rw [hsep]
  refine hagain.reread.imp 0 listWidth_singleton listWidth_singleton ?_
  rintro ⟨hsame, rfl⟩
  exact ⟨by simp only [retokenAll, hsame], by simp [listLevels]⟩

theorem Expr.ListRederived.more {e : Expr} {es : List Expr} (hne : es ≠ []) (he : e.Rederived)
    (hes : Expr.ListRederived es) : Expr.ListRederived (e :: es) := by
  obtain ⟨h, y, hder, hagain⟩ := he.plain
  obtain ⟨h₁, ys, hys, hder₁, hagain₁⟩ := hes
  refine ⟨max (h + 1) h₁, y :: ys, by simp, ?_,
    hagain.reread.and hagain₁ 2 (listWidth_cons hne) (listWidth_cons hys) ?_⟩
  · cases es with
    | nil => exact absurd rfl hne
    | cons e' es =>
      rw [listTokens]
      · exact .items (hder.loosen (by decide)) (Kind.kind_token .comma) hder₁
      · simp
  · rintro ⟨hsame, rfl⟩ ⟨hsame₁, rfl⟩
    exact ⟨by simp only [retokenAll, hsame, hsame₁], rfl⟩

/-- What is derived from the canonical tokens of statements: by themselves, and right after an
    expression, which is then a statement of its own or called. -/
structure Stmt.ListRederived (ss : List Stmt) : Prop where
  plain : ∃ h ys, Derives h .statements (Stmt.listTokens ss) ys ∧
    Reread (Stmt.separatedAll ss) (Stmt.listWidth ss) (Stmt.listWidth ys)
      (Stmt.retokenAll .bare ys = Stmt.retokenAll .bare ss ∧ h = Stmt.listLevels ss)
  after : ∀ {d ts e}, Derives d (.expr .call) ts e →
    ∃ h ys, Derives h .statements (ts ++ Stmt.listTokens ss) ys ∧
      Reread (Stmt.separatedAll ss && !Stmt.openFirst ss) (e.text.length + 1 + Stmt.listWidth ss)
        (Stmt.listWidth ys) (Stmt.retokenAll .bare ys =
          .expr default (e.retoken .bare) :: Stmt.retokenAll .bare ss ∧
          h = max (d + 1) (Stmt.listLevels ss))

theorem Block.Rederived.of_statements {t : Token} {ss : List Stmt} (ht : t.Is .openBrace)
    (h : Stmt.ListRederived ss) : (Block.mk t ss).Rederived := by
  obtain ⟨h, ys, hder, hagain⟩ := h.plain
  refine ⟨h, .mk Kind.openBrace.token ys, ?_,
    hagain.imp 3 Block.length_text Block.length_text ?_⟩
  · exact .block (Kind.kind_token .openBrace) hder (Kind.kind_token .closeBrace)
  · rintro ⟨hsame, rfl⟩
    refine ⟨?_, rfl⟩
    simp only [Block.retoken, hsame]
    exact congrArg (Block.mk · _) (ht.unplaced_eq (w := "\x7b") rfl).symm

/-- An expression that is a statement by itself. -/
theorem Derives.statement_of_call {d : Nat} {ts : List Token} {e : Expr}
    (h : Derives d (.expr .call) ts e) : ∃ t, Derives (d + 1) .statement ts (.expr t e) := by
  obtain ⟨t, us, rfl, -⟩ := h.begins
  exact ⟨t, .expr (h.loosen (by decide))⟩

/-- The first token of an expression goes on with the one before only if it is an operation's. -/
theorem Expr.firstKind_tokens {absent : Prop} {x : Expr} (h : x.Spelled absent) :
    ∃ t us, x.tokens = t :: us ∧ (t.kind.goesOn → x.opens = true) := by
  obtain ⟨t, us, htokens, hk⟩ := x.leading_tokens h
  refine ⟨t, us, htokens, fun hgo => x.leading_eq_openParen.1 ?_⟩
  rw [hk, goesOn_iff] at hgo
  have hmem := x.mem_leading
  simp only [List.mem_cons, List.not_mem_nil, or_false] at hmem
  rcases hmem with heq | heq | heq | heq | heq | heq | heq <;>
    first | exact heq | exact absurd rfl (heq ▸ hgo)

/-- A list of statements begins with a parenthesis if its first expression does. -/
theorem Stmt.openFirst_expr {absent : Prop} {t : Token} {e : Expr} {ss : List Stmt}
    (he : e.Spelled absent) : Stmt.openFirst (.expr t e :: ss) = e.opens := by
  obtain ⟨c, hc, hopens, -⟩ := e.head_text he
  rw [openFirst, text, hc]
  cases h : e.opens with
  | true => simp [hopens.2 h]
  | false =>
    have hne : c ≠ '(' := fun he => by rw [hopens.1 he] at h; cases h
    simp [hne]

/-- What follows a statement of another sort stands apart from it. -/
theorem Stmt.separatedAll_cons {s : Stmt} {ss : List Stmt} (h : s.isExpression = false) :
    Stmt.separatedAll (s :: ss) = (s.separated && Stmt.separatedAll ss) := by
  rw [separatedAll, h, Bool.false_and, Bool.not_false, Bool.and_true]

namespace Stmt.ListRederived

section

variable {ss : List Stmt} {t : Token} {n : Identifier} {e : Expr}

/-- Statements that do not begin with a parenthesis follow an expression statement. -/
theorem of_plain (hfirst : ¬ (firstKind (Stmt.listTokens ss)).goesOn)
    (hopen : Stmt.openFirst ss = false)
    (h : ∃ h ys, Derives h .statements (Stmt.listTokens ss) ys ∧
      Reread (Stmt.separatedAll ss) (Stmt.listWidth ss) (Stmt.listWidth ys)
        (Stmt.retokenAll .bare ys = Stmt.retokenAll .bare ss ∧ h = Stmt.listLevels ss)) :
    Stmt.ListRederived ss where
  plain := h
  after he := by
    obtain ⟨h, ys, hder, hagain⟩ := h
    obtain ⟨u, hs⟩ := he.statement_of_call
    refine ⟨_, _, .opened hs hfirst hder, ?_⟩
    rw [hopen, Bool.not_false, Bool.and_true]
    refine hagain.imp _ (Nat.add_comm ..) (Nat.add_comm ..) ?_
    rintro ⟨hsame, rfl⟩
    exact ⟨by simp only [retokenAll, hsame]; rfl, rfl⟩

theorem nil : Stmt.ListRederived [] :=
  of_plain (by rw [goesOn_iff]; decide) rfl ⟨0, [], .empty, .of_eq rfl ⟨rfl, rfl⟩⟩

theorem expr (he : e.Spelled False) (h : e.Rederived) (hs : Stmt.ListRederived ss) :
    Stmt.ListRederived (.expr t e :: ss) := by
  have hplain : ∃ h ys, Derives h .statements (Stmt.listTokens (.expr t e :: ss)) ys ∧
      Reread (Stmt.separatedAll (.expr t e :: ss)) (Stmt.listWidth (.expr t e :: ss))
        (Stmt.listWidth ys) (Stmt.retokenAll .bare ys = Stmt.retokenAll .bare (.expr t e :: ss) ∧
          h = Stmt.listLevels (.expr t e :: ss)) := by
    obtain ⟨d, y, hy, hagain⟩ := h.plain
    obtain ⟨k, ys, hys, hagain₁⟩ := hs.after hy
    refine ⟨k, ys, hys, ?_⟩
    rw [listWidth, text, Nat.add_assoc]
    rw [Nat.add_assoc] at hagain₁
    refine hagain.reread.trans _ hagain₁ ?_
    rintro ⟨hsame, rfl⟩ ⟨hsame₁, rfl⟩
    exact ⟨by rw [hsame₁, hsame]; rfl, rfl⟩
  by_cases hopens : e.opens = true
  · refine ⟨hplain, fun {d ts e₀} he₀ => ?_⟩
    obtain ⟨d', y, hy, hle⟩ := h.graft hopens he₀
    obtain ⟨k, ys, hys, hagain⟩ := hs.after hy
    refine ⟨k, ys, by rw [listTokens, ← List.append_assoc]; exact hys, ?_⟩
    have hlt : e₀.text.length + 1 + Stmt.listWidth (.expr t e :: ss) < Stmt.listWidth ys := by
      have := hagain.le
      rw [listWidth, text]
      omega
    rw [openFirst_expr he, hopens, Bool.not_true, Bool.and_false]
    exact ⟨Nat.le_of_lt hlt, fun _ => hlt, Bool.noConfusion⟩
  · refine of_plain ?_ ?_ hplain
    · obtain ⟨u, us, htokens, hk⟩ := Expr.firstKind_tokens he
      rw [listTokens, tokens, htokens]
      exact fun hgo => hopens (hk hgo)
    · rw [openFirst_expr he, Bool.eq_false_iff.2 hopens]

theorem var (ht : t.Is .varWord) (hn : n.Spelled) (h : e.Rederived)
    (hs : Stmt.ListRederived ss) : Stmt.ListRederived (.var t n (some e) :: ss) := by
  refine of_plain ?_ ?_ ?_
  · show ¬ t.kind.goesOn
    rw [ht.1, goesOn_iff]
    decide
  · simp [openFirst, text, ht.literal_eq (w := "var") rfl]
  · obtain ⟨d, y, hy, hagain⟩ := h.plain
    obtain ⟨k, ys, hys, hagain₁⟩ := hs.plain
    refine ⟨max (d + 1) k, .var t.unplaced ⟨n.token.unplaced, n.value⟩ (some y) :: ys, ?_, ?_⟩
    · have hvar := Derives.var (v := t.unplaced) (x := n.token.unplaced) ht.1 hn.1.1
        (Kind.kind_token .assign) (hy.loosen (l := .equality) (by decide))
      rw [Token.literal_unplaced, ← hn.2] at hvar
      simpa [listTokens, tokens] using hvar.closed (Kind.kind_token .semicolon) hys
    · rw [separatedAll_cons rfl]
      refine hagain.reread.and hagain₁ (t.literal.length + n.value.length + 6) ?_ ?_ ?_
      · rw [listWidth, length_text_var]; omega
      · rw [listWidth, length_text_var, Token.literal_unplaced]; dsimp only; omega
      · rintro ⟨hsame, rfl⟩ ⟨hsame₁, rfl⟩
        exact ⟨by simp only [retokenAll, retoken, hsame, hsame₁]; rfl, rfl⟩

theorem ret (ht : t.Is .returnWord) (h : e.Rederived) (hs : Stmt.ListRederived ss) :
    Stmt.ListRederived (.ret t (some e) :: ss) := by
  refine of_plain ?_ ?_ ?_
  · show ¬ t.kind.goesOn
    rw [ht.1, goesOn_iff]
    decide
  · simp [openFirst, text, ht.literal_eq (w := "return") rfl]
  · obtain ⟨d, y, hy, hagain⟩ := h.plain
    obtain ⟨k, ys, hys, hagain₁⟩ := hs.plain
    refine ⟨max (d + 1) k, .ret t.unplaced (some y) :: ys, ?_, ?_⟩
    · have hret := Derives.ret (w := t.unplaced) ht.1 (hy.loosen (l := .equality) (by decide))
      simpa [listTokens, tokens] using hret.closed (Kind.kind_token .semicolon) hys
    · rw [separatedAll_cons rfl]
      refine hagain.reread.and hagain₁ (t.literal.length + 3) ?_ ?_ ?_
      · rw [listWidth, length_text_ret]; omega
      · rw [listWidth, length_text_ret, Token.literal_unplaced]; omega
      · rintro ⟨hsame, rfl⟩ ⟨hsame₁, rfl⟩
        exact ⟨by simp only [retokenAll, retoken, hsame, hsame₁]; rfl, rfl⟩

end

end Stmt.ListRederived

/-! ## Whole trees -/

mutual

theorem Expr.rederived : ∀ x : Expr, x.Spelled False → x.Rederived
  | .name _, h => .name h
  | .integer _ _, ⟨ht, hle, hv⟩ => hv ▸ .integer ht hle
  | .boolean _ _, h => .boolean h
  | .unary _ _ e, ⟨ht, hop, he⟩ => hop ▸ .unary ht (e.rederived he)
  | .binary _ l _ r, ⟨⟨_, hm⟩, _, hop, hl, hr⟩ =>
    hop ▸ .binary hm (l.rederived hl) (r.rederived hr)
  | .conditional _ c b none, ⟨ht, hc, hb⟩ => .conditional ht (c.rederived hc) (b.rederived hb)
  | .conditional _ c b (some a), ⟨ht, hc, hb, ha⟩ =>
    .alternative ht (c.rederived hc) (b.rederived hb) (a.rederived ha)
  | .function _ _ b, ⟨ht, hps, hb⟩ => .function ht hps (b.rederived hb)
  | .call _ f as, ⟨ht, hf, has⟩ => .call ht (f.rederived hf) (Expr.listRederived as has)

theorem Expr.listRederived : ∀ es : List Expr, Expr.SpelledAll False es → es ≠ [] →
    Expr.ListRederived es
  | [], _, hne => absurd rfl hne
  | [e], ⟨he, _⟩, _ => .one (e.rederived he)
  | e :: e' :: es, ⟨he, hes⟩, _ =>
    have hne := List.cons_ne_nil e' es
    .more hne (e.rederived he) (Expr.listRederived (e' :: es) hes hne)

theorem Block.rederived : ∀ b : Block, b.Spelled False → b.Rederived
  | .mk _ ss, ⟨ht, hss⟩ => .of_statements ht (Stmt.listRederived ss hss)

theorem Stmt.listRederived : ∀ ss : List Stmt, Stmt.SpelledAll False ss → Stmt.ListRederived ss
  | [], _ => .nil
  | .var _ _ none :: _, ⟨⟨_, _, h⟩, _⟩ | .ret _ none :: _, ⟨⟨_, h⟩, _⟩ => h.elim
  | .var _ _ (some e) :: ss, ⟨⟨ht, hn, he⟩, hss⟩ =>
    .var ht hn (e.rederived he) (Stmt.listRederived ss hss)
  | .ret _ (some e) :: ss, ⟨⟨ht, he⟩, hss⟩ => .ret ht (e.rederived he) (Stmt.listRederived ss hss)
  | .expr _ e :: ss, ⟨he, hss⟩ => .expr he (e.rederived he) (Stmt.listRederived ss hss)

end

end Scriptlet
