/-
  Trees with other tokens in them; and what of the tokens the canonical text
  does not show (`Retoken.bare`).
-/
import Scriptlet.Proofs.Text.Spelling
import Scriptlet.Tree.Canonical

namespace Scriptlet

namespace Token

/-- The token, wherever it stands. -/
def unplaced (t : Token) : Token := { t with position := .start }

/-- The integer token without leading zeros, wherever it stands. -/
def stripped (t : Token) : Token := ⟨t.kind, t.decimal.repr, .start⟩

@[simp] theorem kind_unplaced (t : Token) : t.unplaced.kind = t.kind := rfl

@[simp] theorem literal_unplaced (t : Token) : t.unplaced.literal = t.literal := rfl

@[simp] theorem kind_stripped (t : Token) : t.stripped.kind = t.kind := rfl

@[simp] theorem decimal_stripped (t : Token) : t.stripped.decimal = t.decimal := by
  simp [decimal, stripped, Nat.ofDigitChars_ten_toDigits]

@[simp] theorem unplaced_unplaced (t : Token) : t.unplaced.unplaced = t.unplaced := rfl

@[simp] theorem stripped_stripped (t : Token) : t.stripped.stripped = t.stripped := by
  have h := t.decimal_stripped
  simp only [stripped] at h ⊢
  rw [h]

end Token

/-- What becomes of the tokens in a tree. -/
structure Retoken where
  /-- Of the token of an integer. -/
  integer : Token → Token
  /-- Of the first token of an expression statement. -/
  statement : Token → Token
  /-- Of every other token. -/
  other : Token → Token

/-- The name with its token replaced. -/
def Identifier.retoken (ρ : Retoken) (i : Identifier) : Identifier :=
  ⟨ρ.other i.token, i.value⟩

mutual

/-- The expression with its tokens replaced. -/
def Expr.retoken (ρ : Retoken) : Expr → Expr
  | .name i => .name (i.retoken ρ)
  | .integer t v => .integer (ρ.integer t) v
  | .boolean t v => .boolean (ρ.other t) v
  | .unary t op e => .unary (ρ.other t) op (e.retoken ρ)
  | .binary t l op r => .binary (ρ.other t) (l.retoken ρ) op (r.retoken ρ)
  | .conditional t c b none => .conditional (ρ.other t) (c.retoken ρ) (b.retoken ρ) none
  | .conditional t c b (some a) =>
    .conditional (ρ.other t) (c.retoken ρ) (b.retoken ρ) (some (a.retoken ρ))
  | .function t ps b => .function (ρ.other t) (ps.map (·.retoken ρ)) (b.retoken ρ)
  | .call t f as => .call (ρ.other t) (f.retoken ρ) (Expr.retokenAll ρ as)

/-- The expressions with their tokens replaced. -/
def Expr.retokenAll (ρ : Retoken) : List Expr → List Expr
  | [] => []
  | e :: es => e.retoken ρ :: Expr.retokenAll ρ es

/-- The block with its tokens replaced. -/
def Block.retoken (ρ : Retoken) : Block → Block
  | .mk t ss => .mk (ρ.other t) (Stmt.retokenAll ρ ss)

/-- The statement with its tokens replaced. -/
def Stmt.retoken (ρ : Retoken) : Stmt → Stmt
  | .var t n none => .var (ρ.other t) (n.retoken ρ) none
  | .var t n (some e) => .var (ρ.other t) (n.retoken ρ) (some (e.retoken ρ))
  | .ret t none => .ret (ρ.other t) none
  | .ret t (some e) => .ret (ρ.other t) (some (e.retoken ρ))
  | .expr t e => .expr (ρ.statement t) (e.retoken ρ)

/-- The statements with their tokens replaced. -/
def Stmt.retokenAll (ρ : Retoken) : List Stmt → List Stmt
  | [] => []
  | s :: ss => s.retoken ρ :: Stmt.retokenAll ρ ss

end

/-- Nothing but the place of tokens is forgotten. -/
def Retoken.unplaced : Retoken := ⟨Token.unplaced, Token.unplaced, Token.unplaced⟩

/-- All is forgotten that the canonical text does not show. -/
def Retoken.bare : Retoken := ⟨Token.stripped, fun _ => default, Token.unplaced⟩

/-- The statement, wherever its tokens stand. -/
def Stmt.unplaced (s : Stmt) : Stmt := s.retoken .unplaced

/-- The program, without what its canonical text does not show. -/
def Program.bare (p : Program) : Program := ⟨Stmt.retokenAll .bare p.statements⟩

/-- The replacement leaves the spelling of tokens as it is, that of integers aside. -/
def Retoken.KeepsSpelling (ρ : Retoken) : Prop :=
  ∀ t, (ρ.other t).literal = t.literal

section

variable {ρ : Retoken}

@[simp] theorem Expr.isOperation_retoken (e : Expr) :
    (e.retoken ρ).isOperation = e.isOperation := by
  cases e with
  | conditional t c b a => cases a <;> simp [Expr.retoken, Expr.isOperation]
  | _ => simp [Expr.retoken, Expr.isOperation]

mutual

theorem Expr.text_retoken (hρ : ρ.KeepsSpelling) : ∀ e : Expr, (e.retoken ρ).text = e.text
  | .name i | .integer t v | .boolean t v => by simp [Expr.retoken, Expr.text, Identifier.retoken]
  | .unary t op e => by
    simp only [Expr.retoken, Expr.text, e.text_retoken hρ]
  | .binary t l op r => by
    simp only [Expr.retoken, Expr.text, l.text_retoken hρ, r.text_retoken hρ]
  | .conditional t c b none => by
    simp only [Expr.retoken, Expr.text, c.text_retoken hρ, b.text_retoken hρ,
      Expr.isOperation_retoken]
  | .conditional t c b (some a) => by
    simp only [Expr.retoken, Expr.text, c.text_retoken hρ, b.text_retoken hρ, a.text_retoken hρ,
      Expr.isOperation_retoken]
  | .function t ps b => by
    have hps : (ps.map (·.retoken ρ)).map (·.value) = ps.map (·.value) := by
      simp [Identifier.retoken]
    simp only [Expr.retoken, Expr.text, hρ t, hps, b.text_retoken hρ]
  | .call t f as => by
    simp only [Expr.retoken, Expr.text, f.text_retoken hρ, Expr.texts_retokenAll hρ as]

theorem Expr.texts_retokenAll (hρ : ρ.KeepsSpelling) :
    ∀ es : List Expr, Expr.texts (Expr.retokenAll ρ es) = Expr.texts es
  | [] => rfl
  | e :: es => by
    simp only [Expr.retokenAll, Expr.texts, e.text_retoken hρ, Expr.texts_retokenAll hρ es]

theorem Block.text_retoken (hρ : ρ.KeepsSpelling) : ∀ b : Block, (b.retoken ρ).text = b.text
  | .mk t [] => rfl
  | .mk t (s :: ss) => by
    simp only [Block.retoken, Stmt.retokenAll, Block.text, s.text_retoken hρ,
      Stmt.texts_retokenAll hρ ss]

theorem Stmt.text_retoken (hρ : ρ.KeepsSpelling) : ∀ s : Stmt, (s.retoken ρ).text = s.text
  | .var t n none => by simp only [Stmt.retoken, Stmt.text, hρ t, Identifier.retoken]
  | .var t n (some e) => by
    simp only [Stmt.retoken, Stmt.text, hρ t, Identifier.retoken, e.text_retoken hρ]
  | .ret t none => by simp only [Stmt.retoken, Stmt.text, hρ t]
  | .ret t (some e) => by simp only [Stmt.retoken, Stmt.text, hρ t, e.text_retoken hρ]
  | .expr t e => by simp only [Stmt.retoken, Stmt.text, e.text_retoken hρ]

theorem Stmt.texts_retokenAll (hρ : ρ.KeepsSpelling) :
    ∀ ss : List Stmt, Stmt.texts (Stmt.retokenAll ρ ss) = Stmt.texts ss
  | [] => rfl
  | s :: ss => by
    simp only [Stmt.retokenAll, Stmt.texts, s.text_retoken hρ, Stmt.texts_retokenAll hρ ss]

end

end

/-! ## One replacement after another -/

/-- The replacement that does nothing. -/
def Retoken.id : Retoken := ⟨fun t => t, fun t => t, fun t => t⟩

/-- The replacement `ρ`, and `σ` after it. -/
def Retoken.andThen (ρ σ : Retoken) : Retoken :=
  ⟨fun t => σ.integer (ρ.integer t), fun t => σ.statement (ρ.statement t),
    fun t => σ.other (ρ.other t)⟩

@[simp] theorem Identifier.retoken_id (i : Identifier) : i.retoken .id = i := rfl

@[simp] theorem Identifier.retoken_retoken (ρ σ : Retoken) (i : Identifier) :
    (i.retoken ρ).retoken σ = i.retoken (ρ.andThen σ) := rfl

mutual

theorem Expr.retoken_id : ∀ e : Expr, e.retoken .id = e
  | .name i | .integer t v | .boolean t v => by simp [Expr.retoken, Retoken.id, Identifier.retoken]
  | .unary t op e => by simp only [Expr.retoken, e.retoken_id]; rfl
  | .binary t l op r => by simp only [Expr.retoken, l.retoken_id, r.retoken_id]; rfl
  | .conditional t c b none => by simp only [Expr.retoken, c.retoken_id, b.retoken_id]; rfl
  | .conditional t c b (some a) => by
    simp only [Expr.retoken, c.retoken_id, b.retoken_id, a.retoken_id]; rfl
  | .function t ps b => by
    simp only [Expr.retoken, Identifier.retoken_id, List.map_id', b.retoken_id]; rfl
  | .call t f as => by simp only [Expr.retoken, f.retoken_id, Expr.retokenAll_id as]; rfl

theorem Expr.retokenAll_id : ∀ es : List Expr, Expr.retokenAll .id es = es
  | [] => rfl
  | e :: es => by simp only [Expr.retokenAll, e.retoken_id, Expr.retokenAll_id es]

theorem Block.retoken_id : ∀ b : Block, b.retoken .id = b
  | .mk t ss => by simp only [Block.retoken, Stmt.retokenAll_id ss]; rfl

theorem Stmt.retoken_id : ∀ s : Stmt, s.retoken .id = s
  | .var t n none | .ret t none => rfl
  | .var t n (some e) | .ret t (some e) | .expr t e => by
    simp only [Stmt.retoken, e.retoken_id]; rfl

theorem Stmt.retokenAll_id : ∀ ss : List Stmt, Stmt.retokenAll .id ss = ss
  | [] => rfl
  | s :: ss => by simp only [Stmt.retokenAll, s.retoken_id, Stmt.retokenAll_id ss]

end

mutual

theorem Expr.retoken_retoken (ρ σ : Retoken) :
    ∀ e : Expr, (e.retoken ρ).retoken σ = e.retoken (ρ.andThen σ)
  | .name i | .integer t v | .boolean t v => by simp [Expr.retoken, Retoken.andThen]
  | .unary t op e => by simp only [Expr.retoken, e.retoken_retoken ρ σ]; rfl
  | .binary t l op r => by
    simp only [Expr.retoken, l.retoken_retoken ρ σ, r.retoken_retoken ρ σ]; rfl
  | .conditional t c b none => by
    simp only [Expr.retoken, c.retoken_retoken ρ σ, b.retoken_retoken ρ σ]; rfl
  | .conditional t c b (some a) => by
    simp only [Expr.retoken, c.retoken_retoken ρ σ, b.retoken_retoken ρ σ,
      a.retoken_retoken ρ σ]
    rfl
  | .function t ps b => by
    simp only [Expr.retoken, List.map_map, Function.comp_def, Identifier.retoken_retoken,
      b.retoken_retoken ρ σ]
    rfl
  | .call t f as => by
    simp only [Expr.retoken, f.retoken_retoken ρ σ, Expr.retokenAll_retokenAll ρ σ as]; rfl

theorem Expr.retokenAll_retokenAll (ρ σ : Retoken) : ∀ es : List Expr,
    Expr.retokenAll σ (Expr.retokenAll ρ es) = Expr.retokenAll (ρ.andThen σ) es
  | [] => rfl
  | e :: es => by
    simp only [Expr.retokenAll, e.retoken_retoken ρ σ, Expr.retokenAll_retokenAll ρ σ es]

theorem Block.retoken_retoken (ρ σ : Retoken) :
    ∀ b : Block, (b.retoken ρ).retoken σ = b.retoken (ρ.andThen σ)
  | .mk t ss => by simp only [Block.retoken, Stmt.retokenAll_retokenAll ρ σ ss]; rfl

theorem Stmt.retoken_retoken (ρ σ : Retoken) :
    ∀ s : Stmt, (s.retoken ρ).retoken σ = s.retoken (ρ.andThen σ)
  | .var t n none | .ret t none => rfl
  | .var t n (some e) | .ret t (some e) | .expr t e => by
    simp only [Stmt.retoken, e.retoken_retoken ρ σ]; rfl

theorem Stmt.retokenAll_retokenAll (ρ σ : Retoken) : ∀ ss : List Stmt,
    Stmt.retokenAll σ (Stmt.retokenAll ρ ss) = Stmt.retokenAll (ρ.andThen σ) ss
  | [] => rfl
  | s :: ss => by
    simp only [Stmt.retokenAll, s.retoken_retoken ρ σ, Stmt.retokenAll_retokenAll ρ σ ss]

end

/-- What the canonical text does not show includes the places of tokens. -/
theorem Retoken.unplaced_andThen_bare : Retoken.unplaced.andThen .bare = .bare := rfl

/-- Statements that differ only in the places of tokens are the same in all the text shows. -/
theorem Stmt.bare_eq_of_unplaced {ss ss' : List Stmt}
    (h : Stmt.retokenAll .unplaced ss = Stmt.retokenAll .unplaced ss') :
    Stmt.retokenAll .bare ss = Stmt.retokenAll .bare ss' := by
  have hbare := congrArg (Stmt.retokenAll .bare) h
  rwa [Stmt.retokenAll_retokenAll, Stmt.retokenAll_retokenAll,
    Retoken.unplaced_andThen_bare] at hbare

/-- Statements that are the same but for tokens spelled alike have the same canonical texts. -/
theorem Stmt.texts_eq_of_retokenAll {ρ : Retoken} (hρ : ρ.KeepsSpelling) {ss ss' : List Stmt}
    (h : Stmt.retokenAll ρ ss = Stmt.retokenAll ρ ss') : Stmt.texts ss = Stmt.texts ss' := by
  rw [← Stmt.texts_retokenAll hρ ss, h, Stmt.texts_retokenAll hρ ss']

theorem Retoken.keepsSpelling_unplaced : Retoken.unplaced.KeepsSpelling := fun _ => rfl

theorem Retoken.keepsSpelling_bare : Retoken.bare.KeepsSpelling := fun _ => rfl

/-- Programs that are the same in all the text shows have the same text. -/
theorem Program.text_eq_of_bare {p q : Program} (h : q.bare = p.bare) : q.text = p.text :=
  congrArg ("\n".intercalate ·)
    (Stmt.texts_eq_of_retokenAll Retoken.keepsSpelling_bare (congrArg Program.statements h))

end Scriptlet
