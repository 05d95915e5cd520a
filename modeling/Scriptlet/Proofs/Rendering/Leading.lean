/-
  What a canonical text begins with, and what may come after it.
-/
import Scriptlet.Proofs.Language.Relocation
import Scriptlet.Proofs.Rendering.Tokens

namespace Scriptlet

/-- The kind of the first lexeme of a text. -/
def leadingKind (cs : List Char) : Option Kind :=
  (lexemes cs).head?.map Lexeme.kind

variable {absent : Prop} {t u : Token} {cs rest rest' : List Char} {e e' : Expr} {s s' : Stmt}

/-! ## What a text begins with -/

@[simp] theorem leadingKind_nil : leadingKind [] = none := by
  rw [leadingKind, lexemes_nil]
  rfl

theorem leadingKind_delimiter {c : Char} {k : Kind} (h : Lexeme.symbol? c = some k)
    (hc : c ≠ '=' ∧ c ≠ '!') : leadingKind (c :: cs) = some k := by
  rw [leadingKind, lexemes_delimiter h hc]
  rfl

@[simp] theorem leadingKind_else (cs : List Char) :
    leadingKind ('e' :: 'l' :: 's' :: 'e' :: ' ' :: cs) = some .elseWord := by
  rw [leadingKind, lexemes_else]
  rfl

theorem leadingKind_literal (ht : t.Spelled) (hrest : Apart rest) :
    leadingKind (t.literal.toList ++ rest) = some t.kind := by
  rw [leadingKind, lexemes_literal rest ht hrest]
  rfl

/-- The kind that the text of an expression begins with. -/
def Expr.leading : Expr → Kind
  | .name _ => .identifier
  | .integer .. => .integer
  | .boolean _ true => .trueWord
  | .boolean _ false => .falseWord
  | .unary .. | .binary .. => .openParen
  | .conditional .. => .ifWord
  | .function .. => .functionWord
  | .call _ f _ => f.leading

/-- The kind that the text of a statement begins with. -/
def Stmt.leading : Stmt → Kind
  | .var .. => .varWord
  | .ret .. => .returnWord
  | .expr _ e => e.leading

theorem Expr.mem_leading : ∀ e : Expr, e.leading ∈
    [.identifier, .integer, .trueWord, .falseWord, .openParen, .ifWord, .functionWord]
  | .name _ | .integer .. | .boolean _ true | .boolean _ false | .unary .. | .binary ..
  | .conditional .. | .function .. => by simp [Expr.leading]
  | .call _ f _ => f.mem_leading

/-- The text of an expression begins with a parenthesis just if the expression begins with an
    operation. -/
theorem Expr.leading_eq_openParen : ∀ e : Expr, e.leading = .openParen ↔ e.opens = true
  | .name _ | .integer .. | .boolean _ true | .boolean _ false | .unary .. | .binary ..
  | .conditional .. | .function .. => by simp [Expr.leading, Expr.opens]
  | .call _ f _ => f.leading_eq_openParen

theorem Expr.leading_tokens : ∀ e : Expr, e.Spelled absent →
    ∃ t us, e.tokens = t :: us ∧ t.kind = e.leading
  | .name i, h => ⟨_, _, rfl, h.1.1⟩
  | .integer t v, h => ⟨_, _, rfl, h.1.1⟩
  | .boolean t true, h => by
    rcases h with ⟨h, -⟩ | ⟨-, h⟩
    · exact ⟨_, _, rfl, h.1⟩
    · cases h
  | .boolean t false, h => by
    rcases h with ⟨-, h⟩ | ⟨h, -⟩
    · cases h
    · exact ⟨_, _, rfl, h.1⟩
  | .unary .., _ | .binary .., _ => ⟨_, _, rfl, rfl⟩
  | .conditional t c b none, h | .conditional t c b (some a), h => ⟨_, _, rfl, h.1.1⟩
  | .function t ps b, h => ⟨_, _, rfl, h.1.1⟩
  | .call t f as, h => by
    obtain ⟨t, us, htokens, hk⟩ := f.leading_tokens h.2.1
    exact ⟨t, _, by rw [tokens, htokens]; rfl, hk⟩

theorem Expr.leadingKind_text (he : e.Spelled absent) (hrest : Apart rest) :
    leadingKind (e.text.toList ++ rest) = some e.leading := by
  obtain ⟨t, us, htokens, hk⟩ := e.leading_tokens he
  rw [leadingKind, e.lexemes_text rest he hrest, htokens, ← hk]
  rfl

theorem Stmt.leadingKind_text (hs : s.Spelled absent) (hrest : Apart rest) :
    leadingKind (s.text.toList ++ rest) = some s.leading := by
  cases s with
  | expr t e => exact Expr.leadingKind_text hs hrest
  | ret t v =>
    cases v with
    | none =>
      rw [text, String.toList_append, List.append_assoc,
        leadingKind_literal hs.1.2 (by simp [isWordPart]), hs.1.1]
      rfl
    | some e =>
      rw [text, String.toList_append, String.toList_append, String.toList_append,
        List.append_assoc, List.append_assoc, List.append_assoc,
        leadingKind_literal hs.1.2 (by simp [isWordPart]), hs.1.1]
      rfl
  | var t n v =>
    cases v with
    | none =>
      rw [text, String.toList_append, String.toList_append, String.toList_append,
        List.append_assoc, List.append_assoc, List.append_assoc,
        leadingKind_literal hs.1.2 (by simp [isWordPart]), hs.1.1]
      rfl
    | some e =>
      simp only [text, String.toList_append, List.append_assoc]
      rw [leadingKind_literal hs.1.2 (by simp [isWordPart]), hs.1.1]
      rfl

theorem Stmt.mem_leading (s : Stmt) : s.leading ∈ [.identifier, .integer, .trueWord, .falseWord,
    .openParen, .ifWord, .functionWord, .varWord, .returnWord] := by
  cases s with
  | var | ret => simp [leading]
  | expr t e => exact List.mem_append_left [.varWord, .returnWord] e.mem_leading

/-- Texts that are the same begin with the same kind. -/
theorem Expr.leading_eq (he : e.Spelled absent) (he' : e'.Spelled absent) (hrest : Apart rest)
    (hrest' : Apart rest') (h : e.text.toList ++ rest = e'.text.toList ++ rest') :
    e.leading = e'.leading := by
  have hkind := congrArg leadingKind h
  rw [leadingKind_text he hrest, leadingKind_text he' hrest'] at hkind
  exact Option.some.inj hkind

theorem Stmt.leading_eq (hs : s.Spelled absent) (hs' : s'.Spelled absent) (hrest : Apart rest)
    (hrest' : Apart rest') (h : s.text.toList ++ rest = s'.text.toList ++ rest') :
    s.leading = s'.leading := by
  have hkind := congrArg leadingKind h
  rw [leadingKind_text hs hrest, leadingKind_text hs' hrest'] at hkind
  exact Option.some.inj hkind

/-! ## The first token of a text -/

/-- A text tells its first token, where that is scanned as its first lexeme. -/
theorem unplaced_eq_of_text
    (ht : lexemes (t.literal.toList ++ rest) = t.unplaced.lexeme :: lexemes rest)
    (hu : lexemes (u.literal.toList ++ rest') = u.unplaced.lexeme :: lexemes rest')
    (h : t.literal.toList ++ rest = u.literal.toList ++ rest') :
    t.unplaced = u.unplaced ∧ rest = rest' := by
  have hlexemes := congrArg lexemes h
  rw [ht, hu] at hlexemes
  have htoken : t.unplaced = u.unplaced :=
    Token.unplaced_eq_of_lexeme (List.cons.inj hlexemes).1
  have hliteral : t.literal = u.literal := by
    rw [← t.literal_unplaced, htoken, u.literal_unplaced]
  rw [hliteral] at h
  exact ⟨htoken, List.append_cancel_left h⟩

/-- **A text tells its first token**, if that is not gone on with. -/
theorem Token.Spelled.unique (ht : t.Spelled) (hu : u.Spelled) (hrest : Apart rest)
    (hrest' : Apart rest') (h : t.literal.toList ++ rest = u.literal.toList ++ rest') :
    t.unplaced = u.unplaced ∧ rest = rest' :=
  unplaced_eq_of_text (lexemes_literal rest ht hrest) (lexemes_literal rest' hu hrest') h

/-- The text of an expression does not begin with an equals sign. -/
theorem Expr.head_text_ne (he : e.Spelled absent) :
    ∀ c ∈ (e.text.toList ++ rest).head?, c ≠ '=' := by
  obtain ⟨c, hc, -, hne⟩ := e.head_text he
  simpa [hc] using hne

/-- What begins with the operator of a unary operation tells it. -/
theorem Token.Is.unary_unique (ht : t.Is .bang ∨ t.Is .minus) (hu : u.Is .bang ∨ u.Is .minus)
    (he : e.Spelled absent) (he' : e'.Spelled absent)
    (h : t.literal.toList ++ (e.text.toList ++ rest) =
      u.literal.toList ++ (e'.text.toList ++ rest')) :
    t.unplaced = u.unplaced ∧ e.text.toList ++ rest = e'.text.toList ++ rest' :=
  unplaced_eq_of_text (lexemes_unary ht (Expr.head_text_ne he))
    (lexemes_unary hu (Expr.head_text_ne he')) h

/-- What begins with the operator of a unary operation does not begin with an expression. -/
theorem Token.Is.unary_ne (ht : t.Is .bang ∨ t.Is .minus) (he : e.Spelled absent)
    (he' : e'.Spelled absent) (hrest' : Apart rest') :
    t.literal.toList ++ (e.text.toList ++ rest) ≠ e'.text.toList ++ rest' := by
  intro h
  have hkind := congrArg leadingKind h
  rw [Expr.leadingKind_text he' hrest', leadingKind, lexemes_unary ht (Expr.head_text_ne he)]
    at hkind
  have hleading : e'.leading = t.kind := (Option.some.inj hkind).symm
  have hmem := e'.mem_leading
  rw [hleading] at hmem
  rcases ht with ht | ht <;> simp [ht.1] at hmem

/-! ## Where an expression may end -/

/-- An operand may end here, and arguments or an operator may follow it. -/
structure FollowsOperand (rest : List Char) : Prop where
  apart : Apart rest
  /-- A conditional does not go on here. -/
  noElse : ¬ [' ', 'e', 'l', 's', 'e', ' '] <+: rest

/-- An expression may end here. -/
structure FollowsExpr (rest : List Char) : Prop extends FollowsOperand rest where
  /-- No arguments follow. -/
  noArguments : rest.head? ≠ some '('

theorem followsOperand_openParen (cs : List Char) : FollowsOperand ('(' :: cs) :=
  ⟨by simp [isWordPart], by simp⟩

theorem followsExpr_nil : FollowsExpr [] :=
  ⟨⟨by simp, by simp⟩, by simp⟩

/-- A closing parenthesis, a comma, a `;` or a line feed ends an expression. -/
theorem followsExpr_cons {c : Char} (h : c ∈ [')', ',', ';', '\n']) (cs : List Char) :
    FollowsExpr (c :: cs) := by
  simp only [List.mem_cons, List.not_mem_nil, or_false] at h
  rcases h with rfl | rfl | rfl | rfl <;> exact ⟨⟨by simp [isWordPart], by simp⟩, by simp⟩

theorem followsExpr_space (h : leadingKind cs ≠ some .elseWord) : FollowsExpr (' ' :: cs) := by
  refine ⟨⟨by simp [isWordPart], ?_⟩, by simp⟩
  rintro ⟨rest, hrest⟩
  obtain rfl : 'e' :: 'l' :: 's' :: 'e' :: ' ' :: rest = cs := (List.cons.inj hrest).2
  exact h (leadingKind_else rest)

/-- The operator of a binary operation follows the left operand. -/
theorem followsExpr_operator {m : Tier} (ht : t.Spelled) (hm : t.kind ∈ m.operators)
    (cs : List Char) : FollowsExpr (' ' :: (t.literal.toList ++ ' ' :: cs)) := by
  refine followsExpr_space ?_
  rw [leadingKind_literal ht (by simp [isWordPart])]
  intro helse
  rw [Option.some.inj helse] at hm
  cases m <;> simp [Tier.operators] at hm

end Scriptlet
