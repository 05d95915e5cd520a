/-
  The tokens of the canonical text.
-/
import Scriptlet.Proofs.Text.Lexemes
import Scriptlet.Proofs.Tree.Retoken
import Scriptlet.Proofs.Tree.Spelled

namespace Scriptlet

/-- The token of a kind that has only one spelling, wherever it stands. -/
def Kind.token (k : Kind) : Token := ⟨k, k.spelling?.getD "", .start⟩

/-- The tokens with parentheses around them. -/
def parenthesised (ts : List Token) : List Token :=
  Kind.openParen.token :: ts ++ [Kind.closeParen.token]

/-- Names with commas between them. -/
def Identifier.tokens : List Identifier → List Token
  | [] => []
  | [i] => [i.token.unplaced]
  | i :: is => i.token.unplaced :: Kind.comma.token :: Identifier.tokens is

mutual

/-- The tokens of the canonical text of an expression. -/
def Expr.tokens : Expr → List Token
  | .name i => [i.token.unplaced]
  | .integer t _ => [t.stripped]
  | .boolean t _ => [t.unplaced]
  | .unary t _ e => parenthesised (t.unplaced :: e.tokens)
  | .binary t l _ r => parenthesised (l.tokens ++ t.unplaced :: r.tokens)
  | .conditional t c b none =>
    t.unplaced :: (if c.isOperation then c.tokens else parenthesised c.tokens) ++ b.tokens
  | .conditional t c b (some a) =>
    t.unplaced :: (if c.isOperation then c.tokens else parenthesised c.tokens) ++ b.tokens ++
      Kind.elseWord.token :: a.tokens
  | .function t ps b => t.unplaced :: parenthesised (Identifier.tokens ps) ++ b.tokens
  | .call _ f as => f.tokens ++ parenthesised (Expr.listTokens as)

/-- The tokens of the canonical texts of expressions, with commas between them. -/
def Expr.listTokens : List Expr → List Token
  | [] => []
  | [e] => e.tokens
  | e :: es => e.tokens ++ Kind.comma.token :: Expr.listTokens es

/-- The tokens of the canonical text of a block. -/
def Block.tokens : Block → List Token
  | .mk _ ss => Kind.openBrace.token :: Stmt.listTokens ss ++ [Kind.closeBrace.token]

/-- The tokens of the canonical text of a statement. -/
def Stmt.tokens : Stmt → List Token
  | .var t n none => [t.unplaced, n.token.unplaced, Kind.semicolon.token]
  | .var t n (some e) =>
    t.unplaced :: n.token.unplaced :: Kind.assign.token :: e.tokens ++ [Kind.semicolon.token]
  | .ret t none => [t.unplaced, Kind.semicolon.token]
  | .ret t (some e) => t.unplaced :: e.tokens ++ [Kind.semicolon.token]
  | .expr _ e => e.tokens

/-- The tokens of the canonical texts of statements. -/
def Stmt.listTokens : List Stmt → List Token
  | [] => []
  | s :: ss => s.tokens ++ Stmt.listTokens ss

end

/-! ## What the text of an expression begins with -/

/-- The expression begins with the parenthesis of an operation. -/
def Expr.opens : Expr → Bool
  | .unary .. | .binary .. => true
  | .call _ f _ => f.opens
  | _ => false

theorem toList_toString_natCast (n : Nat) : (toString (n : Int)).toList = Nat.toDigits 10 n := by
  show n.repr.toList = _
  exact Nat.toList_repr

theorem Token.Is.literal_eq {t : Token} {k : Kind} {w : String} (h : t.Is k)
    (hw : k.spelling? = some w) : t.literal = w :=
  h.2.literal_eq (by rw [h.1, hw])

/-- A token of a kind that has only one spelling is the token of that kind. -/
theorem Token.Is.unplaced_eq {t : Token} {k : Kind} {w : String} (h : t.Is k)
    (hw : k.spelling? = some w) : t.unplaced = k.token := by
  rw [unplaced, Kind.token, h.1, h.literal_eq hw, hw]
  rfl

/-- An identifier begins with a letter or an underscore. -/
theorem Token.Is.head_identifier {t : Token} (h : t.Is .identifier) :
    ∃ c cs, t.literal.toList = c :: cs ∧ isWordStart c = true := by
  rcases h.2.cases with ⟨c, cs, hlit, hw, -⟩ | ⟨-, -, hk⟩ | hk | hk
  · exact ⟨c, cs, hlit, hw⟩
  · rw [h.1] at hk; cases hk
  · rw [h.1] at hk; cases hk
  · rw [h.1] at hk; cases hk

/-- The canonical text of an expression begins with a parenthesis just if the expression begins
    with an operation, and never with an equals sign. -/
theorem Expr.head_text {absent : Prop} : ∀ e : Expr, e.Spelled absent →
    ∃ c, e.text.toList.head? = some c ∧ (c = '(' ↔ e.opens = true) ∧ c ≠ '='
  | .name i, ⟨hi, hv⟩ => by
    obtain ⟨c, cs, hlit, hw⟩ := hi.head_identifier
    refine ⟨c, by rw [Expr.text, hv, hlit]; rfl, ?_, ?_⟩
    · simp only [Expr.opens, Bool.false_eq_true, iff_false]
      rintro rfl; exact absurd hw (by decide)
    · rintro rfl; exact absurd hw (by decide)
  | .integer t v, ⟨_, _, hv⟩ => by
    subst hv
    obtain ⟨c, cs, hdigits⟩ := List.exists_cons_of_ne_nil (Nat.toDigits_ne_nil (n := t.decimal)
      (b := 10))
    have hmem : c ∈ Nat.toDigits 10 t.decimal := by rw [hdigits]; exact List.mem_cons_self
    have hc : c.isDigit = true := Nat.isDigit_of_mem_toDigits (by decide) (by decide) hmem
    refine ⟨c, by rw [Expr.text, toList_toString_natCast, hdigits]; rfl, ?_, ?_⟩
    · simp only [Expr.opens, Bool.false_eq_true, iff_false]
      rintro rfl; exact absurd hc (by decide)
    · rintro rfl; exact absurd hc (by decide)
  | .boolean t true, _ => ⟨'t', by rw [Expr.text]; rfl, by simp [Expr.opens], by decide⟩
  | .boolean t false, _ => ⟨'f', by rw [Expr.text]; rfl, by simp [Expr.opens], by decide⟩
  | .unary t op e, _ => ⟨'(', by simp [Expr.text], by simp [Expr.opens], by decide⟩
  | .binary t l op r, _ => ⟨'(', by simp [Expr.text], by simp [Expr.opens], by decide⟩
  | .conditional t c b none, _ => ⟨'i', by simp [Expr.text], by simp [Expr.opens], by decide⟩
  | .conditional t c b (some a), _ => ⟨'i', by simp [Expr.text], by simp [Expr.opens], by decide⟩
  | .function t ps b, ⟨ht, _⟩ => by
    refine ⟨'f', ?_, by simp [Expr.opens], by decide⟩
    simp [Expr.text, ht.literal_eq (w := "function") rfl]
  | .call t f as, ⟨_, hf, _⟩ => by
    obtain ⟨c, hc, hopens, hne⟩ := f.head_text hf
    exact ⟨c, by simp [Expr.text, hc], hopens, hne⟩

/-! ## The text is scanned as its tokens -/

/-- The parts of a canonical text that are the same whatever the tree. -/
theorem lexemes_openParen (cs : List Char) :
    lexemes ('(' :: cs) = Kind.openParen.token.lexeme :: lexemes cs :=
  lexemes_delimiter rfl (by decide)

theorem lexemes_closeParen (cs : List Char) :
    lexemes (')' :: cs) = Kind.closeParen.token.lexeme :: lexemes cs :=
  lexemes_delimiter rfl (by decide)

theorem lexemes_openBrace (cs : List Char) :
    lexemes ('\x7b' :: cs) = Kind.openBrace.token.lexeme :: lexemes cs :=
  lexemes_delimiter rfl (by decide)

theorem lexemes_closeBrace (cs : List Char) :
    lexemes ('\x7d' :: cs) = Kind.closeBrace.token.lexeme :: lexemes cs :=
  lexemes_delimiter rfl (by decide)

theorem lexemes_comma (cs : List Char) :
    lexemes (',' :: cs) = Kind.comma.token.lexeme :: lexemes cs :=
  lexemes_delimiter rfl (by decide)

theorem lexemes_semicolon (cs : List Char) :
    lexemes (';' :: cs) = Kind.semicolon.token.lexeme :: lexemes cs :=
  lexemes_delimiter rfl (by decide)

theorem lexemes_literal {t : Token} (rest : List Char) (h : t.Spelled) (hrest : Apart rest) :
    lexemes (t.literal.toList ++ rest) = t.unplaced.lexeme :: lexemes rest :=
  lexemes_spelled rest h hrest

theorem lexemes_assign (cs : List Char) :
    lexemes ('=' :: ' ' :: cs) = Kind.assign.token.lexeme :: lexemes cs := by
  have h := lexemes_literal (t := Kind.assign.token) (' ' :: cs)
    ⟨'=', [], rfl, rfl, rfl⟩ (by simp [isWordPart])
  rwa [lexemes_blank rfl] at h

theorem lexemes_lineFeed (cs : List Char) : lexemes ('\n' :: cs) = lexemes cs :=
  lexemes_blank rfl

theorem lexemes_space (cs : List Char) : lexemes (' ' :: cs) = lexemes cs :=
  lexemes_blank rfl

theorem lexemes_word {t : Token} {k : Kind} {w : String} (rest : List Char) (h : t.Is k)
    (hw : k.spelling? = some w) (hrest : Apart rest) :
    lexemes (w.toList ++ rest) = t.unplaced.lexeme :: lexemes rest := by
  rw [← h.literal_eq hw, lexemes_literal rest h.2 hrest]

/-- The operator of a unary operation may have any operand right after it. -/
theorem lexemes_unary {t : Token} {cs : List Char} (h : t.Is .bang ∨ t.Is .minus)
    (hcs : ∀ c ∈ cs.head?, c ≠ '=') :
    lexemes (t.literal.toList ++ cs) = t.unplaced.lexeme :: lexemes cs := by
  rcases h with h | h
  · have hlit : t.literal = "!" := h.literal_eq rfl
    rw [hlit, Token.lexeme, Token.literal_unplaced, Token.kind_unplaced, h.1, hlit]
    exact lexemes_bang hcs
  · have hlit : t.literal = "-" := h.literal_eq rfl
    rw [hlit, Token.lexeme, Token.literal_unplaced, Token.kind_unplaced, h.1, hlit]
    exact lexemes_delimiter rfl (by decide)

theorem Token.toList_stripped (t : Token) :
    t.stripped.literal.toList = Nat.toDigits 10 t.decimal :=
  Nat.toList_repr

/-- Without its leading zeros an integer is an integer. -/
theorem Token.Is.stripped {t : Token} (h : t.Is .integer) : t.stripped.Is .integer := by
  refine ⟨h.1, .of_digits h.1 ?_ fun c hc => ?_⟩
  · rw [t.toList_stripped]
    exact Nat.toDigits_ne_nil
  · rw [t.toList_stripped] at hc
    exact Nat.isDigit_of_mem_toDigits (by decide) (by decide) hc

theorem lexemes_integer {t : Token} {rest : List Char} (h : t.Is .integer) (hrest : Apart rest) :
    lexemes (Nat.toDigits 10 t.decimal ++ rest) = t.stripped.lexeme :: lexemes rest := by
  rw [← t.toList_stripped]
  exact lexemes_spelled rest h.stripped.2 hrest

/-- Names with commas between them. -/
theorem lexemes_names (rest : List Char) (hrest : Apart rest) :
    ∀ is : List Identifier, (∀ i ∈ is, i.Spelled) →
      lexemes ((", ".intercalate (is.map (·.value))).toList ++ rest) =
        (Identifier.tokens is).map Token.lexeme ++ lexemes rest
  | [], _ => by simp [Identifier.tokens]
  | [i], h => by
    obtain ⟨hi, hv⟩ := h i (by simp)
    simp only [List.map_cons, List.map_nil, String.intercalate_singleton, hv,
      lexemes_spelled rest hi.2 hrest]
    rfl
  | i :: j :: is, h => by
    obtain ⟨hi, hv⟩ := h i (by simp)
    have ih := lexemes_names rest hrest (j :: is) fun k hk => h k (List.mem_cons_of_mem _ hk)
    simp only [List.map_cons] at ih
    simp only [List.map_cons, String.intercalate_cons_cons, String.toList_append, hv,
      List.append_assoc]
    rw [lexemes_spelled _ hi.2 (by simp [isWordPart])]
    simp only [String.reduceToList, List.cons_append, List.nil_append, lexemes_comma,
      lexemes_space, ih, Identifier.tokens, List.map_cons]
    rfl

theorem lexemes_if {t : Token} (h : t.Is .ifWord) (cs : List Char) :
    lexemes ('i' :: 'f' :: ' ' :: cs) = t.unplaced.lexeme :: lexemes cs := by
  have hword := lexemes_word (' ' :: cs) h rfl (by simp [isWordPart])
  rwa [lexemes_space] at hword

theorem lexemes_else (cs : List Char) : lexemes ('e' :: 'l' :: 's' :: 'e' :: ' ' :: cs) =
    Kind.elseWord.token.lexeme :: lexemes cs := by
  have hspelled : Kind.elseWord.token.Spelled := ⟨'e', ['l', 's', 'e'], rfl, rfl, by decide⟩
  have hword := lexemes_spelled (' ' :: cs) hspelled (by simp [isWordPart])
  rwa [lexemes_space cs] at hword

/-- A condition stands in one pair of parentheses. -/
theorem lexemes_condition {c : Expr} (rest : List Char) (hrest : Apart rest)
    (h : ∀ rest, Apart rest →
      lexemes (c.text.toList ++ rest) = c.tokens.map Token.lexeme ++ lexemes rest) :
    lexemes ((if c.isOperation then c.text else "(" ++ c.text ++ ")").toList ++ rest) =
      (if c.isOperation then c.tokens else parenthesised c.tokens).map Token.lexeme ++
        lexemes rest := by
  split
  · exact h rest hrest
  · have hc := h (')' :: rest) (by simp [isWordPart])
    simp [parenthesised, lexemes_openParen, hc, lexemes_closeParen]

mutual

theorem Expr.lexemes_text {absent : Prop} : ∀ (e : Expr) (rest : List Char), e.Spelled absent →
    Apart rest →
      lexemes (e.text.toList ++ rest) = e.tokens.map Token.lexeme ++ lexemes rest
  | .name i, rest, ⟨hi, hv⟩, hrest => by
    rw [Expr.text, hv, lexemes_spelled rest hi.2 hrest]
    rfl
  | .integer t v, rest, ⟨ht, _, hv⟩, hrest => by
    rw [Expr.text, hv, toList_toString_natCast, lexemes_integer ht hrest]
    rfl
  | .boolean t v, rest, h, hrest => by
    rcases h with ⟨ht, rfl⟩ | ⟨ht, rfl⟩
    · exact lexemes_word rest ht rfl hrest
    · exact lexemes_word rest ht rfl hrest
  | .unary t op e, rest, ⟨ht, hop, he⟩, hrest => by
    obtain ⟨c, hc, -, hne⟩ := e.head_text he
    have hhead : ∀ d ∈ (e.text.toList ++ ')' :: rest).head?, d ≠ '=' := by
      simpa [hc] using hne
    have ih := e.lexemes_text (')' :: rest) he (by simp [isWordPart])
    simp [Expr.text, Expr.tokens, parenthesised, lexemes_openParen, hop, lexemes_unary ht hhead, ih,
      lexemes_closeParen]
  | .binary t l op r, rest, ⟨_, ht, hop, hl, hr⟩, hrest => by
    have ihl := fun cs => l.lexemes_text (' ' :: cs) hl (by simp [isWordPart])
    have ihr := r.lexemes_text (')' :: rest) hr (by simp [isWordPart])
    have hop' := fun cs => lexemes_spelled (' ' :: cs) ht (by simp [isWordPart])
    simp [Expr.text, Expr.tokens, parenthesised, lexemes_openParen, lexemes_space,
      lexemes_closeParen, hop, ihl, ihr, hop']
    rfl
  | .conditional t c b none, rest, ⟨ht, hc, hb⟩, hrest => by
    have ihc := fun cs => lexemes_condition (c := c) (' ' :: cs) (by simp [isWordPart])
      fun cs h => c.lexemes_text cs hc h
    have ihb := b.lexemes_text rest hb
    simp only [Expr.text, Expr.tokens, String.toList_append, String.reduceToList,
      List.append_assoc, List.cons_append, List.nil_append, lexemes_if ht, ihc, lexemes_space, ihb,
      List.map_cons, List.map_append]
  | .conditional t c b (some a), rest, ⟨ht, hc, hb, ha⟩, hrest => by
    have ihc := fun cs => lexemes_condition (c := c) (' ' :: cs) (by simp [isWordPart])
      fun cs h => c.lexemes_text cs hc h
    have ihb := fun cs => b.lexemes_text (cs) hb
    have iha := a.lexemes_text rest ha
    simp only [Expr.text, Expr.tokens, String.toList_append, String.reduceToList,
      List.append_assoc, List.cons_append, List.nil_append, lexemes_if ht, ihc, lexemes_space, ihb,
      lexemes_else, iha, List.map_cons, List.map_append]
  | .function t ps b, rest, ⟨ht, hps, hb⟩, hrest => by
    have hword := fun cs => lexemes_literal ('(' :: cs) ht.2 (by simp [isWordPart])
    have ihps := fun cs => lexemes_names (')' :: cs) (by simp [isWordPart]) ps hps
    have ihb := b.lexemes_text rest hb
    simp only [Expr.text, Expr.tokens, parenthesised, String.toList_append, String.reduceToList,
      List.append_assoc, List.cons_append, List.nil_append, hword, lexemes_openParen, ihps,
      lexemes_closeParen, lexemes_space, ihb, List.map_cons, List.map_append]
  | .call t f as, rest, ⟨ht, hf, has⟩, hrest => by
    have ihf := fun cs => f.lexemes_text ('(' :: cs) hf (by simp [isWordPart])
    have ihas := Expr.lexemes_texts as (')' :: rest) has (by simp [isWordPart])
    simp only [Expr.text, Expr.tokens, parenthesised, String.toList_append, String.reduceToList,
      List.append_assoc, List.cons_append, List.nil_append, ihf, lexemes_openParen, ihas,
      lexemes_closeParen, List.map_cons, List.map_append, List.map_nil]

theorem Expr.lexemes_texts {absent : Prop} : ∀ (es : List Expr) (rest : List Char),
    Expr.SpelledAll absent es → Apart rest →
      lexemes ((", ".intercalate (Expr.texts es)).toList ++ rest) =
        (Expr.listTokens es).map Token.lexeme ++ lexemes rest
  | [], rest, _, hrest => by simp [Expr.texts, Expr.listTokens]
  | [e], rest, ⟨he, _⟩, hrest => by
    simpa only [Expr.texts, Expr.listTokens, String.intercalate_singleton] using
      e.lexemes_text rest he hrest
  | e :: e' :: es, rest, ⟨he, hes⟩, hrest => by
    have ih := fun cs => e.lexemes_text (',' :: cs) he (by simp [isWordPart])
    have ihs := Expr.lexemes_texts (e' :: es) rest hes hrest
    rw [Expr.texts] at ihs
    simp only [Expr.texts, Expr.listTokens, String.intercalate_cons_cons, String.toList_append,
      String.reduceToList, List.append_assoc, List.cons_append, List.nil_append, ih, lexemes_comma,
      lexemes_space, ihs, List.map_cons, List.map_append]

theorem Block.lexemes_text {absent : Prop} : ∀ (b : Block) (rest : List Char), b.Spelled absent →
    lexemes (b.text.toList ++ rest) = b.tokens.map Token.lexeme ++ lexemes rest
  | .mk t [], rest, _ => by
    simp only [Block.text, Block.tokens, Stmt.listTokens, String.reduceToList, List.cons_append,
      List.nil_append, lexemes_openBrace, lexemes_space, lexemes_closeBrace, List.map_cons,
      List.map_nil]
  | .mk t (s :: ss), rest, ⟨_, hs, hss⟩ => by
    have ih := Stmt.lexemes_texts (s :: ss) (' ' :: '\x7d' :: rest) (.inl rfl) ⟨hs, hss⟩
      (by simp [isWordPart])
    rw [Stmt.texts] at ih
    simp only [Block.text, Block.tokens, String.toList_append, String.reduceToList,
      List.append_assoc, List.cons_append, List.nil_append, lexemes_openBrace, lexemes_space, ih,
      lexemes_closeBrace, List.map_cons, List.map_append, List.map_nil]

theorem Stmt.lexemes_text {absent : Prop} : ∀ (s : Stmt) (rest : List Char), s.Spelled absent →
    Apart rest →
      lexemes (s.text.toList ++ rest) = s.tokens.map Token.lexeme ++ lexemes rest
  | .var t n none, rest, ⟨ht, ⟨hn, hv⟩, _⟩, hrest => by
    have hword := fun cs => lexemes_literal (' ' :: cs) ht.2 (by simp [isWordPart])
    have hname := lexemes_literal (';' :: rest) hn.2 (by simp [isWordPart])
    simp only [Stmt.text, Stmt.tokens, String.toList_append, String.reduceToList,
      List.append_assoc, List.cons_append, List.nil_append, hword, lexemes_space, hv, hname,
      lexemes_semicolon, List.map_cons, List.map_nil]
  | .var t n (some e), rest, ⟨ht, ⟨hn, hv⟩, he⟩, hrest => by
    have hword := fun cs => lexemes_literal (' ' :: cs) ht.2 (by simp [isWordPart])
    have hname := fun cs => lexemes_literal (' ' :: cs) hn.2 (by simp [isWordPart])
    have ih := e.lexemes_text (';' :: rest) he (by simp [isWordPart])
    simp only [Stmt.text, Stmt.tokens, String.toList_append, String.reduceToList,
      List.append_assoc, List.cons_append, List.nil_append, hword, lexemes_space, hv, hname,
      lexemes_assign, ih, lexemes_semicolon, List.map_cons, List.map_append, List.map_nil]
  | .ret t none, rest, ⟨ht, _⟩, hrest => by
    have hword := lexemes_literal (';' :: rest) ht.2 (by simp [isWordPart])
    simp only [Stmt.text, Stmt.tokens, String.toList_append, String.reduceToList,
      List.append_assoc, List.cons_append, List.nil_append, hword, lexemes_semicolon,
      List.map_cons, List.map_nil]
  | .ret t (some e), rest, ⟨ht, he⟩, hrest => by
    have hword := fun cs => lexemes_literal (' ' :: cs) ht.2 (by simp [isWordPart])
    have ih := e.lexemes_text (';' :: rest) he (by simp [isWordPart])
    simp only [Stmt.text, Stmt.tokens, String.toList_append, String.reduceToList,
      List.append_assoc, List.cons_append, List.nil_append, hword, lexemes_space, ih,
      lexemes_semicolon, List.map_cons, List.map_append, List.map_nil]
  | .expr _ e, rest, he, hrest => e.lexemes_text rest he hrest

theorem Stmt.lexemes_texts {absent : Prop} : ∀ (ss : List Stmt) {sep : String} (rest : List Char),
    sep = " " ∨ sep = "\n" → Stmt.SpelledAll absent ss → Apart rest →
      lexemes ((sep.intercalate (Stmt.texts ss)).toList ++ rest) =
        (Stmt.listTokens ss).map Token.lexeme ++ lexemes rest
  | [], sep, rest, _, _, hrest => by simp [Stmt.texts, Stmt.listTokens]
  | [s], sep, rest, _, ⟨hs, _⟩, hrest => by
    simpa only [Stmt.texts, Stmt.listTokens, String.intercalate_singleton, List.append_nil] using
      s.lexemes_text rest hs hrest
  | s :: s' :: ss, sep, rest, hsep, ⟨hs, hss⟩, hrest => by
    have ihs := Stmt.lexemes_texts (s' :: ss) rest hsep hss hrest
    rw [Stmt.texts] at ihs
    rcases hsep with rfl | rfl
    · have ih := fun cs => s.lexemes_text (' ' :: cs) hs (by simp [isWordPart])
      rw [Stmt.texts, Stmt.texts, Stmt.listTokens]
      simp only [String.intercalate_cons_cons, String.toList_append, String.reduceToList,
        List.append_assoc, List.cons_append, List.nil_append, ih, lexemes_space, ihs,
        List.map_append]
    · have ih := fun cs => s.lexemes_text ('\n' :: cs) hs (by simp [isWordPart])
      rw [Stmt.texts, Stmt.texts, Stmt.listTokens]
      simp only [String.intercalate_cons_cons, String.toList_append, String.reduceToList,
        List.append_assoc, List.cons_append, List.nil_append, ih, lexemes_lineFeed, ihs,
        List.map_append]

end

/-- **The canonical text of a program is scanned as its tokens.** -/
theorem Program.map_lexeme_ahead {absent : Prop} {p : Program}
    (h : Stmt.SpelledAll absent p.statements) :
    (Scanner.ofText p.text).ahead.map Token.lexeme =
      (Stmt.listTokens p.statements).map Token.lexeme := by
  have htexts := Stmt.lexemes_texts p.statements [] (.inr rfl) h (by simp)
  rw [lexemes_nil, List.append_nil, List.append_nil] at htexts
  rw [Scanner.map_lexeme_ahead]
  exact htexts

end Scriptlet
