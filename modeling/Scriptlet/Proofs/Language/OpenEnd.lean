/-
  A missing `;` is never significant: with a `;` put there, the tokens are the
  same phrase with the same tree.
-/
import Scriptlet.Proofs.Language.Acceptance
import Scriptlet.Proofs.Language.Levels
import Scriptlet.Proofs.Language.Relocation
import Scriptlet.Proofs.Text.Insertion

namespace Scriptlet

/-- The tokens `us ++ vs` are a phrase `p` with the tree `x` and open `d` levels, and a statement
    of it that has no `;` ends where `us` ends. -/
inductive OpenEnd : ℕ → (p : Phrase) → List Token → List Token → p.Tree → Prop
  /-- The place is the end of the first of these statements. -/
  | here {d d₁ : ℕ} {ts us : List Token} {s : Stmt} {ss : List Stmt} :
      Derives d .statement ts s → ¬ (firstKind us).goesOn → Derives d₁ .statements us ss →
      OpenEnd (max d d₁) .statements ts us (s :: ss)
  | closedStatement {d d₁ : ℕ} {c : Token} {us vs ts : List Token} {s : Stmt} {ss : List Stmt} :
      OpenEnd d .statement us vs s → c.kind = .semicolon → Derives d₁ .statements ts ss →
      OpenEnd (max d d₁) .statements us (vs ++ c :: ts) (s :: ss)
  | closedRest {d d₁ : ℕ} {c : Token} {ts us vs : List Token} {s : Stmt} {ss : List Stmt} :
      Derives d .statement ts s → c.kind = .semicolon → OpenEnd d₁ .statements us vs ss →
      OpenEnd (max d d₁) .statements (ts ++ c :: us) vs (s :: ss)
  | openedStatement {d d₁ : ℕ} {us vs ts : List Token} {s : Stmt} {ss : List Stmt} :
      OpenEnd d .statement us vs s → ¬ (firstKind ts).goesOn → Derives d₁ .statements ts ss →
      OpenEnd (max d d₁) .statements us (vs ++ ts) (s :: ss)
  | openedRest {d d₁ : ℕ} {ts us vs : List Token} {s : Stmt} {ss : List Stmt} :
      Derives d .statement ts s → ¬ (firstKind (us ++ vs)).goesOn →
      OpenEnd d₁ .statements us vs ss →
      OpenEnd (max d d₁) .statements (ts ++ us) vs (s :: ss)
  | var {d : ℕ} {v x a : Token} {us vs : List Token} {e : Expr} : v.kind = .varWord →
      x.kind = .identifier → a.kind = .assign → OpenEnd d (.expr .equality) us vs e →
      OpenEnd (d + 1) .statement (v :: x :: a :: us) vs (.var v ⟨x, x.literal⟩ (some e))
  | ret {d : ℕ} {w : Token} {us vs : List Token} {e : Expr} : w.kind = .returnWord →
      OpenEnd d (.expr .equality) us vs e →
      OpenEnd (d + 1) .statement (w :: us) vs (.ret w (some e))
  | expr {d : ℕ} {t : Token} {us vs : List Token} {e : Expr} :
      OpenEnd d (.expr .equality) (t :: us) vs e →
      OpenEnd (d + 1) .statement (t :: us) vs (.expr t e)
  | block {d : ℕ} {o c : Token} {us vs : List Token} {ss : List Stmt} : o.kind = .openBrace →
      OpenEnd d .statements us vs ss → c.kind = .closeBrace →
      OpenEnd d .block (o :: us) (vs ++ [c]) (.mk o ss)
  | tighter {d : ℕ} {l : Tier} {us vs : List Token} {e : Expr} :
      OpenEnd d (.expr l.tighter) us vs e → OpenEnd d (.expr l) us vs e
  | group {d : ℕ} {o c : Token} {us vs : List Token} {e : Expr} : o.kind = .openParen →
      OpenEnd d (.expr .equality) us vs e → c.kind = .closeParen →
      OpenEnd (d + 1) (.expr .primary) (o :: us) (vs ++ [c]) e
  | conditionalTest {d d₁ : ℕ} {i o c : Token} {us vs bs : List Token} {e : Expr} {b : Block} :
      i.kind = .ifWord → o.kind = .openParen → OpenEnd d (.expr .equality) us vs e →
      c.kind = .closeParen → Derives d₁ .block bs b →
      OpenEnd (max (d + 1) d₁) (.expr .primary) (i :: o :: us) (vs ++ c :: bs)
        (.conditional i e b none)
  | conditionalBlock {d d₁ : ℕ} {i o c : Token} {ts us vs : List Token} {e : Expr} {b : Block} :
      i.kind = .ifWord → o.kind = .openParen → Derives d (.expr .equality) ts e →
      c.kind = .closeParen → OpenEnd d₁ .block us vs b →
      OpenEnd (max (d + 1) d₁) (.expr .primary) (i :: o :: ts ++ c :: us) vs
        (.conditional i e b none)
  | alternativeTest {d d₁ d₂ : ℕ} {i o c w : Token} {us vs bs as : List Token} {e : Expr}
      {b a : Block} : i.kind = .ifWord → o.kind = .openParen →
      OpenEnd d (.expr .equality) us vs e → c.kind = .closeParen → Derives d₁ .block bs b →
      w.kind = .elseWord → Derives d₂ .block as a →
      OpenEnd (max (max (d + 1) d₁) d₂) (.expr .primary) (i :: o :: us)
        (vs ++ c :: (bs ++ w :: as)) (.conditional i e b (some a))
  | alternativeBlock {d d₁ d₂ : ℕ} {i o c w : Token} {ts us vs as : List Token} {e : Expr}
      {b a : Block} : i.kind = .ifWord → o.kind = .openParen →
      Derives d (.expr .equality) ts e → c.kind = .closeParen → OpenEnd d₁ .block us vs b →
      w.kind = .elseWord → Derives d₂ .block as a →
      OpenEnd (max (max (d + 1) d₁) d₂) (.expr .primary) (i :: o :: ts ++ c :: us)
        (vs ++ w :: as) (.conditional i e b (some a))
  | alternativeElse {d d₁ d₂ : ℕ} {i o c w : Token} {ts bs us vs : List Token} {e : Expr}
      {b a : Block} : i.kind = .ifWord → o.kind = .openParen →
      Derives d (.expr .equality) ts e → c.kind = .closeParen → Derives d₁ .block bs b →
      w.kind = .elseWord → OpenEnd d₂ .block us vs a →
      OpenEnd (max (max (d + 1) d₁) d₂) (.expr .primary) (i :: o :: ts ++ c :: (bs ++ w :: us)) vs
        (.conditional i e b (some a))
  | function {d : ℕ} {f o c : Token} {ps us vs : List Token} {is : List Identifier} {b : Block} :
      f.kind = .functionWord → o.kind = .openParen → Parameters ps is → c.kind = .closeParen →
      OpenEnd d .block us vs b →
      OpenEnd d (.expr .primary) (f :: o :: ps ++ c :: us) vs (.function f is b)
  | callee {d d₁ : ℕ} {o c : Token} {us vs as : List Token} {e : Expr} {es : List Expr} :
      OpenEnd d (.expr .call) us vs e → o.kind = .openParen → Derives d₁ .arguments as es →
      c.kind = .closeParen →
      OpenEnd (max d d₁) (.expr .call) us (vs ++ o :: as ++ [c]) (.call o e es)
  | callArguments {d d₁ : ℕ} {o c : Token} {ts us vs : List Token} {e : Expr} {es : List Expr} :
      Derives d (.expr .call) ts e → o.kind = .openParen → OpenEnd d₁ .arguments us vs es →
      c.kind = .closeParen →
      OpenEnd (max d d₁) (.expr .call) (ts ++ o :: us) (vs ++ [c]) (.call o e es)
  | arguments {d : ℕ} {us vs : List Token} {es : List Expr} : OpenEnd d .items us vs es →
      OpenEnd d .arguments us vs es
  | item {d : ℕ} {us vs : List Token} {e : Expr} : OpenEnd d (.expr .equality) us vs e →
      OpenEnd (d + 1) .items us vs [e]
  | firstItem {d d₁ : ℕ} {c : Token} {us vs ts : List Token} {e : Expr} {es : List Expr} :
      OpenEnd d (.expr .equality) us vs e → c.kind = .comma → Derives d₁ .items ts es →
      OpenEnd (max (d + 1) d₁) .items us (vs ++ c :: ts) (e :: es)
  | otherItems {d d₁ : ℕ} {c : Token} {ts us vs : List Token} {e : Expr} {es : List Expr} :
      Derives d (.expr .equality) ts e → c.kind = .comma → OpenEnd d₁ .items us vs es →
      OpenEnd (max (d + 1) d₁) .items (ts ++ c :: us) vs (e :: es)
  | unary {d : ℕ} {t : Token} {us vs : List Token} {e : Expr} :
      t.kind = .bang ∨ t.kind = .minus → OpenEnd d (.expr .unary) us vs e →
      OpenEnd (d + 1) (.expr .unary) (t :: us) vs (.unary t t.literal e)
  | binaryLeft {d d₁ : ℕ} {l : Tier} {t : Token} {us vs ts : List Token} {e e₁ : Expr} :
      OpenEnd d (.expr l) us vs e → t.kind ∈ l.operators → Derives d₁ (.expr l.tighter) ts e₁ →
      OpenEnd (max d (d₁ + 1)) (.expr l) us (vs ++ t :: ts) (.binary t e t.literal e₁)
  | binaryRight {d d₁ : ℕ} {l : Tier} {t : Token} {ts us vs : List Token} {e e₁ : Expr} :
      Derives d (.expr l) ts e → t.kind ∈ l.operators → OpenEnd d₁ (.expr l.tighter) us vs e₁ →
      OpenEnd (max d (d₁ + 1)) (.expr l) (ts ++ t :: us) vs (.binary t e t.literal e₁)

/-- What a statement may end with. -/
inductive Ending : List Token → Prop
  | none : Ending []
  | semicolon {c : Token} : c.kind = .semicolon → Ending [c]

namespace OpenEnd

variable {d : ℕ} {p : Phrase} {us vs : List Token} {x : p.Tree}

theorem ne_nil (h : OpenEnd d p us vs x) : us ≠ [] := by
  induction h with
  | here h =>
    obtain ⟨t, us, rfl, -⟩ := h.begins
    simp
  | _ => simp_all

/-- What stands after the place does not matter to what stands before it. -/
theorem firstKind_append (h : OpenEnd d p us vs x) (ts : List Token) :
    firstKind (us ++ ts) = firstKind us := by
  obtain ⟨t, us, rfl⟩ := List.exists_cons_of_ne_nil h.ne_nil
  rfl

/-- **What is put at the place makes no difference**: with a `;` there or with nothing, the tokens
    are the same phrase. -/
theorem derives_ending (h : OpenEnd d p us vs x) {ws : List Token} (hws : Ending ws) :
    Derives d p (us ++ (ws ++ vs)) x := by
  induction h with
  | here hs hnext hss =>
    cases hws with
    | none => exact .opened hs hnext hss
    | semicolon hc => exact .closed hs hc hss
  | closedStatement _ hc hss ih => simpa using Derives.closed ih hc hss
  | closedRest hs hc _ ih => simpa using Derives.closed hs hc ih
  | openedStatement _ hnext hss ih => simpa using Derives.opened ih hnext hss
  | openedRest hs hnext hopen ih =>
    -- the statement before is open too, and must not go on
    rw [hopen.firstKind_append, ← hopen.firstKind_append (ws ++ _)] at hnext
    simpa using Derives.opened hs hnext ih
  | var hv hx ha _ ih => exact .var hv hx ha ih
  | ret hw _ ih => exact .ret hw ih
  | expr _ ih => exact .expr ih
  | block ho _ hc ih => simpa using Derives.block ho ih hc
  | tighter _ ih => exact .tighter ih
  | group ho _ hc ih => simpa using Derives.group ho ih hc
  | conditionalTest hi ho _ hc hb ih => simpa using Derives.conditional hi ho ih hc hb
  | conditionalBlock hi ho he hc _ ih => simpa using Derives.conditional hi ho he hc ih
  | alternativeTest hi ho _ hc hb hw ha ih => simpa using Derives.alternative hi ho ih hc hb hw ha
  | alternativeBlock hi ho he hc _ hw ha ih => simpa using Derives.alternative hi ho he hc ih hw ha
  | alternativeElse hi ho he hc hb hw _ ih => simpa using Derives.alternative hi ho he hc hb hw ih
  | function hf ho hps hc _ ih => simpa using Derives.function hf ho hps hc ih
  | callee _ ho has hc ih => simpa using Derives.call ih ho has hc
  | callArguments he ho _ hc ih => simpa using Derives.call he ho ih hc
  | arguments _ ih => exact .arguments ih
  | item _ ih => exact .item ih
  | firstItem _ hc hes ih => simpa using Derives.items ih hc hes
  | otherItems he hc _ ih => simpa using Derives.items he hc ih
  | unary ht _ ih => exact .unary ht ih
  | binaryLeft _ ht he ih => simpa using Derives.binary ih ht he
  | binaryRight he ht _ ih => simpa using Derives.binary he ht ih

end OpenEnd

/-! ## Texts -/

variable {text : String} {us vs : List Token}

/-- The tokens of a text with a `;` put into it. -/
theorem same_insertSemicolon (h : Same (Scanner.ofText text).ahead (us ++ vs)) :
    Same (Scanner.ofText (Text.insertSemicolon text us.length)).ahead
      (us ++ ([Kind.semicolon.token] ++ vs)) := by
  rw [Same, Scanner.map_lexeme_ahead, List.map_append] at h
  have hlexemes : lexemes text.toList = us.map Token.lexeme ++ vs.map Token.lexeme := h
  have hlength : us.length = (us.map Token.lexeme).length := (List.length_map _).symm
  rw [Same, Scanner.map_lexeme_ahead]
  refine (lexemes_insertSemicolon text us.length).trans ?_
  rw [hlexemes, hlength, List.take_left, List.drop_left]
  simp

/-- **A missing `;` is never significant.** Where a statement of a program ends without a `;`, one
    may be put right after its last token, and the program is the same but for the places of its
    tokens. -/
theorem parse_insertSemicolon {p : Program} {d : ℕ} (h : parse text = (p, []))
    (htokens : (tokenize text).dropLast = us ++ vs)
    (hopen : OpenEnd d .statements us vs p.statements) :
    ∃ q, parse (Text.insertSemicolon text us.length) = (q, []) ∧
      Stmt.retokenAll .unplaced q.statements = Stmt.retokenAll .unplaced p.statements := by
  obtain ⟨d', hd', hprogram⟩ := parse_eq_iff.1 h
  rw [dropLast_tokenize] at htokens
  rw [htokens] at hprogram
  -- the levels of a program are told by its tokens
  obtain ⟨rfl, -⟩ := (hopen.derives_ending .none).unique hprogram
    (htokens ▸ Scanner.spelled_ahead _)
  have hclosed := hopen.derives_ending (.semicolon (c := Kind.semicolon.token) rfl)
  obtain ⟨ss, hss, hunplaced⟩ := hclosed.relocate
    (same_insertSemicolon (congrArg (List.map Token.lexeme) htokens))
  exact ⟨⟨ss⟩, parse_eq_iff.2 ⟨d, hd', hss⟩, hunplaced⟩

/-- A place in a block that an `else` comes after. -/
theorem parse_insertSemicolon_else :
    let text := "if (a) \x7b b \x7d else \x7b \x7d"
    ∃ p d us vs, parse text = (p, []) ∧ (tokenize text).dropLast = us ++ vs ∧
      OpenEnd d .statements us vs p.statements ∧
      Text.insertSemicolon text us.length = "if (a) \x7b b; \x7d else \x7b \x7d" ∧
      ∃ q, parse (Text.insertSemicolon text us.length) = (q, []) ∧
        Stmt.retokenAll .unplaced q.statements = Stmt.retokenAll .unplaced p.statements := by
  intro text
  let i : Token := ⟨.ifWord, "if", ⟨1, 1⟩⟩
  let l : Token := ⟨.openParen, "(", ⟨1, 4⟩⟩
  let a : Token := ⟨.identifier, "a", ⟨1, 5⟩⟩
  let r : Token := ⟨.closeParen, ")", ⟨1, 6⟩⟩
  let o : Token := ⟨.openBrace, "\x7b", ⟨1, 8⟩⟩
  let b : Token := ⟨.identifier, "b", ⟨1, 10⟩⟩
  let c : Token := ⟨.closeBrace, "\x7d", ⟨1, 12⟩⟩
  let w : Token := ⟨.elseWord, "else", ⟨1, 14⟩⟩
  let u : Token := ⟨.openBrace, "\x7b", ⟨1, 19⟩⟩
  let v : Token := ⟨.closeBrace, "\x7d", ⟨1, 21⟩⟩
  let e : Expr :=
    .conditional i (.name ⟨a, "a"⟩) (.mk o [.expr b (.name ⟨b, "b"⟩)]) (some (.mk u []))
  have hname : ∀ t : Token, t.kind = .identifier →
      Derives 0 (.expr .equality) [t] (.name ⟨t, t.literal⟩) :=
    fun t ht => (Derives.name ht).loosen (by decide)
  have hplace : OpenEnd 1 .statements [b] [] [.expr b (.name ⟨b, "b"⟩)] :=
    .here (.expr (hname b rfl)) not_goesOn_nil .empty
  have hblock : OpenEnd 1 .block [o, b] [c] (.mk o [.expr b (.name ⟨b, "b"⟩)]) :=
    hplace.block rfl rfl
  have helse : Derives 0 .block [u, v] (.mk u []) := .block rfl .empty rfl
  have hif : OpenEnd 1 (.expr .primary) [i, l, a, r, o, b] [c, w, u, v] e :=
    .alternativeBlock rfl rfl (hname a rfl) rfl hblock rfl helse
  have hstatement : OpenEnd 2 .statement [i, l, a, r, o, b] [c, w, u, v] (.expr i e) :=
    .expr hif.tighter.tighter.tighter.tighter.tighter.tighter
  have hopen : OpenEnd 2 .statements [i, l, a, r, o, b] [c, w, u, v] [.expr i e] :=
    hstatement.openedStatement not_goesOn_nil .empty
  have htokens : (tokenize text).dropLast = [i, l, a, r, o, b] ++ [c, w, u, v] := by
    decide +kernel
  have hparse : parse text = (⟨[.expr i e]⟩, []) := by
    refine parse_eq_iff.2 ⟨2, by decide, ?_⟩
    rw [← dropLast_tokenize, htokens]
    exact hopen.derives_ending .none
  exact ⟨_, 2, _, _, hparse, htokens, hopen, by decide +kernel,
    parse_insertSemicolon hparse htokens hopen⟩

end Scriptlet
