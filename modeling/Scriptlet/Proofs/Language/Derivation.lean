/-
  The language, declaratively: which token lists are a program, of which tree,
  and how many levels of expressions they open one inside another.
-/
import Scriptlet.Grammar.Reading
import Scriptlet.Proofs.Text.Spelling

namespace Scriptlet

open Grammar (script)

/-! ## Tiers of expressions -/

/-- How tightly an expression holds together, the loosest first. -/
inductive Tier where
  | equality
  | comparison
  | sum
  | product
  | unary
  | call
  | primary
deriving DecidableEq, Repr

namespace Tier

/-- The next tighter tier. -/
def tighter : Tier → Tier
  | equality => comparison
  | comparison => sum
  | sum => product
  | product => unary
  | unary => call
  | call | primary => primary

/-- The binary operators of a tier. -/
def operators : Tier → List Kind
  | equality => [.equal, .notEqual]
  | comparison => [.less, .greater]
  | sum => [.plus, .minus]
  | product => [.star, .slash]
  | _ => []

end Tier

/-- A token that goes on with the expression before it: a binary operator, or the parenthesis
    of a call. -/
def Kind.goesOn (k : Kind) : Prop :=
  k = .openParen ∨ ∃ l : Tier, k ∈ l.operators

/-- The kind of the first token, that of the end of a text if there is none. -/
def firstKind (ts : List Token) : Kind :=
  (ts.head?.map (·.kind)).getD .eof

/-! ## Derivations -/

/-- The sorts of phrases. -/
inductive Phrase where
  | expr (tier : Tier)
  /-- expressions with commas between them, one at least -/
  | items
  /-- what stands between the parentheses of a call -/
  | arguments
  | block
  /-- a statement without its `;` -/
  | statement
  | statements
deriving DecidableEq, Repr

/-- The trees of a sort of phrases. -/
abbrev Phrase.Tree : Phrase → Type
  | expr _ => Expr
  | items | arguments => List Expr
  | block => Block
  | statement => Stmt
  | statements => List Stmt

/-- Names with commas between them, one at least. -/
inductive Names : List Token → List Identifier → Prop
  | one {t : Token} : t.kind = .identifier → Names [t] [⟨t, t.literal⟩]
  | more {t c : Token} {ts : List Token} {ps : List Identifier} : t.kind = .identifier →
      c.kind = .comma → Names ts ps → Names (t :: c :: ts) (⟨t, t.literal⟩ :: ps)

/-- What stands between the parentheses of a function. -/
inductive Parameters : List Token → List Identifier → Prop
  | none : Parameters [] []
  | some {ts : List Token} {ps : List Identifier} : Names ts ps → Parameters ts ps

/-- `Derives d p ts x`: the tokens `ts` are a phrase `p` with the tree `x`, and open `d` levels
    of expressions one inside another. -/
inductive Derives : Nat → (p : Phrase) → List Token → p.Tree → Prop
  | name {t : Token} : t.kind = .identifier →
      Derives 0 (.expr .primary) [t] (.name ⟨t, t.literal⟩)
  | integer {t : Token} : t.kind = .integer → t.decimal ≤ Numeral.largest →
      Derives 0 (.expr .primary) [t] (.integer t t.decimal)
  | boolean {t : Token} : t.kind = .trueWord ∨ t.kind = .falseWord →
      Derives 0 (.expr .primary) [t] (.boolean t (t.kind = .trueWord))
  | group {d : Nat} {o c : Token} {ts : List Token} {e : Expr} : o.kind = .openParen →
      Derives d (.expr .equality) ts e → c.kind = .closeParen →
      Derives (d + 1) (.expr .primary) (o :: ts ++ [c]) e
  | conditional {d d₁ : Nat} {i o c : Token} {ts bs : List Token} {e : Expr} {b : Block} :
      i.kind = .ifWord → o.kind = .openParen → Derives d (.expr .equality) ts e →
      c.kind = .closeParen → Derives d₁ .block bs b →
      Derives (max (d + 1) d₁) (.expr .primary) (i :: o :: ts ++ c :: bs)
        (.conditional i e b none)
  | alternative {d d₁ d₂ : Nat} {i o c w : Token} {ts bs as : List Token} {e : Expr}
      {b a : Block} : i.kind = .ifWord → o.kind = .openParen →
      Derives d (.expr .equality) ts e → c.kind = .closeParen → Derives d₁ .block bs b →
      w.kind = .elseWord → Derives d₂ .block as a →
      Derives (max (max (d + 1) d₁) d₂) (.expr .primary) (i :: o :: ts ++ c :: (bs ++ w :: as))
        (.conditional i e b (some a))
  | function {d : Nat} {f o c : Token} {ps bs : List Token} {is : List Identifier} {b : Block} :
      f.kind = .functionWord → o.kind = .openParen → Parameters ps is → c.kind = .closeParen →
      Derives d .block bs b →
      Derives d (.expr .primary) (f :: o :: ps ++ c :: bs) (.function f is b)
  | call {d d₁ : Nat} {o c : Token} {ts as : List Token} {e : Expr} {es : List Expr} :
      Derives d (.expr .call) ts e → o.kind = .openParen → Derives d₁ .arguments as es →
      c.kind = .closeParen →
      Derives (max d d₁) (.expr .call) (ts ++ o :: as ++ [c]) (.call o e es)
  | unary {d : Nat} {t : Token} {ts : List Token} {e : Expr} : t.kind = .bang ∨ t.kind = .minus →
      Derives d (.expr .unary) ts e →
      Derives (d + 1) (.expr .unary) (t :: ts) (.unary t t.literal e)
  | binary {d d₁ : Nat} {l : Tier} {t : Token} {ts us : List Token} {e e₁ : Expr} :
      Derives d (.expr l) ts e → t.kind ∈ l.operators → Derives d₁ (.expr l.tighter) us e₁ →
      Derives (max d (d₁ + 1)) (.expr l) (ts ++ t :: us) (.binary t e t.literal e₁)
  | tighter {d : Nat} {l : Tier} {ts : List Token} {e : Expr} :
      Derives d (.expr l.tighter) ts e → Derives d (.expr l) ts e
  | item {d : Nat} {ts : List Token} {e : Expr} : Derives d (.expr .equality) ts e →
      Derives (d + 1) .items ts [e]
  | items {d d₁ : Nat} {c : Token} {ts us : List Token} {e : Expr} {es : List Expr} :
      Derives d (.expr .equality) ts e → c.kind = .comma → Derives d₁ .items us es →
      Derives (max (d + 1) d₁) .items (ts ++ c :: us) (e :: es)
  | noArguments : Derives 0 .arguments [] []
  | arguments {d : Nat} {ts : List Token} {es : List Expr} : Derives d .items ts es →
      Derives d .arguments ts es
  | block {d : Nat} {o c : Token} {ts : List Token} {ss : List Stmt} : o.kind = .openBrace →
      Derives d .statements ts ss → c.kind = .closeBrace →
      Derives d .block (o :: ts ++ [c]) (.mk o ss)
  | var {d : Nat} {v x a : Token} {ts : List Token} {e : Expr} : v.kind = .varWord →
      x.kind = .identifier → a.kind = .assign → Derives d (.expr .equality) ts e →
      Derives (d + 1) .statement (v :: x :: a :: ts) (.var v ⟨x, x.literal⟩ (some e))
  | ret {d : Nat} {w : Token} {ts : List Token} {e : Expr} : w.kind = .returnWord →
      Derives d (.expr .equality) ts e → Derives (d + 1) .statement (w :: ts) (.ret w (some e))
  | expr {d : Nat} {t : Token} {ts : List Token} {e : Expr} :
      Derives d (.expr .equality) (t :: ts) e → Derives (d + 1) .statement (t :: ts) (.expr t e)
  | empty : Derives 0 .statements [] []
  | closed {d d₁ : Nat} {c : Token} {ts us : List Token} {s : Stmt} {ss : List Stmt} :
      Derives d .statement ts s → c.kind = .semicolon → Derives d₁ .statements us ss →
      Derives (max d d₁) .statements (ts ++ c :: us) (s :: ss)
  | opened {d d₁ : Nat} {ts us : List Token} {s : Stmt} {ss : List Stmt} :
      Derives d .statement ts s → ¬ (firstKind us).goesOn → Derives d₁ .statements us ss →
      Derives (max d d₁) .statements (ts ++ us) (s :: ss)

/-- The tokens are a program that opens no more levels than are allowed. -/
def Derivable (ts : List Token) : Prop :=
  ∃ d ≤ Grammar.nestingLimit, ∃ ss, Derives d .statements ts ss

/-! ## What a phrase begins with -/

/-- What a phrase begins with. -/
def Phrase.Begins : (p : Phrase) → List Token → Prop
  | .expr _, ts | .items, ts => ∃ t us, ts = t :: us ∧ (script.operand t.kind).isSome
  | .statement, ts => ∃ t us, ts = t :: us ∧
      ((script.operand t.kind).isSome ∨ (script.statement t.kind).isSome)
  | .block, ts => ∃ t us, ts = t :: us ∧ t.kind = .openBrace
  | .statements, ts => ∀ t us, ts = t :: us →
      (script.operand t.kind).isSome ∨ (script.statement t.kind).isSome
  | .arguments, ts => ∀ t us, ts = t :: us → (script.operand t.kind).isSome

theorem Derives.begins {d : Nat} {p : Phrase} {ts : List Token} {x : p.Tree}
    (h : Derives d p ts x) : p.Begins ts := by
  induction h with
  | name hk => exact ⟨_, _, rfl, by rw [hk]; rfl⟩
  | integer hk => exact ⟨_, _, rfl, by rw [hk]; rfl⟩
  | boolean hk => exact ⟨_, _, rfl, by rcases hk with hk | hk <;> rw [hk] <;> rfl⟩
  | group ho => exact ⟨_, _, rfl, by rw [ho]; rfl⟩
  | conditional hi => exact ⟨_, _, rfl, by rw [hi]; rfl⟩
  | alternative hi => exact ⟨_, _, rfl, by rw [hi]; rfl⟩
  | function hf => exact ⟨_, _, rfl, by rw [hf]; rfl⟩
  | call _ _ _ _ ih => obtain ⟨t, us, rfl, hk⟩ := ih; exact ⟨t, _, rfl, hk⟩
  | unary hk => exact ⟨_, _, rfl, by rcases hk with hk | hk <;> rw [hk] <;> rfl⟩
  | binary _ _ _ ih => obtain ⟨t, us, rfl, hk⟩ := ih; exact ⟨t, _, rfl, hk⟩
  | tighter _ ih => exact ih
  | item _ ih => exact ih
  | items _ _ _ ih => obtain ⟨t, us, rfl, hk⟩ := ih; exact ⟨t, _, rfl, hk⟩
  | noArguments => rintro t us ⟨⟩
  | arguments _ ih => rintro t us rfl; obtain ⟨t, us, ⟨⟩, hk⟩ := ih; exact hk
  | block ho => exact ⟨_, _, rfl, ho⟩
  | var hv => exact ⟨_, _, rfl, .inr (by rw [hv]; rfl)⟩
  | ret hw => exact ⟨_, _, rfl, .inr (by rw [hw]; rfl)⟩
  | expr _ ih => obtain ⟨t, us, h, hk⟩ := ih; exact ⟨t, us, h, .inl hk⟩
  | empty => rintro t us ⟨⟩
  | closed _ _ _ ih =>
    obtain ⟨t, us, rfl, hk⟩ := ih
    rintro t us ⟨⟩
    exact hk
  | opened _ _ _ ih =>
    obtain ⟨t, us, rfl, hk⟩ := ih
    rintro t us ⟨⟩
    exact hk

end Scriptlet
