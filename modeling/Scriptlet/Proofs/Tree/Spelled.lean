/-
  Trees whose tokens are of the kinds they stand for, and spelled so.
-/
import Scriptlet.Proofs.Language.Derivation

namespace Scriptlet

/-- The token is of the kind, and spelled so. -/
def Token.Is (t : Token) (k : Kind) : Prop :=
  t.kind = k ∧ t.Spelled

/-- The name is an identifier. -/
def Identifier.Spelled (i : Identifier) : Prop :=
  i.token.Is .identifier ∧ i.value = i.token.literal

mutual

/-- The expression is what its tokens spell. -/
def Expr.Spelled (absent : Prop) : Expr → Prop
  | .name i => i.Spelled
  | .integer t v => t.Is .integer ∧ t.decimal ≤ Numeral.largest ∧ v = t.decimal
  | .boolean t v => t.Is .trueWord ∧ v = true ∨ t.Is .falseWord ∧ v = false
  | .unary t op e => (t.Is .bang ∨ t.Is .minus) ∧ op = t.literal ∧ e.Spelled absent
  | .binary t l op r => (∃ m : Tier, t.kind ∈ m.operators) ∧ t.Spelled ∧ op = t.literal ∧
    l.Spelled absent ∧ r.Spelled absent
  | .conditional t c b none => t.Is .ifWord ∧ c.Spelled absent ∧ b.Spelled absent
  | .conditional t c b (some a) =>
    t.Is .ifWord ∧ c.Spelled absent ∧ b.Spelled absent ∧ a.Spelled absent
  | .function t ps b => t.Is .functionWord ∧ (∀ i ∈ ps, i.Spelled) ∧ b.Spelled absent
  | .call t f as => t.Is .openParen ∧ f.Spelled absent ∧ Expr.SpelledAll absent as

/-- The expressions are what their tokens spell. -/
def Expr.SpelledAll (absent : Prop) : List Expr → Prop
  | [] => True
  | e :: es => e.Spelled absent ∧ Expr.SpelledAll absent es

/-- The block is what its tokens spell. -/
def Block.Spelled (absent : Prop) : Block → Prop
  | .mk t ss => t.Is .openBrace ∧ Stmt.SpelledAll absent ss

/-- The statement is what its tokens spell, where its value may be absent if `absent` holds. -/
def Stmt.Spelled (absent : Prop) : Stmt → Prop
  | .var t n none => t.Is .varWord ∧ n.Spelled ∧ absent
  | .var t n (some e) => t.Is .varWord ∧ n.Spelled ∧ e.Spelled absent
  | .ret t none => t.Is .returnWord ∧ absent
  | .ret t (some e) => t.Is .returnWord ∧ e.Spelled absent
  | .expr _ e => e.Spelled absent

/-- The statements are what their tokens spell. -/
def Stmt.SpelledAll (absent : Prop) : List Stmt → Prop
  | [] => True
  | s :: ss => s.Spelled absent ∧ Stmt.SpelledAll absent ss

end

/-- The tree of a phrase is what its tokens spell. -/
def Phrase.Spelled (absent : Prop) : (p : Phrase) → p.Tree → Prop
  | .expr _ => Expr.Spelled absent
  | .items | .arguments => Expr.SpelledAll absent
  | .block => Block.Spelled absent
  | .statement => Stmt.Spelled absent
  | .statements => Stmt.SpelledAll absent

theorem Names.spelled {ts : List Token} {ps : List Identifier} (h : Names ts ps)
    (hspelled : ∀ t ∈ ts, t.Spelled) : ∀ i ∈ ps, i.Spelled := by
  induction h with
  | one hk => simpa [Identifier.Spelled, Token.Is, hk] using hspelled
  | more hk _ _ ih =>
    intro i hi
    rcases List.mem_cons.1 hi with rfl | hi
    · exact ⟨⟨hk, hspelled _ (by simp)⟩, rfl⟩
    · exact ih (fun t ht => hspelled t (by simp [ht])) i hi

theorem Parameters.spelled {ts : List Token} {ps : List Identifier} (h : Parameters ts ps)
    (hspelled : ∀ t ∈ ts, t.Spelled) : ∀ i ∈ ps, i.Spelled := by
  cases h with
  | none => simp
  | some h => exact h.spelled hspelled

/-- **The tree of a derivation is what its tokens spell.** -/
theorem Derives.spelled {d : Nat} {p : Phrase} {ts : List Token} {x : p.Tree}
    (h : Derives d p ts x) (hspelled : ∀ t ∈ ts, t.Spelled) : p.Spelled False x := by
  induction h with
  | name hk => exact ⟨⟨hk, hspelled _ (by simp)⟩, rfl⟩
  | integer hk hle => exact ⟨⟨hk, hspelled _ (by simp)⟩, hle, rfl⟩
  | boolean hk =>
    have ht := hspelled _ (List.mem_singleton.2 rfl)
    rcases hk with hk | hk
    · exact .inl ⟨⟨hk, ht⟩, by simp [hk]⟩
    · exact .inr ⟨⟨hk, ht⟩, by simp [hk]⟩
  | group _ _ _ ih => exact ih fun t ht => hspelled t (by simp [ht])
  | conditional hi _ _ _ _ ih ih₁ =>
    exact ⟨⟨hi, hspelled _ (by simp)⟩, ih fun t ht => hspelled t (by simp [ht]),
      ih₁ fun t ht => hspelled t (by simp [ht])⟩
  | alternative hi _ _ _ _ _ _ ih ih₁ ih₂ =>
    exact ⟨⟨hi, hspelled _ (by simp)⟩, ih fun t ht => hspelled t (by simp [ht]),
      ih₁ fun t ht => hspelled t (by simp [ht]), ih₂ fun t ht => hspelled t (by simp [ht])⟩
  | function hf _ hps _ _ ih =>
    exact ⟨⟨hf, hspelled _ (by simp)⟩, hps.spelled fun t ht => hspelled t (by simp [ht]),
      ih fun t ht => hspelled t (by simp [ht])⟩
  | call _ ho _ _ ih ih₁ =>
    exact ⟨⟨ho, hspelled _ (by simp)⟩, ih fun t ht => hspelled t (by simp [ht]),
      ih₁ fun t ht => hspelled t (by simp [ht])⟩
  | unary hk _ ih =>
    have ht := hspelled _ List.mem_cons_self
    refine ⟨?_, rfl, ih fun t ht => hspelled t (by simp [ht])⟩
    rcases hk with hk | hk
    · exact .inl ⟨hk, ht⟩
    · exact .inr ⟨hk, ht⟩
  | binary _ hk _ ih ih₁ =>
    exact ⟨⟨_, hk⟩, hspelled _ (by simp), rfl, ih fun t ht => hspelled t (by simp [ht]),
      ih₁ fun t ht => hspelled t (by simp [ht])⟩
  | tighter _ ih => exact ih hspelled
  | item _ ih => exact ⟨ih hspelled, trivial⟩
  | items _ _ _ ih ih₁ =>
    exact ⟨ih fun t ht => hspelled t (by simp [ht]), ih₁ fun t ht => hspelled t (by simp [ht])⟩
  | noArguments => trivial
  | arguments _ ih => exact ih hspelled
  | block ho _ _ ih =>
    exact ⟨⟨ho, hspelled _ (by simp)⟩, ih fun t ht => hspelled t (by simp [ht])⟩
  | var hv hx _ _ ih =>
    exact ⟨⟨hv, hspelled _ (by simp)⟩, ⟨⟨hx, hspelled _ (by simp)⟩, rfl⟩,
      ih fun t ht => hspelled t (by simp [ht])⟩
  | ret hw _ ih => exact ⟨⟨hw, hspelled _ (by simp)⟩, ih fun t ht => hspelled t (by simp [ht])⟩
  | expr _ ih => exact ih hspelled
  | empty => trivial
  | closed _ _ _ ih ih₁ =>
    exact ⟨ih fun t ht => hspelled t (by simp [ht]), ih₁ fun t ht => hspelled t (by simp [ht])⟩
  | opened _ _ _ ih ih₁ =>
    exact ⟨ih fun t ht => hspelled t (by simp [ht]), ih₁ fun t ht => hspelled t (by simp [ht])⟩

end Scriptlet
