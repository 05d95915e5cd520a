/-
  Infix trees: operands with binary operators between them. Whatever the
  powers, the tokens have one tree that climbs.
-/
import Scriptlet.Proofs.Language.Binding

namespace Scriptlet

open Grammar (script)

/-! ## Tokens -/

/-- A token that is an operand by itself. -/
inductive Atom where
  | name (t : Token) (kind : t.kind = .identifier)
  | boolean (t : Token) (kind : t.kind = .trueWord ∨ t.kind = .falseWord)
  | integer (t : Token) (kind : t.kind = .integer) (spelled : t.Spelled)
      (small : t.decimal ≤ Numeral.largest)

/-- A token that is a binary operator. -/
structure Infix where
  /-- The token. -/
  token : Token
  mem : token.kind ∈ OperatorRule.binary.kinds

namespace Atom

/-- The token of an operand. -/
def token : Atom → Token
  | name t _ | boolean t _ | integer t _ _ _ => t

/-- The tree of an operand. -/
def expr : Atom → Expr
  | name t _ => .name ⟨t, t.literal⟩
  | boolean t _ => .boolean t (t.kind = .trueWord)
  | integer t _ _ _ => .integer t t.decimal

/-- The rule by which an operand is read. -/
def rule : Atom → OperandRule
  | name _ _ => .name
  | boolean _ _ => .boolean
  | integer _ _ _ _ => .integer

theorem operand_kind (a : Atom) : script.operand a.token.kind = some a.rule := by
  cases a with
  | name t hk => exact congrArg script.operand hk
  | boolean t hk => rcases hk with hk | hk <;> exact congrArg script.operand hk
  | integer t hk => exact congrArg script.operand hk

/-- A binary operator may be an operator before its operand, but no operand by itself. -/
theorem token_ne (a : Atom) (o : Infix) : a.token ≠ o.token := by
  intro h
  have hinfix : ∀ k ∈ OperatorRule.binary.kinds,
      script.operand k = none ∨ script.operand k = some .unary := by decide
  have hrule := a.operand_kind
  rw [h] at hrule
  rcases hinfix _ o.mem with hnone | hunary
  · rw [hnone] at hrule
    cases hrule
  · rw [hunary] at hrule
    cases a <;> cases hrule

theorem expr_congr {a b : Atom} (h : a.token = b.token) : a.expr = b.expr := by
  have hrule : a.rule = b.rule := by
    have ha := a.operand_kind
    rw [h, b.operand_kind] at ha
    exact (Option.some.inj ha).symm
  cases a <;> cases b <;> cases hrule <;> cases h <;> rfl

end Atom

/-- The tokens of operators with an operand each after it. -/
def pairs (os : List (Infix × Atom)) : List Token :=
  os.flatMap fun x => [x.1.token, x.2.token]

/-- The tokens of an operand, and of operators with an operand each after it. -/
def sequence (a : Atom) (os : List (Infix × Atom)) : List Token :=
  a.token :: pairs os

theorem sequence_append (a b : Atom) (os os' : List (Infix × Atom)) (o : Infix) :
    sequence a (os ++ (o, b) :: os') = sequence a os ++ o.token :: sequence b os' := by
  simp [sequence, pairs]

/-! ## Trees -/

/-- `e` is an infix tree, and `ts` are its tokens in order. -/
inductive InOrder : List Token → Expr → Prop
  | atom (a : Atom) : InOrder [a.token] a.expr
  | binary {ts us : List Token} {l r : Expr} (o : Infix) : InOrder ts l → InOrder us r →
      InOrder (ts ++ o.token :: us) (.binary o.token l o.token.literal r)

/-- The kind of the operator at the root of an infix tree. -/
def Expr.root? : Expr → Option Kind
  | .binary t _ _ _ => some t.kind
  | _ => none

/-- An operator binds no more tightly than the one of its left operand, and less tightly than the
    one of its right operand. -/
def Expr.Climbs (power : Kind → Power) : Expr → Prop
  | .binary t l _ r => l.Climbs power ∧ r.Climbs power ∧
      (∀ k ∈ l.root?, power t.kind ≤ power k) ∧ ∀ k ∈ r.root?, power t.kind < power k
  | _ => True

theorem Atom.root?_expr (a : Atom) : a.expr.root? = none := by
  cases a <;> rfl

theorem Atom.climbs_expr (a : Atom) {power : Kind → Power} : a.expr.Climbs power := by
  cases a <;> trivial

namespace InOrder

variable {power : Kind → Power} {ts us : List Token} {e l r : Expr} {o o' : Infix}

/-- A tree of more than one operand is not the tree of one. -/
theorem ne_singleton {a : Atom} (h : [a.token] = ts ++ o.token :: us) : False := by
  have ho : o.token ∈ [a.token] := by rw [h]; simp
  exact a.token_ne o (List.mem_singleton.1 ho).symm

/-- No operator of a tree that climbs binds less tightly than the one at the root. -/
theorem le_of_mem {m : Nat} (h : InOrder ts e) (hc : e.Climbs power)
    (hroot : ∀ k ∈ e.root?, m ≤ (power k).rank) (ho : o.token ∈ ts) :
    m ≤ (power o.token.kind).rank := by
  induction h generalizing m with
  | atom a => exact absurd (List.mem_singleton.1 ho).symm (a.token_ne o)
  | binary o' _ _ ihl ihr =>
    obtain ⟨hcl, hcr, hleft, hright⟩ := hc
    have hm : m ≤ (power o'.token.kind).rank := hroot _ rfl
    rcases List.mem_append.1 ho with hl | hr
    · exact ihl hcl (fun k hk => Nat.le_trans hm (hleft k hk)) hl
    · rcases List.mem_cons.1 hr with heq | hr
      · rwa [heq]
      · exact ihr hcr (fun k hk => Nat.le_trans hm (Nat.le_of_lt (hright k hk))) hr

/-- The operators at the roots of two trees that climb are at the same place. -/
theorem not_apart {as : List Token} (hl : InOrder (ts ++ o.token :: as) l) (hcl : l.Climbs power)
    (hleft : ∀ k ∈ l.root?, power o'.token.kind ≤ power k)
    (hr : InOrder (as ++ o'.token :: us) r) (hcr : r.Climbs power)
    (hright : ∀ k ∈ r.root?, power o.token.kind < power k) : False := by
  have hle : (power o'.token.kind).rank ≤ (power o.token.kind).rank :=
    hl.le_of_mem hcl hleft (by simp)
  have hlt : (power o.token.kind).rank + 1 ≤ (power o'.token.kind).rank :=
    hr.le_of_mem hcr hright (by simp)
  omega

/-- **No two trees that climb have the same tokens in order.** -/
theorem unique {e' : Expr} (h : InOrder ts e) (h' : InOrder ts e') (hc : e.Climbs power)
    (hc' : e'.Climbs power) : e = e' := by
  induction h generalizing e' with
  | atom a =>
    generalize hts : [a.token] = ts at h'
    cases h' with
    | atom b => exact Atom.expr_congr (List.singleton_inj.1 hts)
    | binary o => exact (ne_singleton hts).elim
  | binary o hl hr ihl ihr =>
    generalize hts : _ ++ _ :: _ = ts at h'
    cases h' with
    | atom b => exact (ne_singleton hts.symm).elim
    | binary o' hl' hr' =>
      obtain ⟨hcl, hcr, hleft, hright⟩ := hc
      obtain ⟨hcl', hcr', hleft', hright'⟩ := hc'
      -- the two roots are the same token, or one stands within an operand of the other
      rcases List.append_eq_append_iff.1 hts with ⟨as, rfl, htail⟩ | ⟨as, rfl, htail⟩
      · rcases as with _ | ⟨t, as⟩
        · obtain ⟨ho, rfl⟩ := List.cons.inj htail
          rw [List.append_nil] at hl'
          rw [ihl hl' hcl hcl', ihr hr' hcr hcr', ho]
        · obtain ⟨rfl, rfl⟩ := List.cons.inj htail
          exact (hl'.not_apart hcl' hleft' hr hcr hright).elim
      · rcases as with _ | ⟨t, as⟩
        · obtain ⟨ho, rfl⟩ := List.cons.inj htail
          rw [List.append_nil] at ihl
          rw [ihl hl' hcl hcl', ihr hr' hcr hcr', ho]
        · obtain ⟨rfl, rfl⟩ := List.cons.inj htail
          exact (hl.not_apart hcl hleft hr' hcr' hright').elim

end InOrder

end Scriptlet
