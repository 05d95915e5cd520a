/-
  Tiers and powers: the stratified grammar and the powers of precedence
  climbing say the same about how operators bind.
-/
import Scriptlet.Proofs.Language.Derivation

namespace Scriptlet

open Grammar (script)

/-! ## The kinds of token that rules are for -/

/-- The kinds of token that an operand rule of the language is for. -/
def OperandRule.kinds : OperandRule → List Kind
  | .name => [.identifier]
  | .integer => [.integer]
  | .boolean => [.trueWord, .falseWord]
  | .unary => [.bang, .minus]
  | .group => [.openParen]
  | .conditional => [.ifWord]
  | .function => [.functionWord]

/-- The kinds of token that an operator rule of the language is for. -/
def OperatorRule.kinds : OperatorRule → List Kind
  | .binary => [.equal, .notEqual, .less, .greater, .plus, .minus, .star, .slash]
  | .call => [.openParen]

theorem OperandRule.mem_kinds {k : Kind} {rule : OperandRule}
    (h : script.operand k = some rule) : k ∈ rule.kinds := by
  cases k <;> cases h <;> decide

theorem OperatorRule.mem_kinds {k : Kind} {rule : OperatorRule}
    (h : script.operator k = some rule) : k ∈ rule.kinds := by
  cases k <;> cases h <;> decide

theorem Grammar.operator_of_binding {p q : Power} {k : Kind} {rule : OperatorRule}
    (h : script.binding p k = some (rule, q)) : script.operator k = some rule := by
  unfold binding at h
  split at h
  · obtain ⟨rule', hrule, heq⟩ := Option.map_eq_some_iff.1 h
    rw [hrule, (Prod.mk.inj heq).1]
  · cases h

/-! ## Tiers and powers -/

namespace Tier

/-- The number of looser tiers. -/
def rank : Tier → Nat
  | equality => 0
  | comparison => 1
  | sum => 2
  | product => 3
  | unary => 4
  | call => 5
  | primary => 6

/-- The power of the operators of a tier, or of the next looser tier if it has none. -/
def power : Tier → Power
  | equality => .equality
  | comparison => .comparison
  | sum => .sum
  | product => .product
  | unary => .unary
  | call | primary => .call

instance : LE Tier := ⟨fun l m => l.rank ≤ m.rank⟩

instance (l m : Tier) : Decidable (l ≤ m) := inferInstanceAs (Decidable (l.rank ≤ m.rank))

theorem equality_le (l : Tier) : equality ≤ l := by cases l <;> decide

theorem le_tighter (l : Tier) : l ≤ l.tighter := by cases l <;> decide

theorem le_trans {l m n : Tier} (h : l ≤ m) (h' : m ≤ n) : l ≤ n := Nat.le_trans h h'

/-- A looser tier is reached step by step. -/
theorem eq_or_tighter_le {l m : Tier} (h : l ≤ m) : l = m ∨ l.tighter ≤ m := by
  revert h
  cases l <;> cases m <;> decide

theorem power_le_tighter (l : Tier) : l.power ≤ l.tighter.power := by cases l <;> decide

end Tier

/-- The loosest tier of an expression whose operators bind more tightly than a power. An operator
    before its operand may stand wherever an operand may. -/
def Power.tier : Power → Tier
  | lowest => .equality
  | equality => .comparison
  | comparison => .sum
  | sum => .product
  | product | unary => .unary
  | call => .primary

theorem Power.le_trans {p q s : Power} (h : p ≤ q) (h' : q ≤ s) : p ≤ s := Nat.le_trans h h'

theorem Power.not_lt {p q : Power} : ¬ p < q ↔ q ≤ p := Nat.not_lt

theorem Power.le_lowest_iff {p : Power} : p ≤ .lowest ↔ p = .lowest := by
  cases p <;> decide

/-- What is derived on a tier is derived on every looser one. -/
theorem Derives.loosen {d : Nat} {l m : Tier} {ts : List Token} {e : Expr}
    (h : Derives d (.expr m) ts e) (hl : l ≤ m) : Derives d (.expr l) ts e := by
  by_cases heq : l = m
  · exact heq ▸ h
  · have htighter : l.tighter ≤ m := (Tier.eq_or_tighter_le hl).resolve_left heq
    exact .tighter (h.loosen htighter)
termination_by m.rank - l.rank
decreasing_by
  revert heq htighter
  cases l <;> cases m <;> decide

/-! ## The powers of the language -/

theorem precedence_of_mem {k : Kind} {l : Tier} (h : k ∈ l.operators) :
    script.precedence k = l.power := by
  cases l <;> simp only [Tier.operators, List.mem_cons, List.not_mem_nil, or_false] at h <;>
    rcases h with rfl | rfl <;> rfl

theorem ne_else_of_mem {k : Kind} {l : Tier} (h : k ∈ l.operators) : k ≠ .elseWord := by
  rintro rfl
  cases l <;> simp [Tier.operators] at h

theorem goesOn_iff {k : Kind} : k.goesOn ↔ script.precedence k ≠ .lowest := by
  constructor
  · rintro (rfl | ⟨l, h⟩)
    · decide
    · rw [precedence_of_mem h]; cases l <;> decide
  · intro h
    cases k with
    | openParen => exact .inl rfl
    | equal | notEqual => exact .inr ⟨.equality, by decide⟩
    | less | greater => exact .inr ⟨.comparison, by decide⟩
    | plus | minus => exact .inr ⟨.sum, by decide⟩
    | star | slash => exact .inr ⟨.product, by decide⟩
    | _ => exact absurd rfl h

/-- Where no tokens are left, nothing goes on. -/
theorem not_goesOn_nil : ¬ (firstKind []).goesOn := by
  rw [goesOn_iff]
  exact not_not_intro rfl

theorem precedence_le_of_not_goesOn {k : Kind} (h : ¬ k.goesOn) (p : Power) :
    script.precedence k ≤ p := by
  rw [goesOn_iff, ne_eq, Decidable.not_not] at h
  rw [h]
  cases p <;> decide

/-- Whatever has a power has a rule as an operator, and ends no expression. -/
theorem operator_of_precedence {k : Kind} (h : script.precedence k ≠ .lowest) :
    k.isTerminator = false ∧
      ((script.operator k = some .binary ∧ ∃ l : Tier, k ∈ l.operators) ∨
        script.operator k = some .call ∧ k = .openParen) := by
  rcases goesOn_iff.2 h with rfl | ⟨l, hl⟩
  · exact ⟨rfl, .inr ⟨rfl, rfl⟩⟩
  · refine ⟨?_, .inl ⟨?_, l, hl⟩⟩ <;>
      (cases l <;> simp only [Tier.operators, List.mem_cons, List.not_mem_nil, or_false] at hl <;>
        rcases hl with rfl | rfl <;> rfl)

theorem binding_of_le {p : Power} {k : Kind} (h : script.precedence k ≤ p) :
    script.binding p k = none := by
  have hp : ¬ p < script.precedence k := Power.not_lt.2 h
  simp [Grammar.binding, hp]

theorem binding_of_mem {p : Power} {k : Kind} {l : Tier} (hk : k ∈ l.operators)
    (h : p < l.power) : script.binding p k = some (.binary, l.power) := by
  rw [← precedence_of_mem hk] at h ⊢
  have hne : script.precedence k ≠ .lowest := goesOn_iff.1 (.inr ⟨l, hk⟩)
  obtain ⟨hterm, ⟨hop, -⟩ | ⟨-, rfl⟩⟩ := operator_of_precedence hne
  · simp [Grammar.binding, hterm, h, hop]
  · cases l <;> simp [Tier.operators] at hk

theorem binding_openParen {p : Power} (h : p < .call) :
    script.binding p .openParen = some (.call, .call) := by
  revert h
  cases p <;> decide

/-- What reading above a power does at a token. -/
theorem binding_cases (p : Power) (k : Kind) :
    (script.binding p k = none ∧ script.precedence k ≤ p) ∨
      (∃ l : Tier, k ∈ l.operators ∧ p < l.power ∧
        script.binding p k = some (.binary, l.power)) ∨
      (k = .openParen ∧ p < .call ∧ script.binding p k = some (.call, .call)) := by
  by_cases hle : script.precedence k ≤ p
  · exact .inl ⟨binding_of_le hle, hle⟩
  · have hlt : p < script.precedence k := by rw [Power.lt_iff]; rw [Power.le_iff] at hle; omega
    have hne : script.precedence k ≠ .lowest := by
      intro h
      rw [h] at hle
      exact hle (by cases p <;> decide)
    obtain ⟨-, ⟨-, l, hl⟩ | ⟨-, rfl⟩⟩ := operator_of_precedence hne
    · have hpl : p < l.power := precedence_of_mem hl ▸ hlt
      exact .inr (.inl ⟨l, hl, hpl, binding_of_mem hl hpl⟩)
    · exact .inr (.inr ⟨rfl, hlt, binding_openParen hlt⟩)

/-- Reading above a power stops only at a token of no higher power. -/
theorem precedence_le_of_binding {p : Power} {k : Kind} (h : script.binding p k = none) :
    script.precedence k ≤ p := by
  rcases binding_cases p k with ⟨-, hle⟩ | ⟨l, -, -, hsome⟩ | ⟨-, -, hsome⟩
  · exact hle
  · rw [h] at hsome; cases hsome
  · rw [h] at hsome; cases hsome

/-! ## Powers and tiers -/

section

variable {p : Power} {l : Tier} {k : Kind}

theorem lt_power_of_tier_le (hk : k ∈ l.operators) (h : p.tier ≤ l) : p < l.power := by
  have hl := List.ne_nil_of_mem hk
  clear hk
  revert hl h
  cases l <;> cases p <;> decide

theorem lt_call_of_tier_le (h : p.tier ≤ .call) : p < .call := by
  revert h
  cases p <;> decide

/-- The second operand of an operator is read on the next tighter tier. -/
theorem tier_power (hk : k ∈ l.operators) : l.power.tier = l.tighter := by
  have hl := List.ne_nil_of_mem hk
  clear hk
  revert hl
  cases l <;> decide

theorem tier_le_of_lt_power (hk : k ∈ l.operators) (h : p < l.power) : p.tier ≤ l := by
  have hl := List.ne_nil_of_mem hk
  clear hk
  revert hl h
  cases l <;> cases p <;> decide

theorem tier_le_call_of_lt (h : p < .call) : p.tier ≤ .call := by
  revert h
  cases p <;> decide

theorem tier_le_unary (h : p ≤ .unary) : p.tier ≤ .unary := by
  revert h
  cases p <;> decide

theorem power_le_unary (hk : k ∈ l.operators) : l.power ≤ .unary := by
  have hl := List.ne_nil_of_mem hk
  clear hk
  revert hl
  cases l <;> decide

theorem tighter_le_call_of_mem (hk : k ∈ l.operators) : l ≤ .call ∧ l.tighter ≤ .call := by
  have hl := List.ne_nil_of_mem hk
  clear hk
  revert hl
  cases l <;> decide

/-- An operator that is no tighter than a tier is on that tier or a looser one. -/
theorem le_of_power_le {m : Tier} (hk : k ∈ l.operators) (h : l.power ≤ m.power) : l ≤ m := by
  have hl := List.ne_nil_of_mem hk
  clear hk
  revert hl h
  cases l <;> cases m <;> decide

theorem call_le_of_power_le {m : Tier} (h : Power.call ≤ m.power) : Tier.call ≤ m := by
  revert h
  cases m <;> decide

end

end Scriptlet
