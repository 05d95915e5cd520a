/-
  What holds of a reader, whatever is read.

  The fields of a `Grammar.Invariant` are all that can happen to a reader; the
  classes `Walk.Maintains` and `Parse.Maintains` are resolved along the
  structure of a reading.
-/
import Scriptlet.Proofs.Reading.Steps

namespace Scriptlet

/-- A property of readers that reading by the grammar keeps. -/
structure Grammar.Invariant (g : Grammar) where
  /-- The property. -/
  Holds : Reader → Prop
  /-- What is known of a diagnostic that comes up at a reader. -/
  Tells : Diagnostic → Reader → Prop
  advance : ∀ {r}, Holds r → Holds r.advance
  report : ∀ {r d}, Holds r → Tells d r → Holds (r.report d)
  /-- A token of the kind `k` is due, and another one comes next. -/
  unexpected : ∀ {r k}, Holds r → r.next.kind ≠ k →
    Tells ⟨.unexpected k r.next.kind, r.next.position⟩ r
  /-- A block is open at the end of the text. -/
  unclosed : ∀ {r}, Holds r → r.current.kind = .eof →
    Tells ⟨.unexpected .closeBrace .eof, r.current.position⟩ r
  noOperand : ∀ {r}, Holds r → g.operand r.current.kind = none →
    Tells ⟨.noOperand r.current.kind, r.current.position⟩ r
  unreadable : ∀ {r e}, Holds r → g.operand r.current.kind = some .integer →
    Numeral.integer r.current.literal.toList = .error e →
    Tells ⟨.unreadableInteger r.current.literal, r.current.position⟩ r
  tooDeep : ∀ {r}, Holds r → Tells ⟨.tooDeep Grammar.nestingLimit, r.current.position⟩ r

variable {g : Grammar} {I : g.Invariant}

/-- A property that is kept where a statement is put on record, too. -/
class Grammar.Invariant.Recording (I : g.Invariant) : Prop where
  kept : ∀ {r} (s : Stmt), I.Holds r → I.Holds (r.note (.kept s))

/-- The invariant holds where a reading ends, and tells of the diagnostic if it fails. -/
def Grammar.Invariant.Of (I : g.Invariant) : Except Diagnostic α × Reader → Prop
  | (.ok _, r) => I.Holds r
  | (.error d, r) => I.Holds r ∧ I.Tells d r

theorem Grammar.Invariant.Of.holds {out : Except Diagnostic α × Reader} (h : I.Of out) :
    I.Holds out.2 := by
  rcases out with ⟨d | a, r⟩
  · exact h.1
  · exact h

theorem Grammar.Invariant.synchronize {r : Reader} (starts : Kind → Bool) (h : I.Holds r) :
    I.Holds (r.synchronize starts) := by
  fun_induction Reader.synchronize starts r with
  | case1 => exact h
  | case2 => exact h
  | case3 _ _ _ _ _ ih => exact ih (I.advance h)

/-- A walk after which the invariant holds if it held before. -/
class Walk.Maintains (I : g.Invariant) (w : Walk α) : Prop where
  holds : ∀ {r}, I.Holds r → I.Holds (w.run r).2

/-- A parse after which the invariant holds if it held before. -/
class Parse.Maintains (I : g.Invariant) (p : Parse α) : Prop where
  outcome : ∀ {r}, I.Holds r → I.Of (p.on r)

/-! ## Walks -/

namespace Walk

instance (a : α) : Maintains I (pure a) := ⟨fun h => h⟩

instance (w : Walk α) (f : α → Walk β) [hw : Maintains I w] [hf : ∀ a, Maintains I (f a)] :
    Maintains I (w >>= f) :=
  ⟨fun h => (hf _).holds (hw.holds h)⟩

instance : Maintains I current := ⟨fun h => h⟩

instance : Maintains I next := ⟨fun h => h⟩

instance : Maintains I identifier := ⟨fun h => h⟩

instance : Maintains I advance := ⟨I.advance⟩

instance (s : Stmt) [hI : I.Recording] : Maintains I (note (.kept s)) := ⟨hI.kept s⟩

instance (k : Kind) : Maintains I (optional k) where
  holds {r} h := by
    rw [run_optional]
    split
    · exact I.advance h
    · exact h

instance maintains_untilKind (stop : Kind → Bool) (one : Walk (Option α))
    [hone : Maintains I one] : Maintains I (untilKind stop one) where
  holds {r} h := by
    show I.Holds (rounds stop one r).2
    fun_induction rounds stop one r with
    | case1 => exact h
    | case2 => exact h
    | case3 r _ _ _ _ here later ih => exact ih (I.advance (hone.holds h))

end Walk

/-! ## Parses -/

namespace Parse

instance (a : α) : Maintains I (pure a : Parse α) := ⟨fun h => h⟩

instance (w : Walk α) [hw : Walk.Maintains I w] : Maintains I (liftM w : Parse α) := ⟨hw.holds⟩

/-- What comes after a parse starts where the invariant holds. -/
theorem of_bind {p : Parse α} {f : α → Parse β} {r : Reader} (hp : I.Of (p.on r))
    (hf : ∀ a r', p.on r = (.ok a, r') → I.Holds r' → I.Of ((f a).on r')) :
    I.Of ((p >>= f).on r) := by
  rw [on_bind]
  generalize p.on r = out at hp hf ⊢
  rcases out with ⟨d | a, r'⟩
  · exact hp
  · exact hf a r' rfl hp

instance (p : Parse α) (f : α → Parse β) [hp : Maintains I p] [hf : ∀ a, Maintains I (f a)] :
    Maintains I (p >>= f) :=
  ⟨fun h => of_bind (hp.outcome h) fun a _ _ h' => (hf a).outcome h'⟩

instance (c : Prop) [Decidable c] (p q : Parse α) [Maintains I p] [Maintains I q] :
    Maintains I (if c then p else q) := by
  split <;> infer_instance

instance (k : Kind) : Maintains I (expect k) where
  outcome {r} h := by
    rw [on_expect]
    split
    · exact I.advance h
    · next hk => exact ⟨h, I.unexpected h hk⟩

instance (rule : Kind → Option ρ) (body : ρ → α → Parse α) (a : α)
    [hbody : ∀ x b, Maintains I (body x b)] : Maintains I (whileNext rule body a) where
  outcome {r} h := by
    show I.Of (rounds rule body a r)
    fun_induction rounds rule body a r with
    | case1 => exact h
    | case2 a r _ _ _ _ x _ out b hout ih =>
      exact ih ((hbody x a).outcome (I.advance h)).holds
    | case3 a r _ _ _ _ x _ out d hout =>
      have hof : I.Of out := (hbody x a).outcome (I.advance h)
      rwa [show out = (.error d, out.2) from Prod.ext hout rfl] at hof
    | case4 => exact h

instance (item : Parse α) [Maintains I item] : Maintains I (commaList item) := by
  unfold commaList; infer_instance

instance (item : Parse α) [Maintains I item] : Maintains I (parenthesised item) := by
  unfold parenthesised; infer_instance

end Parse

/-! ## Grammars -/

namespace Grammar

instance (p : Parse α) [hp : Parse.Maintains I p] : Walk.Maintains I (g.recover p) where
  holds {r} h := by
    have hof := hp.outcome h
    rw [run_recover]
    generalize p.on r = out at hof ⊢
    rcases out with ⟨d | a, r'⟩
    · exact I.synchronize g.startsStatement (I.report hof.1 hof.2)
    · exact hof

section

variable (sub : Power → Parse Expr) [hsub : ∀ p, Parse.Maintains I (sub p)]

instance : Parse.Maintains I (closedExpr sub) := by
  unfold closedExpr; infer_instance

instance maintains_read (left : Expr) (p : Power) (rule : OperatorRule) :
    Parse.Maintains I (rule.read sub left p) := by
  cases rule <;> (unfold OperatorRule.read; infer_instance)

instance maintains_readStatement (rule : StatementRule) :
    Parse.Maintains I (g.readStatement sub rule) := by
  cases rule <;> (unfold readStatement; infer_instance)

instance : Parse.Maintains I (g.stmt sub) := by
  unfold stmt; infer_instance

instance maintains_stmt? : Walk.Maintains I (g.stmt? sub) := by
  unfold stmt?; infer_instance

instance maintains_block : Parse.Maintains I (g.block sub) where
  outcome {r} h := by
    have hloop := (Walk.maintains_untilKind (I := I) (· = .closeBrace) (g.stmt? sub)).holds
      (I.advance h)
    simp only [block, Parse.on_bind, Parse.on_lift]
    split
    · next hk => exact ⟨hloop, I.unclosed hloop hk⟩
    · exact hloop

set_option synthInstance.maxSize 2048 in
/-- Any operand rule maintains the invariant at any token, but that of integers: what it tells
    depends on the token. -/
theorem maintains_readOperand {rule : OperandRule} (h : rule ≠ .integer) :
    Parse.Maintains I (g.readOperand sub rule) := by
  cases rule with
  | integer => exact absurd rfl h
  | _ => unfold readOperand; dsimp only; infer_instance

/-- Any operand rule maintains the invariant at a token that it is for. -/
theorem of_readOperand {rule : OperandRule} {r : Reader} (h : I.Holds r)
    (hrule : g.operand r.current.kind = some rule) : I.Of ((g.readOperand sub rule).on r) := by
  by_cases hinteger : rule = .integer
  · subst hinteger
    simp only [readOperand, Parse.integer, Parse.on_bind, Parse.on_lift]
    split
    · exact h
    · next e he => exact ⟨h, I.unreadable h hrule he⟩
  · exact (maintains_readOperand sub hinteger).outcome h

instance maintains_nested (p : Power) : Parse.Maintains I (g.nested sub p) where
  outcome {r} h := by
    simp only [nested, Parse.on_bind, Parse.on_lift]
    split
    · next hnone => exact ⟨h, I.noOperand h hnone⟩
    · next rule hrule =>
      refine Parse.of_bind (of_readOperand sub h hrule) fun e r' _ h' => ?_
      exact Parse.Maintains.outcome h'

end

instance maintains_expr (n : Nat) (p : Power) : Parse.Maintains I (g.expr n p) := by
  induction n generalizing p with
  | zero => exact ⟨fun h => ⟨h, I.tooDeep h⟩⟩
  | succ n ih => unfold expr; infer_instance

instance (s? : Option Stmt) [I.Recording] : Walk.Maintains I (keep s?) := by
  cases s? <;> (unfold keep; infer_instance)

instance maintains_program (sub : Power → Parse Expr) [∀ p, Parse.Maintains I (sub p)]
    [I.Recording] : Walk.Maintains I (g.program sub) := by
  rw [program_eq_untilKind]
  infer_instance

end Grammar

end Scriptlet
