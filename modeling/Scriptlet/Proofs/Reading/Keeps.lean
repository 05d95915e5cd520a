/-
  Diagnostics are only added, never taken back; and what is read without any
  (`Parse.Reads`).
-/
import Scriptlet.Proofs.Reading.Steps

namespace Scriptlet

/-- The diagnostics of the one reader come first among those of the other. -/
def Reader.Before (r r' : Reader) : Prop :=
  r.errors.toList <+: r'.errors.toList

theorem Reader.Before.refl (r : Reader) : r.Before r :=
  List.prefix_refl _

theorem Reader.Before.trans {r r' r'' : Reader} (h : r.Before r') (h' : r'.Before r'') :
    r.Before r'' :=
  List.IsPrefix.trans h h'

theorem Reader.Before.of_eq {r r' : Reader} (h : r'.errors = r.errors) : r.Before r' := by
  simp only [Reader.Before, h]
  exact List.prefix_refl _

theorem Reader.Before.report (r : Reader) (d : Diagnostic) : r.Before (r.report d) := by
  simp [Reader.Before]

/-- If nothing has been added in the end, nothing was added on the way. -/
theorem Reader.Before.eq_left {r r' r'' : Reader} (h : r.Before r') (h' : r'.Before r'')
    (he : r''.errors = r.errors) : r'.errors = r.errors := by
  rw [Reader.Before, he] at h'
  have hl := Nat.le_antisymm h.length_le h'.length_le
  exact Array.toList_inj.1 (h.eq_of_length hl).symm

/-- A walk that takes no diagnostic back. -/
class Walk.Keeps (w : Walk α) : Prop where
  before : ∀ r : Reader, r.Before (w.run r).2

/-- A parse that takes no diagnostic back. -/
class Parse.Keeps (p : Parse α) : Prop where
  before : ∀ r : Reader, r.Before (Parse.on p r).2

/-! ## Walks -/

namespace Walk

instance (a : α) : Keeps (pure a) := ⟨fun r => .refl r⟩

instance keeps_bind (w : Walk α) (f : α → Walk β) [hw : Keeps w] [hf : ∀ a, Keeps (f a)] :
    Keeps (w >>= f) where
  before r := (hw.before r).trans ((hf _).before _)

instance : Keeps current := ⟨fun r => .refl r⟩

instance : Keeps next := ⟨fun r => .refl r⟩

instance : Keeps advance := ⟨fun r => .of_eq r.errors_advance⟩

instance (record : Record) : Keeps (note record) := ⟨fun r => .of_eq (r.errors_note record)⟩

instance (d : Diagnostic) : Keeps (report d) := ⟨fun r => .report r d⟩

instance (starts : Kind → Bool) : Keeps (synchronize starts) :=
  ⟨fun r => .of_eq (r.synchronize_errors starts)⟩

instance (k : Kind) : Keeps (optional k) where
  before r := by
    rw [run_optional]
    split
    · exact .of_eq r.errors_advance
    · exact .refl r

instance keeps_untilKind (stop : Kind → Bool) (one : Walk (Option α)) [h : Keeps one] :
    Keeps (untilKind stop one) where
  before r := by
    show r.Before (rounds stop one r).2
    fun_induction rounds stop one r with
    | case1 => exact .refl _
    | case2 => exact .refl _
    | case3 r _ _ _ _ here later ih =>
      have hadvance : here.2.Before here.2.advance := .of_eq here.2.errors_advance
      exact ((h.before r).trans hadvance).trans ih

end Walk

/-! ## Parses -/

namespace Parse

instance (a : α) : Keeps (pure a) := ⟨fun r => .refl r⟩

instance (d : Diagnostic) : Keeps (throw d : Parse α) := ⟨fun r => .refl r⟩

instance (w : Walk α) [h : Walk.Keeps w] : Keeps (liftM w) := ⟨h.before⟩

instance (p : Parse α) (f : α → Parse β) [hp : Keeps p] [hf : ∀ a, Keeps (f a)] :
    Keeps (p >>= f) where
  before r := by
    have hfirst := hp.before r
    rw [on_bind]
    generalize p.on r = out at hfirst ⊢
    rcases out with ⟨d | a, r'⟩
    · exact hfirst
    · exact hfirst.trans ((hf a).before r')

instance (c : Prop) [Decidable c] (p q : Parse α) [Keeps p] [Keeps q] :
    Keeps (if c then p else q) := by
  split <;> infer_instance

instance (k : Kind) : Keeps (expect k) := by
  unfold expect; infer_instance

instance (rule : Kind → Option ρ) (body : ρ → α → Parse α) (a : α)
    [h : ∀ x b, Keeps (body x b)] : Keeps (whileNext rule body a) where
  before r := by
    show r.Before (rounds rule body a r).2
    fun_induction rounds rule body a r with
    | case1 => exact .refl _
    | case2 a r _ _ _ _ x _ out _ _ ih =>
      have hadvance : r.Before r.advance := .of_eq r.errors_advance
      exact (hadvance.trans ((h x a).before _)).trans ih
    | case3 a r _ _ _ _ x _ out _ _ =>
      have hadvance : r.Before r.advance := .of_eq r.errors_advance
      exact hadvance.trans ((h x a).before _)
    | case4 => exact .refl _

instance (item : Parse α) [Keeps item] : Keeps (commaList item) := by
  unfold commaList; infer_instance

instance (item : Parse α) (acc : List α) [Keeps item] : Keeps (more item acc) := by
  unfold more; infer_instance

instance (item : Parse α) [Keeps item] : Keeps (parenthesised item) := by
  unfold parenthesised; infer_instance

end Parse

/-! ## Grammars -/

namespace Grammar

variable (g : Grammar)

instance (p : Parse α) [h : Parse.Keeps p] : Walk.Keeps (g.recover p) where
  before r := by
    have hp := h.before r
    rw [run_recover]
    generalize p.on r = out at hp ⊢
    rcases out with ⟨d | a, r'⟩
    · exact (hp.trans (.report r' d)).trans (.of_eq (Reader.synchronize_errors _ _))
    · exact hp

section

variable (sub : Power → Parse Expr) [∀ p, Parse.Keeps (sub p)]

instance : Parse.Keeps (closedExpr sub) := by
  unfold closedExpr; infer_instance

instance : Parse.Keeps (item sub) := by
  unfold item; infer_instance

instance : Walk.Keeps Walk.identifier := by
  unfold Walk.identifier; infer_instance

instance : Parse.Keeps Parse.integer where
  before r := by
    simp only [Parse.integer, Parse.on_bind, Parse.on_lift]
    split <;> exact .refl r

instance keeps_read (left : Expr) (p : Power) (rule : OperatorRule) :
    Parse.Keeps (rule.read sub left p) := by
  cases rule <;> (unfold OperatorRule.read; infer_instance)

instance keeps_readStatement (rule : StatementRule) : Parse.Keeps (g.readStatement sub rule) := by
  cases rule <;> (unfold readStatement; infer_instance)

instance : Parse.Keeps (g.stmt sub) := by
  unfold stmt; infer_instance

instance keeps_stmt? : Walk.Keeps (g.stmt? sub) := by
  unfold stmt?; infer_instance

instance keeps_block : Parse.Keeps (g.block sub) := by
  unfold block; infer_instance

set_option synthInstance.maxSize 2048 in
instance keeps_readOperand (rule : OperandRule) : Parse.Keeps (g.readOperand sub rule) := by
  cases rule <;> (unfold readOperand; dsimp only; infer_instance)

instance keeps_nested (p : Power) : Parse.Keeps (g.nested sub p) where
  before r := by
    simp only [nested, Parse.on_bind, Parse.on_lift]
    split
    · exact .refl r
    · exact Parse.Keeps.before r

end

instance keeps_expr (n : Nat) (p : Power) : Parse.Keeps (g.expr n p) := by
  induction n generalizing p with
  | zero => unfold expr; infer_instance
  | succ n ih => unfold expr; infer_instance

instance (s? : Option Stmt) : Walk.Keeps (keep s?) := by
  cases s? <;> (unfold keep; infer_instance)

instance keeps_program (sub : Power → Parse Expr) [∀ p, Parse.Keeps (sub p)] :
    Walk.Keeps (g.program sub) := by
  rw [program_eq_untilKind]
  infer_instance

end Grammar

/-! ## Reading without a diagnostic -/

namespace Parse

/-- `p` reads `a` from `r` to `r'`, and reports nothing. -/
def Reads (p : Parse α) (r : Reader) (a : α) (r' : Reader) : Prop :=
  p.on r = (.ok a, r') ∧ r'.errors = r.errors

theorem reads_pure {a b : α} {r r' : Reader} :
    (pure a : Parse α).Reads r b r' ↔ b = a ∧ r' = r := by
  simp only [Reads, on_pure, Prod.mk.injEq, Except.ok.injEq]
  constructor
  · rintro ⟨⟨rfl, rfl⟩, -⟩; exact ⟨rfl, rfl⟩
  · rintro ⟨rfl, rfl⟩; exact ⟨⟨rfl, rfl⟩, rfl⟩

theorem reads_bind {p : Parse α} {f : α → Parse β} [hp : Keeps p] [hf : ∀ a, Keeps (f a)]
    {r r'' : Reader} {b : β} : Reads (p >>= f) r b r'' ↔
      ∃ a r', p.Reads r a r' ∧ (f a).Reads r' b r'' := by
  constructor
  · rintro ⟨hon, he⟩
    have hfirst := hp.before r
    rw [on_bind] at hon
    rcases hpr : p.on r with ⟨d | a, r'⟩
    · rw [hpr] at hon; cases hon
    · rw [hpr] at hon hfirst
      change (f a).on r' = _ at hon
      have hthen := (hf a).before r'
      rw [hon] at hthen
      have he' := hfirst.eq_left hthen he
      exact ⟨a, r', ⟨hpr, he'⟩, hon, he.trans he'.symm⟩
  · rintro ⟨a, r', ⟨hp, he⟩, hf, he'⟩
    refine ⟨?_, he'.trans he⟩
    rw [on_bind, hp]
    exact hf

theorem reads_lift {w : Walk α} {r r' : Reader} {a : α} :
    Reads (liftM w) r a r' ↔ w.run r = (a, r') ∧ r'.errors = r.errors := by
  simp only [Reads, on_lift, Except.ok.injEq, Prod.ext_iff]

/-- A walk that reports nothing may be taken first. -/
theorem reads_lift_bind {w : Walk α} {f : α → Parse β} {r r' : Reader} {b : β}
    (h : (w.run r).2.errors = r.errors) :
    (liftM w >>= f).Reads r b r' ↔ (f (w.run r).1).Reads (w.run r).2 b r' := by
  simp only [Reads, on_bind, on_lift, h]

section

variable {β : Type} {r r' : Reader} {b : β}

theorem reads_current_bind {f : Token → Parse β} :
    (liftM Walk.current >>= f).Reads r b r' ↔ (f r.current).Reads r b r' :=
  reads_lift_bind rfl

theorem reads_next_bind {f : Token → Parse β} :
    (liftM Walk.next >>= f).Reads r b r' ↔ (f r.next).Reads r b r' :=
  reads_lift_bind rfl

theorem reads_advance_bind {f : Unit → Parse β} :
    (liftM Walk.advance >>= f).Reads r b r' ↔ (f ()).Reads r.advance b r' :=
  reads_lift_bind r.errors_advance

theorem reads_identifier_bind {f : Identifier → Parse β} :
    (liftM Walk.identifier >>= f).Reads r b r' ↔
      (f ⟨r.current, r.current.literal⟩).Reads r b r' :=
  reads_lift_bind rfl

theorem reads_optional_bind {k : Kind} {f : Unit → Parse β} :
    (liftM (Walk.optional k) >>= f).Reads r b r' ↔
      (f ()).Reads (if r.next.kind = k then r.advance else r) b r' := by
  rw [reads_lift_bind] <;> rw [Walk.run_optional]
  split <;> rfl

theorem reads_expect_bind {k : Kind} {f : Unit → Parse β} :
    (expect k >>= f).Reads r b r' ↔ r.next.kind = k ∧ (f ()).Reads r.advance b r' := by
  by_cases h : r.next.kind = k
  · simp [Reads, on_bind, on_expect, h]
  · simp [Reads, on_bind, on_expect, h]

end

theorem reads_throw {d : Diagnostic} {r r' : Reader} {a : α} :
    ¬ (throw d : Parse α).Reads r a r' := by
  rintro ⟨h, -⟩; cases h

theorem reads_throw_bind {d : Diagnostic} {f : α → Parse β} {r r' : Reader} {b : β} :
    ¬ (throw d >>= f).Reads r b r' := by
  rintro ⟨h, -⟩
  rw [on_bind] at h
  cases h

theorem reads_expect {k : Kind} {r r' : Reader} {u : Unit} :
    (expect k).Reads r u r' ↔ r.next.kind = k ∧ r' = r.advance := by
  simp only [Reads, on_expect]
  constructor
  · rintro ⟨h, -⟩
    split at h
    · next hk => cases h; exact ⟨hk, rfl⟩
    · cases h
  · rintro ⟨hk, rfl⟩
    rw [if_pos hk]
    exact ⟨rfl, r.errors_advance⟩

/-- A reading that recovers is clean just if it had nothing to recover from. -/
theorem reads_recover {g : Grammar} {p : Parse α} [hp : Keeps p] {r r' : Reader} {a? : Option α} :
    (liftM (g.recover p) : Parse (Option α)).Reads r a? r' ↔ ∃ a, a? = some a ∧ p.Reads r a r' := by
  rw [reads_lift, Grammar.run_recover]
  simp only [Reads]
  have hbefore := hp.before r
  generalize p.on r = out at hbefore
  rcases out with ⟨d | a, r₁⟩
  · constructor
    · rintro ⟨⟨⟩, herr⟩
      have hreport : (r₁.report d).errors = r₁.errors.push d := r₁.errors_report d
      rw [Reader.synchronize_errors, hreport] at herr
      have hlen := hbefore.length_le
      have hsize := congrArg Array.size herr
      simp at hlen hsize
      omega
    · rintro ⟨a, -, ⟨⟩, -⟩
  · constructor
    · rintro ⟨⟨⟩, herr⟩; exact ⟨a, rfl, rfl, herr⟩
    · rintro ⟨_, rfl, ⟨⟩, herr⟩; exact ⟨rfl, herr⟩

/-- A list with commas, item by item. -/
theorem reads_more {item : Parse α} [hitem : Keeps item] {acc as : List α} {r r' : Reader} :
    (more item acc).Reads r as r' ↔ ∃ a r₁, item.Reads r a r₁ ∧
      ((r₁.next.kind ≠ .comma ∧ as = a :: acc ∧ r' = r₁) ∨
        (r₁.next.kind = .comma ∧ (more item (a :: acc)).Reads r₁.advance as r')) := by
  have hcomma : ∀ {a : α} {r₁ : Reader}, item.Reads r a r₁ → r₁.next.kind = .comma →
      (more item acc).on r = (more item (a :: acc)).on r₁.advance := by
    intro a r₁ hread hk
    rcases hahead : r₁.ahead with _ | ⟨c, _ | ⟨t, rest⟩⟩
    · rw [Reader.next, hahead] at hk; cases hk
    · rw [Reader.next, hahead] at hk; cases hk
    · rw [Reader.next_of_ahead hahead] at hk
      exact on_more_of_comma hread.1 hahead hk
  constructor
  · intro h
    obtain ⟨a, r₁, hread, -⟩ := reads_bind.1 h
    refine ⟨a, r₁, hread, ?_⟩
    by_cases hk : r₁.next.kind = .comma
    · exact .inr ⟨hk, (hcomma hread hk).symm.trans h.1, h.2.trans hread.2.symm⟩
    · obtain ⟨⟨⟩, ⟨⟩⟩ := Prod.mk.inj ((on_more_of_last hread.1 hk).symm.trans h.1)
      exact .inl ⟨hk, rfl, rfl⟩
  · rintro ⟨a, r₁, hread, ⟨hk, rfl, rfl⟩ | ⟨hk, hon, herr⟩⟩
    · exact ⟨on_more_of_last hread.1 hk, hread.2⟩
    · exact ⟨(hcomma hread hk).trans hon, herr.trans hread.2⟩

theorem reads_parenthesised {item : Parse α} [hitem : Keeps item] {as : List α} {r r' : Reader} :
    (parenthesised item).Reads r as r' ↔
      (r.next.kind = .closeParen ∧ as = [] ∧ r' = r.advance) ∨
        (r.next.kind ≠ .closeParen ∧ ∃ bs r₁, (more item []).Reads r bs r₁ ∧
          r₁.next.kind = .closeParen ∧ as = bs.reverse ∧ r' = r₁.advance) := by
  rw [parenthesised, reads_next_bind]
  split
  · next h =>
    rw [reads_advance_bind, reads_pure]
    simp [h]
  · next h =>
    rw [reads_bind, commaList_eq]
    simp only [reads_bind, reads_pure, h, false_and, false_or, ne_eq,
      not_false_eq_true, true_and]
    constructor
    · rintro ⟨_, _, ⟨bs, r₁, hmore, rfl, rfl⟩, _, _, hexpect, rfl, rfl⟩
      obtain ⟨hk, rfl⟩ := reads_expect.1 hexpect
      exact ⟨bs, _, hmore, hk, rfl, rfl⟩
    · rintro ⟨bs, r₁, hmore, hk, rfl, rfl⟩
      exact ⟨_, _, ⟨bs, r₁, hmore, rfl, rfl⟩, (), _, reads_expect.2 ⟨hk, rfl⟩, rfl, rfl⟩

/-- What every clean round preserves holds in the end, and then the next token has no rule. -/
theorem Reads.whileNext {rule : Kind → Option ρ} {body : ρ → α → Parse α}
    [hbody : ∀ x b, Keeps (body x b)] (Inv : α → Reader → Prop)
    (hstep : ∀ b c x b' c', Inv b c → rule c.next.kind = some x → c.advance.ahead ≠ [] →
      (body x b).Reads c.advance b' c' → Inv b' c') {a a' : α} {r r' : Reader}
    (h : (Parse.whileNext rule body a).Reads r a' r') (hr : Inv a r) :
    Inv a' r' ∧ (r'.advance.ahead ≠ [] → rule r'.next.kind = none) := by
  obtain ⟨hon, herr⟩ := h
  change rounds rule body a r = _ at hon
  fun_induction rounds rule body a r with
  | case1 a r c t rest hahead hrule =>
    cases hon
    exact ⟨hr, fun _ => by rw [← hrule]; simp [Reader.next, hahead]⟩
  | case2 a r c t rest hahead x hrule out b hout ih =>
    have hbefore := (hbody x a).before r.advance
    have hlater := (inferInstance : Keeps (Parse.whileNext rule body b)).before out.2
    rw [show (Parse.whileNext rule body b).on out.2 = _ from hon] at hlater
    have hclean := hbefore.eq_left hlater herr
    have hnext : r.next = t := by simp [Reader.next, hahead]
    refine ih (hstep a r x b out.2 hr ?_ ?_ ⟨?_, hclean⟩) (herr.trans hclean.symm) hon
    · rw [hnext, hrule]
    · simp [hahead]
    · rw [← hout]
  | case3 => cases hon
  | case4 a r hahead =>
    cases hon
    refine ⟨hr, fun hne => absurd hne ?_⟩
    rcases hlist : r'.ahead with _ | ⟨c, _ | ⟨t, rest⟩⟩
    · simp [hlist]
    · simp [hlist]
    · exact absurd hlist (hahead c t rest)

end Parse

end Scriptlet
