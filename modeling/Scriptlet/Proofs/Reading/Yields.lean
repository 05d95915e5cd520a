/-
  What a reading that succeeds has read, whatever it has reported.
-/
import Scriptlet.Proofs.Reading.Steps

namespace Scriptlet

namespace Parse

/-- `p` reads `a` from `r` to `r'`. -/
def Yields (p : Parse α) (r : Reader) (a : α) (r' : Reader) : Prop :=
  p.on r = (.ok a, r')

section

variable {β : Type} {a : α} {b : β} {r r' : Reader} {k : Kind}

theorem Yields.suffix {p : Parse α} (h : p.Yields r a r') : r'.ahead <:+ r.ahead := by
  have hsuffix := p.on_suffix r
  rwa [show p.on r = (.ok a, r') from h] at hsuffix

theorem yields_pure {a' : α} : (pure a : Parse α).Yields r a' r' ↔ a' = a ∧ r' = r := by
  simp only [Yields, on_pure, Prod.mk.injEq, Except.ok.injEq, eq_comm]

theorem yields_bind {p : Parse α} {f : α → Parse β} :
    (p >>= f).Yields r b r' ↔ ∃ a r₁, p.Yields r a r₁ ∧ (f a).Yields r₁ b r' := by
  simp only [Yields, on_bind]
  constructor
  · intro h
    rcases hp : p.on r with ⟨d | a, r₁⟩
    · rw [hp] at h; cases h
    · rw [hp] at h; exact ⟨a, r₁, rfl, h⟩
  · rintro ⟨a, r₁, hp, hf⟩
    rw [hp]
    exact hf

theorem yields_bind_pure {p : Parse α} {f : α → β} :
    (p >>= fun a => pure (f a)).Yields r b r' ↔ ∃ a, p.Yields r a r' ∧ b = f a := by
  rw [yields_bind]
  constructor
  · rintro ⟨a, r₁, hp, hpure⟩
    obtain ⟨rfl, rfl⟩ := yields_pure.1 hpure
    exact ⟨a, hp, rfl⟩
  · rintro ⟨a, hp, rfl⟩
    exact ⟨a, r', hp, yields_pure.2 ⟨rfl, rfl⟩⟩

theorem yields_lift_bind {w : Walk α} {f : α → Parse β} :
    (liftM w >>= f).Yields r b r' ↔ (f (w.run r).1).Yields (w.run r).2 b r' := by
  simp only [Yields, on_bind, on_lift]

theorem yields_current_bind {f : Token → Parse β} :
    (liftM Walk.current >>= f).Yields r b r' ↔ (f r.current).Yields r b r' :=
  yields_lift_bind

theorem yields_next_bind {f : Token → Parse β} :
    (liftM Walk.next >>= f).Yields r b r' ↔ (f r.next).Yields r b r' :=
  yields_lift_bind

theorem yields_advance_bind {f : Unit → Parse β} :
    (liftM Walk.advance >>= f).Yields r b r' ↔ (f ()).Yields r.advance b r' :=
  yields_lift_bind

theorem yields_identifier_bind {f : Identifier → Parse β} :
    (liftM Walk.identifier >>= f).Yields r b r' ↔
      (f ⟨r.current, r.current.literal⟩).Yields r b r' :=
  yields_lift_bind

theorem yields_expect_bind {f : Unit → Parse β} :
    (expect k >>= f).Yields r b r' ↔ r.next.kind = k ∧ (f ()).Yields r.advance b r' := by
  by_cases h : r.next.kind = k
  · simp [Yields, on_bind, on_expect, h]
  · simp [Yields, on_bind, on_expect, h]

theorem not_yields_throw {d : Diagnostic} : ¬ (throw d : Parse α).Yields r a r' := by
  intro h
  cases h

end

section

variable {a a' : α} {r r' : Reader}

/-- What every round that succeeds preserves holds in the end. -/
theorem Yields.whileNext {rule : Kind → Option ρ} {body : ρ → α → Parse α}
    (Inv : α → Reader → Prop)
    (hstep : ∀ {b c x b' c'}, Inv b c → rule c.next.kind = some x →
      (body x b).Yields c.advance b' c' → Inv b' c')
    (h : (Parse.whileNext rule body a).Yields r a' r') (hr : Inv a r) : Inv a' r' := by
  change rounds rule body a r = _ at h
  fun_induction rounds rule body a r with
  | case1 => cases h; exact hr
  | case2 a r c t rest hahead x hrule out b hout ih =>
    have hnext : r.next = t := Reader.next_of_ahead hahead
    exact ih (hstep hr (by rwa [hnext]) (Prod.ext hout rfl)) h
  | case3 => cases h
  | case4 => cases h; exact hr

/-- What the first item of a list establishes, and every further one preserves, holds of the list.
    The items come latest first. -/
theorem Yields.parenthesised {item : Parse α} {as : List α} (Inv : List α → Reader → Prop)
    (hfirst : ∀ {a r₁}, item.Yields r a r₁ → Inv [a] r₁)
    (hnext : ∀ {as r₁ a r₂}, Inv as r₁ → r₁.next.kind = .comma →
      item.Yields r₁.advance a r₂ → Inv (a :: as) r₂)
    (h : (parenthesised item).Yields r as r') :
    (r.next.kind = .closeParen ∧ as = [] ∧ r' = r.advance) ∨
      ∃ r₁, Inv as.reverse r₁ ∧ r₁.next.kind = .closeParen ∧ r' = r₁.advance := by
  rw [Parse.parenthesised, yields_next_bind] at h
  split at h
  · next hk =>
    rw [yields_advance_bind, yields_pure] at h
    exact .inl ⟨hk, h⟩
  · refine .inr ?_
    obtain ⟨_, r₁, hlist, hclose⟩ := yields_bind.1 h
    rw [yields_expect_bind, yields_pure] at hclose
    obtain ⟨hk, rfl, rfl⟩ := hclose
    simp only [commaList, yields_bind, yields_pure] at hlist
    obtain ⟨a, r₂, hitem, bs, r₃, hloop, rfl, rfl⟩ := hlist
    refine ⟨r₁, ?_, hk, rfl⟩
    rw [List.reverse_reverse]
    refine hloop.whileNext Inv (fun {bs c x bs' c'} hinv hrule hbody => ?_) (hfirst hitem)
    have hcomma : c.next.kind = .comma := by
      by_contra hne
      rw [comma?, if_neg hne] at hrule
      cases hrule
    obtain ⟨a, _, hitem, hcons⟩ := yields_bind.1 hbody
    obtain ⟨rfl, rfl⟩ := yields_pure.1 hcons
    exact hnext hinv hcomma hitem

end

end Parse

/-! ## The rules of a grammar -/

section

variable {g : Grammar} {sub : Power → Parse Expr} {r r' : Reader} {e left : Expr} {s : Stmt}
  {b : Block} {p : Power}

namespace OperatorRule

theorem yields_binary : (binary.read sub left p).Yields r e r' ↔
    ∃ right, (sub p).Yields r.advance right r' ∧
      e = .binary r.current left r.current.literal right := by
  rw [read, Parse.yields_current_bind, Parse.yields_advance_bind, Parse.yields_bind_pure]

theorem yields_call : (call.read sub left p).Yields r e r' ↔
    ∃ as, (Parse.parenthesised (Grammar.item sub)).Yields r as r' ∧
      e = .call r.current left as := by
  rw [read, Parse.yields_current_bind, Parse.yields_bind_pure]
  rfl

end OperatorRule

namespace Grammar

theorem yields_closedExpr : (closedExpr sub).Yields r e r' ↔
    ∃ r₁, (sub .lowest).Yields r e r₁ ∧
      r' = if r₁.next.kind = .semicolon then r₁.advance else r₁ := by
  rw [Parse.Yields, on_closedExpr]
  constructor
  · intro h
    rcases hsub : (sub .lowest).on r with ⟨d | e', r₁⟩
    · rw [hsub] at h; cases h
    · rw [hsub] at h; cases h; exact ⟨r₁, hsub, rfl⟩
  · rintro ⟨r₁, hsub, rfl⟩
    rw [show (sub .lowest).on r = (.ok e, r₁) from hsub]

theorem yields_var : (g.readStatement sub .var).Yields r s r' ↔
    r.next.kind = .identifier ∧ r.advance.next.kind = .assign ∧
      s = .var r.current ⟨r.next, r.next.literal⟩
        ((g.recover (closedExpr sub)).run r.advance.advance.advance).1 ∧
      r' = ((g.recover (closedExpr sub)).run r.advance.advance.advance).2 := by
  rw [readStatement, Parse.yields_current_bind, Parse.yields_expect_bind,
    Parse.yields_identifier_bind, Parse.yields_expect_bind, Parse.yields_advance_bind,
    Parse.yields_lift_bind, Parse.yields_pure]
  rfl

theorem yields_ret : (g.readStatement sub .ret).Yields r s r' ↔
    s = .ret r.current ((g.recover (closedExpr sub)).run r.advance).1 ∧
      r' = ((g.recover (closedExpr sub)).run r.advance).2 := by
  rw [readStatement, Parse.yields_current_bind, Parse.yields_advance_bind,
    Parse.yields_lift_bind, Parse.yields_pure]

theorem yields_expr : (g.readStatement sub .expr).Yields r s r' ↔
    ∃ e, (closedExpr sub).Yields r e r' ∧ s = .expr r.current e := by
  rw [readStatement, Parse.yields_current_bind, Parse.yields_bind_pure]

theorem yields_block : (g.block sub).Yields r b r' ↔
    r'.current.kind ≠ .eof ∧
      b = .mk r.current
        ((Walk.untilKind (· = .closeBrace) (g.stmt? sub)).run r.advance).1 ∧
      r' = ((Walk.untilKind (· = .closeBrace) (g.stmt? sub)).run r.advance).2 := by
  rw [Parse.Yields, on_block_eq]
  generalize (Walk.untilKind (· = .closeBrace) (g.stmt? sub)).run r.advance = out
  dsimp only
  split
  · next hk =>
    constructor
    · intro h
      cases h
    · rintro ⟨hne, -, rfl⟩
      exact absurd hk hne
  · next hk =>
    constructor
    · intro h
      cases h
      exact ⟨hk, rfl, rfl⟩
    · rintro ⟨-, rfl, rfl⟩
      rfl

theorem yields_unary : (g.readOperand sub .unary).Yields r e r' ↔
    ∃ e₁, (sub .unary).Yields r.advance e₁ r' ∧ e = .unary r.current r.current.literal e₁ := by
  rw [readOperand, Parse.yields_current_bind, Parse.yields_advance_bind, Parse.yields_bind_pure]

theorem yields_group : (g.readOperand sub .group).Yields r e r' ↔
    ∃ r₁, (sub .lowest).Yields r.advance e r₁ ∧ r₁.next.kind = .closeParen ∧ r' = r₁.advance := by
  rw [readOperand, Parse.yields_advance_bind, Parse.yields_bind]
  simp only [Parse.yields_expect_bind, Parse.yields_pure]
  constructor
  · rintro ⟨_, r₁, hsub, hk, rfl, rfl⟩
    exact ⟨r₁, hsub, hk, rfl⟩
  · rintro ⟨r₁, hsub, hk, rfl⟩
    exact ⟨e, r₁, hsub, hk, rfl, rfl⟩

theorem yields_function : (g.readOperand sub .function).Yields r e r' ↔
    r.next.kind = .openParen ∧ ∃ ps r₁,
      (Parse.parenthesised (do Parse.expect .identifier; Walk.identifier)).Yields
        r.advance ps r₁ ∧
      r₁.next.kind = .openBrace ∧ ∃ b, (g.block sub).Yields r₁.advance b r' ∧
        e = .function r.current ps b := by
  rw [readOperand, Parse.yields_current_bind, Parse.yields_expect_bind, Parse.yields_bind]
  simp only [Parse.yields_expect_bind, Parse.yields_bind_pure]

theorem yields_conditional : (g.readOperand sub .conditional).Yields r e r' ↔
    r.next.kind = .openParen ∧ ∃ c r₁, (sub .lowest).Yields r.advance.advance c r₁ ∧
      r₁.next.kind = .closeParen ∧ r₁.advance.next.kind = .openBrace ∧
      ∃ b r₂, (g.block sub).Yields r₁.advance.advance b r₂ ∧
        if r₂.next.kind = .elseWord then
          r₂.advance.next.kind = .openBrace ∧
            ∃ a, (g.block sub).Yields r₂.advance.advance a r' ∧
              e = .conditional r.current c b (some a)
        else e = .conditional r.current c b none ∧ r' = r₂ := by
  rw [readOperand, Parse.yields_current_bind, Parse.yields_expect_bind, Parse.yields_advance_bind,
    Parse.yields_bind]
  refine and_congr_right fun _ => exists₂_congr fun c r₁ => and_congr_right fun _ => ?_
  rw [Parse.yields_expect_bind, Parse.yields_expect_bind, Parse.yields_bind]
  refine and_congr_right fun _ => and_congr_right fun _ => ?_
  refine exists₂_congr fun b r₂ => and_congr_right fun _ => ?_
  rw [Parse.yields_next_bind]
  split
  · rw [Parse.yields_advance_bind, Parse.yields_expect_bind, Parse.yields_bind_pure]
  · exact Parse.yields_pure

theorem yields_nested : (g.nested sub p).Yields r e r' ↔ ∃ rule first r₁,
    g.operand r.current.kind = some rule ∧ (g.readOperand sub rule).Yields r first r₁ ∧
      (g.goOn sub p first).Yields r₁ e r' := by
  rw [nested, Parse.yields_current_bind]
  split
  · next hnone =>
    simp only [hnone]
    constructor
    · intro h
      exact absurd h Parse.not_yields_throw
    · rintro ⟨_, _, _, ⟨⟩, -⟩
  · next rule hrule =>
    rw [Parse.yields_bind]
    constructor
    · rintro ⟨first, r₁, hfirst, hloop⟩
      exact ⟨rule, first, r₁, hrule, hfirst, hloop⟩
    · rintro ⟨_, first, r₁, hrule', hfirst, hloop⟩
      obtain rfl := Option.some.inj (hrule.symm.trans hrule')
      exact ⟨first, r₁, hfirst, hloop⟩

end Grammar

end

end Scriptlet
