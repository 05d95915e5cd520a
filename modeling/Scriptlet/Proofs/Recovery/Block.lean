/-
  A block ends at its own brace, if recovery passes over none.
-/
import Scriptlet.Proofs.Recovery.Braces
import Scriptlet.Session

namespace Scriptlet

open Grammar (script)

/-- What is reported from `r` to `r'` spares the braces among the tokens `ts`. -/
def Reader.Spares (ts : List Token) (r r' : Reader) : Prop :=
  ∀ d ∈ r'.errors.toList.drop r.errors.size, d.SparesBraces ts

/-- What a reading comes to that has the closing brace at the head of `us` ahead of it. If it
    fails, that is at the next token or at the current one. -/
inductive Ends (ts us : List Token) : Except Diagnostic α × Reader → Prop
  | ok {a : α} {r : Reader} : Within ts us r.ahead.tail → Ends ts us (.ok a, r)
  | next {k : Kind} {r : Reader} : Within ts us r.ahead.tail →
      Ends ts us (.error ⟨.unexpected k r.next.kind, r.next.position⟩, r)
  | current {d : Diagnostic} {r : Reader} : Within ts us r.ahead →
      d.position = r.current.position → (∀ xs, d.passedOver xs = passedOver xs) →
      Ends ts us (.error d, r)

/-- Readings from a token that has been read stay within the block. -/
structure Parse.Stays (ts : List Token) (p : Parse α) : Prop where
  ends : ∀ {us r}, Within ts us r.ahead.tail → r.Spares ts (p.on r).2 → Ends ts us (p.on r)

/-- Readings that begin with the current token stay within the block. -/
structure Parse.Enters (ts : List Token) (p : Parse α) : Prop where
  ends : ∀ {us r}, Within ts us r.ahead → r.Spares ts (p.on r).2 → Ends ts us (p.on r)

section

variable {ts us : List Token} {r r₁ r' : Reader} {k : Kind}

namespace Reader.Spares

theorem left (h : r.Spares ts r') (h' : r₁.Before r') : r.Spares ts r₁ := by
  obtain ⟨ds, hds⟩ := h'
  intro d hd
  refine h d ?_
  rw [← hds, List.drop_append]
  exact List.mem_append_left _ hd

theorem right (h : r.Spares ts r') (h' : r.Before r₁) : r₁.Spares ts r' := by
  intro d hd
  have hle : r.errors.size ≤ r₁.errors.size := by simpa using h'.length_le
  exact h d (List.drop_subset_drop_left _ hle hd)

theorem like (h : r.Spares ts r') (h' : r₁.errors = r.errors) : r₁.Spares ts r' := by
  rwa [Spares, h']

end Reader.Spares

namespace Parse

section

variable {β : Type}

theorem Stays.pure (a : α) : (pure a : Parse α).Stays ts :=
  ⟨fun h _ => .ok h⟩

/-- What is reported by both parts is reported by each of them. -/
theorem ends_bind {p : Parse α} {f : α → Parse β} [hp : Keeps p] [hf : ∀ a, Keeps (f a)]
    (h : r.Spares ts (p.on r).2 → Ends ts us (p.on r)) (hstays : ∀ a, (f a).Stays ts)
    (hspares : r.Spares ts ((p >>= f).on r).2) : Ends ts us ((p >>= f).on r) := by
  have hbefore := hp.before r
  rw [on_bind] at hspares ⊢
  generalize p.on r = out at h hbefore hspares ⊢
  rcases out with ⟨d | a, r₁⟩
  · cases h hspares with
    | next hw => exact .next hw
    | current hw hpos hover => exact .current hw hpos hover
  · cases h (hspares.left ((hf a).before r₁)) with
    | ok hw => exact (hstays a).ends hw (hspares.right hbefore)

theorem Stays.bind {p : Parse α} {f : α → Parse β} [Keeps p] [∀ a, Keeps (f a)]
    (hp : p.Stays ts) (hf : ∀ a, (f a).Stays ts) : (p >>= f).Stays ts :=
  ⟨fun hw => ends_bind (hp.ends hw) hf⟩

theorem Enters.bind {p : Parse α} {f : α → Parse β} [Keeps p] [∀ a, Keeps (f a)]
    (hp : p.Enters ts) (hf : ∀ a, (f a).Stays ts) : (p >>= f).Enters ts :=
  ⟨fun hw => ends_bind (hp.ends hw) hf⟩

theorem Stays.current : (liftM Walk.current : Parse Token).Stays ts :=
  ⟨fun h _ => .ok h⟩

theorem Stays.identifier : (liftM Walk.identifier : Parse Identifier).Stays ts :=
  ⟨fun h _ => .ok h⟩

theorem Stays.advance_bind {p : Parse β} (hp : p.Enters ts) :
    (liftM Walk.advance >>= fun _ => p).Stays ts := by
  refine ⟨fun {us r} hw hspares => ?_⟩
  simp only [on_bind, on_lift] at hspares ⊢
  exact hp.ends hw (hspares.like r.errors_advance)

/-- The next token, if it is no brace, may be read. -/
theorem within_advance (hw : Within ts us r.ahead.tail) (hk : r.next.kind.isBrace = false) :
    Within ts us r.advance.ahead.tail := by
  obtain ⟨t, rest, htail⟩ := List.exists_cons_of_ne_nil hw.ne_nil
  rw [Reader.kind_next, Reader.ahead_advance, htail] at hk
  rw [Reader.ahead_advance, htail]
  rw [htail] at hw
  exact hw.tail hk

theorem Stays.expect (hk : k.isBrace = false) : (expect k).Stays ts := by
  refine ⟨fun {us r} hw _ => ?_⟩
  rw [on_expect]
  split
  · next h => exact .ok (within_advance hw (by rwa [h]))
  · exact .next hw

theorem Stays.optional_bind {f : Unit → Parse β} (hk : k.isBrace = false)
    (hf : (f ()).Stays ts) : (liftM (Walk.optional k) >>= f).Stays ts := by
  refine ⟨fun {us r} hw hspares => ?_⟩
  simp only [on_bind, on_lift, Walk.run_optional] at hspares ⊢
  split
  · next h =>
    rw [if_pos h] at hspares
    exact hf.ends (within_advance hw (by rwa [h])) (hspares.like r.errors_advance)
  · next h =>
    rw [if_neg h] at hspares
    exact hf.ends hw hspares

/-- The next token is read if it is of the kind. -/
theorem Stays.next_bind {p q : Parse β} (hk : k.isBrace = false) (hq : q.Stays ts)
    (hp : p.Stays ts) : (liftM Walk.next >>= fun t =>
      if t.kind = k then liftM Walk.advance >>= fun _ => q else p : Parse β).Stays ts := by
  refine ⟨fun {us r} hw hspares => ?_⟩
  simp only [on_bind, on_lift] at hspares ⊢
  split
  · next h =>
    rw [if_pos h, on_bind, on_lift] at hspares
    rw [on_bind, on_lift]
    exact hq.ends (within_advance hw (by rwa [h])) (hspares.like r.errors_advance)
  · next h =>
    rw [if_neg h] at hspares
    exact hp.ends hw hspares

/-- Rounds that begin with no brace stay within the block. -/
theorem Stays.whileNext {rule : Kind → Option ρ} {body : ρ → α → Parse α}
    [hkeeps : ∀ x a, Keeps (body x a)] (hrule : ∀ k, k.isBrace = true → rule k = none)
    (hbody : ∀ x a, (body x a).Stays ts) (a : α) : (whileNext rule body a).Stays ts := by
  refine ⟨fun {us r} hw hspares => ?_⟩
  change r.Spares ts (rounds rule body a r).2 at hspares
  change Ends ts us (rounds rule body a r)
  -- a token with a rule is no brace
  have hplain : ∀ {r : Reader} {c t : Token} {rest : List Token} {x : ρ},
      r.ahead = c :: t :: rest → rule t.kind = some x → r.next.kind.isBrace = false := by
    intro r c t rest x hahead hx
    rw [Reader.next_of_ahead hahead, ← Bool.not_eq_true]
    intro hbrace
    rw [hrule _ hbrace] at hx
    cases hx
  fun_induction rounds rule body a r with
  | case1 => exact .ok hw
  | case2 a r c t rest hahead x hx out b hout ih =>
    have hlater : out.2.Before (rounds rule body b out.2).2 :=
      (inferInstance : Keeps (Parse.whileNext rule body b)).before out.2
    have hspares₁ : r.advance.Spares ts out.2 := (hspares.left hlater).like r.errors_advance
    have hends : Ends ts us out :=
      (hbody x a).ends (within_advance hw (hplain hahead hx)) hspares₁
    have hout' : out = (.ok b, out.2) := Prod.ext hout rfl
    rw [hout'] at hends
    cases hends with
    | ok hw' => exact ih hw' (hspares.right ((hkeeps x a).before r.advance))
  | case3 a r c t rest hahead x hx out d hout =>
    have hends : Ends ts us out :=
      (hbody x a).ends (within_advance hw (hplain hahead hx)) (hspares.like r.errors_advance)
    have hout' : out = (.error d, out.2) := Prod.ext hout rfl
    rw [hout'] at hends
    cases hends with
    | next hw => exact .next hw
    | current hw hpos hover => exact .current hw hpos hover
  | case4 => exact .ok hw

theorem comma?_of_isBrace (h : k.isBrace = true) : comma? k = none := by
  revert h
  cases k <;> first | exact Bool.noConfusion | exact fun _ => rfl

theorem Stays.more {item : Parse α} [Keeps item] (h : item.Stays ts) (acc : List α) :
    (more item acc).Stays ts :=
  h.bind fun _ => .whileNext (fun _ => comma?_of_isBrace) (fun _ _ => h.bind fun _ => .pure _) _

theorem Stays.parenthesised {item : Parse α} [Keeps item] (h : item.Stays ts) :
    (parenthesised item).Stays ts := by
  have hlist : (commaList item >>= fun as => (Parse.expect .closeParen >>= fun _ => Pure.pure as :
      Parse (List α))).Stays ts := by
    rw [commaList_eq]
    exact ((h.more []).bind fun _ => .pure _).bind fun _ =>
      (Stays.expect rfl).bind fun _ => .pure _
  exact .next_bind rfl (.pure []) hlist

end

end Parse

/-! ## Statements -/

/-- Recovery that spares braces stays within the block. -/
theorem Ends.recover {d : Diagnostic} (h : Ends ts us ((.error d : Except Diagnostic α), r))
    (hd : d.SparesBraces ts) :
    Within ts us ((r.report d).synchronize script.startsStatement).advance.ahead := by
  cases h with
  | @next k _ hw =>
    obtain ⟨t, rest, htail⟩ := List.exists_cons_of_ne_nil hw.ne_nil
    obtain ⟨c, hahead⟩ : ∃ c, r.ahead = c :: t :: rest := by
      rcases h : r.ahead with _ | ⟨c, cs⟩
      · rw [h] at htail; cases htail
      · rw [h] at htail; exact ⟨c, congrArg (c :: ·) htail⟩
    rw [htail] at hw
    have hnext : r.next = t := Reader.next_of_ahead hahead
    rw [hnext] at hd ⊢
    -- recovery stops before the next token, or goes on from it
    by_cases hstop : c.kind.isTerminator || t.kind = .closeBrace || script.startsStatement t.kind
    · rw [Reader.synchronize_of_stop (by exact hahead) (by exact hnext ▸ hstop),
        Reader.ahead_advance, Reader.ahead_report, hahead]
      exact hw
    · rw [Reader.synchronize_of_not_stop (by exact hahead) (by exact hnext ▸ hstop)]
      have hplain := hd _ ((List.mem_tails _ _).2 hw.suffix) rfl
      have hgo : ¬ (t.kind = .closeBrace || script.startsStatement t.kind) := by
        simp only [Bool.or_assoc, Bool.or_eq_true, not_or] at hstop ⊢
        exact hstop.2
      rw [Diagnostic.passedOver_unexpected hgo] at hplain
      have hadvance : (r.report ⟨.unexpected k t.kind, t.position⟩).advance.ahead = t :: rest := by
        rw [Reader.ahead_advance, Reader.ahead_report, hahead]; rfl
      exact Within.advance_synchronize (by rwa [hadvance]) (by rwa [hadvance])
  | current hw hpos hover =>
    obtain ⟨t, rest, hahead⟩ := List.exists_cons_of_ne_nil hw.ne_nil
    have hcurrent : r.current = t := Reader.current_of_ahead hahead
    have hplain := hd _ ((List.mem_tails _ _).2 hw.suffix) (by simp [hahead, hpos, hcurrent])
    rw [hover] at hplain
    exact Within.advance_synchronize hw hplain

/-- What recovers goes on within the block. -/
theorem within_recover {p : Parse α} [hp : Parse.Keeps p]
    (h : r.Spares ts (p.on r).2 → Ends ts us (p.on r))
    (hspares : r.Spares ts ((script.recover p).run r).2) :
    Within ts us ((script.recover p).run r).2.advance.ahead := by
  have hbefore := hp.before r
  rw [Grammar.run_recover] at hspares ⊢
  generalize p.on r = out at h hbefore hspares ⊢
  rcases out with ⟨d | a, r₁⟩
  · have herrors : ((r₁.report d).synchronize script.startsStatement).errors.toList =
        r₁.errors.toList ++ [d] := by simp [Reader.synchronize_errors]
    have hspares₁ : r.Spares ts r₁ := hspares.left ⟨[d], herrors.symm⟩
    refine (h hspares₁).recover (hspares d ?_)
    show d ∈ ((r₁.report d).synchronize script.startsStatement).errors.toList.drop r.errors.size
    rw [herrors, List.drop_append_of_le_length (by simpa using hbefore.length_le)]
    simp
  · cases h hspares with
    | ok hw => exact hw

/-- The value of a statement recovers on its own. -/
theorem Parse.stays_value {p : Parse α} [Keeps p] {f : Option α → β} (hp : p.Enters ts) :
    (liftM Walk.advance >>= fun _ => liftM (script.recover p) >>= fun a? => pure (f a?) :
      Parse β).Stays ts := by
  refine .advance_bind ⟨fun {us r} hw hspares => ?_⟩
  simp only [on_bind, on_lift, on_pure] at hspares ⊢
  exact .ok (within_recover (hp.ends hw) hspares)

namespace Grammar

variable {sub : Power → Parse Expr} [∀ p, Parse.Keeps (sub p)] (hsub : ∀ p, (sub p).Enters ts)

include hsub

theorem enters_stmt : (script.stmt sub).Enters ts := by
  have hvalue : (closedExpr sub).Enters ts :=
    (hsub .lowest).bind fun _ => .optional_bind rfl (.pure _)
  refine ⟨fun {us r} hw hspares => ?_⟩
  obtain ⟨t, rest, hahead⟩ := List.exists_cons_of_ne_nil hw.ne_nil
  have hplain : t.kind.isBrace = false → Within ts us r.ahead.tail := by
    intro hk
    rw [hahead] at hw ⊢
    exact hw.tail hk
  rw [on_stmt hahead rfl] at hspares ⊢
  have hrule : ∀ rule, (script.statement t.kind).getD .expr = rule → rule ≠ .expr →
      t.kind.isBrace = false := by
    intro rule hrule hne
    revert hrule
    cases t.kind <;> intro hrule <;> first | rfl | exact absurd hrule.symm hne
  generalize hgen : (script.statement t.kind).getD .expr = rule at hspares ⊢
  cases rule with
  | var =>
    have hstays : (script.readStatement sub .var).Stays ts := by
      refine Parse.Stays.current.bind fun t => ?_
      refine (Parse.Stays.expect rfl).bind fun _ => ?_
      refine Parse.Stays.identifier.bind fun i => ?_
      refine (Parse.Stays.expect rfl).bind fun _ => ?_
      exact Parse.stays_value hvalue
    exact hstays.ends (hplain (hrule _ hgen (by decide))) hspares
  | ret =>
    have hstays : (script.readStatement sub .ret).Stays ts :=
      Parse.Stays.current.bind fun t => Parse.stays_value hvalue
    exact hstays.ends (hplain (hrule _ hgen (by decide))) hspares
  | expr =>
    have henters : (script.readStatement sub .expr).Enters ts := by
      refine ⟨fun {us r} hw hspares => ?_⟩
      simp only [readStatement, Parse.on_bind (liftM Walk.current), Parse.on_lift] at hspares ⊢
      exact (hvalue.bind fun _ => .pure _).ends hw hspares
    exact henters.ends hw hspares

theorem within_stmt? (hw : Within ts us r.ahead)
    (hspares : r.Spares ts ((script.stmt? sub).run r).2) :
    Within ts us ((script.stmt? sub).run r).2.advance.ahead :=
  within_recover ((enters_stmt hsub).ends hw) hspares

/-- The statements of a block end at its brace. -/
theorem ahead_statements (hw : Within ts us r.ahead)
    (hspares : r.Spares ts
      ((Walk.untilKind (· = .closeBrace) (script.stmt? sub)).run r).2) :
    ((Walk.untilKind (· = .closeBrace) (script.stmt? sub)).run r).2.ahead = us := by
  induction hn : r.ahead.length using Nat.strongRecOn generalizing r with
  | ind n ih =>
    subst hn
    obtain ⟨t, rest, hahead⟩ := List.exists_cons_of_ne_nil hw.ne_nil
    -- a brace at the start of a round is the one that closes this block, not one further in
    by_cases hk : t.kind = .closeBrace
    · rw [Walk.run_untilKind_of_stop]
      · have hclosing := hw.closing
        rw [hahead, closing?_zero_closeBrace hk] at hclosing
        exact hahead.trans (Option.some.inj hclosing)
      · intro t' rest' ht'
        cases hahead.symm.trans ht'
        exact decide_eq_true hk
    · rw [Walk.run_untilKind_of_not_stop hahead (decide_eq_false hk)] at hspares ⊢
      have hone := (script.keeps_stmt? sub).before r
      have hloop := (Walk.keeps_untilKind (· = .closeBrace) (script.stmt? sub)).before
        ((script.stmt? sub).run r).2.advance
      have hw' := within_stmt? hsub hw (hspares.left hloop)
      exact ih _ (Walk.length_advance_run_lt _ (by simp [hahead])) hw' (hspares.right hone) rfl

/-- **A block ends at its brace.** -/
theorem on_block (hw : Within ts us r.ahead.tail)
    (hspares : r.Spares ts ((script.block sub).on r).2) :
    ∃ b r', (script.block sub).on r = (.ok b, r') ∧ r'.ahead = us := by
  obtain ⟨c, rest, rfl, hc⟩ := closing?_eq_some hw.closing
  simp only [block, Parse.on_bind, Parse.on_lift] at hspares ⊢
  generalize hout : (Walk.untilKind (· = .closeBrace) (script.stmt? sub)).run r.advance = out
    at hspares ⊢
  have hahead : out.2.ahead = c :: rest := by
    have hspares := (hspares.left (Parse.Keeps.before out.2)).like r.errors_advance
    rw [← hout] at hspares ⊢
    exact ahead_statements hsub hw hspares
  have hkind : out.2.current.kind ≠ .eof := by
    rw [Reader.current_of_ahead hahead, hc]
    decide
  rw [if_neg hkind]
  exact ⟨_, _, rfl, hahead⟩

/-- A block inside a block ends at its brace, so that the one of the block outside comes after. -/
theorem stays_block : (Parse.expect .openBrace >>= fun _ => script.block sub).Stays ts := by
  refine ⟨fun {us r} hw hspares => ?_⟩
  simp only [Parse.on_bind, Parse.on_expect] at hspares ⊢
  by_cases hk : r.next.kind = .openBrace
  · rw [if_pos hk] at hspares ⊢
    obtain ⟨t, xs, htail⟩ := List.exists_cons_of_ne_nil hw.ne_nil
    have ht : t.kind = .openBrace := by
      rw [← hk, Reader.kind_next, Reader.ahead_advance, htail]; rfl
    rw [htail] at hw
    obtain ⟨c, rest, hinside, houtside⟩ :=
      closing?_succ (m := 0) (n := 0) ((closing?_openBrace ht).symm.trans hw.closing)
    have hxs : xs <:+ ts := (List.suffix_cons t xs).trans hw.suffix
    have hw' : Within ts (c :: rest) r.advance.ahead.tail := by
      rw [Reader.ahead_advance, htail]
      exact ⟨hxs, hinside⟩
    obtain ⟨b, r', hon, hahead⟩ := on_block hsub hw' (hspares.like r.errors_advance)
    have hsuffix := closing?_suffix hinside
    dsimp only
    rw [hon]
    refine .ok ⟨?_, ?_⟩
    · rw [hahead]
      exact ((List.suffix_cons c rest).trans hsuffix).trans hxs
    · rw [hahead]
      exact houtside
  · rw [if_neg hk]
    exact .next hw

theorem stays_block_bind {β : Type} {f : Block → Parse β} [∀ b, Parse.Keeps (f b)]
    (hf : ∀ b, (f b).Stays ts) :
    (Parse.expect .openBrace >>= fun _ => script.block sub >>= f).Stays ts := by
  have h := (stays_block hsub).bind hf
  rwa [bind_assoc] at h

theorem stays_read (left : Expr) (p : Power) (rule : OperatorRule) :
    (rule.read sub left p).Stays ts := by
  cases rule with
  | binary =>
    exact Parse.Stays.current.bind fun t => .advance_bind ((hsub p).bind fun _ => .pure _)
  | call =>
    exact Parse.Stays.current.bind fun t => (Parse.Stays.advance_bind
      (hsub .lowest)).parenthesised.bind fun _ => .pure _

set_option synthInstance.maxSize 2048 in
theorem enters_readOperand {rule : OperandRule} (hw : Within ts us r.ahead)
    (hrule : script.operand r.current.kind = some rule)
    (hspares : r.Spares ts ((script.readOperand sub rule).on r).2) :
    Ends ts us ((script.readOperand sub rule).on r) := by
  obtain ⟨t, rest, hahead⟩ := List.exists_cons_of_ne_nil hw.ne_nil
  rw [Reader.current_of_ahead hahead] at hrule
  have hplain : t.kind.isBrace = false := by
    revert hrule
    cases t.kind <;> intro hrule <;> first | rfl | cases hrule
  have hstays : (script.readOperand sub rule).Stays ts →
      Ends ts us ((script.readOperand sub rule).on r) := by
    refine fun h => h.ends ?_ hspares
    rw [hahead] at hw ⊢
    exact hw.tail hplain
  cases rule with
  | name => exact hstays (Parse.Stays.identifier.bind fun _ => .pure _)
  | integer =>
    simp only [readOperand, Parse.integer, Parse.on_bind, Parse.on_lift]
    split
    · refine .ok ?_
      rw [hahead] at hw ⊢
      exact hw.tail hplain
    · exact .current hw rfl fun _ => rfl
  | boolean => exact hstays (Parse.Stays.current.bind fun _ => .pure _)
  | unary =>
    exact hstays (Parse.Stays.current.bind fun t => .advance_bind
      ((hsub .unary).bind fun _ => .pure _))
  | group =>
    exact hstays (.advance_bind ((hsub .lowest).bind fun _ =>
      (Parse.Stays.expect rfl).bind fun _ => .pure _))
  | conditional =>
    refine hstays (Parse.Stays.current.bind fun t => (Parse.Stays.expect rfl).bind fun _ => ?_)
    refine .advance_bind ((hsub .lowest).bind fun _ => (Parse.Stays.expect rfl).bind fun _ => ?_)
    refine stays_block_bind hsub fun b => .next_bind rfl ?_ (.pure _)
    exact stays_block_bind hsub fun a => .pure _
  | function =>
    refine hstays (Parse.Stays.current.bind fun t => (Parse.Stays.expect rfl).bind fun _ => ?_)
    refine Parse.Stays.bind (Parse.Stays.parenthesised ?_) fun _ =>
      stays_block_bind hsub fun _ => .pure _
    exact (Parse.Stays.expect rfl).bind fun _ => .identifier

theorem enters_nested (p : Power) : (script.nested sub p).Enters ts := by
  refine ⟨fun {us r} hw hspares => ?_⟩
  obtain ⟨t, rest, hahead⟩ := List.exists_cons_of_ne_nil hw.ne_nil
  have hbinding : ∀ k, k.isBrace = true → script.binding p k = none := by
    intro k hk
    cases k <;> first | exact Bool.noConfusion hk | (cases p <;> rfl)
  cases hrule : script.operand r.current.kind with
  | none =>
    simp only [nested, Parse.on_bind, Parse.on_lift, hrule]
    exact .current hw rfl fun _ => rfl
  | some rule =>
    rw [nested, Parse.on_bind, Parse.on_lift] at hspares ⊢
    simp only [hrule] at hspares ⊢
    refine Parse.ends_bind (enters_readOperand hsub hw hrule) (fun e => ?_) hspares
    exact .whileNext hbinding (fun x left => stays_read hsub left x.2 x.1) e

omit hsub in
/-- Readings of an expression stay within the block. -/
theorem enters_expr (ts : List Token) (n : Nat) (p : Power) : (script.expr n p).Enters ts := by
  induction n generalizing p with
  | zero => exact ⟨fun hw _ => .current hw rfl fun _ => rfl⟩
  | succ n ih => exact enters_nested ih p

end Grammar

end

/-- **A block keeps its brace**: if counting braces finds where the block ends that begins at the
    current token, it is read to there, however many statements in it fail, as long as recovery
    passes over no brace. -/
theorem Session.block_keeps_brace {s : Session} {us : List Token} (hg : s.grammar = .script)
    (hclosing : closing? 0 s.reader.ahead.tail = some us)
    (hspares : ∀ d ∈ s.block.2.reader.errors.toList.drop s.reader.errors.size,
      d.SparesBraces s.reader.ahead.tail) :
    ∃ b, s.block.1 = .ok b ∧ s.block.2.reader.ahead = us := by
  rcases s with ⟨g, r, depth, consumed⟩
  obtain rfl : g = .script := hg
  have hw : Within r.ahead.tail us r.ahead.tail := ⟨List.suffix_refl _, hclosing⟩
  obtain ⟨b, r', hon, hus⟩ :=
    Grammar.on_block (Grammar.enters_expr _ (Grammar.nestingLimit - depth)) hw hspares
  exact ⟨b, congrArg Prod.fst hon, (congrArg (·.2.ahead) hon).trans hus⟩

/-- Two statements fail in this block, one of them in a block inside, and it ends at its brace. -/
theorem block_keeps_brace_of_two :
    ∃ b, (Session.ofText "\x7b var 1; function() \x7b x 5 ) \x7d \x7d y").block.1 = .ok b ∧
      (Session.ofText "\x7b var 1; function() \x7b x 5 ) \x7d \x7d y").block.2.reader.ahead =
        [⟨.closeBrace, "\x7d", ⟨1, 31⟩⟩, ⟨.identifier, "y", ⟨1, 33⟩⟩] := by
  refine Session.block_keeps_brace rfl ?_ ?_
  · decide +kernel
  · decide +kernel

/-- Recovery passes over the opening brace of a block inside, so that the block ends at the brace of
    that one. -/
theorem block_loses_brace :
    let s := Session.ofText "\x7b @ \x7b a \x7d b \x7d"
    (closing? 0 s.reader.ahead.tail).map (·.map (·.position)) = some [⟨1, 13⟩] ∧
      s.block.2.reader.ahead.map (·.literal) = ["\x7d", "b", "\x7d"] := by
  decide +kernel

end Scriptlet
