/-
  Two readings abreast: of the same tokens, with something else after them.
  Either the text ends there or a statement begins, so as far as expressions
  go that makes no difference.
-/
import Scriptlet.Proofs.Reading.Steps

namespace Scriptlet

open Grammar (script nestingLimit)

/-! ## Where a text goes on -/

/-- What comes after a text: its end, or a statement that begins with a word of its own. -/
structure Continuation where
  /-- The tokens still to come. -/
  ahead : List Token
  /-- The place of the end. -/
  finish : Position
  /-- The first token begins a statement. -/
  starts : ∀ t ∈ ahead.head?, script.startsStatement t.kind = true

namespace Continuation

variable {u : Continuation} {k : Kind}

/-- The end of a text. -/
def stop (f : Position) : Continuation := ⟨[], f, by simp⟩

/-- The token that comes first. -/
def current (u : Continuation) : Token := u.ahead.headD (.eof u.finish)

theorem kind_current (u : Continuation) :
    u.current.kind = .eof ∨ script.startsStatement u.current.kind = true := by
  rcases h : u.ahead with _ | ⟨t, ts⟩
  · exact .inl (by simp [current, h])
  · exact .inr (by simpa [current, h] using u.starts t (by simp [h]))

theorem kind_current_ne (hk : k ≠ .eof) (hk' : script.startsStatement k = false) :
    u.current.kind ≠ k := by
  rintro rfl
  rcases u.kind_current with h | h
  · exact hk h
  · rw [hk'] at h; cases h

theorem kind_cases (u : Continuation) :
    u.current.kind = .eof ∨ u.current.kind = .varWord ∨ u.current.kind = .returnWord := by
  rcases u.kind_current with h | h
  · exact .inl h
  · generalize u.current.kind = k at h ⊢
    cases k <;> first
      | exact .inr (.inl rfl)
      | exact .inr (.inr rfl)
      | exact absurd h (by decide)

theorem operand_current (u : Continuation) : script.operand u.current.kind = none := by
  rcases u.kind_cases with h | h | h <;> rw [h] <;> rfl

theorem binding_current (u : Continuation) (p : Power) :
    script.binding p u.current.kind = none := by
  rcases u.kind_cases with h | h | h <;> rw [h] <;> cases p <;> rfl

end Continuation

/-- Ahead of the reader stand the tokens `ts`, and then what comes after the text. -/
structure Reader.Stands (r : Reader) (ts : List Token) (u : Continuation) : Prop where
  ahead : r.ahead = ts ++ u.ahead
  finish : r.finish = u.finish

namespace Reader.Stands

variable {r : Reader} {t t' : Token} {ts : List Token} {u : Continuation}

theorem current_nil (h : r.Stands [] u) : r.current = u.current := by
  simp [current, Continuation.current, h.ahead, h.finish]

theorem current_cons (h : r.Stands (t :: ts) u) : r.current = t := by
  simp [current, h.ahead]

theorem next_singleton (h : r.Stands [t] u) : r.next = u.current := by
  simp [next, Continuation.current, h.ahead, h.finish]

theorem next_cons (h : r.Stands (t :: t' :: ts) u) : r.next = t' := by
  simp [next, h.ahead]

theorem advance (h : r.Stands (t :: ts) u) : r.advance.Stands ts u :=
  ⟨by simp [h.ahead], h.finish⟩

end Reader.Stands

/-! ## Two readers abreast -/

/-- The diagnostics are the same, but for what was found in place of a token that is due. -/
inductive Diagnostic.Alike : Diagnostic → Diagnostic → Prop
  | same (d : Diagnostic) : Alike d d
  | unexpected (k g h : Kind) (p q : Position) : Alike ⟨.unexpected k g, p⟩ ⟨.unexpected k h, q⟩

/-- An operand is due at the token. -/
def Diagnostic.Due (d : Diagnostic) (t : Token) : Prop :=
  d = ⟨.noOperand t.kind, t.position⟩ ∨ d = ⟨.tooDeep nestingLimit, t.position⟩

theorem Diagnostic.Due.position {d : Diagnostic} {t : Token} (h : d.Due t) :
    d.position = t.position := by
  rcases h with rfl | rfl <;> rfl

/-- A diagnostic about an operand that is due is alike only to itself. -/
theorem Diagnostic.Alike.eq_of_due {d e : Diagnostic} {t : Token} (h : d.Alike e)
    (hd : d.Due t) : e = d := by
  cases h with
  | same => rfl
  | unexpected => rcases hd with hd | hd <;> cases hd

/-- The readers have the same tokens ahead of them up to what comes after, and the last diagnostics
    are alike. -/
structure Reader.Abreast (u v : Continuation) (ts : List Token) (r s : Reader) : Prop where
  left : r.Stands ts u
  right : s.Stands ts v
  plain : ∀ t ∈ ts, t.kind ≠ .openBrace
  last : Option.Rel Diagnostic.Alike r.errors.back? s.errors.back?

theorem Reader.Abreast.advance {u v : Continuation} {t : Token} {ts : List Token} {r s : Reader}
    (h : r.Abreast u v (t :: ts) s) : r.advance.Abreast u v ts s.advance where
  left := h.left.advance
  right := h.right.advance
  plain t' ht' := h.plain t' (List.mem_cons_of_mem t ht')
  last := h.last

/-- If the last diagnostic is about an operand that is due, both have it. -/
theorem Reader.Abreast.mem_back? {u v : Continuation} {ts : List Token} {r s : Reader}
    {d : Diagnostic} {t : Token} (h : r.Abreast u v ts s) (hd : d ∈ r.errors.back?)
    (hdue : d.Due t) : d ∈ s.errors.back? := by
  have hlast := h.last
  rw [Option.mem_def.1 hd] at hlast
  generalize s.errors.back? = e? at hlast ⊢
  cases hlast with
  | some halike => rw [halike.eq_of_due hdue]; rfl

/-- What two readings come to. -/
inductive Parse.Abreast (u v : Continuation) :
    Except Diagnostic α × Reader → Except Diagnostic α × Reader → Prop
  | ok {a : α} {t : Token} {ts : List Token} {r s : Reader} : r.Abreast u v (t :: ts) s →
      Parse.Abreast u v (.ok a, r) (.ok a, s)
  | error {d e : Diagnostic} {t : Token} {ts : List Token} {r s : Reader} :
      r.Abreast u v (t :: ts) s → d.Alike e → Parse.Abreast u v (.error d, r) (.error e, s)
  | due {d e : Diagnostic} {r s : Reader} : r.Abreast u v [] s → d.Due u.current →
      e.Due v.current → Parse.Abreast u v (.error d, r) (.error e, s)

/-- Readings abreast of one token at least stay so. -/
structure Parse.Inside (u v : Continuation) (p : Parse α) : Prop where
  outcome : ∀ {t ts r s}, Reader.Abreast u v (t :: ts) r s → Parse.Abreast u v (p.on r) (p.on s)

/-- Readings abreast stay so, even if they start where the tokens end. -/
structure Parse.Anywhere (u v : Continuation) (p : Parse α) : Prop where
  outcome : ∀ {ts r s}, Reader.Abreast u v ts r s → Parse.Abreast u v (p.on r) (p.on s)

/-! ## One step after another -/

theorem Parse.Abreast.bind {u v : Continuation} {β : Type} {r s : Reader} {p : Parse α}
    {f : α → Parse β} (h : Parse.Abreast u v (p.on r) (p.on s)) (hf : ∀ a, (f a).Inside u v) :
    Parse.Abreast u v ((p >>= f).on r) ((p >>= f).on s) := by
  rw [Parse.on_bind, Parse.on_bind]
  generalize p.on r = x at h ⊢
  generalize p.on s = y at h ⊢
  cases h with
  | ok hrs => exact (hf _).outcome hrs
  | error hrs hd => exact .error hrs hd
  | due hrs hd he => exact .due hrs hd he

namespace Parse

section

variable {u v : Continuation} {β : Type} {t : Token} {ts : List Token} {r s : Reader} {k : Kind}

theorem Anywhere.inside {p : Parse α} (h : p.Anywhere u v) : p.Inside u v :=
  ⟨h.outcome⟩

theorem Inside.pure (a : α) : (pure a : Parse α).Inside u v :=
  ⟨.ok⟩

theorem Inside.bind {p : Parse α} {f : α → Parse β} (hp : p.Inside u v)
    (hf : ∀ a, (f a).Inside u v) : (p >>= f).Inside u v :=
  ⟨fun hrs => (hp.outcome hrs).bind hf⟩

theorem Anywhere.bind {p : Parse α} {f : α → Parse β} (hp : p.Anywhere u v)
    (hf : ∀ a, (f a).Inside u v) : (p >>= f).Anywhere u v :=
  ⟨fun hrs => (hp.outcome hrs).bind hf⟩

/-- The current token is not yet what comes after. -/
theorem Inside.current : (liftM Walk.current : Parse Token).Inside u v := by
  refine ⟨fun {t ts r s} hrs => ?_⟩
  simp only [on_lift]
  rw [hrs.left.current_cons, hrs.right.current_cons]
  exact .ok hrs

theorem Inside.identifier : (liftM Walk.identifier : Parse Identifier).Inside u v := by
  refine ⟨fun {t ts r s} hrs => ?_⟩
  simp only [on_lift, Walk.identifier, Walk.run_bind, Walk.run_pure]
  rw [hrs.left.current_cons, hrs.right.current_cons]
  exact .ok hrs

/-- The token after the current one may be passed over only to read on. -/
theorem Inside.advance_bind {p : Parse β} (hp : p.Anywhere u v) :
    (liftM Walk.advance >>= fun _ => p).Inside u v := by
  refine ⟨fun {t ts r s} hrs => ?_⟩
  simp only [on_bind, on_lift]
  exact hp.outcome hrs.advance

theorem Inside.expect (hk : k ≠ .eof) (hk' : script.startsStatement k = false) :
    (expect k).Inside u v := by
  refine ⟨fun {t ts r s} hrs => ?_⟩
  rw [on_expect, on_expect]
  cases ts with
  | nil =>
    rw [hrs.left.next_singleton, hrs.right.next_singleton,
      if_neg (Continuation.kind_current_ne hk hk'), if_neg (Continuation.kind_current_ne hk hk')]
    exact .error hrs (.unexpected ..)
  | cons t' ts =>
    rw [hrs.left.next_cons, hrs.right.next_cons]
    split
    · exact .ok hrs.advance
    · exact .error hrs (.same _)

/-- There is no block among the tokens, so nothing comes of one that is due. -/
theorem Inside.expect_openBrace_bind {f : Unit → Parse β} :
    (Parse.expect .openBrace >>= f).Inside u v := by
  refine ⟨fun {t ts r s} hrs => ?_⟩
  have hnone : ∀ {w : Continuation} {c : Reader}, c.Stands (t :: ts) w →
      c.next.kind ≠ .openBrace := by
    intro w c hc
    cases ts with
    | nil =>
      rw [hc.next_singleton]
      exact Continuation.kind_current_ne (by decide) rfl
    | cons t' ts =>
      rw [hc.next_cons]
      exact hrs.plain t' (by simp)
  have hout := Inside.expect (u := u) (v := v) (k := .openBrace) (by decide) rfl |>.outcome hrs
  rw [on_expect, on_expect, if_neg (hnone hrs.left), if_neg (hnone hrs.right)] at hout
  rw [on_bind, on_bind, on_expect, on_expect, if_neg (hnone hrs.left), if_neg (hnone hrs.right)]
  cases hout with
  | error hrs hd => exact .error hrs hd
  | due hrs hd he => exact .due hrs hd he

theorem Inside.optional_bind {f : Unit → Parse β} (hk : k ≠ .eof)
    (hk' : script.startsStatement k = false) (hf : (f ()).Inside u v) :
    (liftM (Walk.optional k) >>= f).Inside u v := by
  refine ⟨fun {t ts r s} hrs => ?_⟩
  simp only [on_bind, on_lift, Walk.run_optional]
  cases ts with
  | nil =>
    rw [hrs.left.next_singleton, hrs.right.next_singleton,
      if_neg (Continuation.kind_current_ne hk hk'), if_neg (Continuation.kind_current_ne hk hk')]
    exact hf.outcome hrs
  | cons t' ts =>
    rw [hrs.left.next_cons, hrs.right.next_cons]
    split
    · exact hf.outcome hrs.advance
    · exact hf.outcome hrs

/-- What comes after the tokens has no rule, so that the rounds end there at the latest. -/
theorem Inside.whileNext {rule : Kind → Option ρ} {body : ρ → α → Parse α}
    (hu : rule u.current.kind = none) (hv : rule v.current.kind = none)
    (hbody : ∀ x a, (body x a).Inside u v) (a : α) : (whileNext rule body a).Inside u v := by
  have hstop : ∀ {w : Continuation} {t : Token} {ts : List Token} {r : Reader} {a : α},
      rule w.current.kind = none → r.Stands (t :: ts) w →
      (∀ t', ts.head? = some t' → rule t'.kind = none) →
      (Parse.whileNext rule body a).on r = (.ok a, r) := by
    intro w t ts r a hw hr hts
    refine on_whileNext_of_none fun c t' rest hahead => ?_
    cases ts with
    | nil => rwa [← hr.next_singleton, Reader.next_of_ahead hahead] at hw
    | cons t'' ts => rw [← Reader.next_of_ahead hahead, hr.next_cons]; exact hts t'' rfl
  refine ⟨fun {t ts r s} hrs => ?_⟩
  -- each round has fewer tokens ahead, and leaves the two readings abreast
  induction hn : r.ahead.length using Nat.strongRecOn generalizing a t ts r s with
  | ind n ih =>
    subst hn
    cases hrule : ts.head?.bind fun t' => rule t'.kind with
    | none =>
      have hnone : ∀ t', ts.head? = some t' → rule t'.kind = none :=
        fun t' ht' => by simpa [ht'] using hrule
      rw [hstop hu hrs.left hnone, hstop hv hrs.right hnone]
      exact .ok hrs
    | some x =>
      obtain ⟨t', ht', hx⟩ := Option.bind_eq_some_iff.1 hrule
      obtain ⟨ts, rfl⟩ := List.head?_eq_some_iff.1 ht'
      rw [on_whileNext_of_some hrs.left.ahead hx, on_whileNext_of_some hrs.right.ahead hx]
      have hout := (hbody x a).outcome hrs.advance
      have hsuffix := (body x a).on_suffix r.advance
      generalize (body x a).on r.advance = o at hout hsuffix ⊢
      generalize (body x a).on s.advance = o' at hout ⊢
      cases hout with
      | error hrs hd => exact .error hrs hd
      | due hrs hd he => exact .due hrs hd he
      | ok hrs' =>
        refine ih _ ?_ _ hrs' rfl
        have hle := hsuffix.length_le
        simp only [Reader.ahead_advance, List.length_tail, hrs.left.ahead] at hle ⊢
        simp only [List.length_append, List.length_cons] at hle ⊢
        omega

theorem comma?_current (u : Continuation) : comma? u.current.kind = none :=
  if_neg (Continuation.kind_current_ne (by decide) rfl)

theorem Inside.more {item : Parse α} (h : item.Inside u v) (acc : List α) :
    (more item acc).Inside u v :=
  h.bind fun _ => .whileNext (comma?_current u) (comma?_current v)
    (fun _ _ => h.bind fun _ => .pure _) _

theorem Inside.parenthesised {item : Parse α} (h : item.Inside u v) :
    (parenthesised item).Inside u v := by
  have hlist : (commaList item >>= fun as => (Parse.expect .closeParen >>= fun _ => Pure.pure as :
      Parse (List α))).Inside u v := by
    rw [commaList_eq]
    exact ((h.more []).bind fun _ => .pure _).bind fun _ =>
      (Inside.expect (by decide) rfl).bind fun _ => .pure _
  refine ⟨fun {t ts r s} hrs => ?_⟩
  simp only [Parse.parenthesised, on_bind (β := List α) (liftM Walk.next), on_lift]
  cases ts with
  | nil =>
    rw [hrs.left.next_singleton, hrs.right.next_singleton,
      if_neg (Continuation.kind_current_ne (by decide) rfl),
      if_neg (Continuation.kind_current_ne (by decide) rfl)]
    exact hlist.outcome hrs
  | cons t' ts =>
    rw [hrs.left.next_cons, hrs.right.next_cons]
    split
    · exact .ok hrs.advance
    · exact hlist.outcome hrs

end

end Parse

/-! ## Expressions -/

namespace Grammar

section

variable {u v : Continuation} {sub : Power → Parse Expr} (hsub : ∀ p, (sub p).Anywhere u v)

include hsub

theorem inside_read (left : Expr) (p : Power) (rule : OperatorRule) :
    (rule.read sub left p).Inside u v := by
  cases rule with
  | binary =>
    exact Parse.Inside.current.bind fun t => .advance_bind ((hsub p).bind fun _ => .pure _)
  | call =>
    exact Parse.Inside.current.bind fun t =>
      (Parse.Inside.advance_bind (hsub .lowest)).parenthesised.bind
      fun _ => .pure _

theorem inside_readOperand (rule : OperandRule) : (script.readOperand sub rule).Inside u v := by
  cases rule with
  | name => exact Parse.Inside.identifier.bind fun _ => .pure _
  | integer =>
    refine Parse.Inside.current.bind fun t => ?_
    split
    · exact .pure _
    · exact ⟨fun hrs => .error hrs (.same _)⟩
  | boolean => exact Parse.Inside.current.bind fun _ => .pure _
  | unary =>
    exact Parse.Inside.current.bind fun t => .advance_bind ((hsub .unary).bind fun _ => .pure _)
  | group =>
    exact .advance_bind ((hsub .lowest).bind fun _ =>
      (Parse.Inside.expect (by decide) rfl).bind fun _ => .pure _)
  | conditional =>
    exact Parse.Inside.current.bind fun t => (Parse.Inside.expect (by decide) rfl).bind fun _ =>
      .advance_bind ((hsub .lowest).bind fun _ =>
        (Parse.Inside.expect (by decide) rfl).bind fun _ => .expect_openBrace_bind)
  | function =>
    refine Parse.Inside.current.bind fun t => (Parse.Inside.expect (by decide) rfl).bind fun _ =>
      Parse.Inside.bind (Parse.Inside.parenthesised ?_) fun _ => .expect_openBrace_bind
    exact (Parse.Inside.expect (by decide) rfl).bind fun _ => .identifier

theorem anywhere_nested (p : Power) : (script.nested sub p).Anywhere u v := by
  refine ⟨fun {ts r s} hrs => ?_⟩
  cases ts with
  | nil =>
    simp only [nested, Parse.on_bind, Parse.on_lift]
    rw [hrs.left.current_nil, hrs.right.current_nil, u.operand_current, v.operand_current]
    exact .due hrs (.inl rfl) (.inl rfl)
  | cons t ts =>
    refine (Parse.Inside.bind .current fun t => ?_).outcome hrs
    split
    · exact ⟨fun hrs => .error hrs (.same _)⟩
    · next rule _ =>
      exact (inside_readOperand hsub rule).bind fun e =>
        .whileNext (u.binding_current p) (v.binding_current p)
          (fun x left => inside_read hsub left x.2 x.1) e

end

/-- **Readings of an expression stay abreast**: what comes after the tokens does not matter, unless
    an operand is due there. -/
theorem anywhere_expr (u v : Continuation) (n : Nat) (p : Power) :
    (script.expr n p).Anywhere u v := by
  induction n generalizing p with
  | zero =>
    refine ⟨fun {ts r s} hrs => ?_⟩
    simp only [expr, Parse.on_bind, Parse.on_lift, Parse.on_throw]
    cases ts with
    | nil =>
      rw [hrs.left.current_nil, hrs.right.current_nil]
      exact .due hrs (.inr rfl) (.inr rfl)
    | cons t ts =>
      rw [hrs.left.current_cons, hrs.right.current_cons]
      exact .error hrs (.same _)
  | succ n ih => exact anywhere_nested ih p

end Grammar

end Scriptlet
