/-
  Statements abreast, one round after another.
-/
import Scriptlet.Proofs.Language.Completeness
import Scriptlet.Proofs.Recovery.Abreast

namespace Scriptlet

open Grammar (script)

/-! ## Moving on to the end of a broken statement -/

namespace Reader

variable {starts : Kind → Bool} {r s : Reader} {t : Token} {rest : List Token}

/-- Where a broken statement is given up depends on the tokens only. -/
theorem ahead_synchronize_congr (h : r.ahead = s.ahead) :
    (r.synchronize starts).ahead = (s.synchronize starts).ahead := by
  fun_induction synchronize starts r generalizing s with
  | case1 r hr => rw [synchronize_of_nil (h.symm.trans hr), ← h]
  | case2 r t rest ht hstop =>
    have hs := h.symm.trans ht
    rw [synchronize_of_stop hs, ← h]
    rwa [kind_next_of_ahead hs, ← kind_next_of_ahead ht]
  | case3 r t rest ht hstop ih =>
    have hs := h.symm.trans ht
    rw [kind_next_of_ahead ht, ← kind_next_of_ahead hs] at hstop
    rw [synchronize_of_not_stop hs hstop]
    exact ih (congrArg List.tail h)

/-- A broken statement is given up before what comes after the tokens. -/
theorem Stands.advance_synchronize {u : Continuation} (h : r.Stands [t] u) :
    (r.synchronize script.startsStatement).advance.Stands [] u := by
  by_cases hstop : t.kind.isTerminator || r.next.kind = .closeBrace ||
      script.startsStatement r.next.kind
  · rw [synchronize_of_stop h.ahead hstop]
    exact h.advance
  · rw [synchronize_of_not_stop h.ahead hstop]
    have hnil : u.ahead = [] := by
      rcases hu : u.ahead with _ | ⟨t', rest⟩
      · rfl
      · have hstarts := u.starts t' (by simp [hu])
        have hnext : r.next = t' := by simp [h.next_singleton, Continuation.current, hu]
        simp [hnext, hstarts] at hstop
    have hahead : r.advance.ahead = [] := by rw [h.advance.ahead, hnil]; rfl
    rw [synchronize_of_nil hahead]
    exact ⟨by rw [ahead_advance, hahead, hnil]; rfl, h.finish⟩

end Reader

section

variable {u v : Continuation} {t : Token} {ts : List Token} {r s : Reader}

theorem Reader.Abreast.report {d e : Diagnostic} (h : r.Abreast u v ts s) (hd : d.Alike e) :
    (r.report d).Abreast u v ts (s.report e) where
  left := ⟨h.left.ahead, h.left.finish⟩
  right := ⟨h.right.ahead, h.right.finish⟩
  plain := h.plain
  last := by simpa using Option.Rel.some hd

theorem Reader.Abreast.advance_synchronize (h : r.Abreast u v (t :: ts) s) :
    ∃ ts', (r.synchronize script.startsStatement).advance.Abreast u v ts'
      (s.synchronize script.startsStatement).advance := by
  induction ts generalizing t r s with
  | nil =>
    refine ⟨[], h.left.advance_synchronize, h.right.advance_synchronize, by simp, ?_⟩
    rw [Reader.errors_advance, Reader.errors_advance, Reader.synchronize_errors,
      Reader.synchronize_errors]
    exact h.last
  | cons t' ts ih =>
    by_cases hstop : t.kind.isTerminator || t'.kind = .closeBrace ||
        script.startsStatement t'.kind
    · rw [Reader.synchronize_of_stop h.left.ahead (by rwa [h.left.next_cons]),
        Reader.synchronize_of_stop h.right.ahead (by rwa [h.right.next_cons])]
      exact ⟨_, h.advance⟩
    · rw [Reader.synchronize_of_not_stop h.left.ahead (by rwa [h.left.next_cons]),
        Reader.synchronize_of_not_stop h.right.ahead (by rwa [h.right.next_cons])]
      exact ih h.advance

/-! ## A round -/

/-- A reader right on what comes after. -/
def Continuation.reader (u : Continuation) : Reader := ⟨u.ahead, u.finish, #[], #[]⟩

/-- An operand was due where the text goes on, and the reader has moved on to where the statement
    was given up. -/
structure Reader.Broken (r : Reader) (u : Continuation) : Prop where
  ahead : r.ahead = (u.reader.synchronize script.startsStatement).advance.ahead
  due : ∃ d ∈ r.errors.back?, d.Due u.current

/-- What two rounds come to, with the token after the one on which they end. -/
inductive Onward (u v : Continuation) : α × Reader → α × Reader → Prop
  | on {a : α} {ts : List Token} {r s : Reader} : r.advance.Abreast u v ts s.advance →
      Onward u v (a, r) (a, s)
  | broken {a : α} {r s : Reader} : r.advance.Broken u → s.advance.Broken v →
      Onward u v (a, r) (a, s)

theorem Onward.fst_eq {x y : α × Reader} (h : Onward u v x y) : x.1 = y.1 := by
  cases h <;> rfl

/-- Rounds with the parse that start abreast go onward. -/
structure Parse.Recovers (u v : Continuation) (p : Parse α) : Prop where
  onward : ∀ {t ts r s}, Reader.Abreast u v (t :: ts) r s →
    Onward u v ((script.recover p).run r) ((script.recover p).run s)

theorem Reader.Stands.broken {d : Diagnostic} (h : r.Stands [] u) (hd : d.Due u.current) :
    ((r.report d).synchronize script.startsStatement).advance.Broken u where
  ahead := by
    rw [ahead_advance, ahead_advance]
    exact congrArg List.tail (ahead_synchronize_congr h.ahead)
  due := ⟨d, by simp [synchronize_errors], hd⟩

namespace Parse

/-- What goes on abreast recovers, and what fails is given up. -/
theorem Abreast.onward_bind {p : Parse α} {f : α → Parse β} (h : Abreast u v (p.on r) (p.on s))
    (hf : ∀ a, (f a).Recovers u v) :
    Onward u v ((script.recover (p >>= f)).run r) ((script.recover (p >>= f)).run s) := by
  rw [Grammar.run_recover, Grammar.run_recover, on_bind, on_bind]
  generalize p.on r = x at h ⊢
  generalize p.on s = y at h ⊢
  cases h with
  | @ok a _ _ _ _ hrs =>
    have honward := (hf a).onward hrs
    rwa [Grammar.run_recover, Grammar.run_recover] at honward
  | error hrs hd =>
    obtain ⟨ts', hrs'⟩ := (hrs.report hd).advance_synchronize
    exact .on hrs'
  | due hrs hd he => exact .broken (hrs.left.broken hd) (hrs.right.broken he)

theorem Recovers.pure (a : α) : (pure a : Parse α).Recovers u v := by
  refine ⟨fun hrs => ?_⟩
  rw [Grammar.run_recover, Grammar.run_recover, on_pure, on_pure]
  exact .on hrs.advance

/-- What is read ends the round, or is given up. -/
theorem Abreast.onward {p : Parse α} (h : Abreast u v (p.on r) (p.on s)) :
    Onward u v ((script.recover p).run r) ((script.recover p).run s) := by
  have honward := h.onward_bind Recovers.pure
  rwa [bind_pure] at honward

theorem Inside.recovers_bind {p : Parse α} {f : α → Parse β} (hp : p.Inside u v)
    (hf : ∀ a, (f a).Recovers u v) : (p >>= f).Recovers u v :=
  ⟨fun hrs => (hp.outcome hrs).onward_bind hf⟩

/-- The value of a statement recovers on its own. -/
theorem Anywhere.recovers_value {p : Parse α} {f : Option α → β} (hp : p.Anywhere u v) :
    (liftM Walk.advance >>= fun _ => liftM (script.recover p) >>= fun a? => pure (f a?) :
      Parse β).Recovers u v := by
  refine ⟨fun {t ts r s} hrs => ?_⟩
  rw [Grammar.run_recover, Grammar.run_recover]
  simp only [on_bind, on_lift, on_pure]
  have honward := (hp.outcome hrs.advance).onward
  generalize (script.recover p).run r.advance = x at honward ⊢
  generalize (script.recover p).run s.advance = y at honward ⊢
  cases honward with
  | on hrs => exact .on hrs
  | broken hr hs => exact .broken hr hs

end Parse

/-- **A statement read abreast ends abreast**, or breaks off where the tokens end. -/
theorem Grammar.recovers_stmt {sub : Power → Parse Expr} (hsub : ∀ p, (sub p).Anywhere u v) :
    (script.stmt sub).Recovers u v := by
  have hvalue : (closedExpr sub).Anywhere u v :=
    (hsub .lowest).bind fun _ => .optional_bind (by decide) rfl (.pure _)
  refine Parse.Inside.current.recovers_bind fun t => ?_
  generalize (script.statement t.kind).getD .expr = rule
  cases rule with
  | var =>
    refine Parse.Inside.current.recovers_bind fun t => ?_
    refine (Parse.Inside.expect (by decide) rfl).recovers_bind fun _ => ?_
    refine Parse.Inside.identifier.recovers_bind fun i => ?_
    refine (Parse.Inside.expect (by decide) rfl).recovers_bind fun _ => ?_
    exact hvalue.recovers_value
  | ret => exact Parse.Inside.current.recovers_bind fun t => hvalue.recovers_value
  | expr =>
    refine Parse.Inside.current.recovers_bind fun t => ?_
    exact hvalue.inside.recovers_bind fun _ => .pure _

/-! ## Round after round -/

/-- Some rounds, with the values that they gave. Each one begins before the end of the text. -/
inductive Walk.Rounds (one : Walk (Option α)) : Reader → List α → Reader → Prop
  | refl (r : Reader) : Rounds one r [] r
  | step {r r' : Reader} {as : List α} : r.ahead ≠ [] →
      Rounds one (one.run r).2.advance as r' → Rounds one r ((one.run r).1.toList ++ as) r'

namespace Walk.Rounds

variable {one : Walk (Option α)} {as bs : List α} {r₁ r₂ : Reader}

theorem run (h : Rounds one r as r₁) : (untilKind (fun _ => false) one).run r =
    (as ++ ((untilKind (fun _ => false) one).run r₁).1,
      ((untilKind (fun _ => false) one).run r₁).2) := by
  induction h with
  | refl => rfl
  | step hne _ ih =>
    obtain ⟨t, rest, ht⟩ := List.exists_cons_of_ne_nil hne
    rw [run_untilKind_of_not_stop ht rfl, ih, List.append_assoc]

theorem length_le (h : Rounds one r as r₁) : r₁.ahead.length ≤ r.ahead.length := by
  induction h with
  | refl => exact Nat.le_refl _
  | step hne _ ih => exact Nat.le_trans ih (Nat.le_of_lt (length_advance_run_lt one hne))

/-- There is only one way for rounds to come by somewhere. -/
theorem unique (h₁ : Rounds one r as r₁) (h₂ : Rounds one r bs r₂)
    (hlen : r₁.ahead.length = r₂.ahead.length) : as = bs ∧ r₁ = r₂ := by
  induction h₁ generalizing bs with
  | refl r =>
    cases h₂ with
    | refl => exact ⟨rfl, rfl⟩
    | step hne h₂ =>
      have hle := h₂.length_le
      have hlt := length_advance_run_lt one hne
      omega
  | step hne h₁ ih =>
    cases h₂ with
    | refl =>
      have hle := h₁.length_le
      have hlt := length_advance_run_lt one hne
      omega
    | step _ h₂ =>
      obtain ⟨rfl, rfl⟩ := ih h₂ hlen
      exact ⟨rfl, rfl⟩

end Walk.Rounds

theorem Reader.Abreast.like {r' s' : Reader} (h : r.Abreast u v ts s) (hr : r'.Like r)
    (hs : s'.Like s) : r'.Abreast u v ts s' where
  left := ⟨hr.ahead.trans h.left.ahead, hr.finish.trans h.left.finish⟩
  right := ⟨hs.ahead.trans h.right.ahead, hs.finish.trans h.right.finish⟩
  plain := h.plain
  last := by rw [hr.errors, hs.errors]; exact h.last

theorem Reader.Broken.like {r' : Reader} (h : r.Broken u) (hr : r'.Like r) : r'.Broken u where
  ahead := hr.ahead.trans h.ahead
  due := by rw [hr.errors]; exact h.due

theorem Reader.Like.advance {r' : Reader} (h : r'.Like r) : r'.advance.Like r.advance :=
  ⟨congrArg List.tail h.ahead, h.errors, h.finish⟩

/-- **Two readings of statements that start abreast come both to where the tokens end**, with the
    same statements, or break off there both. -/
theorem Reader.Abreast.rounds {sub : Power → Parse Expr} (hsub : ∀ p, (sub p).Anywhere u v)
    {one : Walk (Option Stmt)} (hone : Walk.Alike one (script.stmt? sub))
    (h : r.Abreast u v ts s) : ∃ ss r' s', Walk.Rounds one r ss r' ∧ Walk.Rounds one s ss s' ∧
      (r'.Abreast u v [] s' ∨ r'.Broken u ∧ s'.Broken v) := by
  induction hn : r.ahead.length using Nat.strongRecOn generalizing ts r s with
  | ind n ih =>
    subst hn
    cases ts with
    | nil => exact ⟨[], r, s, .refl r, .refl s, .inl h⟩
    | cons t ts =>
      have hr : r.ahead ≠ [] := by simp [h.left.ahead]
      have hs : s.ahead ≠ [] := by simp [h.right.ahead]
      have hlt := Walk.length_advance_run_lt one hr
      obtain ⟨hvalue, hlike⟩ := hone r
      obtain ⟨hvalue', hlike'⟩ := hone s
      have honward : Onward u v ((script.stmt? sub).run r) ((script.stmt? sub).run s) :=
        (Grammar.recovers_stmt hsub).onward h
      have hsame : (one.run s).1 = (one.run r).1 := by rw [hvalue, hvalue', honward.fst_eq]
      -- a round more in front of those that come after it
      suffices hrest : ∃ ss r' s', Walk.Rounds one (one.run r).2.advance ss r' ∧
          Walk.Rounds one (one.run s).2.advance ss s' ∧
          (r'.Abreast u v [] s' ∨ r'.Broken u ∧ s'.Broken v) by
        obtain ⟨ss, r', s', hrounds, hrounds', hend⟩ := hrest
        exact ⟨_, r', s', .step hr hrounds, hsame ▸ .step hs hrounds', hend⟩
      generalize (script.stmt? sub).run r = x at honward hlike
      generalize (script.stmt? sub).run s = y at honward hlike'
      cases honward with
      | on hrs => exact ih _ hlt (hrs.like hlike.advance hlike'.advance) rfl
      | broken hr' hs' =>
        exact ⟨[], _, _, .refl _, .refl _,
          .inr ⟨hr'.like hlike.advance, hs'.like hlike'.advance⟩⟩

end

end Scriptlet
