/-
  Reading leaves the rest of a session as it was: every level that it opens it
  closes again, whatever came of it.
-/
import Scriptlet.Proofs.Reading.Keeps
import Scriptlet.Proofs.Session.Operations

namespace Scriptlet

open Grammar (nestingLimit)

/-- A parse that is given how expressions within it are read. -/
abbrev Reading (α : Type) := (Power → Parse Expr) → Parse α

namespace Session

/-! ## Parses one after another -/

section

variable {α β : Type} {s s' : Session} {a : α} {d : Diagnostic} {p : Parse α}

theorem perform_congr {s₁ : Session} {q : Parse α} (h : p.on s.reader = q.on s₁.reader)
    (hs : s₁ = { s with reader := s₁.reader }) : s.perform p = s₁.perform q := by
  rw [hs]
  exact congrArg (fun out => (out.1, { s with reader := out.2 })) h

/-- A parse is where its reader is, and all else is as it was. -/
theorem perform_eq_iff {x : Except Diagnostic α} : s.perform p = (x, s') ↔
    p.on s.reader = (x, s'.reader) ∧ s' = { s with reader := s'.reader } := by
  constructor
  · intro h
    obtain ⟨hx, rfl⟩ := Prod.mk.inj h
    exact ⟨Prod.ext hx rfl, rfl⟩
  · rintro ⟨hon, hs⟩
    rw [hs]
    exact congrArg (fun out => (out.1, { s with reader := out.2 })) hon

theorem perform_bind_of_ok {f : α → Parse β} (h : s.perform p = (.ok a, s')) :
    s.perform (p >>= f) = s'.perform (f a) := by
  obtain ⟨hon, hs⟩ := perform_eq_iff.1 h
  exact perform_congr (by rw [Parse.on_bind, hon]) hs

theorem perform_bind_of_error {f : α → Parse β} (h : s.perform p = (.error d, s')) :
    s.perform (p >>= f) = (.error d, s') := by
  obtain ⟨hon, hs⟩ := perform_eq_iff.1 h
  exact perform_eq_iff.2 ⟨by rw [Parse.on_bind, hon], hs⟩

theorem perform_recover_of_ok (h : s.perform p = (.ok a, s')) :
    s.perform (liftM (s.grammar.recover p)) = (.ok (some a), s') := by
  obtain ⟨hon, hs⟩ := perform_eq_iff.1 h
  exact perform_eq_iff.2 ⟨by rw [Parse.on_lift, Grammar.run_recover, hon], hs⟩

theorem perform_recover_of_error (h : s.perform p = (.error d, s')) :
    s.perform (liftM (s.grammar.recover p)) = (.ok none, (s'.report d).synchronize) := by
  obtain ⟨hon, hs⟩ := perform_eq_iff.1 h
  rw [hs]
  exact perform_eq_iff.2 ⟨by rw [Parse.on_lift, Grammar.run_recover, hon]; rfl, rfl⟩

end

/-! ## Runs -/

/-- From the session `s` the reading `F` comes to `x`, and to the session `s'`. -/
inductive Runs (g : Grammar) :
    {α : Type} → Reading α → Session → Except Diagnostic α → Session → Prop
  /-- What has no expressions within it opens no levels. -/
  | plain {α : Type} (p : Parse α) (s : Session) :
      Runs g (fun _ => p) s (s.perform p).1 (s.perform p).2
  /-- A level is opened for an expression, and closed whether or not it has been read. -/
  | expr {p : Power} {s s₁ s₂ : Session} {x : Except Diagnostic Expr} :
      s.enter = (.ok (), s₁) → Runs g (fun sub => g.nested sub p) s₁ x s₂ →
      Runs g (fun sub => sub p) s x s₂.leave
  /-- No level is left for an expression. -/
  | refused {p : Power} {s s₁ : Session} {d : Diagnostic} :
      s.enter = (.error d, s₁) → Runs g (fun sub => sub p) s (.error d) s₁
  | bind {α β : Type} {F : Reading α} {G : α → Reading β} {s s₁ s₂ : Session} {a : α}
      {x : Except Diagnostic β} : Runs g F s (.ok a) s₁ → Runs g (G a) s₁ x s₂ →
      Runs g (fun sub => F sub >>= fun a => G a sub) s x s₂
  /-- What comes after a failure is left out. -/
  | fail {α β : Type} {F : Reading α} {G : α → Reading β} {s s₁ : Session} {d : Diagnostic} :
      Runs g F s (.error d) s₁ → Runs g (fun sub => F sub >>= fun a => G a sub) s (.error d) s₁
  | kept {α : Type} {F : Reading α} {s s₁ : Session} {a : α} : Runs g F s (.ok a) s₁ →
      Runs g (fun sub => liftM (g.recover (F sub))) s (.ok (some a)) s₁
  /-- A failure is reported, and the session moves on. -/
  | recovered {α : Type} {F : Reading α} {s s₁ : Session} {d : Diagnostic} :
      Runs g F s (.error d) s₁ →
      Runs g (fun sub => liftM (g.recover (F sub))) s (.ok none) (s₁.report d).synchronize
  /-- A loop is unrolled by a round, and a choice is made: from where the session stands, the one
      reading is the other, however expressions are read. -/
  | unroll {α : Type} {F F' : Reading α} {s s₁ : Session} {x : Except Diagnostic α} :
      (∀ sub, (F sub).on s.reader = (F' sub).on s.reader) → Runs g F' s x s₁ → Runs g F s x s₁

section

variable {α β : Type} {g : Grammar} {s s' : Session} {F : Reading α} {x : Except Diagnostic α}

theorem Runs.advance (h : Runs g F s.advance x s') :
    Runs g (fun sub => do Walk.advance; F sub) s x s' := by
  have hadvance : Runs g (fun _ => (liftM Walk.advance : Parse Unit)) s (.ok ()) s.advance :=
    .plain _ s
  exact .bind hadvance h

theorem enter_of_lt (h : s.depth < nestingLimit) :
    s.enter = (.ok (), { s with depth := s.depth + 1 }) :=
  if_pos h

theorem enter_of_le (h : nestingLimit ≤ s.depth) :
    s.enter = (.error ⟨.tooDeep nestingLimit, s.reader.current.position⟩, s) :=
  if_neg (Nat.not_lt.2 h)

/-- A level that could be opened was left. -/
theorem eq_of_enter_ok (h : s.enter = (.ok (), s')) : s' = { s with depth := s.depth + 1 } := by
  rcases Nat.lt_or_ge s.depth nestingLimit with hlt | hle
  · rw [enter_of_lt hlt] at h
    exact (Prod.mk.inj h).2.symm
  · rw [enter_of_le hle] at h
    cases h

theorem eq_of_enter_error {d : Diagnostic} (h : s.enter = (.error d, s')) : s' = s := by
  rcases Nat.lt_or_ge s.depth nestingLimit with hlt | hle
  · rw [enter_of_lt hlt] at h
    cases h
  · rw [enter_of_le hle] at h
    exact (Prod.mk.inj h).2.symm

/-- A run changes the reader and nothing else. -/
theorem Runs.frame (h : Runs g F s x s') : s' = { s with reader := s'.reader } := by
  induction h with
  | plain p s => rfl
  | expr henter _ ih =>
    -- the level that is closed is the one that was opened
    rw [ih, eq_of_enter_ok henter]
    rfl
  | refused henter => rw [eq_of_enter_error henter]
  | bind _ _ ihF ihG => rw [ihG, ihF]
  | fail _ ih => exact ih
  | kept _ ih => exact ih
  | recovered _ ih =>
    rw [ih]
    rfl
  | unroll _ _ ih => exact ih

theorem Runs.depth_eq (h : Runs g F s x s') : s'.depth = s.depth := by
  rw [h.frame]

theorem Runs.grammar_eq (h : Runs g F s x s') : s'.grammar = s.grammar := by
  rw [h.frame]

theorem Runs.consumed_eq (h : Runs g F s x s') : s'.consumed = s.consumed := by
  rw [h.frame]

theorem Runs.sub_eq (h : Runs g F s x s') : s'.sub = s.sub := by
  rw [h.frame]
  rfl

/-- A run comes to what the session does with the levels that are left handed down. -/
theorem Runs.perform_eq (h : Runs g F s x s') (hg : s.grammar = g) :
    s.perform (F s.sub) = (x, s') := by
  induction h with
  | plain p s => rfl
  | @expr p s s₁ s₂ x henter hrun ih =>
    have hg₁ : s₁.grammar = g := by rw [eq_of_enter_ok henter, ← hg]
    have hnested := ih hg₁
    rw [← hg₁] at hnested
    refine (expr_eq s p).trans ?_
    rw [henter]
    exact congrArg (fun out => (out.1, out.2.leave)) hnested
  | @refused p s s₁ d henter =>
    refine (expr_eq s p).trans ?_
    rw [henter]
  | bind hF hG ihF ihG =>
    have hthen := ihG (hF.grammar_eq.trans hg)
    rw [hF.sub_eq] at hthen
    exact (perform_bind_of_ok (ihF hg)).trans hthen
  | fail _ ih => exact perform_bind_of_error (ih hg)
  | kept _ ih =>
    subst hg
    exact perform_recover_of_ok (ih rfl)
  | recovered _ ih =>
    subst hg
    exact perform_recover_of_error (ih rfl)
  | unroll heq _ ih => exact (perform_congr (heq _) rfl).trans (ih hg)

/-- A run never goes back. -/
theorem Runs.suffix (h : Runs g F s x s') (hg : s.grammar = g) :
    s'.reader.ahead <:+ s.reader.ahead := by
  have hsuffix := (F s.sub).on_suffix s.reader
  rwa [(perform_eq_iff.1 (h.perform_eq hg)).1] at hsuffix

end

/-! ## Every reading is a run -/

/-- From every session that reads by `g` and has `n` levels to spare, reading by `F` is a run. -/
class Followed (g : Grammar) (n : Nat) (F : Reading α) : Prop where
  runs : ∀ s : Session, s.grammar = g → nestingLimit - s.depth = n → ∃ x s', Runs g F s x s'

namespace Followed

section

variable {α β ρ : Type} {g : Grammar} {n : Nat}

theorem runs_bind {F : Reading α} {G : α → Reading β} {s : Session}
    (hF : ∃ x s', Runs g F s x s')
    (hG : ∀ {a s'}, Runs g F s (.ok a) s' → ∃ x s'', Runs g (G a) s' x s'') :
    ∃ x s', Runs g (fun sub => F sub >>= fun a => G a sub) s x s' := by
  obtain ⟨d | a, s', hrun⟩ := hF
  · exact ⟨_, _, .fail hrun⟩
  · obtain ⟨x, s'', hthen⟩ := hG hrun
    exact ⟨x, s'', .bind hrun hthen⟩

instance const (p : Parse α) : Followed g n (fun _ => p) :=
  ⟨fun s _ _ => ⟨_, _, .plain p s⟩⟩

instance bind (F : Reading α) (G : α → Reading β) [hF : Followed g n F]
    [hG : ∀ a, Followed g n (G a)] : Followed g n (fun sub => F sub >>= fun a => G a sub) where
  runs s hg hn :=
    runs_bind (hF.runs s hg hn) fun {a s'} hrun =>
      (hG a).runs s' (hrun.grammar_eq.trans hg) (by rw [hrun.depth_eq, hn])

instance ite (c : Prop) [Decidable c] (F G : Reading α) [hF : Followed g n F]
    [hG : Followed g n G] : Followed g n (fun sub => if c then F sub else G sub) := by
  split
  · exact hF
  · exact hG

instance recover (F : Reading α) [hF : Followed g n F] :
    Followed g n (fun sub => (liftM (g.recover (F sub)) : Parse (Option α))) where
  runs s hg hn := by
    obtain ⟨d | a, s₁, hrun⟩ := hF.runs s hg hn
    · exact ⟨_, _, .recovered hrun⟩
    · exact ⟨_, _, .kept hrun⟩

/-- One round after another is a run, because each round has fewer tokens ahead. -/
instance whileNext (rule : Kind → Option ρ) (body : (Power → Parse Expr) → ρ → α → Parse α) (a : α)
    [hbody : ∀ x b, Followed g n (fun sub => body sub x b)] :
    Followed g n (fun sub => Parse.whileNext rule (body sub) a) where
  runs s hg hn := by
    induction hlen : s.reader.ahead.length using Nat.strongRecOn generalizing s a with
    | ind _ ih =>
      subst hlen
      by_cases hnext : ∃ c t rest x, s.reader.ahead = c :: t :: rest ∧ rule t.kind = some x
      · obtain ⟨c, t, rest, x, hahead, hrule⟩ := hnext
        have hround : ∃ y s', Runs g (fun sub => body sub x a >>= Parse.whileNext rule (body sub))
            s.advance y s' := by
          refine runs_bind ((hbody x a).runs s.advance hg hn) fun {b s'} hrun => ?_
          have hle : s'.reader.ahead.length ≤ s.reader.ahead.tail.length :=
            (hrun.suffix hg).length_le
          refine ih _ ?_ b s' (hrun.grammar_eq.trans hg) (by rw [hrun.depth_eq]; exact hn) rfl
          rw [hahead] at hle ⊢
          exact Nat.lt_succ_of_le hle
        obtain ⟨y, s', hrun⟩ := hround
        refine ⟨y, s', .unroll (fun sub => ?_) hrun.advance⟩
        rw [Parse.on_whileNext_of_some hahead hrule]
        exact (Parse.on_bind _ _ _).symm
      · refine ⟨_, _, .unroll (fun sub => ?_) (.plain (pure a) s)⟩
        refine Parse.on_whileNext_of_none fun c t rest hahead => ?_
        rcases hrule : rule t.kind with _ | x
        · rfl
        · exact absurd ⟨c, t, rest, x, hahead, hrule⟩ hnext

instance untilKind (stop : Kind → Bool) (one : (Power → Parse Expr) → Walk (Option α))
    [hone : Followed g n (fun sub => (liftM (one sub) : Parse (Option α)))] :
    Followed g n (fun sub => (liftM (Walk.untilKind stop (one sub)) : Parse (List α))) where
  runs s hg hn := by
    induction hlen : s.reader.ahead.length using Nat.strongRecOn generalizing s with
    | ind _ ih =>
      subst hlen
      by_cases hgo : ∃ t rest, s.reader.ahead = t :: rest ∧ stop t.kind = false
      · obtain ⟨t, rest, hahead, hstop⟩ := hgo
        have hround : ∃ x s', Runs g (fun sub => do
            let here ← one sub
            Walk.advance
            let later ← Walk.untilKind stop (one sub)
            return here.toList ++ later) s x s' := by
          refine runs_bind (hone.runs s hg hn) fun {a? s'} hrun => ?_
          have hle := (hrun.suffix hg).length_le
          have hlater : ∃ x s'', Runs g (fun sub => liftM (Walk.untilKind stop (one sub)))
              s'.advance x s'' := by
            refine ih _ ?_ s'.advance (hrun.grammar_eq.trans hg) ?_ rfl
            · have hpos : 0 < s.reader.ahead.length := by rw [hahead]; exact Nat.succ_pos _
              have htail : s'.advance.reader.ahead.length = s'.reader.ahead.length - 1 :=
                List.length_tail
              omega
            · exact (congrArg (nestingLimit - ·) hrun.depth_eq).trans hn
          obtain ⟨x, s'', hthen⟩ := runs_bind hlater fun {as s''} _ =>
            ⟨_, _, .plain (pure (a?.toList ++ as)) s''⟩
          exact ⟨x, s'', hthen.advance⟩
        obtain ⟨x, s', hrun⟩ := hround
        refine ⟨x, s', .unroll (fun sub => ?_) hrun⟩
        rw [Parse.on_lift, Walk.run_untilKind_of_not_stop hahead hstop]
        rfl
      · refine ⟨_, _, .unroll (fun sub => ?_) (.plain (pure []) s)⟩
        rw [Parse.on_lift, Walk.run_untilKind_of_stop fun t rest hahead => ?_, Parse.on_pure]
        rcases hstop : stop t.kind
        · exact absurd ⟨t, rest, hahead, hstop⟩ hgo
        · rfl

instance commaList (item : Reading α) [hitem : Followed g n item] :
    Followed g n (fun sub => Parse.commaList (item sub)) := by
  unfold Parse.commaList
  infer_instance

instance parenthesised (item : Reading α) [hitem : Followed g n item] :
    Followed g n (fun sub => Parse.parenthesised (item sub)) := by
  unfold Parse.parenthesised
  infer_instance

end

/-! ## Grammars -/

section

variable {g : Grammar} {n : Nat} [hsub : ∀ p, Followed g n (fun sub => sub p)]

instance closedExpr : Followed g n Grammar.closedExpr := by
  unfold Grammar.closedExpr
  infer_instance

instance read (left : Expr) (p : Power) (rule : OperatorRule) :
    Followed g n (fun sub => rule.read sub left p) := by
  cases rule <;> (unfold OperatorRule.read; infer_instance)

instance readStatement (rule : StatementRule) :
    Followed g n (fun sub => g.readStatement sub rule) := by
  cases rule <;> (unfold Grammar.readStatement; infer_instance)

instance stmt : Followed g n g.stmt := by
  unfold Grammar.stmt
  infer_instance

instance stmt? : Followed g n (fun sub => liftM (g.stmt? sub)) := by
  unfold Grammar.stmt?
  infer_instance

instance block : Followed g n g.block := by
  unfold Grammar.block
  infer_instance

set_option synthInstance.maxSize 2048 in
instance readOperand (rule : OperandRule) :
    Followed g n (fun sub => g.readOperand sub rule) := by
  cases rule <;> (unfold Grammar.readOperand; dsimp only; infer_instance)

instance nested (p : Power) : Followed g n (fun sub => g.nested sub p) := by
  unfold Grammar.nested
  have hrest : ∀ t : Token, Followed g n (fun sub =>
      match g.operand t.kind with
      | none => throw ⟨.noOperand t.kind, t.position⟩
      | some rule => do
        let first ← g.readOperand sub rule
        Parse.whileNext (g.binding p) (fun (rule, q) left => rule.read sub left q) first) := by
    intro t
    rcases g.operand t.kind with _ | rule
    · exact const _
    · dsimp only; infer_instance
  infer_instance

end

/-- An expression is read on a level of its own, and refused where none is left. -/
instance sub (g : Grammar) (n : Nat) (p : Power) : Followed g n (fun sub => sub p) := by
  induction n generalizing p with
  | zero =>
    refine ⟨fun s _ hn => ⟨_, _, .refused (enter_of_le ?_)⟩⟩
    exact Nat.sub_eq_zero_iff_le.1 hn
  | succ n ih =>
    refine ⟨fun s hg hn => ?_⟩
    have hlt : s.depth < nestingLimit := by omega
    have hleft : nestingLimit - (s.depth + 1) = n := by omega
    obtain ⟨x, s', hrun⟩ := (nested p).runs { s with depth := s.depth + 1 } hg hleft
    exact ⟨x, s'.leave, .expr (enter_of_lt hlt) hrun⟩

end Followed

/-! ## Calls -/

/-- A call that reads, and comes to an `α` or fails. -/
inductive Call : Type → Type where
  | expr (p : Power) : Call Expr
  | operandBy (rule : OperandRule) : Call Expr
  | operatorBy (rule : OperatorRule) (left : Expr) (p : Power) : Call Expr
  | stmt : Call Stmt
  | stmtBy (rule : StatementRule) : Call Stmt
  | stmt? : Call (Option Stmt)
  | block : Call Block

/-- What a call reads by. -/
def Call.reading (g : Grammar) : Call α → Reading α
  | .expr p => fun sub => sub p
  | .operandBy rule => fun sub => g.readOperand sub rule
  | .operatorBy rule left p => fun sub => rule.read sub left p
  | .stmt => g.stmt
  | .stmtBy rule => fun sub => g.readStatement sub rule
  | .stmt? => fun sub => liftM (g.stmt? sub)
  | .block => g.block

/-- What a call comes to, and the session after it. -/
def answer (s : Session) : Call α → Except Diagnostic α × Session
  | .expr p => s.expr p
  | .operandBy rule => s.operandBy rule
  | .operatorBy rule left p => s.operatorBy rule left p
  | .stmt => s.stmt
  | .stmtBy rule => s.stmtBy rule
  | .stmt? => (.ok s.stmt?.1, s.stmt?.2)
  | .block => s.block

variable {α : Type}

theorem answer_eq (s : Session) (c : Call α) :
    s.answer c = s.perform (c.reading s.grammar s.sub) := by
  cases c <;> rfl

instance (g : Grammar) (n : Nat) (c : Call α) : Followed g n (c.reading g) := by
  cases c <;> (unfold Call.reading; infer_instance)

instance (g : Grammar) (sub : Power → Parse Expr) [∀ p, Parse.Keeps (sub p)] (c : Call α) :
    Parse.Keeps (c.reading g sub) := by
  cases c <;> (unfold Call.reading; infer_instance)

theorem before_answer (s : Session) (c : Call α) : s.reader.Before (s.answer c).2.reader := by
  have hsub : ∀ p, Parse.Keeps (s.sub p) :=
    fun p => Grammar.keeps_expr s.grammar (nestingLimit - s.depth) p
  rw [answer_eq]
  exact Parse.Keeps.before s.reader

/-- **The runs of a call are what the session answers, and whether or not it fails, a call leaves
    as many levels open as before, the same grammar, and the earlier diagnostics in front.** -/
theorem frame_answer (s : Session) (c : Call α) :
    (∀ x s', Runs s.grammar (c.reading s.grammar) s x s' ↔ s.answer c = (x, s')) ∧
      (s.answer c).2.depth = s.depth ∧ (s.answer c).2.grammar = s.grammar ∧
      (s.answer c).2.consumed = s.consumed ∧
      s.reader.errors.toList <+: (s.answer c).2.reader.errors.toList := by
  have hsound : ∀ {x s'}, Runs s.grammar (c.reading s.grammar) s x s' → s.answer c = (x, s') :=
    fun hrun => (answer_eq s c).trans (hrun.perform_eq rfl)
  have hfollowed : Followed s.grammar (nestingLimit - s.depth) (c.reading s.grammar) :=
    inferInstance
  obtain ⟨x, s', hrun⟩ := hfollowed.runs s rfl rfl
  have hanswer := hsound hrun
  refine ⟨fun y s'' => ⟨hsound, fun h => ?_⟩, ?_, ?_, ?_, before_answer s c⟩
  · obtain ⟨rfl, rfl⟩ := Prod.mk.inj (hanswer.symm.trans h)
    exact hrun
  · rw [hanswer]; exact hrun.depth_eq
  · rw [hanswer]; exact hrun.grammar_eq
  · rw [hanswer]; exact hrun.consumed_eq

end Session

end Scriptlet
