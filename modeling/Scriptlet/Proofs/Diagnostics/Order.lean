/-
  Diagnostics come in the order of the text, and there are no more of them
  than tokens.

  Where an expression is read, no diagnostic is beyond the current token
  (`Reader.Tidy`). A broken statement may be reported at the next one
  (`Reader.Closed`), and the token that it began with pays for that
  (`Reader.Turned`).
-/
import Scriptlet.Proofs.Language.Acceptance
import Scriptlet.Proofs.Reading.Invariant
import Scriptlet.Proofs.Text.Order

namespace Scriptlet

/-! ## Sorted readers -/

/-- In the text that ends at `last`, the tokens to come and the diagnostics reported stand one after
    another, and no diagnostic is beyond the position. -/
structure Reader.Sorted (last : Position) (r : Reader) (p : Position) : Prop where
  finish : r.finish = last
  tokens : (r.ahead ++ [Token.eof r.finish]).Pairwise fun t u =>
    Position.NotAfter last t.position u.position
  errors : r.errors.toList.Pairwise fun d e => Position.NotAfter last d.position e.position
  past : ∀ d ∈ r.errors.toList, Position.NotAfter last d.position p

namespace Reader.Sorted

variable {r r' : Reader} {last p q : Position} {d : Diagnostic}

theorem mono (h : r.Sorted last p) (hpq : Position.NotAfter last p q) : r.Sorted last q where
  finish := h.finish
  tokens := h.tokens
  errors := h.errors
  past d hd := (h.past d hd).trans hpq

theorem current_next (h : r.Sorted last p) :
    Position.NotAfter last r.current.position r.next.position := by
  have htokens := h.tokens
  unfold current next
  generalize r.ahead = ts at htokens ⊢
  rcases ts with _ | ⟨c, _ | ⟨t, rest⟩⟩
  · exact Position.notAfter_refl _ _
  · exact (List.pairwise_cons.1 htokens).1 _ List.mem_cons_self
  · exact (List.pairwise_cons.1 htokens).1 _ List.mem_cons_self

theorem advance (h : r.Sorted last p) : r.advance.Sorted last p where
  finish := h.finish
  tokens := by
    have htokens := h.tokens
    rw [ahead_advance, finish_advance]
    cases hahead : r.ahead with
    | nil => simp
    | cons t rest =>
      rw [hahead] at htokens
      exact htokens.tail
  errors := h.errors
  past := h.past

theorem report (h : r.Sorted last p) (hd : Position.NotAfter last p d.position) :
    (r.report d).Sorted last d.position where
  finish := h.finish
  tokens := h.tokens
  errors := by
    rw [errors_report, Array.toList_push]
    refine List.pairwise_append.2 ⟨h.errors, List.pairwise_singleton _ _, ?_⟩
    intro e he d' hd'
    obtain rfl := List.mem_singleton.1 hd'
    exact (h.past e he).trans hd
  past e he := by
    rw [errors_report, Array.toList_push] at he
    rcases List.mem_append.1 he with he | he
    · exact (h.past e he).trans hd
    · obtain rfl := List.mem_singleton.1 he
      exact Position.notAfter_refl _ _

/-- The log is left aside. -/
theorem like (h : r.Sorted last p) (hlike : r'.Like r) : r'.Sorted last p where
  finish := hlike.finish.trans h.finish
  tokens := by rw [hlike.ahead, hlike.finish]; exact h.tokens
  errors := by rw [hlike.errors]; exact h.errors
  past := by rw [hlike.errors]; exact h.past

end Reader.Sorted

/-- A reader at the start of a text is in order. -/
theorem Reader.sorted_ofText {source : String} (h : source.length < 2 ^ 32) :
    (Reader.ofScanner (.ofText source)).Sorted (Scanner.ofText source).finish
      (Reader.ofScanner (.ofText source)).current.position where
  finish := rfl
  tokens := pairwise_tokenize h
  errors := .nil
  past := by simp [Reader.ofScanner]

/-! ## From one reader to another -/

/-- From `r` to `r'` nothing has come out of order within an expression, and no more diagnostics
    have been added than tokens been passed. -/
structure Reader.Tidy (r r' : Reader) : Prop where
  sorted : ∀ {last}, r.Sorted last r.current.position → r'.Sorted last r'.current.position
  number : r'.errors.size + r'.ahead.tail.length ≤ r.errors.size + r.ahead.tail.length

/-- From `r` to `r'` a statement has been read or given up. -/
structure Reader.Closed (r r' : Reader) : Prop where
  sorted : ∀ {last}, r.Sorted last r.current.position → r'.Sorted last r'.next.position
  number : r'.errors.size + r'.ahead.tail.length ≤ r.errors.size + r.ahead.tail.length + 1

/-- From `r` to `r'` there have been statements, each with the token after it. -/
structure Reader.Turned (r r' : Reader) : Prop where
  sorted : ∀ {last}, r.Sorted last r.current.position → r'.Sorted last r'.current.position
  number : r'.errors.size + r'.ahead.length ≤ r.errors.size + r.ahead.length

namespace Reader

variable {r r' r'' : Reader} {d : Diagnostic}

theorem Tidy.refl (r : Reader) : r.Tidy r := ⟨id, Nat.le_refl _⟩

theorem Tidy.trans (h : r.Tidy r') (h' : r'.Tidy r'') : r.Tidy r'' :=
  ⟨fun hr => h'.sorted (h.sorted hr), h'.number.trans h.number⟩

theorem Tidy.advance (r : Reader) : r.Tidy r.advance where
  sorted h := (h.mono h.current_next).advance
  number := by
    rw [errors_advance, ahead_advance, List.length_tail]
    omega

theorem Tidy.closed (h : r.Tidy r') : r.Closed r' where
  sorted hr := (h.sorted hr).mono (h.sorted hr).current_next
  number := Nat.le_succ_of_le h.number

theorem Tidy.then_closed (h : r.Tidy r') (h' : r'.Closed r'') : r.Closed r'' :=
  ⟨fun hr => h'.sorted (h.sorted hr), h'.number.trans (Nat.succ_le_succ h.number)⟩

/-- A diagnostic at one of the two tokens in view ends the statement. -/
theorem Tidy.report (h : r.Tidy r')
    (hd : d.position = r'.current.position ∨ d.position = r'.next.position) :
    r.Closed (r'.report d) where
  sorted hr := by
    have hr' := h.sorted hr
    rcases hd with hd | hd
    · refine (hr'.report (hd ▸ Position.notAfter_refl _ _)).mono ?_
      exact hd ▸ hr'.current_next
    · have hreport := (hr'.mono hr'.current_next).report (d := d) (hd ▸ Position.notAfter_refl _ _)
      rwa [hd] at hreport
  number := by
    have hle := h.number
    rw [errors_report, ahead_report, Array.size_push]
    omega

theorem Closed.advance (h : r.Closed r') : r.Closed r'.advance where
  sorted hr := by
    have hnext := (h.sorted hr).advance
    exact hnext.mono hnext.current_next
  number := by
    have hle := h.number
    rw [errors_advance, ahead_advance, List.length_tail]
    omega

theorem Closed.synchronize (starts : Kind → Bool) (h : r.Closed r') :
    r.Closed (r'.synchronize starts) := by
  fun_induction Reader.synchronize starts r' with
  | case1 => exact h
  | case2 => exact h
  | case3 _ _ _ _ _ ih => exact ih h.advance

theorem Closed.like (h : r.Closed r') (hlike : r''.Like r') : r.Closed r'' where
  sorted hr := by
    have hnext : r''.next = r'.next := by rw [next, next, hlike.ahead, hlike.finish]
    rw [hnext]
    exact (h.sorted hr).like hlike
  number := by rw [hlike.errors, hlike.ahead]; exact h.number

/-- The token that the statement began with pays for a diagnostic. -/
theorem Closed.turned (h : r.Closed r') (hr : r.ahead ≠ []) : r.Turned r'.advance where
  sorted hsorted := (h.sorted hsorted).advance
  number := by
    have hle := h.number
    have hpos := List.length_pos_iff.2 hr
    rw [List.length_tail, List.length_tail] at hle
    rw [errors_advance, ahead_advance, List.length_tail]
    omega

theorem Turned.refl (r : Reader) : r.Turned r := ⟨id, Nat.le_refl _⟩

theorem Turned.trans (h : r.Turned r') (h' : r'.Turned r'') : r.Turned r'' :=
  ⟨fun hr => h'.sorted (h.sorted hr), h'.number.trans h.number⟩

/-- The opening brace pays for what becomes of the last token in a block. -/
theorem Turned.tidy (h : r.advance.Turned r') : r.Tidy r' where
  sorted hr := h.sorted ((Tidy.advance r).sorted hr)
  number := by
    have hle := h.number
    rw [errors_advance, ahead_advance] at hle
    rw [List.length_tail]
    omega

end Reader

/-! ## Readings within an expression -/

/-- A walk that keeps to the order, and adds no more diagnostics than it passes tokens. -/
class Walk.Tidy (w : Walk α) : Prop where
  tidy : ∀ r : Reader, r.Tidy (w.run r).2

/-- A parse that keeps to the order, and adds no more diagnostics than it passes tokens. -/
class Parse.Tidy (p : Parse α) : Prop where
  tidy : ∀ r : Reader, r.Tidy (Parse.on p r).2

namespace Walk

instance : Tidy current := ⟨fun r => .refl r⟩

instance : Tidy next := ⟨fun r => .refl r⟩

instance : Tidy identifier := ⟨fun r => .refl r⟩

instance : Tidy advance := ⟨fun r => .advance r⟩

instance (k : Kind) : Tidy (optional k) where
  tidy r := by
    rw [run_optional]
    split
    · exact .advance r
    · exact .refl r

end Walk

namespace Parse

instance (a : α) : Tidy (pure a) := ⟨fun r => .refl r⟩

instance (d : Diagnostic) : Tidy (throw d : Parse α) := ⟨fun r => .refl r⟩

instance (w : Walk α) [h : Walk.Tidy w] : Tidy (liftM w) := ⟨h.tidy⟩

instance (p : Parse α) (f : α → Parse β) [hp : Tidy p] [hf : ∀ a, Tidy (f a)] :
    Tidy (p >>= f) where
  tidy r := by
    have hfirst := hp.tidy r
    rw [on_bind]
    generalize p.on r = out at hfirst ⊢
    rcases out with ⟨d | a, r'⟩
    · exact hfirst
    · exact hfirst.trans ((hf a).tidy r')

instance (c : Prop) [Decidable c] (p q : Parse α) [Tidy p] [Tidy q] :
    Tidy (if c then p else q) := by
  split <;> infer_instance

instance (k : Kind) : Tidy (expect k) := by
  unfold expect; infer_instance

instance : Tidy Parse.integer where
  tidy r := by
    simp only [Parse.integer, on_bind, on_lift]
    split <;> exact .refl r

instance (rule : Kind → Option ρ) (body : ρ → α → Parse α) (a : α)
    [h : ∀ x b, Tidy (body x b)] : Tidy (whileNext rule body a) where
  tidy r := by
    show r.Tidy (rounds rule body a r).2
    fun_induction rounds rule body a r with
    | case1 => exact .refl _
    | case2 a r _ _ _ _ x _ out _ _ ih =>
      exact ((Reader.Tidy.advance r).trans ((h x a).tidy _)).trans ih
    | case3 a r _ _ _ _ x _ out _ _ => exact (Reader.Tidy.advance r).trans ((h x a).tidy _)
    | case4 => exact .refl _

instance (item : Parse α) [Tidy item] : Tidy (commaList item) := by
  unfold commaList; infer_instance

instance (item : Parse α) [Tidy item] : Tidy (parenthesised item) := by
  unfold parenthesised; infer_instance

end Parse

/-! ## Statements -/

/-- A diagnostic that comes up is about one of the two tokens in view. -/
def Grammar.inView (g : Grammar) : g.Invariant where
  Holds _ := True
  Tells d r := d.position = r.current.position ∨ d.position = r.next.position
  advance _ := trivial
  report _ _ := trivial
  unexpected _ _ := .inr rfl
  unclosed _ _ := .inl rfl
  noOperand _ _ := .inl rfl
  unreadable _ _ _ := .inl rfl
  tooDeep _ := .inl rfl

/-- A parse that reads a statement, or fails within it. -/
structure Parse.Closes (p : Parse α) : Prop where
  ok : ∀ {r a r'}, p.on r = (.ok a, r') → r.Closed r'
  error : ∀ {r d r'}, p.on r = (.error d, r') → r.Tidy r'

namespace Parse

theorem Tidy.of_on {p : Parse α} [hp : Tidy p] {r r' : Reader} {x : Except Diagnostic α}
    (h : p.on r = (x, r')) : r.Tidy r' := by
  have htidy := hp.tidy r
  rwa [h] at htidy

theorem Closes.of_tidy (p : Parse α) [Tidy p] : p.Closes where
  ok h := (Tidy.of_on h).closed
  error h := Tidy.of_on h

theorem Closes.bind {p : Parse α} {f : α → Parse β} [Tidy p] (hf : ∀ a, (f a).Closes) :
    (p >>= f).Closes where
  ok {r b r'} h := by
    rw [on_bind] at h
    rcases hon : p.on r with ⟨d | a, r₁⟩
    · rw [hon] at h
      cases h
    · rw [hon] at h
      exact (Tidy.of_on hon).then_closed ((hf a).ok h)
  error {r d r'} h := by
    rw [on_bind] at h
    rcases hon : p.on r with ⟨d | a, r₁⟩
    · rw [hon] at h
      cases h
      exact Tidy.of_on hon
    · rw [hon] at h
      exact (Tidy.of_on hon).trans ((hf a).error h)

end Parse

namespace Grammar

variable (g : Grammar)

/-- What fails in a statement is reported, and the statement is given up. -/
theorem closed_recover {p : Parse α} (hp : p.Closes) [hview : Parse.Maintains g.inView p]
    (r : Reader) : r.Closed ((g.recover p).run r).2 := by
  have htells := hview.outcome (r := r) trivial
  rw [run_recover]
  rcases hon : p.on r with ⟨d | a, r'⟩
  · rw [hon] at htells
    exact ((hp.error hon).report htells.2).synchronize _
  · exact hp.ok hon

theorem closes_value {p : Parse α} [Parse.Tidy p] [Parse.Maintains g.inView p] (f : Option α → β) :
    (do let a? ← g.recover p; return f a? : Parse β).Closes where
  ok {r b r'} h := by
    rw [Parse.on_bind, Parse.on_lift] at h
    cases h
    exact g.closed_recover (.of_tidy p) r
  error h := by
    rw [Parse.on_bind, Parse.on_lift] at h
    cases h

section

variable (sub : Power → Parse Expr) [∀ p, Parse.Tidy (sub p)]

instance : Parse.Tidy (closedExpr sub) := by
  unfold closedExpr; infer_instance

instance tidy_read (left : Expr) (p : Power) (rule : OperatorRule) :
    Parse.Tidy (rule.read sub left p) := by
  cases rule <;> (unfold OperatorRule.read; infer_instance)

variable [∀ p, Parse.Maintains g.inView (sub p)]

theorem closes_stmt : (g.stmt sub).Closes := by
  refine .bind fun t => ?_
  cases (g.statement t.kind).getD .expr with
  | var =>
    refine .bind fun t => .bind fun _ => .bind fun name => .bind fun _ => .bind fun _ => ?_
    exact g.closes_value (Stmt.var t name)
  | ret => exact .bind fun t => .bind fun _ => g.closes_value (Stmt.ret t)
  | expr => exact .bind fun t => .of_tidy _

theorem closed_stmt? (r : Reader) : r.Closed ((g.stmt? sub).run r).2 :=
  g.closed_recover (g.closes_stmt sub) r

/-- Round after round, statements are read or given up. -/
theorem turned_rounds (stop : Kind → Bool) {one : Walk (Option Stmt)}
    (hone : Walk.Alike one (g.stmt? sub)) (r : Reader) :
    r.Turned ((Walk.untilKind stop one).run r).2 := by
  show r.Turned (Walk.rounds stop one r).2
  fun_induction Walk.rounds stop one r with
  | case1 => exact .refl _
  | case2 => exact .refl _
  | case3 r t rest hahead hstop here later ih =>
    have hround : r.Closed here.2 := (g.closed_stmt? sub r).like (hone r).2
    exact (hround.turned (by simp [hahead])).trans ih

instance tidy_block : Parse.Tidy (g.block sub) where
  tidy r := by
    have hloop := (g.turned_rounds sub (· = .closeBrace) (.refl _) r.advance).tidy
    rw [on_block_eq]
    dsimp only
    split <;> exact hloop

set_option synthInstance.maxSize 2048 in
instance tidy_readOperand (rule : OperandRule) : Parse.Tidy (g.readOperand sub rule) := by
  cases rule <;> (unfold readOperand; dsimp only; infer_instance)

instance tidy_nested (p : Power) : Parse.Tidy (g.nested sub p) where
  tidy r := by
    simp only [nested, Parse.on_bind, Parse.on_lift]
    split
    · exact .refl r
    · exact Parse.Tidy.tidy r

end

instance tidy_expr (n : ℕ) (p : Power) : Parse.Tidy (g.expr n p) := by
  induction n generalizing p with
  | zero => exact ⟨fun r => .refl r⟩
  | succ n ih => unfold expr; infer_instance

/-- **A program is read in order**, and with no more diagnostics than tokens. -/
theorem turned_program (n : ℕ) (r : Reader) : r.Turned ((g.program (g.expr n)).run r).2 := by
  obtain ⟨one, hone, hprogram⟩ := g.program_eq (g.expr n)
  rw [hprogram]
  exact g.turned_rounds (g.expr n) _ hone r

end Grammar

end Scriptlet
