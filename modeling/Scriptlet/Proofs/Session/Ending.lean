/-
  Reading comes to an end, whatever the rules.

  A recursion is given by what one turn of it makes of the rest
  (`EndsWithin`). The turns of the loops are decided by the kinds of the
  tokens in view, the end token's included.
-/
import Mathlib.Logic.Function.Iterate
import Scriptlet.Proofs.Session.Window
import Scriptlet.Proofs.Text.Spelling

namespace Scriptlet

open Grammar (nestingLimit)

/-! ## Recursions -/

section

variable {α β : Type}

/-- The recursion of which `step` is a turn gives `b` at `a` within `k` turns: what comes after
    these, `rest`, is never asked for. -/
def EndsWithin (step : (α → β) → α → β) (k : ℕ) (a : α) (b : β) : Prop :=
  ∀ rest, step^[k] rest a = b

variable {step : (α → β) → α → β} {k n : ℕ} {a a' : α} {b : β}

namespace EndsWithin

theorem now (h : ∀ rest, step rest a = b) : EndsWithin step 1 a b := h

/-- A turn that makes something of what the rest gives at `a'`. -/
theorem turn {f : β → β} (h : ∀ rest, step rest a = f (rest a')) (hrest : EndsWithin step k a' b) :
    EndsWithin step (k + 1) a (f b) := by
  intro rest
  rw [Function.iterate_succ_apply', h, hrest]

theorem mono (h : EndsWithin step k a b) (hkn : k ≤ n) : EndsWithin step n a b := by
  obtain ⟨m, rfl⟩ := Nat.exists_eq_add_of_le hkn
  intro rest
  rw [Function.iterate_add_apply]
  exact h _

/-- However many turns are allowed for, the result is the same. -/
theorem unique {b' : β} (h : EndsWithin step k a b) (h' : EndsWithin step n a b') : b = b' := by
  have hleft := h.mono (Nat.le_max_left k n) fun _ => b
  have hright := h'.mono (Nat.le_max_right k n) fun _ => b
  exact hleft.symm.trans hright

end EndsWithin

end

/-! ## Loops -/

/-- A turn of moving on to where a broken statement may be given up. -/
def Reader.synchronizing (starts : Kind → Bool) (rest : Reader → Reader) (r : Reader) : Reader :=
  if r.current.kind.isTerminator || r.next.kind = .closeBrace || starts r.next.kind then r
  else rest r.advance

/-- A turn of repeating a walk up to a token of a kind that `stop` names. -/
def Walk.repeating (stop : Kind → Bool) (one : Walk (Option α)) (rest : Reader → List α × Reader)
    (r : Reader) : List α × Reader :=
  if r.current.kind = .eof || stop r.current.kind then ([], r)
  else
    let here := one.run r
    let later := rest here.2.advance
    (here.1.toList ++ later.1, later.2)

/-- A turn of going on as long as `rule` has an entry for the kind of the next token. -/
def Parse.repeating (rule : Kind → Option ρ) (body : ρ → α → Parse α)
    (rest : α × Reader → Except Diagnostic α × Reader) (s : α × Reader) :
    Except Diagnostic α × Reader :=
  match rule s.2.next.kind with
  | none => (.ok s.1, s.2)
  | some x =>
    match (body x s.1).on s.2.advance with
    | (.ok b, r) => rest (b, r)
    | (.error d, r) => (.error d, r)

theorem Reader.current_of_nil {r : Reader} (h : r.ahead = []) : r.current = .eof r.finish := by
  rw [current, h, List.headD_nil]

theorem Reader.synchronize_ends (starts : Kind → Bool) (r : Reader) :
    EndsWithin (synchronizing starts) (r.ahead.length + 1) r (r.synchronize starts) := by
  fun_induction synchronize starts r with
  | case1 r hr =>
    refine (EndsWithin.now fun rest => ?_).mono (Nat.le_add_left _ _)
    simp [synchronizing, current_of_nil hr, Kind.isTerminator]
  | case2 r t _ ht hstop =>
    refine (EndsWithin.now fun rest => ?_).mono (Nat.le_add_left _ _)
    rw [synchronizing, current_of_ahead ht, if_pos hstop]
  | case3 r t rest ht hstop ih =>
    have hlength : r.advance.ahead.length + 1 = r.ahead.length := by simp [ht]
    rw [← hlength]
    refine EndsWithin.turn (f := id) (fun rest => ?_) ih
    rw [synchronizing, current_of_ahead ht, if_neg hstop, id]

theorem Walk.untilKind_ends (stop : Kind → Bool) (one : Walk (Option α)) {r : Reader}
    (hr : ∀ t ∈ r.ahead, t.kind ≠ .eof) :
    EndsWithin (repeating stop one) (r.ahead.length + 1) r ((untilKind stop one).run r) := by
  show EndsWithin _ _ _ (rounds stop one r)
  fun_induction rounds stop one r with
  | case1 r hnil =>
    refine (EndsWithin.now fun rest => ?_).mono (Nat.le_add_left _ _)
    simp [repeating, Reader.current_of_nil hnil]
  | case2 r t _ ht hstop =>
    refine (EndsWithin.now fun rest => ?_).mono (Nat.le_add_left _ _)
    simp [repeating, Reader.current_of_ahead ht, hstop]
  | case3 r t rest ht hstop here later ih =>
    have hforward : here.2.advance.ahead <:+ r.ahead :=
      (List.tail_suffix _).trans (one.forward r)
    have hlength : here.2.advance.ahead.length < r.ahead.length :=
      length_advance_run_lt one (by simp [ht])
    have heof : t.kind ≠ .eof := hr t (by simp [ht])
    refine EndsWithin.mono (EndsWithin.turn (f := fun out => (here.1.toList ++ out.1, out.2))
      (fun rest => ?_) (ih fun t ht => hr t (hforward.subset ht))) (Nat.succ_le_succ hlength)
    rw [repeating, Reader.current_of_ahead ht, if_neg (by simp [heof, hstop])]

theorem Parse.whileNext_ends {rule : Kind → Option ρ} (hrule : rule .eof = none)
    (body : ρ → α → Parse α) (a : α) (r : Reader) :
    EndsWithin (repeating rule body) (r.ahead.length + 1) (a, r) ((whileNext rule body a).on r) := by
  show EndsWithin _ _ _ (rounds rule body a r)
  fun_induction rounds rule body a r with
  | case1 a r _ t _ ht hnone =>
    refine (EndsWithin.now fun rest => ?_).mono (Nat.le_add_left _ _)
    simp only [repeating, Reader.next_of_ahead ht, hnone]
  | case2 a r c t rest ht x hsome out b hout ih =>
    have hlength : out.2.ahead.length < r.ahead.length := by
      have hle := ((body x a).on_suffix r.advance).length_le
      simp only [Reader.ahead_advance, ht, List.tail_cons, List.length_cons] at hle ⊢
      exact Nat.lt_succ_of_le hle
    refine EndsWithin.mono (EndsWithin.turn (f := id) (fun rest => ?_) ih)
      (Nat.succ_le_succ hlength)
    have hbody : (body x a).on r.advance = (.ok b, out.2) := Prod.ext hout rfl
    simp only [repeating, Reader.next_of_ahead ht, hsome, hbody, id]
  | case3 a r c t rest ht x hsome out d hout =>
    refine (EndsWithin.now fun rest => ?_).mono (Nat.le_add_left _ _)
    have hbody : (body x a).on r.advance = (.error d, out.2) := Prod.ext hout rfl
    simp only [repeating, Reader.next_of_ahead ht, hsome, hbody]
  | case4 a r hshort =>
    refine (EndsWithin.now fun rest => ?_).mono (Nat.le_add_left _ _)
    have hnext : r.next = .eof r.finish := by
      unfold Reader.next
      rcases hahead : r.ahead with _ | ⟨c, _ | ⟨t, rest⟩⟩
      · rfl
      · rfl
      · exact absurd hahead (hshort c t rest)
    simp only [repeating, hnext, Token.kind_eof, hrule]

/-! ## Grammars -/

namespace Grammar

variable (g : Grammar)

/-- A turn of reading expressions within expressions, where some levels are open. -/
def deepening (rest : ℕ × Power → Parse Expr) : ℕ × Power → Parse Expr
  | (depth, p) =>
    if depth < nestingLimit then g.nested (fun q => rest (depth + 1, q)) p
    else do
      let t ← Walk.current
      throw ⟨.tooDeep nestingLimit, t.position⟩

/-- Reading by the grammar ends, among the tokens `ts` and however `sub` reads what is within. -/
structure Ends (ts : List Token) : Prop where
  /-- Expressions within expressions. -/
  levels : ∀ depth p, EndsWithin g.deepening (nestingLimit - depth + 1) (depth, p)
    (g.expr (nestingLimit - depth) p)
  /-- The operators that an expression goes on with. -/
  operators : ∀ (sub : Power → Parse Expr) p e (r : Reader),
    EndsWithin (Parse.repeating (g.binding p) fun (rule, q) left => rule.read sub left q)
      (r.ahead.length + 1) (e, r) ((g.goOn sub p e).on r)
  /-- Arguments, and likewise parameters. -/
  lists : ∀ {α : Type} (item : Parse α) as (r : Reader),
    EndsWithin (Parse.repeating Parse.comma? fun _ as => return (← item) :: as)
      (r.ahead.length + 1) (as, r)
      ((Parse.whileNext Parse.comma? (fun _ as => return (← item) :: as) as).on r)
  /-- Giving up a broken statement. -/
  recovery : ∀ r : Reader, EndsWithin (Reader.synchronizing g.startsStatement)
    (r.ahead.length + 1) r (r.synchronize g.startsStatement)
  /-- The statements of a block. -/
  blocks : ∀ (sub : Power → Parse Expr) (r : Reader), r.ahead <:+ ts →
    EndsWithin (Walk.repeating (· = .closeBrace) (g.stmt? sub)) (r.ahead.length + 1) r
      ((Walk.untilKind (· = .closeBrace) (g.stmt? sub)).run r)
  /-- The statements of a program. -/
  program : ∀ (sub : Power → Parse Expr) (r : Reader), r.ahead <:+ ts →
    EndsWithin (Walk.repeating (fun _ => false) (g.stmt? sub >>= keep)) (r.ahead.length + 1) r
      ((g.program sub).run r)

theorem levels_end (depth : ℕ) (p : Power) :
    EndsWithin g.deepening (nestingLimit - depth + 1) (depth, p)
      (g.expr (nestingLimit - depth) p) := by
  generalize hlevels : nestingLimit - depth = levels
  induction levels generalizing depth p with
  | zero =>
    refine EndsWithin.now fun rest => ?_
    rw [deepening, if_neg (by omega)]
    rfl
  | succ levels ih =>
    intro rest
    have hsub : (fun q => g.deepening^[levels + 1] rest (depth + 1, q)) = g.expr levels :=
      funext fun q => ih (depth + 1) q (by omega) rest
    rw [Function.iterate_succ_apply', deepening, if_pos (by omega), hsub]
    rfl

/-- **Reading by any grammar ends.** The end token is neither an operator that goes on with an
    expression nor a comma, whatever rules there are for it. -/
theorem ends {ts : List Token} (hts : ∀ t ∈ ts, t.kind ≠ .eof) : g.Ends ts where
  levels := g.levels_end
  operators _ _ := Parse.whileNext_ends rfl _
  lists _ := Parse.whileNext_ends rfl _
  recovery := Reader.synchronize_ends _
  blocks _ _ hr := Walk.untilKind_ends _ _ fun t ht => hts t (hr.subset ht)
  program _ _ hr := Walk.untilKind_ends _ _ fun t ht => hts t (hr.subset ht)

/-- A program ends where no token is left. -/
theorem ahead_program (sub : Power → Parse Expr) (r : Reader) :
    ((g.program sub).run r).2.ahead = [] := by
  show (Walk.rounds _ _ r).2.ahead = []
  fun_induction Walk.rounds (fun _ => false) (g.stmt? sub >>= keep) r with
  | case1 _ hnil => exact hnil
  | case2 _ _ _ _ hstop => cases hstop
  | case3 _ _ _ _ _ _ _ ih => exact ih

end Grammar

/-! ## Sessions -/

namespace Session

end Session

end Scriptlet
