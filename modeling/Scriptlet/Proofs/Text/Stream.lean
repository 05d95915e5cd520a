/-
  The tokens that a scanner gives, one after another and for ever.
-/
import Scriptlet.Proofs.Text.Joining

namespace Scriptlet

namespace Scanner

/-- The scanner after it has been asked for `n` tokens. -/
def later (s : Scanner) : ℕ → Scanner
  | 0 => s
  | n + 1 => (s.later n).next.2

/-- The token that the scanner gives after `n` others. -/
def token (s : Scanner) (n : ℕ) : Token :=
  (s.later n).next.1

/-! ## One token -/

/-- At the end of the text nothing but blanks is left. -/
theorem rest_skipBlanks_of_next? {s : Scanner} (h : s.next? = none) : s.skipBlanks.rest = [] := by
  unfold next? lexeme? at h
  split at h
  · next hrest => exact hrest
  · cases h

theorem next_of_none {s : Scanner} (h : s.next? = none) :
    s.next = (.eof s.finish, ⟨[], s.finish⟩) := by
  have hrest := rest_skipBlanks_of_next? h
  have hfinish : s.skipBlanks.position = s.finish := by
    rw [← finish_skipBlanks, finish, hrest]
    rfl
  have hskip : s.skipBlanks = ⟨[], s.finish⟩ := by rw [← hrest, ← hfinish]
  rw [next, h, hskip]
  rfl

theorem next_of_some {s s' : Scanner} {t : Token} (h : s.next? = some (t, s')) :
    s.next = (t, s') := by
  rw [next, h]
  rfl

theorem ahead_atEnd (p : Position) : (Scanner.mk [] p).ahead = [] := ahead_eq_nil rfl

theorem next_fst (s : Scanner) : s.next.1 = s.ahead.headD (.eof s.finish) := by
  cases h : s.next? with
  | none => rw [next_of_none h, ahead_eq_nil h, List.headD_nil]
  | some out => rw [next_of_some h, ahead_eq_cons h, List.headD_cons]

theorem ahead_next (s : Scanner) : s.next.2.ahead = s.ahead.tail := by
  cases h : s.next? with
  | none => rw [next_of_none h, ahead_eq_nil h, ahead_atEnd, List.tail_nil]
  | some out => rw [next_of_some h, ahead_eq_cons h, List.tail_cons]

theorem finish_next (s : Scanner) : s.next.2.finish = s.finish := by
  cases h : s.next? with
  | none => rw [next_of_none h]; rfl
  | some out => rw [next_of_some h, finish_of_next? h]

/-! ## Any number of tokens -/

variable (s : Scanner) (n : ℕ)

theorem later_succ : s.later (n + 1) = s.next.2.later n := by
  induction n with
  | zero => rfl
  | succ n ih => rw [later, ih, later]

theorem ahead_later : (s.later n).ahead = s.ahead.drop n := by
  induction n with
  | zero => rfl
  | succ n ih => rw [later, ahead_next, ih, List.tail_drop]

theorem lexemes_later : lexemes (s.later n).rest = (lexemes s.rest).drop n := by
  rw [← map_lexeme_ahead, ahead_later, List.map_drop, map_lexeme_ahead]

theorem finish_later : (s.later n).finish = s.finish := by
  induction n with
  | zero => rfl
  | succ n ih => rw [later, finish_next, ih]

/-- **A scanner gives its tokens in order, and then the end token for ever.** -/
theorem token_eq : s.token n = (s.ahead.drop n).headD (.eof s.finish) := by
  rw [token, next_fst, ahead_later, finish_later]

/-- The tokens with the end token last are those a scanner gives one after another. -/
theorem ahead_append_eof :
    s.ahead ++ [.eof s.finish] = (List.range (s.ahead.length + 1)).map s.token := by
  refine List.ext_getElem (by simp) fun n hn _ => ?_
  rw [List.getElem_map, List.getElem_range, token_eq, List.headD_eq_head?_getD, List.head?_drop]
  by_cases hlast : n < s.ahead.length
  · rw [List.getElem_append_left hlast, List.getElem?_eq_getElem hlast, Option.getD_some]
  · rw [List.getElem_append_right (Nat.le_of_not_lt hlast), List.getElem_singleton,
      List.getElem?_eq_none (Nat.le_of_not_lt hlast), Option.getD_none]

/-- Asked again after its last token, a scanner stays at the end of its text. -/
theorem later_eq (h : s.ahead.length < n) : s.later n = ⟨[], s.finish⟩ := by
  cases n with
  | zero => omega
  | succ n =>
    have hnil : (s.later n).ahead = [] := by
      rw [ahead_later]
      exact List.drop_eq_nil_of_le (by omega)
    have hnone : (s.later n).next? = none := by
      cases hnext : (s.later n).next? with
      | none => rfl
      | some out => cases (ahead_eq_cons hnext).symm.trans hnil
    rw [later, next_of_none hnone, finish_later]

end Scanner

end Scriptlet
