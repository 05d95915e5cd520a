/-
  Where tokens stand, and where they do if the text begins somewhere else.
-/
import Mathlib.Algebra.Group.Nat.Defs
import Scriptlet.Proofs.Text.Joining

namespace Scriptlet

/-! ## The order of positions -/

/-- Positions are ordered by line, and on a line by column. -/
instance : LT Position :=
  ⟨fun p q => p.line < q.line ∨ p.line = q.line ∧ p.column < q.column⟩

instance : LE Position :=
  ⟨fun p q => p.line < q.line ∨ p.line = q.line ∧ p.column ≤ q.column⟩

namespace Position

instance (p q : Position) : Decidable (p < q) :=
  inferInstanceAs (Decidable (p.line < q.line ∨ p.line = q.line ∧ p.column < q.column))

instance (p q : Position) : Decidable (p ≤ q) :=
  inferInstanceAs (Decidable (p.line < q.line ∨ p.line = q.line ∧ p.column ≤ q.column))

variable {p q r : Position} {cs : List Char} {n : Nat}

theorem lt_trans (h : p < q) (h' : q < r) : p < r := by
  rcases h with h | ⟨h, hc⟩ <;> rcases h' with h' | ⟨h', hc'⟩
  · exact .inl (UInt32.lt_trans h h')
  · exact .inl (h' ▸ h)
  · exact .inl (h ▸ h')
  · exact .inr ⟨h.trans h', UInt32.lt_trans hc hc'⟩

theorem le_refl (p : Position) : p ≤ p :=
  .inr ⟨rfl, UInt32.le_refl _⟩

theorem le_of_lt (h : p < q) : p ≤ q := by
  rcases h with h | ⟨h, hc⟩
  · exact .inl h
  · exact .inr ⟨h, UInt32.le_of_lt hc⟩

theorem le_trans (h : p ≤ q) (h' : q ≤ r) : p ≤ r := by
  rcases h with h | ⟨h, hc⟩ <;> rcases h' with h' | ⟨h', hc'⟩
  · exact .inl (UInt32.lt_trans h h')
  · exact .inl (h' ▸ h)
  · exact .inl (h ▸ h')
  · exact .inr ⟨h.trans h', UInt32.le_trans hc hc'⟩

/-- Neither line nor column is beyond `n`. -/
structure AtMost (p : Position) (n : Nat) : Prop where
  line : p.line.toNat ≤ n
  column : p.column.toNat ≤ n

theorem atMost_start : start.AtMost 1 := ⟨Nat.le_refl 1, Nat.le_refl 1⟩

theorem AtMost.step (h : p.AtMost n) (c : Char) : (p.step c).AtMost (n + 1) := by
  have hline := h.line
  have hcolumn := h.column
  unfold Position.step
  split
  · refine ⟨?_, ?_⟩
    · rw [UInt32.toNat_add]
      exact Nat.le_trans (Nat.mod_le _ _) (Nat.add_le_add_right hline 1)
    · show 1 ≤ n + 1
      omega
  · refine ⟨Nat.le_succ_of_le hline, ?_⟩
    rw [UInt32.toNat_add]
    exact Nat.le_trans (Nat.mod_le _ _) (Nat.add_le_add_right hcolumn 1)

theorem AtMost.after (h : p.AtMost n) (cs : List Char) : (p.after cs).AtMost (n + cs.length) := by
  induction cs generalizing p n with
  | nil => exact h
  | cons c cs ih =>
    have hafter := ih (h.step c)
    rwa [Nat.add_assoc, Nat.add_comm 1] at hafter

theorem AtMost.lt_step (h : p.AtMost n) (hn : n + 1 < 2 ^ 32) (c : Char) : p < p.step c := by
  have hline := h.line
  have hcolumn := h.column
  unfold Position.step
  split
  · refine .inl ?_
    rw [UInt32.lt_iff_toNat_lt, UInt32.toNat_add, show (1 : UInt32).toNat = 1 from rfl,
      Nat.mod_eq_of_lt (by omega)]
    omega
  · refine .inr ⟨rfl, ?_⟩
    rw [UInt32.lt_iff_toNat_lt, UInt32.toNat_add, show (1 : UInt32).toNat = 1 from rfl,
      Nat.mod_eq_of_lt (by omega)]
    omega

/-- Going on, one comes to later positions. -/
theorem AtMost.lt_after (h : p.AtMost n) (hcs : cs ≠ []) (hn : n + cs.length < 2 ^ 32) :
    p < p.after cs := by
  induction cs generalizing p n with
  | nil => exact absurd rfl hcs
  | cons c cs ih =>
    rw [List.length_cons] at hn
    have hstep : p < p.step c := h.lt_step (by omega) c
    by_cases hnil : cs = []
    · subst hnil
      exact hstep
    · exact lt_trans hstep (ih (h.step c) hnil (by omega))

end Position

/-! ## The places of tokens -/

namespace Scanner

variable {s s' : Scanner} {t : Token} {n : Nat}

theorem take_first (c : Char) (cs : List Char) :
    (c :: cs).take (Lexeme.first c cs).chars.length = (Lexeme.first c cs).chars := by
  obtain ⟨rest, hrest⟩ : ∃ rest, c :: cs = (Lexeme.first c cs).chars ++ rest :=
    ⟨_, (Lexeme.first_append c cs).symm⟩
  rw [hrest, List.take_left]

/-- What reading a token takes from the text: blanks, and the literal of the token. -/
theorem split_of_next? (h : s.next? = some (t, s')) : ∃ blanks,
    (∀ c ∈ blanks, isBlank c = true) ∧
      s.rest = blanks ++ t.literal.toList ++ s'.rest ∧ t.literal.toList ≠ [] ∧
      t.position = s.position.after blanks ∧
      s'.position = s.position.after (blanks ++ t.literal.toList) := by
  obtain ⟨c, cs, hrest, -, rfl, rfl⟩ := next?_eq_some h
  have hblanks : s.rest.takeWhile isBlank ++ (c :: cs) = s.rest := by
    rw [← hrest]
    exact List.takeWhile_append_dropWhile
  refine ⟨s.rest.takeWhile isBlank, fun c hc => List.mem_takeWhile_imp hc, ?_, ?_, rfl, ?_⟩
  · rw [skip, hrest, String.toList_ofList, List.append_assoc, Lexeme.first_append, hblanks]
  · rw [String.toList_ofList]
    exact Lexeme.first_ne_nil c cs
  · rw [skip, hrest, String.toList_ofList, take_first, Position.after_append]
    rfl

/-- A token stands where its literal is found in the text. -/
theorem place_of_mem_ahead (h : t ∈ s.ahead) : ∃ before rest,
    s.rest = before ++ t.literal.toList ++ rest ∧ t.literal.toList ≠ [] ∧
      t.position = s.position.after before := by
  fun_induction ahead s with
  | case1 => cases h
  | case2 s u s' hnext ih =>
    obtain ⟨blanks, -, hrest, hne, hposition, hposition'⟩ := split_of_next? hnext
    rcases List.mem_cons.1 h with rfl | h
    · exact ⟨blanks, s'.rest, hrest, hne, hposition⟩
    · obtain ⟨before, rest, hsplit, hne, hplace⟩ := ih h
      refine ⟨blanks ++ u.literal.toList ++ before, rest, ?_, hne, ?_⟩
      · rw [hrest, hsplit]
        simp only [List.append_assoc]
      · rw [hplace, hposition', Position.after_append _ _ before]

/-- The tokens of a text that is short enough stand one after another. -/
theorem pairwise_ahead (hs : s.position.AtMost n) (hn : n + s.rest.length ≤ 2 ^ 32) :
    s.ahead.Pairwise fun t u => t.position < u.position := by
  fun_induction ahead s generalizing n with
  | case1 => exact .nil
  | case2 s t s' hnext ih =>
    obtain ⟨blanks, -, hrest, hne, hposition, hposition'⟩ := split_of_next? hnext
    rw [hrest, List.append_assoc, List.length_append, List.length_append] at hn
    refine List.pairwise_cons.2 ⟨fun u hu => ?_, ih (hposition' ▸ hs.after _) ?_⟩
    · obtain ⟨before, rest, hsplit, hne', hplace⟩ := place_of_mem_ahead hu
      have hshort := congrArg List.length hsplit
      have hpos := List.length_pos_iff.2 hne'
      rw [List.length_append, List.length_append] at hshort
      rw [hplace, hposition', hposition, Position.after_append, ← Position.after_append]
      refine (hs.after blanks).lt_after (by simp [hne]) ?_
      rw [List.length_append]
      omega
    · rw [List.length_append]
      omega

end Scanner

/-! ## A text that begins somewhere else -/

/-- The place `p` of a text that begins at `base`. -/
def Position.shift (base p : Position) : Position where
  line := base.line + (p.line - 1)
  column := if p.line = 1 then base.column + (p.column - 1) else p.column

/-- The token at another place. -/
def Token.move (m : Position → Position) (t : Token) : Token := { t with position := m t.position }

namespace Position

variable {base p : Position} {cs : List Char} {n : Nat}

theorem shift_start (base : Position) : base.shift start = base := by
  simp [shift, start]

theorem shift_step (hp : p.line ≠ 0) (c : Char) : base.shift (p.step c) = (base.shift p).step c := by
  unfold step
  split
  · have hline : p.line + 1 ≠ 1 := by
      intro h
      exact hp (by simpa using h)
    simp only [shift, if_neg hline, mk.injEq, and_true]
    grind
  · simp only [shift, mk.injEq, true_and]
    split
    · grind
    · rfl

theorem AtMost.line_step_ne_zero (h : p.AtMost n) (hn : n + 1 < 2 ^ 32) (hp : p.line ≠ 0)
    (c : Char) : (p.step c).line ≠ 0 := by
  unfold Position.step
  split
  · intro hzero
    have hline := h.line
    have hsum : (p.line + 1).toNat = p.line.toNat + 1 := by
      rw [UInt32.toNat_add, show (1 : UInt32).toNat = 1 from rfl, Nat.mod_eq_of_lt (by omega)]
    rw [show p.line + 1 = 0 from hzero] at hsum
    simp at hsum
  · exact hp

theorem AtMost.shift_after (h : p.AtMost n) (hn : n + cs.length < 2 ^ 32) (hp : p.line ≠ 0) :
    base.shift (p.after cs) = (base.shift p).after cs := by
  induction cs generalizing p n with
  | nil => rfl
  | cons c cs ih =>
    rw [List.length_cons] at hn
    rw [after_cons, after_cons, ih (h.step c) (by omega) (h.line_step_ne_zero (by omega) hp c),
      shift_step hp]

/-- The place in a text that begins at `base`. -/
theorem shift_after (hn : cs.length + 1 < 2 ^ 32) :
    base.shift (start.after cs) = base.after cs := by
  rw [atMost_start.shift_after (by omega) (by decide), shift_start]

end Position

namespace Scanner

/-- `m` takes each place in what is left of the text to where it is if that begins at `q`. -/
def Moves (m : Position → Position) (s : Scanner) (q : Position) : Prop :=
  ∀ cs, cs <+: s.rest → m (s.position.after cs) = q.after cs

variable {m : Position → Position} {s : Scanner} {q : Position}

theorem Moves.skipBlanks (h : s.Moves m q) :
    s.skipBlanks.Moves m (Scanner.mk s.rest q).skipBlanks.position := by
  intro cs hcs
  rw [Scanner.skipBlanks, ← Position.after_append, h]
  · exact Position.after_append _ _ _
  · obtain ⟨rest, hrest⟩ := hcs
    refine ⟨rest, ?_⟩
    rw [List.append_assoc, hrest]
    exact List.takeWhile_append_dropWhile

theorem Moves.skip (h : s.Moves m q) (n : Nat) :
    (s.skip n).Moves m ((Scanner.mk s.rest q).skip n).position := by
  intro cs hcs
  rw [Scanner.skip, ← Position.after_append, h]
  · exact Position.after_append _ _ _
  · obtain ⟨rest, hrest⟩ := hcs
    refine ⟨rest, ?_⟩
    rw [List.append_assoc, hrest]
    exact List.take_append_drop n s.rest

/-- **Places move, tokens stay.** -/
theorem Moves.ahead (h : s.Moves m q) :
    (Scanner.mk s.rest q).ahead = s.ahead.map (Token.move m) := by
  fun_induction Scanner.ahead s generalizing q with
  | case1 s hnext =>
    refine ahead_eq_nil ?_
    unfold next? lexeme? at hnext ⊢
    split at hnext
    · next hnil => rw [show (Scanner.mk s.rest q).skipBlanks.rest = [] from hnil]
    · cases hnext
  | case2 s t s' hnext ih =>
    obtain ⟨c, cs, hrest, -, rfl, rfl⟩ := next?_eq_some hnext
    have hrest' : (Scanner.mk s.rest q).skipBlanks.rest = c :: cs := hrest
    have hlater := ih (h.skipBlanks.skip (Lexeme.first c cs).chars.length)
    have hplace : m s.skipBlanks.position = (Scanner.mk s.rest q).skipBlanks.position :=
      h.skipBlanks [] List.nil_prefix
    rw [List.map_cons, ← hlater, Token.move, hplace]
    refine ahead_eq_cons ?_
    rw [next?, lexeme?]
    split
    · next hnil => cases hnil.symm.trans hrest'
    · next c' cs' hcons =>
      obtain ⟨rfl, rfl⟩ := List.cons.inj (hcons.symm.trans hrest')
      rfl

theorem Moves.finish (h : s.Moves m q) : (Scanner.mk s.rest q).finish = m s.finish :=
  (h s.rest (List.prefix_refl _)).symm

/-- A text is the same wherever it begins. -/
theorem moves_shift {cs : List Char} (base : Position) (h : cs.length + 1 < 2 ^ 32) :
    (Scanner.mk cs .start).Moves base.shift base := by
  intro ds hds
  refine Position.shift_after ?_
  have hle := hds.length_le
  simp only at hle
  omega

end Scanner

end Scriptlet
