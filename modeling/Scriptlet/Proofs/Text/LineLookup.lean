/-
  The line of a place in a text. Positions count line feeds, while a line is
  looked up in the whole text and its end may take a carriage return with it;
  the two agree wherever a token stands.
-/
import Scriptlet.Proofs.Text.LongestMatch
import Scriptlet.Report

namespace Scriptlet

/-! ## Lines -/

namespace Text

variable {c : Char} {cs : List Char}

theorem firstLine_cons (hc : c ≠ '\n') (hreturn : c = '\r' → cs.head? ≠ some '\n') :
    firstLine (c :: cs) = c :: firstLine cs := by
  rw [firstLine]
  · exact hc
  · rintro _ rfl rfl
    exact hreturn rfl rfl

/-- Characters without a line feed belong to the line, unless the last of them is a carriage
    return, which the line end may take. -/
theorem firstLine_append (hcs : '\n' ∉ cs) (hlast : cs.getLast? ≠ some '\r') (ds : List Char) :
    firstLine (cs ++ ds) = cs ++ firstLine ds := by
  induction cs with
  | nil => rfl
  | cons c cs ih =>
    rw [List.mem_cons, not_or] at hcs
    cases cs with
    | nil =>
      rw [List.getLast?_singleton] at hlast
      exact firstLine_cons (Ne.symm hcs.1) fun hc => absurd (congrArg some hc) hlast
    | cons d cs =>
      rw [List.getLast?_cons_cons] at hlast
      have hreturn : c = '\r' → (d :: cs ++ ds).head? ≠ some '\n' := by
        rintro - hd
        exact hcs.2 (List.mem_cons.2 (.inl (Option.some.inj hd).symm))
      rw [List.cons_append, firstLine_cons (Ne.symm hcs.1) hreturn, ih hcs.2 hlast]
      rfl

theorem newline_notMem_rtakeWhile (cs : List Char) : '\n' ∉ cs.rtakeWhile (· ≠ '\n') := by
  intro h
  simpa using List.mem_rtakeWhile_imp h

/-- **The line feeds before a place tell its line**, which begins with what stands after the last
    of them. -/
theorem nthLine_count_add (cs ds : List Char) (n : ℕ) :
    nthLine (cs.count '\n' + n) (cs ++ ds) = nthLine n (cs.rtakeWhile (· ≠ '\n') ++ ds) := by
  -- the last line feed is found from the end
  induction cs using List.reverseRecOn generalizing ds n with
  | nil => simp
  | append_singleton cs c ih =>
    rw [List.append_assoc, List.singleton_append]
    by_cases hc : c = '\n'
    · subst hc
      rw [List.rtakeWhile_concat_neg _ _ _ (by simp), List.count_append, List.count_singleton_self,
        Nat.add_assoc, Nat.add_comm 1, ih, nthLine_append (newline_notMem_rtakeWhile cs),
        List.nil_append]
    · have hcount : (cs ++ [c]).count '\n' = cs.count '\n' := by simp [hc]
      rw [List.rtakeWhile_concat_pos _ _ _ (by simpa), hcount, ih, List.append_assoc,
        List.singleton_append]

theorem length_firstLine_le (cs : List Char) : (firstLine cs).length ≤ cs.length := by
  fun_induction firstLine cs with
  | case1 => exact Nat.le_refl _
  | case2 => exact Nat.zero_le _
  | case3 => exact Nat.zero_le _
  | case4 c cs _ _ ih => exact Nat.succ_le_succ ih

/-- A line is not longer than the text. -/
theorem length_nthLine_le (n : ℕ) (cs : List Char) : (nthLine n cs).length ≤ cs.length := by
  fun_induction nthLine n cs with
  | case1 cs => exact length_firstLine_le cs
  | case2 => exact Nat.le_refl _
  | case3 _ _ ih => exact Nat.le_succ_of_le ih
  | case4 _ _ _ _ ih => exact Nat.le_succ_of_le ih

end Text

/-! ## Places -/

variable {text : String} {cs ds : List Char}

/-- **What is looked up after the characters `cs` of a text.** -/
theorem lineAt_after (htext : text.toList = cs ++ ds) (hshort : cs.length + 1 < 2 ^ 32) :
    lineAt text (Position.start.after cs) =
      ⟨1 + cs.count '\n', Text.firstLine (cs.rtakeWhile (· ≠ '\n') ++ ds),
        (cs.rtakeWhile (· ≠ '\n')).length⟩ := by
  have hline := place_line_le cs
  have hcolumn := place_column_le cs
  obtain ⟨hl, hc⟩ := Prod.mk.inj (Position.toNat_ofPlace (p := place cs) (by omega) (by omega))
  have hnumber : max (1 + cs.count '\n') 1 = 1 + cs.count '\n' := Nat.max_eq_left (by omega)
  have hindex : 1 + cs.count '\n' - 1 = cs.count '\n' + 0 := by omega
  rw [Position.start_after, lineAt, hl, hc, htext]
  simp only [hnumber, hindex, Text.nthLine_count_add, Text.nthLine, Nat.add_sub_cancel_left]

/-! ## Tokens -/

theorem isBlank_of_isWordPart {c : Char} (h : isWordPart c = true) : isBlank c = false := by
  rcases isWordPart_iff.1 h with hletter | hdigit
  · exact isBlank_of_isWordStart (isWordStart_iff.2 hletter)
  · exact isBlank_of_isDigit (isDigit_iff.2 hdigit)

/-- A lexeme that begins with no blank has none. -/
theorem Lexeme.isBlank_of_mem_first {c : Char} (h : isBlank c = false) (cs : List Char) :
    ∀ d ∈ (first c cs).chars, isBlank d = false := by
  rcases first_cases c cs with ⟨-, heq⟩ | ⟨-, heq⟩ | ⟨hw, hdigit, -⟩
  · rw [heq, word, List.forall_mem_cons]
    exact ⟨h, fun d hd => isBlank_of_isWordPart (List.mem_takeWhile_imp hd)⟩
  · rw [heq, List.forall_mem_cons]
    exact ⟨h, fun d hd => isBlank_of_isDigit (List.mem_takeWhile_imp hd)⟩
  · rcases first_symbol hw hdigit cs with ⟨-, heq, -⟩ | ⟨-, heq, -⟩ | heq
    · rw [heq]
      simp [isBlank]
    · rw [heq]
      simp [isBlank]
    · rw [heq, List.forall_mem_singleton]
      exact h

theorem Token.Spelled.isBlank_eq_false {t : Token} (h : t.Spelled) :
    ∀ c ∈ t.literal.toList, isBlank c = false := by
  obtain ⟨c, cs, hlit, hblank, hfirst⟩ := h
  have hall := Lexeme.isBlank_of_mem_first hblank cs
  rw [hfirst] at hall
  rwa [hlit]

theorem mem_tokenize {t : Token} : t ∈ tokenize text ↔
    t ∈ (Scanner.ofText text).ahead ∨ t = .eof (Scanner.ofText text).finish := by
  rw [tokenize, List.mem_append, List.mem_singleton]

/-- **A token stands whole in the line that is looked up for it**, between what is before it there
    and what is after it. -/
theorem lineAt_of_mem_ahead {t : Token} (h : text.length < 2 ^ 32)
    (ht : t ∈ (Scanner.ofText text).ahead) : ∃ before rest,
      text.toList = before ++ t.literal.toList ++ rest ∧
      t.position = Position.start.after before ∧
      t.position.line.toNat = 1 + before.count '\n' ∧
      lineAt text t.position = ⟨1 + before.count '\n',
        before.rtakeWhile (· ≠ '\n') ++ (t.literal.toList ++ Text.firstLine rest),
        (before.rtakeWhile (· ≠ '\n')).length⟩ := by
  obtain ⟨before, rest, hsplit, hne, hposition⟩ := Scanner.place_of_mem_ahead ht
  have htext : text.toList = before ++ (t.literal.toList ++ rest) := by
    rw [← List.append_assoc]
    exact hsplit
  have hlength : before.length + 1 ≤ text.length := by
    have hpos := List.length_pos_iff.2 hne
    rw [← String.length_toList, htext, List.length_append, List.length_append]
    omega
  have hblank := (Scanner.spelled_ahead _ t ht).isBlank_eq_false
  have hline : '\n' ∉ t.literal.toList := fun hc => by cases hblank _ hc
  have hlast : (before.rtakeWhile (· ≠ '\n') ++ t.literal.toList).getLast? ≠ some '\r' := by
    rw [List.getLast?_append_of_ne_nil _ hne]
    intro hc
    cases hblank _ (List.mem_of_getLast? hc)
  have hnumber : t.position.line.toNat = 1 + before.count '\n' := by
    have hle := place_line_le before
    rw [hposition, Scanner.ofText, Position.start_after]
    exact UInt32.toNat_ofNat_of_lt' (show (place before).1 < 2 ^ 32 by omega)
  refine ⟨before, rest, hsplit, hposition, hnumber, ?_⟩
  rw [hposition, Scanner.ofText, lineAt_after htext (by omega), ← List.append_assoc,
    Text.firstLine_append _ hlast, List.append_assoc]
  rw [List.mem_append, not_or]
  exact ⟨Text.newline_notMem_rtakeWhile before, hline⟩

/-- The end of a text is not past its last line. -/
theorem offset_finish_le (text : String) :
    (lineAt text (Scanner.ofText text).finish).offset ≤
      (text.toList.rtakeWhile (· ≠ '\n')).length := by
  -- a column that fits into no word is smaller than the place it stands for
  have hcolumn : (Position.ofPlace (place text.toList)).column.toNat ≤ (place text.toList).2 :=
    Nat.mod_le _ _
  rw [Scanner.finish_ofText, lineAt]
  exact Nat.sub_le_iff_le_add'.2 hcolumn

/-- **Positions and lines agree**: a token is found in its line from the offset of its position on,
    and the offset of the end is not past the last line. -/
theorem lineAt_tokenize (h : text.length < 2 ^ 32) : ∀ t ∈ tokenize text,
    let l := lineAt text t.position
    (t.kind ≠ .eof → l.number = t.position.line.toNat ∧
      t.literal.toList <+: l.chars.drop l.offset) ∧
    (t.kind = .eof → l.offset ≤ (text.toList.rtakeWhile (· ≠ '\n')).length) := by
  intro t ht
  rcases mem_tokenize.1 ht with ht | rfl
  · obtain ⟨before, rest, -, -, hnumber, hlookup⟩ := lineAt_of_mem_ahead h ht
    rw [hlookup]
    refine ⟨fun _ => ⟨hnumber.symm, ?_⟩,
      fun hk => absurd hk (Scanner.spelled_ahead _ t ht).kind_ne_eof⟩
    rw [List.drop_left]
    exact List.prefix_append _ _
  · refine ⟨fun hk => absurd rfl hk, fun _ => ?_⟩
    rw [Token.position_eof]
    exact offset_finish_le text

/-- A text with every kind of line end, with an illegal character and with a carriage return within
    a line. -/
theorem lineAt_tokenize_returns : "a\r\n \té\r== b\n\n\rvar".length < 2 ^ 32 ∧
    ∀ t ∈ tokenize "a\r\n \té\r== b\n\n\rvar",
      let l := lineAt "a\r\n \té\r== b\n\n\rvar" t.position
      (t.kind ≠ .eof → l.number = t.position.line.toNat ∧
        t.literal.toList <+: l.chars.drop l.offset) ∧
      (t.kind = .eof →
        l.offset ≤ ("a\r\n \té\r== b\n\n\rvar".toList.rtakeWhile (· ≠ '\n')).length) := by
  have h : "a\r\n \té\r== b\n\n\rvar".length < 2 ^ 32 := by decide
  exact ⟨h, lineAt_tokenize h⟩

end Scriptlet
