/-
  Every diagnostic of a text of short lines can be reported.
-/
import Mathlib.Data.List.GetD
import Scriptlet.Proofs.Diagnostics.Caret
import Scriptlet.Proofs.Diagnostics.Grounds

namespace Scriptlet

/-! ## What stands between line feeds -/

namespace Text

variable {c : Char} {cs : List Char}

/-- A character that is no line feed belongs to the first line. -/
theorem splitOn_cons (hc : c ≠ '\n') (cs : List Char) : ∃ line lines,
    cs.splitOn '\n' = line :: lines ∧ (c :: cs).splitOn '\n' = (c :: line) :: lines := by
  obtain ⟨line, lines, hcs⟩ := List.exists_cons_of_ne_nil (List.splitOn_ne_nil '\n' cs)
  refine ⟨line, lines, hcs, ?_⟩
  rw [List.splitOn_cons_eq_if_modifyHead, if_neg (by simpa using hc), hcs, List.modifyHead_cons]

theorem firstLine_between (cs : List Char) : firstLine cs <+: (cs.splitOn '\n').headD [] := by
  fun_induction firstLine cs with
  | case1 | case2 | case3 => exact List.nil_prefix
  | case4 c cs hc _ ih =>
    obtain ⟨line, lines, hcs, hsplit⟩ := splitOn_cons hc cs
    rw [hcs, List.headD_cons] at ih
    rw [hsplit, List.headD_cons]
    exact List.prefix_cons_inj c |>.2 ih

/-- **A line stands between line feeds**; a carriage return at its end is left out. -/
theorem nthLine_between (n : ℕ) (cs : List Char) :
    nthLine n cs <+: (cs.splitOn '\n').getD n [] := by
  fun_induction nthLine n cs with
  | case1 cs =>
    rw [← List.headD_eq_getD]
    exact firstLine_between cs
  | case2 => exact List.nil_prefix
  | case3 n cs ih =>
    have hsplit : ('\n' :: cs).splitOn '\n' = [] :: cs.splitOn '\n' :=
      List.splitOn_append_cons_self [] cs
    rw [hsplit, List.getD_cons_succ]
    exact ih
  | case4 n c cs hc ih =>
    obtain ⟨line, lines, hcs, hsplit⟩ := splitOn_cons hc cs
    rw [hcs, List.getD_cons_succ] at ih
    rw [hsplit, List.getD_cons_succ]
    exact ih

/-- If no more than `limit` characters stand between line feeds, no line is longer. -/
theorem length_nthLine_le_of_splitOn {limit : ℕ}
    (h : ∀ line ∈ cs.splitOn '\n', line.length ≤ limit) (n : ℕ) :
    (nthLine n cs).length ≤ limit := by
  refine (nthLine_between n cs).length_le.trans ?_
  by_cases hn : n < (cs.splitOn '\n').length
  · rw [List.getD_eq_getElem _ _ hn]
    exact h _ (List.getElem_mem hn)
  · rw [List.getD_eq_default _ _ (Nat.le_of_not_lt hn)]
    exact Nat.zero_le limit

/-- Characters without a line feed are one line. -/
theorem firstLine_of_notMem (h : '\n' ∉ cs) : firstLine cs = cs := by
  fun_induction firstLine cs with
  | case1 => rfl
  | case2 => simp at h
  | case3 => simp at h
  | case4 c cs _ _ ih => rw [ih fun hcs => h (List.mem_cons_of_mem c hcs)]

/-- The last line, without the line feeds before it. -/
theorem nthLine_count (cs : List Char) :
    nthLine (cs.count '\n') cs = cs.rtakeWhile (· ≠ '\n') := by
  have hlast := nthLine_count_add cs [] 0
  rw [Nat.add_zero, List.append_nil, List.append_nil] at hlast
  rw [hlast, nthLine, firstLine_of_notMem (newline_notMem_rtakeWhile cs)]

end Text

/-! ## Carets under tokens -/

variable {source : String} {t : Token} {d : Diagnostic} {limit : ℕ}

/-- **Under a token, a caret stands in its line or right behind it.** -/
theorem caretOffset_le_of_mem_tokenize (h : source.length < 2 ^ 32)
    (hlines : ∀ n, (Text.nthLine n source.toList).length ≤ limit) (ht : t ∈ tokenize source) :
    (lineAt source t.position).caretOffset ≤ limit := by
  refine (Nat.sub_le _ _).trans ?_
  rcases mem_tokenize.1 ht with hahead | rfl
  · obtain ⟨c, -, hchar, -⟩ := lineAt_token h ht (Scanner.spelled_ahead _ t hahead).kind_ne_eof
    have hoffset := (List.getElem?_eq_some_iff.1 hchar).1
    exact (Nat.le_of_lt hoffset).trans (hlines _)
  · have hlast := hlines (source.toList.count '\n')
    rw [Text.nthLine_count] at hlast
    exact (offset_finish_le source).trans hlast

/-! ## Reports -/

/-- A report is written if its caret stands before the limit. -/
theorem Diagnostic.exists_report (hd : (lineAt source d.position).caretOffset < caretLimit)
    (file : String) : ∃ report, d.report source file = .ok report := by
  obtain ⟨above, below, hreport⟩ := d.report_rows source file hd
  exact ⟨_, hreport⟩

/-- A text whose lines are short has reports of all its diagnostics. -/
theorem exists_report_of_mem_parse (h : source.length < 2 ^ 32)
    (hlines : ∀ n, (Text.nthLine n source.toList).length ≤ 65534) (hd : d ∈ (parse source).2)
    (file : String) : ∃ report, d.report source file = .ok report := by
  obtain ⟨t, ht, hposition⟩ := exists_token_of_mem_parse hd
  have hoffset := caretOffset_le_of_mem_tokenize h hlines ht
  refine d.exists_report ?_ file
  rw [hposition, caretLimit]
  omega

/-- **Every diagnostic of a text of short lines is reported**: the width of its caret, with what
    stands before it in its column, keeps to the limit. -/
theorem report_returns (h : source.length < 2 ^ 32)
    (hlines : ∀ line ∈ source.toList.splitOn '\n', line.length ≤ 65534) (file : String) :
    ∀ d ∈ (parse source).2, (lineAt source d.position).caretOffset + 1 ≤ 65535 ∧
      ∃ report, d.report source file = .ok report := by
  intro d hd
  have hshort := Text.length_nthLine_le_of_splitOn hlines
  obtain ⟨t, ht, hposition⟩ := exists_token_of_mem_parse hd
  refine ⟨?_, exists_report_of_mem_parse h hshort hd file⟩
  rw [hposition]
  exact Nat.succ_le_succ (caretOffset_le_of_mem_tokenize h hshort ht)

/-- A block and an operation that are open at the end of the text, behind blanks. -/
theorem report_returns_open :
    let source := "f(1\r\n\t)@; function() \x7b\n  x +\t  "
    source.length < 2 ^ 32 ∧ (∀ line ∈ source.toList.splitOn '\n', line.length ≤ 65534) ∧
      (parse source).2 = [⟨.noOperand .illegal, ⟨2, 3⟩⟩, ⟨.noOperand .eof, ⟨3, 9⟩⟩,
        ⟨.unexpected .closeBrace .eof, ⟨3, 9⟩⟩] ∧
      ∀ d ∈ (parse source).2, (lineAt source d.position).caretOffset + 1 ≤ 65535 ∧
        ∃ report, d.report source "main" = .ok report := by
  intro source
  have h : source.length < 2 ^ 32 := by decide
  have hlines : ∀ line ∈ source.toList.splitOn '\n', line.length ≤ 65534 := by decide +kernel
  exact ⟨h, hlines, by decide +kernel, report_returns h hlines "main"⟩

end Scriptlet
