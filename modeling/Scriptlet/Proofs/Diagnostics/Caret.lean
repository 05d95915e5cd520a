/-
  The caret of a report stands under the token that the diagnostic is about
  (`caret_under_token`). White space is more than the blanks, so it may be a
  token; it is shown only if something else comes after it in its line.
-/
import Scriptlet.Proofs.Text.LineLookup
import Scriptlet.Session

namespace Scriptlet

/-! ## Both ends of a line -/

namespace Text

theorem trimEnd_concat (cs : List Char) (c : Char) :
    trimEnd (cs ++ [c]) = if isWhiteSpace c then trimEnd cs else cs ++ [c] :=
  List.rdropWhile_concat isWhiteSpace cs c

variable {cs : List Char} {i : ℕ}

/-- Kept are the characters with one from there on that is no white space. -/
theorem lt_length_trimEnd_iff :
    i < (trimEnd cs).length ↔ ∃ c ∈ cs.drop i, isWhiteSpace c = false := by
  induction cs using List.reverseRecOn with
  | nil => simp [trimEnd]
  | append_singleton cs c ih =>
    rw [trimEnd_concat]
    by_cases hc : isWhiteSpace c = true
    · rw [if_pos hc]
      refine ih.trans ⟨?_, ?_⟩
      · rintro ⟨d, hd, hspace⟩
        rw [List.drop_append]
        exact ⟨d, List.mem_append_left _ hd, hspace⟩
      · rintro ⟨d, hd, hspace⟩
        rw [List.drop_append, List.mem_append] at hd
        rcases hd with hd | hd
        · exact ⟨d, hd, hspace⟩
        · rw [List.mem_singleton.1 (List.mem_of_mem_drop hd), hc] at hspace
          cases hspace
    · rw [if_neg hc]
      constructor
      · intro hi
        rw [List.length_append, List.length_singleton] at hi
        rw [List.drop_append_of_le_length (by omega)]
        exact ⟨c, List.mem_append_right _ (List.mem_singleton_self c), by simpa using hc⟩
      · rintro ⟨d, hd, -⟩
        by_contra hi
        rw [List.drop_eq_nil_of_le (Nat.le_of_not_lt hi)] at hd
        cases hd

/-- What is kept stays where it is. -/
theorem getElem?_trimEnd (h : i < (trimEnd cs).length) : (trimEnd cs)[i]? = cs[i]? := by
  obtain ⟨ws, hsplit, -⟩ := trimEnd_append cs
  conv => rhs; rw [hsplit]
  rw [List.getElem?_append_left h]

end Text

/-! ## The two rows -/

namespace LinePlace

/-- The row of a report that shows the line. -/
def sourceRow (l : LinePlace) : String :=
  toString l.number ++ " | " ++ String.ofList l.shown

/-- The row of a report that shows the caret. -/
def caretRow (l : LinePlace) : String :=
  String.ofList (List.replicate ((toString l.number).length + 1) ' ') ++ "| " ++
    String.ofList (List.replicate l.caretOffset '-') ++ "^"

variable {l : LinePlace}

/-- The caret has as many characters before it as the line, and then those of its offset. -/
theorem idxOf_caretRow :
    l.caretRow.toList.idxOf '^' = (toString l.number ++ " | ").length + l.caretOffset := by
  have hbefore : '^' ∉ (String.ofList (List.replicate ((toString l.number).length + 1) ' ') ++
      "| " ++ String.ofList (List.replicate l.caretOffset '-')).toList := by
    simp
  rw [caretRow, String.toList_append, List.idxOf_append_of_notMem hbefore]
  have hcaret : "^".toList.idxOf '^' = 0 := rfl
  have hbar : "| ".length = 2 := rfl
  have hgutter : " | ".length = 3 := rfl
  simp only [String.length_toList, String.length_append, String.length_ofList,
    List.length_replicate, hcaret, hbar, hgutter]
  omega

/-- The character over the caret is a character of the line shown. -/
theorem getElem?_sourceRow :
    l.sourceRow.toList[l.caretRow.toList.idxOf '^']? = l.shown[l.caretOffset]? := by
  rw [idxOf_caretRow, sourceRow, String.toList_append, String.toList_ofList, ← String.length_toList,
    List.getElem?_append_right (Nat.le_add_right _ _), Nat.add_sub_cancel_left]

/-- A place behind the indentation is kept together with what comes after it, if that is not all
    white space. -/
theorem caretOffset_lt_iff (h : (l.chars.takeWhile isIndent).length ≤ l.offset) :
    l.caretOffset < l.shown.length ↔
      ∃ c ∈ l.chars.drop l.offset, Text.isWhiteSpace c = false := by
  have hsplit := List.takeWhile_append_dropWhile (p := isIndent) (l := l.chars)
  have hdrop : l.chars.drop l.offset = (l.chars.dropWhile isIndent).drop l.caretOffset := by
    refine (congrArg (List.drop l.offset) hsplit.symm).trans ?_
    rw [List.drop_append, List.drop_eq_nil_of_le h, List.nil_append, caretOffset]
  rw [hdrop]
  exact Text.lt_length_trimEnd_iff

/-- What is shown behind the indentation stands over the caret. -/
theorem getElem?_shown (h : (l.chars.takeWhile isIndent).length ≤ l.offset)
    (hkept : l.caretOffset < l.shown.length) : l.shown[l.caretOffset]? = l.chars[l.offset]? := by
  have hsplit := List.takeWhile_append_dropWhile (p := isIndent) (l := l.chars)
  refine (Text.getElem?_trimEnd hkept).trans ?_
  refine Eq.trans ?_ (congrArg (·[l.offset]?) hsplit)
  exact (List.getElem?_append_right h).symm

end LinePlace

/-! ## The report -/

variable {text : String} {t : Token} {d : Diagnostic}

/-- A report whose caret does not stand too far to the right has the two rows, one under the
    other. -/
theorem Diagnostic.report_rows (d : Diagnostic) (text file : String)
    (h : (lineAt text d.position).caretOffset < caretLimit) : ∃ above below,
      d.report text file = .ok (above ++ "\n" ++ (lineAt text d.position).sourceRow ++ "\n" ++
        (lineAt text d.position).caretRow ++ "\n" ++ below) := by
  let gutter := String.ofList
    (List.replicate ((toString (lineAt text d.position).number).length + 1) ' ')
  let above := "Error: " ++ d.fault.name ++ ": " ++ d.message ++ "\n" ++
    "-> " ++ file ++ ":" ++ d.position.text ++ "\n" ++ gutter ++ "|"
  have hbar : "|\n" = "|" ++ "\n" := rfl
  have hcaret : "^\n" = "^" ++ "\n" := rfl
  rw [report, if_pos h, hbar, hcaret]
  cases d.fault.tip? with
  | none =>
    refine ⟨above, "", ?_⟩
    simp only [LinePlace.sourceRow, LinePlace.caretRow, String.append_assoc, gutter, above]
  | some tip =>
    refine ⟨above, gutter ++ "= tip: " ++ tip ++ "\n", ?_⟩
    simp only [LinePlace.sourceRow, LinePlace.caretRow, String.append_assoc, gutter, above]

/-- A token begins with a character of its line that is no blank, and the indentation of the line
    ends there or before. -/
theorem lineAt_token (h : text.length < 2 ^ 32) (ht : t ∈ tokenize text) (hk : t.kind ≠ .eof) :
    ∃ c, t.literal.toList.head? = some c ∧
      (lineAt text t.position).chars[(lineAt text t.position).offset]? = some c ∧
      ((lineAt text t.position).chars.takeWhile LinePlace.isIndent).length ≤
        (lineAt text t.position).offset := by
  have hahead : t ∈ (Scanner.ofText text).ahead := by
    rcases mem_tokenize.1 ht with ht | rfl
    · exact ht
    · exact absurd rfl hk
  obtain ⟨before, rest, -, -, -, hlookup⟩ := lineAt_of_mem_ahead h hahead
  obtain ⟨c, cs, hliteral, hblank, -⟩ := Scanner.spelled_ahead _ t hahead
  have hindent : LinePlace.isIndent c = false := by
    rw [isBlank, Bool.or_eq_false_iff, Bool.or_eq_false_iff] at hblank
    exact hblank.1.1
  rw [hlookup, hliteral]
  refine ⟨c, rfl, ?_, ?_⟩
  · rw [List.getElem?_append_right (Nat.le_refl _), Nat.sub_self]
    rfl
  · rw [takeWhile_append_of_head]
    · exact (List.takeWhile_prefix _).length_le
    · intro d hd
      rw [List.cons_append, List.head?_cons, Option.mem_some_iff] at hd
      rw [← hd, hindent]

/-- **The caret stands under the token**, unless nothing but white space is left of the line from
    the token on. -/
theorem caret_under_token (h : text.length < 2 ^ 32)
    (hlines : ∀ n, (Text.nthLine n text.toList).length ≤ 65534) (ht : t ∈ tokenize text)
    (hk : t.kind ≠ .eof) (hd : d.position = t.position) (file : String) :
    let l := lineAt text d.position
    (∃ above below, d.report text file =
      .ok (above ++ "\n" ++ l.sourceRow ++ "\n" ++ l.caretRow ++ "\n" ++ below)) ∧
    (l.sourceRow.toList[l.caretRow.toList.idxOf '^']? = t.literal.toList.head? ↔
      ∃ c ∈ l.chars.drop l.offset, Text.isWhiteSpace c = false) := by
  intro l
  obtain ⟨c, hliteral, hchar, hindent⟩ := hd ▸ lineAt_token h ht hk
  have hoffset : l.offset < l.chars.length := (List.getElem?_eq_some_iff.1 hchar).1
  constructor
  · have hlength : l.chars.length ≤ 65534 := hlines _
    have hle : l.caretOffset ≤ l.offset := Nat.sub_le _ _
    have hlimit : l.caretOffset < caretLimit := by
      rw [caretLimit]
      omega
    exact d.report_rows text file hlimit
  · rw [LinePlace.getElem?_sourceRow, hliteral, ← LinePlace.caretOffset_lt_iff hindent]
    constructor
    · intro hshown
      exact (List.getElem?_eq_some_iff.1 hshown).1
    · intro hkept
      rw [LinePlace.getElem?_shown hindent hkept, hchar]

/-- An operator that lacks its second operand, after indentation and before a carriage return. -/
theorem caret_under_token_indented : ∃ t d, "\r\n \tx +\n\t;\r ".length < 2 ^ 32 ∧
    (∀ n, (Text.nthLine n "\r\n \tx +\n\t;\r ".toList).length ≤ 65534) ∧
    t ∈ tokenize "\r\n \tx +\n\t;\r " ∧ t.kind ≠ .eof ∧
    (parse "\r\n \tx +\n\t;\r ").2 = [d] ∧ d.position = t.position ∧
    let l := lineAt "\r\n \tx +\n\t;\r " d.position
    (∃ above below, d.report "\r\n \tx +\n\t;\r " "main" =
      .ok (above ++ "\n" ++ l.sourceRow ++ "\n" ++ l.caretRow ++ "\n" ++ below)) ∧
    l.sourceRow.toList[l.caretRow.toList.idxOf '^']? = some ';' := by
  have h : "\r\n \tx +\n\t;\r ".length < 2 ^ 32 := by decide
  have hlines : ∀ n, (Text.nthLine n "\r\n \tx +\n\t;\r ".toList).length ≤ 65534 :=
    fun n => (Text.length_nthLine_le n _).trans (by decide)
  have ht : ⟨.semicolon, ";", ⟨3, 2⟩⟩ ∈ tokenize "\r\n \tx +\n\t;\r " := by decide +kernel
  obtain ⟨hreport, hcaret⟩ := caret_under_token (d := ⟨.noOperand .semicolon, ⟨3, 2⟩⟩) h hlines ht
    (by decide) rfl "main"
  exact ⟨_, _, h, hlines, ht, by decide, by decide +kernel, rfl, hreport,
    hcaret.2 ⟨';', by decide +kernel, by decide⟩⟩

/-- A no-break space is an illegal token and white space. It is removed from the end of its line,
    and nothing is left over the caret. -/
theorem caret_under_nothing : ∃ t d, "\u00a0".length < 2 ^ 32 ∧
    (∀ n, (Text.nthLine n "\u00a0".toList).length ≤ 65534) ∧
    t ∈ tokenize "\u00a0" ∧ t.kind ≠ .eof ∧
    (parse "\u00a0").2 = [d] ∧ d.position = t.position ∧
    d.report "\u00a0" "main" = .ok
      ("Error: NoPrefixParseFn: no prefix parse function for ILLEGAL found\n-> main:1:1\n  |\n" ++
        "1 | \n" ++ "  | ^\n" ++ "  = tip: unrecognised character in source\n") ∧
    let l := lineAt "\u00a0" d.position
    l.sourceRow = "1 | " ∧ l.caretRow = "  | ^" ∧
      l.sourceRow.toList[l.caretRow.toList.idxOf '^']? ≠ t.literal.toList.head? := by
  have hlines : ∀ n, (Text.nthLine n "\u00a0".toList).length ≤ 65534 :=
    fun n => (Text.length_nthLine_le n _).trans (by decide)
  refine ⟨⟨.illegal, "\u00a0", ⟨1, 1⟩⟩, ⟨.noOperand .illegal, ⟨1, 1⟩⟩, by decide, hlines, ?_⟩
  decide +kernel

end Scriptlet
