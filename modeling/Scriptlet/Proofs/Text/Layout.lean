/-
  The layout of a text: blanks, and the literals of its tokens between them,
  each at its place (`tokenize_layout`).
-/
import Mathlib.Data.List.DropRight
import Scriptlet.Proofs.Text.Places
import Scriptlet.Proofs.Text.Stream

namespace Scriptlet

/-! ## Places -/

/-- The line and the column after the characters `cs`, both counted from one. -/
def place (cs : List Char) : ℕ × ℕ :=
  (1 + cs.count '\n', 1 + (cs.rtakeWhile (· ≠ '\n')).length)

/-- The position of a place. -/
def Position.ofPlace (p : ℕ × ℕ) : Position := ⟨.ofNat p.1, .ofNat p.2⟩

theorem place_line_le (cs : List Char) : (place cs).1 ≤ 1 + cs.length :=
  Nat.add_le_add_left List.count_le_length 1

theorem place_column_le (cs : List Char) : (place cs).2 ≤ 1 + cs.length :=
  Nat.add_le_add_left (List.rtakeWhile_suffix _ cs).length_le 1

theorem place_concat_newline (cs : List Char) : place (cs ++ ['\n']) = ((place cs).1 + 1, 1) := by
  rw [place, place, List.rtakeWhile_concat_neg _ _ _ (by simp), List.count_append,
    List.count_singleton_self, Nat.add_assoc]
  rfl

theorem place_concat (cs : List Char) {c : Char} (hc : c ≠ '\n') :
    place (cs ++ [c]) = ((place cs).1, (place cs).2 + 1) := by
  have hcount : (cs ++ [c]).count '\n' = cs.count '\n' := by simp [hc]
  rw [place, place, List.rtakeWhile_concat_pos _ _ _ (by simpa), List.length_append,
    List.length_singleton, hcount, Nat.add_assoc]

/-- The end of a line. -/
theorem place_of_ne {cs : List Char} (h : ∀ c ∈ cs, c ≠ '\n') : place cs = (1, 1 + cs.length) := by
  have hline : cs.rtakeWhile (· ≠ '\n') = cs :=
    List.rtakeWhile_eq_self_iff.2 fun c hc => decide_eq_true (h c hc)
  rw [place, hline, List.count_eq_zero.2 fun hc => h _ hc rfl]

/-- The end of empty lines. -/
theorem place_of_eq {cs : List Char} (h : ∀ c ∈ cs, c = '\n') : place cs = (1 + cs.length, 1) := by
  have hlast : cs.rtakeWhile (· ≠ '\n') = [] :=
    List.rtakeWhile_eq_nil_iff.2 fun hne => by simp [h _ (List.getLast_mem hne)]
  rw [place, hlast, List.count_eq_length.2 fun c hc => (h c hc).symm, List.length_nil]

/-- **Words of 32 bits hold the place after less than 2³² characters**, unless these are 2³² - 1
    characters of one line, or as many line feeds. -/
theorem place_lt_or {cs : List Char} (h : cs.length < 2 ^ 32) :
    (place cs).1 < 2 ^ 32 ∧ (place cs).2 < 2 ^ 32 ∨
      cs.length + 1 = 2 ^ 32 ∧ ((∀ c ∈ cs, c ≠ '\n') ∧ place cs = (1, 2 ^ 32) ∨
        (∀ c ∈ cs, c = '\n') ∧ place cs = (2 ^ 32, 1)) := by
  have hline := place_line_le cs
  have hcolumn := place_column_le cs
  by_cases hfull : cs.length + 1 = 2 ^ 32
  · by_cases hne : ∀ c ∈ cs, c ≠ '\n'
    · exact .inr ⟨hfull, .inl ⟨hne, by rw [place_of_ne hne, Nat.add_comm, hfull]⟩⟩
    by_cases heq : ∀ c ∈ cs, c = '\n'
    · exact .inr ⟨hfull, .inr ⟨heq, by rw [place_of_eq heq, Nat.add_comm, hfull]⟩⟩
    -- some character is a line feed and some is none, so neither number counts all of them
    have hcount : cs.count '\n' ≠ cs.length := fun hc =>
      heq fun c hmem => (List.count_eq_length.1 hc c hmem).symm
    have hlast : (cs.rtakeWhile (· ≠ '\n')).length ≠ cs.length := fun hc =>
      hne fun c hmem => of_decide_eq_true (List.rtakeWhile_eq_self_iff.1
        ((List.rtakeWhile_suffix _ cs).eq_of_length hc) c hmem)
    simp only [place] at hline hcolumn ⊢
    omega
  · omega

namespace Position

theorem step_ofPlace (cs : List Char) (c : Char) :
    (ofPlace (place cs)).step c = ofPlace (place (cs ++ [c])) := by
  unfold step
  by_cases hc : c = '\n'
  · subst hc
    rw [if_pos rfl, place_concat_newline]
    simp [ofPlace, UInt32.ofNat_add]
  · rw [if_neg hc, place_concat cs hc]
    simp [ofPlace, UInt32.ofNat_add]

/-- **Positions count lines and columns.** -/
theorem start_after (cs : List Char) : start.after cs = ofPlace (place cs) := by
  induction cs using List.reverseRecOn with
  | nil => rfl
  | append_singleton cs c ih => rw [after_append, ih, after_cons, after_nil, step_ofPlace]

/-- A place whose numbers fit into words is told by its position. -/
theorem toNat_ofPlace {p : ℕ × ℕ} (hline : p.1 < 2 ^ 32) (hcolumn : p.2 < 2 ^ 32) :
    ((ofPlace p).line.toNat, (ofPlace p).column.toNat) = p :=
  Prod.ext (UInt32.toNat_ofNat_of_lt' hline) (UInt32.toNat_ofNat_of_lt' hcolumn)

end Position

/-- The end of a text is at the place after all of it. -/
theorem Scanner.finish_ofText (text : String) :
    (ofText text).finish = .ofPlace (place text.toList) :=
  Position.start_after text.toList

/-! ## Layouts -/

/-- The characters that stand between tokens. -/
def blankChars : List Char := [' ', '\t', '\n', '\r']

theorem isBlank_iff {c : Char} : isBlank c = true ↔ c ∈ blankChars := by
  simp [isBlank, blankChars, or_assoc]

/-- The characters `w`, and then the literal of each token with the characters after it. -/
def laidOut (w : List Char) (ps : List (Token × List Char)) : List Char :=
  w ++ ps.flatMap fun p => p.1.literal.toList ++ p.2

@[simp] theorem laidOut_nil (w : List Char) : laidOut w [] = w := by simp [laidOut]

theorem laidOut_cons (w v : List Char) (t : Token) (ps : List (Token × List Char)) :
    laidOut w ((t, v) :: ps) = w ++ (t.literal.toList ++ laidOut v ps) := by
  simp [laidOut]

theorem laidOut_append (w v : List Char) (t : Token) (qs rs : List (Token × List Char)) :
    laidOut w (qs ++ (t, v) :: rs) = laidOut w qs ++ (t.literal.toList ++ laidOut v rs) := by
  simp [laidOut]

namespace Scanner

/-- What is left of the text is laid out as `w`, and then each token ahead with the blanks after
    it. -/
structure Layout (s : Scanner) (w : List Char) (ps : List (Token × List Char)) : Prop where
  tokens : s.ahead = ps.map Prod.fst
  rest : s.rest = laidOut w ps
  blank : ∀ v ∈ w :: ps.map Prod.snd, ∀ c ∈ v, c ∈ blankChars
  /-- Each token stands where its literal begins. -/
  placed : ∀ qs t v rs, ps = qs ++ (t, v) :: rs → t.position = s.position.after (laidOut w qs)
  /-- Each token is the first one of the text from there on. -/
  first : ∀ qs t v rs, ps = qs ++ (t, v) :: rs → ∃ c cs,
    t.literal.toList ++ laidOut v rs = c :: cs ∧ t.lexeme = Lexeme.first c cs

variable {s s' : Scanner} {t : Token} {w : List Char} {ps : List (Token × List Char)}

theorem Layout.of_none (h : s.next? = none) : s.Layout s.rest [] where
  tokens := ahead_eq_nil h
  rest := (laidOut_nil _).symm
  blank := by
    intro v hv c hc
    obtain rfl := List.mem_singleton.1 hv
    exact isBlank_iff.1 (List.dropWhile_eq_nil_iff.1 (rest_skipBlanks_of_next? h) c hc)
  placed := by simp
  first := by simp

theorem Layout.of_some (h : s.next? = some (t, s')) (hlater : s'.Layout w ps) :
    ∃ blanks, s.Layout blanks ((t, w) :: ps) := by
  obtain ⟨blanks, hblanks, hrest, -, hposition, hposition'⟩ := split_of_next? h
  refine ⟨blanks, ?_, ?_, ?_, ?_, ?_⟩
  · rw [ahead_eq_cons h, hlater.tokens, List.map_cons]
  · rw [hrest, hlater.rest, laidOut_cons, List.append_assoc]
  · intro v hv c hc
    rcases List.mem_cons.1 hv with rfl | hv
    · exact isBlank_iff.1 (hblanks c hc)
    · exact hlater.blank v hv c hc
  · intro qs u v rs hsplit
    cases qs with
    | nil =>
      obtain ⟨⟨⟩, ⟨⟩⟩ := List.cons.inj hsplit
      rw [hposition, laidOut_nil]
    | cons q qs =>
      obtain ⟨⟨⟩, hqs⟩ := List.cons.inj hsplit
      rw [hlater.placed qs u v rs hqs, hposition', laidOut_cons, ← Position.after_append,
        List.append_assoc]
  · intro qs u v rs hsplit
    cases qs with
    | nil =>
      obtain ⟨⟨⟩, ⟨⟩⟩ := List.cons.inj hsplit
      obtain ⟨c, cs, hskip, -, rfl, rfl⟩ := next?_eq_some h
      refine ⟨c, cs, ?_, by simp [Token.lexeme]⟩
      rw [← hlater.rest, skip, hskip, String.toList_ofList, Lexeme.first_append]
    | cons q qs =>
      obtain ⟨⟨⟩, hqs⟩ := List.cons.inj hsplit
      exact hlater.first qs u v rs hqs

/-- **What is left of a text is blanks, and the literals of the tokens ahead between them.** -/
theorem exists_layout (s : Scanner) : ∃ w ps, s.Layout w ps := by
  fun_induction ahead s with
  | case1 s h => exact ⟨s.rest, [], .of_none h⟩
  | case2 s t s' h ih =>
    obtain ⟨w, ps, hlater⟩ := ih
    obtain ⟨blanks, hlayout⟩ := hlater.of_some h
    exact ⟨blanks, (t, w) :: ps, hlayout⟩

end Scanner

/-! ## The text -/

/-- The text is `w`, and then the literals of the tokens of `ps` with the characters `ps` gives
    after each; `e` is its end token. -/
structure TextLayout (text : String) (w : List Char) (ps : List (Token × List Char)) (e : Token) :
    Prop where
  tokens : tokenize text = ps.map Prod.fst ++ [e]
  /-- No character is lost. -/
  chars : text.toList = laidOut w ps
  /-- What stands between the literals is blank. -/
  blank : ∀ v ∈ w :: ps.map Prod.snd, ∀ c ∈ v, c ∈ blankChars
  literal_ne : ∀ t ∈ ps.map Prod.fst, t.kind ≠ .eof ∧ t.literal ≠ ""
  /-- A token stands at the place that comes after all the characters before it. -/
  placed : ∀ qs t v rs, ps = qs ++ (t, v) :: rs →
    (t.position.line.toNat, t.position.column.toNat) = place (laidOut w qs)
  kind_end : e.kind = .eof
  literal_end : e.literal = ""
  /-- The end token stands at the place that comes after the whole text, as far as words of 32 bits
      tell it. -/
  position_end : e.position = .ofPlace (place text.toList)
  /-- These are the tokens a scanner gives when it is asked for one after another. -/
  asked : tokenize text = (List.range (ps.length + 1)).map (Scanner.ofText text).token
  /-- Asked for more, it gives the end token and stays as it is. -/
  repeated : ∀ n, ps.length < n →
    ((Scanner.ofText text).later n).next = (e, (Scanner.ofText text).later n)

/-- **A scanner loses nothing, and places every token.** The end token stands at its place too,
    unless the text has 2³² - 1 characters, all on one line or all line feeds: the column 2³² and
    the line 2³² read 0. -/
theorem tokenize_layout {text : String} (h : text.length < 2 ^ 32) :
    ∃ w ps e, TextLayout text w ps e ∧
      ((e.position.line.toNat, e.position.column.toNat) = place text.toList ∨
        text.length + 1 = 2 ^ 32 ∧ ((∀ c ∈ text.toList, c ≠ '\n') ∧ e.position = ⟨1, 0⟩ ∨
          (∀ c ∈ text.toList, c = '\n') ∧ e.position = ⟨0, 1⟩)) := by
  obtain ⟨w, ps, hlayout⟩ := (Scanner.ofText text).exists_layout
  have hlength : (Scanner.ofText text).ahead.length = ps.length := by
    rw [hlayout.tokens, List.length_map]
  refine ⟨w, ps, .eof (Scanner.ofText text).finish,
    ⟨?_, hlayout.rest, hlayout.blank, ?_, ?_, rfl, rfl,
      Scanner.finish_ofText text, ?_, ?_⟩, ?_⟩
  · rw [tokenize, hlayout.tokens]
  · intro t ht
    rw [← hlayout.tokens] at ht
    have hspelled := Scanner.spelled_ahead _ t ht
    refine ⟨hspelled.kind_ne_eof, ?_⟩
    obtain ⟨c, cs, hliteral, -⟩ := hspelled
    rintro hempty
    rw [hempty] at hliteral
    cases hliteral
  · intro qs t v rs hsplit
    -- the token itself is in the text, so what comes before it is shorter
    have hshort : (laidOut w qs).length + 1 ≤ text.length := by
      obtain ⟨c, cs, hfirst, -⟩ := hlayout.first qs t v rs hsplit
      have hrest : text.toList = laidOut w ps := hlayout.rest
      rw [hsplit, laidOut_append, hfirst] at hrest
      rw [← String.length_toList, hrest]
      simp
    have hline := place_line_le (laidOut w qs)
    have hcolumn := place_column_le (laidOut w qs)
    rw [hlayout.placed qs t v rs hsplit, Scanner.ofText, Position.start_after]
    exact Position.toNat_ofPlace (by omega) (by omega)
  · rw [tokenize, Scanner.ahead_append_eof, hlength]
  · intro n hn
    rw [Scanner.later_eq _ _ (by omega)]
    rfl
  · rw [Token.position_eof, Scanner.finish_ofText]
    rw [← String.length_toList] at h ⊢
    rcases place_lt_or h with ⟨hline, hcolumn⟩ | ⟨hfull, ⟨hne, hplace⟩ | ⟨heq, hplace⟩⟩
    · exact .inl (Position.toNat_ofPlace hline hcolumn)
    · exact .inr ⟨hfull, .inl ⟨hne, by rw [hplace]; decide⟩⟩
    · exact .inr ⟨hfull, .inr ⟨heq, by rw [hplace]; decide⟩⟩

/-- The tokens and the blanks of a text of three lines. -/
theorem tokenize_layout_lines : "if\r\n\tx == 07 \n".length < 2 ^ 32 ∧
    ∃ w ps e, TextLayout "if\r\n\tx == 07 \n" w ps e ∧ e.position = ⟨3, 1⟩ ∧
      (e.position.line.toNat, e.position.column.toNat) = place "if\r\n\tx == 07 \n".toList := by
  have h : "if\r\n\tx == 07 \n".length < 2 ^ 32 := by decide
  obtain ⟨w, ps, e, hlayout, hplace | ⟨hfull, -⟩⟩ := tokenize_layout h
  · exact ⟨h, w, ps, e, hlayout, hlayout.position_end.trans (by decide), hplace⟩
  · cases hfull

/-- The end of a line of 2³² - 1 letters is not told by its position. -/
theorem end_of_longest_line :
    let text := String.ofList (List.replicate (2 ^ 32 - 1) 'a')
    text.length < 2 ^ 32 ∧ place text.toList = (1, 2 ^ 32) ∧
      (tokenize text).getLast? = some (.eof ⟨1, 0⟩) ∧
      ∀ w ps e, TextLayout text w ps e →
        (e.position.line.toNat, e.position.column.toNat) ≠ place text.toList := by
  intro text
  have hchars : text.toList = List.replicate (2 ^ 32 - 1) 'a' := String.toList_ofList
  -- `hchars` says all of the text; its value is dropped, so that no step writes it out
  clear_value text
  have hlength : text.toList.length = 2 ^ 32 - 1 := by rw [hchars, List.length_replicate]
  have hplace : place text.toList = (1, 2 ^ 32) := by
    refine (place_of_ne fun c hc => ?_).trans (by rw [hlength]; rfl)
    rw [hchars] at hc
    rw [List.eq_of_mem_replicate hc]
    decide
  have hfinish : (Scanner.ofText text).finish = ⟨1, 0⟩ := by
    rw [Scanner.finish_ofText, hplace]
    decide
  refine ⟨?_, hplace, ?_, fun w ps e hlayout => ?_⟩
  · rw [← String.length_toList, hlength]
    decide
  · rw [tokenize, List.getLast?_concat, hfinish]
  · rw [hlayout.position_end, hplace]
    decide

end Scriptlet
