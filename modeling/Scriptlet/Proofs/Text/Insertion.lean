/-
  A `;` put into a text, right after one of its tokens.
-/
import Scriptlet.Proofs.Rendering.Tokens
import Scriptlet.Proofs.Text.LongestMatch

namespace Scriptlet

/-- The text with a `;` right after its `n`th token. -/
def Text.insertSemicolon (text : String) (n : ℕ) : String :=
  let rest := ((Scanner.ofText text).later n).rest
  String.ofList (text.toList.take (text.length - rest.length) ++ ';' :: rest)

variable {c : Char} {cs ds : List Char}

/-- What comes after a lexeme may be left out. -/
theorem Longest.of_append {l : Lexeme} (h : Longest (cs ++ ds) l) (hbegins : l.chars <+: cs) :
    Longest cs l :=
  ⟨h.lexical, hbegins, fun es k hes hcs =>
    h.longest es k hes (hcs.trans (List.prefix_append cs ds))⟩

/-- **A lexeme is taken from as much of the text as holds it.** -/
theorem Lexeme.first_of_prefix (hblank : isBlank c = false)
    (hbegins : (first c (cs ++ ds)).chars <+: c :: cs) : first c cs = first c (cs ++ ds) := by
  by_cases hk : (first c (cs ++ ds)).kind = .illegal
  · exact (first_eq_illegal hk cs).trans (first_eq_illegal hk (cs ++ ds)).symm
  · have hlong : Longest (c :: cs) (first c (cs ++ ds)) :=
      (first_longest hblank hk).of_append hbegins
    exact (first_longest hblank (first_kind_ne_illegal hlong.lexical hbegins)).unique hlong

namespace Scanner

variable {s s' : Scanner} {t : Token}

/-- What is read for the first token is read so before as much of the text as one likes. -/
theorem lexemes_of_next? (h : s.next? = some (t, s')) : ∃ read, s.rest = read ++ s'.rest ∧
    ∀ before, before <+: s'.rest → lexemes (read ++ before) = t.lexeme :: lexemes before := by
  obtain ⟨c, cs, hrest, hblank, rfl, rfl⟩ := next?_eq_some h
  obtain ⟨ds, hchars, -⟩ := Lexeme.exists_first_eq c cs
  have hsplit : c :: cs = c :: ds ++ (s.skipBlanks.skip (Lexeme.first c cs).chars.length).rest := by
    rw [skip, hrest, ← hchars, Lexeme.first_append]
  refine ⟨s.rest.takeWhile isBlank ++ c :: ds, ?_, fun before hbefore => ?_⟩
  · rw [List.append_assoc, ← hsplit, ← hrest]
    exact List.takeWhile_append_dropWhile.symm
  · obtain ⟨after, hafter⟩ := hbefore
    have hcs : cs = ds ++ before ++ after := by
      rw [List.append_assoc, hafter]
      exact (List.cons.inj hsplit).2
    have hbegins : (Lexeme.first c (ds ++ before ++ after)).chars <+: c :: (ds ++ before) := by
      rw [← hcs, hchars]
      exact List.prefix_append (c :: ds) before
    have hfirst : Lexeme.first c (ds ++ before) = ⟨(Lexeme.first c cs).kind, c :: ds⟩ := by
      rw [Lexeme.first_of_prefix hblank hbegins, ← hcs, ← hchars]
    rw [List.append_assoc, lexemes_blanks fun c hc => List.mem_takeWhile_imp hc,
      lexemes_of_first hblank hfirst, ← hchars]
    simp [Token.lexeme]

variable (s : Scanner) (n : ℕ)

/-- **The characters up to the end of a token hold the tokens up to it.** -/
theorem exists_before :
    ∃ before, s.rest = before ++ (s.later n).rest ∧ lexemes before = (lexemes s.rest).take n := by
  fun_induction ahead s generalizing n with
  | case1 s h =>
    cases n with
    | zero => exact ⟨[], rfl, lexemes_nil⟩
    | succ n =>
      -- nothing is left but blanks
      refine ⟨s.rest, ?_, ?_⟩
      · rw [later_eq _ _ (by rw [ahead_eq_nil h]; exact Nat.succ_pos n), List.append_nil]
      · rw [← map_lexeme_ahead, ahead_eq_nil h]
        rfl
  | case2 s t s' h ih =>
    cases n with
    | zero => exact ⟨[], rfl, lexemes_nil⟩
    | succ n =>
      obtain ⟨before, hrest, hbefore⟩ := ih n
      obtain ⟨read, hread, hlexemes⟩ := lexemes_of_next? h
      refine ⟨read ++ before, ?_, ?_⟩
      · rw [later_succ, next_of_some h, hread, List.append_assoc, ← hrest]
      · rw [hlexemes before ⟨_, hrest.symm⟩, hbefore, ← map_lexeme_ahead s, ahead_eq_cons h,
          List.map_cons, map_lexeme_ahead, List.take_succ_cons]

end Scanner

/-- **The tokens of a text with a `;` put into it.** -/
theorem lexemes_insertSemicolon (text : String) (n : ℕ) :
    lexemes (Text.insertSemicolon text n).toList =
      (lexemes text.toList).take n ++
        Kind.semicolon.token.lexeme :: (lexemes text.toList).drop n := by
  obtain ⟨before, hsplit, hbefore⟩ := (Scanner.ofText text).exists_before n
  have hrest := (Scanner.ofText text).lexemes_later n
  have hpart : Apart (';' :: ((Scanner.ofText text).later n).rest) := apart_cons.2 (by decide)
  have hchars : (Text.insertSemicolon text n).toList =
      before ++ ';' :: ((Scanner.ofText text).later n).rest := by
    have htext : text.toList = before ++ ((Scanner.ofText text).later n).rest := hsplit
    have hlength : text.length - ((Scanner.ofText text).later n).rest.length = before.length := by
      rw [← String.length_toList, htext, List.length_append, Nat.add_sub_cancel]
    rw [Text.insertSemicolon, String.toList_ofList, hlength]
    conv => lhs; arg 1; rw [htext]
    rw [List.take_left]
  rw [hchars, lexemes_append_of_apart hpart, lexemes_semicolon, hbefore, hrest]
  rfl

end Scriptlet
