/-
  Texts joined where no token can go on. A scanner remembers nothing but its
  place, so the tokens are those of the one text and then those of the other.
-/
import Scriptlet.Proofs.Text.Lexemes

namespace Scriptlet

theorem apart_of_isBlank {w : Char} {ds : List Char} (h : isBlank w = true) :
    Apart (w :: ds) := by
  simp only [isBlank, Bool.or_eq_true, decide_eq_true_eq] at h
  rcases h with ((rfl | rfl) | rfl) | rfl <;> exact apart_cons.2 (by decide)

namespace Scanner

/-- The scanner, with more characters at the end of its text. -/
def followedBy (s : Scanner) (cs : List Char) : Scanner := ⟨s.rest ++ cs, s.position⟩

/-- Only what comes after the blanks matters. -/
theorem ahead_congr {s s' : Scanner} (h : s.skipBlanks = s'.skipBlanks) : s.ahead = s'.ahead := by
  have hnext : s.next? = s'.next? := congrArg lexeme? h
  rcases hs : s.next? with _ | ⟨t, s₁⟩
  · rw [ahead_eq_nil hs, ahead_eq_nil (hnext.symm.trans hs)]
  · rw [ahead_eq_cons hs, ahead_eq_cons (hnext.symm.trans hs)]

theorem ahead_blanks {cs ds : List Char} {p : Position} (h : ∀ c ∈ cs, isBlank c = true) :
    (Scanner.mk (cs ++ ds) p).ahead = (Scanner.mk ds (p.after cs)).ahead := by
  refine ahead_congr ?_
  have hdrop : (cs ++ ds).dropWhile isBlank = ds.dropWhile isBlank :=
    List.dropWhile_append_of_pos h
  have htake : (cs ++ ds).takeWhile isBlank = cs ++ ds.takeWhile isBlank :=
    List.takeWhile_append_of_pos h
  simp only [skipBlanks, hdrop, htake, Position.after_append]

@[simp] theorem finish_skipBlanks (s : Scanner) : s.skipBlanks.finish = s.finish := by
  simp only [finish, skipBlanks, ← Position.after_append, List.takeWhile_append_dropWhile]

@[simp] theorem finish_skip (s : Scanner) (n : Nat) : (s.skip n).finish = s.finish := by
  simp only [finish, skip, ← Position.after_append, List.take_append_drop]

/-- The place where the text ends is the same from everywhere in the text. -/
theorem finish_of_next? {s s' : Scanner} {t : Token} (h : s.next? = some (t, s')) :
    s'.finish = s.finish := by
  obtain ⟨c, cs, -, -, -, rfl⟩ := next?_eq_some h
  rw [finish_skip, finish_skipBlanks]

theorem skipBlanks_followedBy {s : Scanner} (cs : List Char) (h : s.skipBlanks.rest ≠ []) :
    (s.followedBy cs).skipBlanks = s.skipBlanks.followedBy cs := by
  have hdrop : (s.rest ++ cs).dropWhile isBlank = s.rest.dropWhile isBlank ++ cs := by
    rw [List.dropWhile_append, if_neg (by simpa [skipBlanks] using h)]
  have htake : (s.rest ++ cs).takeWhile isBlank = s.rest.takeWhile isBlank := by
    rw [List.takeWhile_append, if_neg fun hlen => h ?_]
    have hall := (List.takeWhile_prefix isBlank).eq_of_length hlen
    have hsplit := List.takeWhile_append_dropWhile (p := isBlank) (l := s.rest)
    rw [hall] at hsplit
    exact List.append_right_eq_self.1 hsplit
  simp only [skipBlanks, followedBy, hdrop, htake]

theorem skip_followedBy {s : Scanner} {n : Nat} (cs : List Char) (h : n ≤ s.rest.length) :
    (s.followedBy cs).skip n = (s.skip n).followedBy cs := by
  simp only [skip, followedBy, List.drop_append_of_le_length h, List.take_append_of_le_length h]

/-- What does not go on with a token does not change it. -/
theorem next?_followedBy {s s' : Scanner} {t : Token} {ds : List Char}
    (h : s.next? = some (t, s')) (hds : Apart ds) :
    (s.followedBy ds).next? = some (t, s'.followedBy ds) := by
  obtain ⟨c, cs, hrest, -, rfl, rfl⟩ := next?_eq_some h
  have hfirst : Lexeme.first c (cs ++ ds) = Lexeme.first c cs :=
    Lexeme.first_append_of_apart hds
  have hlen : (Lexeme.first c cs).chars.length ≤ s.skipBlanks.rest.length := by
    have := congrArg List.length (Lexeme.first_append c cs)
    rw [List.length_append] at this
    rw [hrest]
    omega
  rw [next?, skipBlanks_followedBy _ (by simp [hrest]), ← skip_followedBy _ hlen]
  simp only [lexeme?, followedBy, hrest, List.cons_append, hfirst]

/-- **No token goes on where the second text begins**, and a scanner remembers nothing but its
    place. -/
theorem ahead_followedBy_of_apart {ds : List Char} (hds : Apart ds) (s : Scanner) :
    (s.followedBy ds).ahead = s.ahead ++ (Scanner.mk ds s.finish).ahead := by
  fun_induction ahead s with
  | case1 s h =>
    have hblank : ∀ c ∈ s.rest, isBlank c = true := by
      unfold next? lexeme? at h
      split at h
      · next hnil => exact List.dropWhile_eq_nil_iff.1 hnil
      · cases h
    exact ahead_blanks hblank
  | case2 s t s' h ih =>
    rw [ahead_eq_cons (next?_followedBy h hds), ih, finish_of_next? h, List.cons_append]

/-- No token reaches over a blank. -/
theorem ahead_followedBy {w : Char} {ds : List Char} (hw : isBlank w = true) (s : Scanner) :
    (s.followedBy (w :: ds)).ahead = s.ahead ++ (Scanner.mk ds (s.finish.step w)).ahead := by
  have hone : ∀ c ∈ [w], isBlank c = true := by simpa using hw
  rw [ahead_followedBy_of_apart (apart_of_isBlank hw)]
  exact congrArg (s.ahead ++ ·) (ahead_blanks hone)

/-- Blanks at the end of a text are not seen. -/
theorem ahead_followedBy_blanks (s : Scanner) {cs : List Char} (h : ∀ c ∈ cs, isBlank c = true) :
    (s.followedBy cs).ahead = s.ahead := by
  have hnil : (Scanner.mk cs s.finish).ahead = [] := by
    rw [← List.append_nil cs, ahead_blanks h]
    exact ahead_eq_nil rfl
  cases cs with
  | nil => rw [followedBy, List.append_nil]
  | cons w cs =>
    rw [ahead_followedBy_of_apart (apart_of_isBlank (h w List.mem_cons_self)), hnil,
      List.append_nil]

/-- A `;` is a token by itself, whatever comes after it. -/
theorem ahead_semicolon (ds : List Char) (p : Position) :
    (Scanner.mk (';' :: ds) p).ahead =
      ⟨.semicolon, ";", p⟩ :: (Scanner.mk ds (p.step ';')).ahead :=
  ahead_eq_cons rfl

/-- No token reaches over a `;`. -/
theorem ahead_followedBy_semicolon (s : Scanner) (ds : List Char) :
    (s.followedBy (';' :: ds)).ahead =
      s.ahead ++ ⟨.semicolon, ";", s.finish⟩ :: (Scanner.mk ds (s.finish.step ';')).ahead := by
  rw [ahead_followedBy_of_apart (apart_cons.2 (by decide)), ahead_semicolon]

end Scanner

/-- The lexemes of both texts together are those of the one and then those of the other. -/
theorem lexemes_append_of_apart {ds : List Char} (hds : Apart ds) (cs : List Char) :
    lexemes (cs ++ ds) = lexemes cs ++ lexemes ds := by
  have hmap := congrArg (List.map Token.lexeme)
    (Scanner.ahead_followedBy_of_apart hds ⟨cs, .start⟩)
  rwa [List.map_append, Scanner.map_lexeme_ahead, Scanner.map_lexeme_ahead,
    Scanner.map_lexeme_ahead] at hmap

end Scriptlet
