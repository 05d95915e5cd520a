/-
  The lexemes of a list of characters, one after another: tokens without their
  places.
-/
import Scriptlet.Proofs.Text.Spelling

namespace Scriptlet

/-- The kind and the characters of a token. -/
def Token.lexeme (t : Token) : Lexeme := ⟨t.kind, t.literal.toList⟩

/-- The lexemes of a text. -/
def lexemes (cs : List Char) : List Lexeme :=
  match _h : cs.dropWhile isBlank with
  | [] => []
  | c :: rest =>
    Lexeme.first c rest :: lexemes ((c :: rest).drop (Lexeme.first c rest).chars.length)
termination_by cs.length
decreasing_by
  refine Nat.lt_of_lt_of_le (Lexeme.length_drop_first_lt c rest) ?_
  rw [← _h]
  exact (List.dropWhile_suffix _).length_le

theorem lexemes_of_nil {cs : List Char} (h : cs.dropWhile isBlank = []) : lexemes cs = [] := by
  rw [lexemes]
  split
  · rfl
  · simp_all

theorem lexemes_of_cons {c : Char} {cs rest : List Char} (h : cs.dropWhile isBlank = c :: rest) :
    lexemes cs = Lexeme.first c rest ::
      lexemes ((c :: rest).drop (Lexeme.first c rest).chars.length) := by
  rw [lexemes]
  split <;> simp_all

/-- **A scanner gives the lexemes of the characters it has left.** -/
theorem Scanner.map_lexeme_ahead (s : Scanner) : s.ahead.map Token.lexeme = lexemes s.rest := by
  fun_induction ahead s with
  | case1 s h =>
    refine (lexemes_of_nil ?_).symm
    unfold next? lexeme? at h
    split at h
    · assumption
    · cases h
  | case2 s t s' h ih =>
    obtain ⟨c, cs, hrest, -, rfl, rfl⟩ := next?_eq_some h
    rw [List.map_cons, ih, lexemes_of_cons hrest]
    simp [Token.lexeme, skip, hrest]

@[simp] theorem lexemes_nil : lexemes [] = [] := lexemes_of_nil rfl

theorem lexemes_blank {c : Char} {cs : List Char} (h : isBlank c = true) :
    lexemes (c :: cs) = lexemes cs := by
  have hdrop : (c :: cs).dropWhile isBlank = cs.dropWhile isBlank := by simp [h]
  rcases hcs : cs.dropWhile isBlank with _ | ⟨d, ds⟩
  · rw [lexemes_of_nil hcs, lexemes_of_nil (hdrop.trans hcs)]
  · rw [lexemes_of_cons hcs, lexemes_of_cons (hdrop.trans hcs)]

theorem lexemes_blanks {ws : List Char} (hws : ∀ w ∈ ws, isBlank w = true) (cs : List Char) :
    lexemes (ws ++ cs) = lexemes cs := by
  induction ws with
  | nil => rfl
  | cons w ws ih =>
    rw [List.forall_mem_cons] at hws
    rw [List.cons_append, lexemes_blank hws.1, ih hws.2]

/-- What is read first is a lexeme by itself. -/
theorem lexemes_of_first {c : Char} {ds rest : List Char} {k : Kind} (hblank : isBlank c = false)
    (h : Lexeme.first c (ds ++ rest) = ⟨k, c :: ds⟩) :
    lexemes (c :: ds ++ rest) = ⟨k, c :: ds⟩ :: lexemes rest := by
  have hblanks : (c :: ds ++ rest).dropWhile isBlank = c :: (ds ++ rest) := by simp [hblank]
  rw [lexemes_of_cons hblanks, h]
  simp

/-- An operator or delimiter that is no beginning of a longer one. -/
theorem lexemes_delimiter {c : Char} {cs : List Char} {k : Kind}
    (h : Lexeme.symbol? c = some k) (hc : c ≠ '=' ∧ c ≠ '!') :
    lexemes (c :: cs) = ⟨k, [c]⟩ :: lexemes cs := by
  show lexemes (c :: [] ++ cs) = _
  refine lexemes_of_first ?_ ?_
  · unfold Lexeme.symbol? at h
    split at h <;> first | rfl | cases h
  · unfold Lexeme.symbol? at h
    split at h <;> cases h <;> first | rfl | simp_all

theorem lexemes_bang {cs : List Char} (h : ∀ d ∈ cs.head?, d ≠ '=') :
    lexemes ('!' :: cs) = ⟨.bang, ['!']⟩ :: lexemes cs := by
  show lexemes ('!' :: [] ++ cs) = _
  refine lexemes_of_first rfl ?_
  unfold Lexeme.first
  cases cs with
  | nil => rfl
  | cons d cs =>
    have hd : d ≠ '=' := h d rfl
    simp only [List.nil_append]
    split
    · next hw => exact absurd hw (by decide)
    · split
      · next hd' => exact absurd hd' (by decide)
      · split
        · next heq => exact absurd (List.cons.inj heq).1 hd
        · next heq => exact absurd (List.cons.inj heq).1 hd
        · rfl

/-- The characters do not go on with a lexeme that stands before them. -/
def Apart (cs : List Char) : Prop :=
  ∀ c ∈ cs.head?, isWordPart c = false ∧ c ≠ '='

@[simp] theorem apart_nil : Apart [] := by simp [Apart]

@[simp] theorem apart_cons {c : Char} {cs : List Char} :
    Apart (c :: cs) ↔ isWordPart c = false ∧ c ≠ '=' := by
  simp [Apart]

theorem takeWhile_append_of_head {p : Char → Bool} (cs : List Char) {ds : List Char}
    (hds : ∀ d ∈ ds.head?, p d = false) : (cs ++ ds).takeWhile p = cs.takeWhile p := by
  have hnil : ds.takeWhile p = [] := by
    cases ds with
    | nil => rfl
    | cons d ds => simp [hds d rfl]
  rw [List.takeWhile_append, hnil, List.append_nil]
  split
  · next hlen => exact (List.takeWhile_prefix p).eq_of_length hlen |>.symm
  · rfl

/-- What does not go on with a lexeme is not looked at. -/
theorem Lexeme.first_append_of_apart {c : Char} {cs rest : List Char} (hrest : Apart rest) :
    first c (cs ++ rest) = first c cs := by
  have hword := takeWhile_append_of_head cs fun d hd => (hrest d hd).1
  have hdigits : (cs ++ rest).takeWhile Char.isDigit = cs.takeWhile Char.isDigit := by
    refine takeWhile_append_of_head cs fun d hd => ?_
    have hpart := (hrest d hd).1
    simp only [isWordPart, Char.isAlphanum, Bool.or_eq_false_iff] at hpart
    exact hpart.1.2
  unfold first
  rw [hword, hdigits]
  split
  · rfl
  · split
    · rfl
    · cases cs with
      | cons d cs => split <;> rename_i heq <;> simp_all
      | nil =>
        have hne : ∀ ds, rest ≠ '=' :: ds := by
          rintro ds rfl
          exact absurd rfl (hrest '=' rfl).2
        simp only [List.nil_append]
        split
        · exact absurd rfl (hne _)
        · exact absurd rfl (hne _)
        · rfl

/-- **The literal of a token is scanned as that token again**, where it is not gone on with. -/
theorem lexemes_spelled {t : Token} (rest : List Char) (h : t.Spelled) (hrest : Apart rest) :
    lexemes (t.literal.toList ++ rest) = t.lexeme :: lexemes rest := by
  obtain ⟨c, cs, hlit, hblank, hfirst⟩ := h
  rw [Token.lexeme, hlit]
  exact lexemes_of_first hblank ((Lexeme.first_append_of_apart hrest).trans hfirst)

end Scriptlet
