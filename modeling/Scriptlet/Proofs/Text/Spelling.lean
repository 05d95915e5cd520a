/-
  Spelling: the literal of a token is what its kind says.
-/
import Mathlib.Data.List.TakeWhile
import Scriptlet.Numeral
import Scriptlet.Scanner

namespace Scriptlet

/-- The number that the spelling of a token denotes in decimal. -/
def Token.decimal (t : Token) : Nat :=
  Nat.ofDigitChars 10 t.literal.toList 0

/-- Read by itself, the literal of the token is one lexeme of the token's kind. -/
def Token.Spelled (t : Token) : Prop :=
  ∃ c cs, t.literal.toList = c :: cs ∧ isBlank c = false ∧
    Lexeme.first c cs = ⟨t.kind, c :: cs⟩

theorem Lexeme.first_eq_of_symbol {c : Char} {cs : List Char} (hw : isWordStart c = false)
    (hd : c.isDigit = false) : ∃ ds, (first c cs).chars = c :: ds ∧
      first c ds = ⟨(first c cs).kind, c :: ds⟩ := by
  unfold first
  simp only [hw, hd, Bool.false_eq_true, if_false]
  split
  · exact ⟨['='], rfl, by simp⟩
  · exact ⟨['='], rfl, by simp⟩
  · exact ⟨[], rfl, by split <;> simp_all⟩

/-- A lexeme reads back as itself. -/
theorem Lexeme.exists_first_eq (c : Char) (cs : List Char) : ∃ ds,
    (first c cs).chars = c :: ds ∧ first c ds = ⟨(first c cs).kind, c :: ds⟩ := by
  cases hw : isWordStart c with
  | true =>
    exact ⟨cs.takeWhile isWordPart, by simp [first, hw, word],
      by simp [first, hw, word, List.takeWhile_idem]⟩
  | false =>
    cases hd : c.isDigit with
    | true =>
      exact ⟨cs.takeWhile Char.isDigit, by simp [first, hw, hd],
        by simp [first, hw, hd, List.takeWhile_idem]⟩
    | false => exact first_eq_of_symbol hw hd

namespace Scanner

variable {s s' : Scanner} {t : Token}

/-- Reading a token skips the blanks before it, and takes the lexeme that stands there. -/
theorem next?_eq_some (h : s.next? = some (t, s')) : ∃ c cs,
    s.skipBlanks.rest = c :: cs ∧ isBlank c = false ∧
    t = ⟨(Lexeme.first c cs).kind, String.ofList (Lexeme.first c cs).chars,
      s.skipBlanks.position⟩ ∧
    s' = s.skipBlanks.skip (Lexeme.first c cs).chars.length := by
  unfold next? lexeme? at h
  split at h
  · cases h
  · next c cs hrest =>
    cases h
    refine ⟨c, cs, hrest, ?_, rfl, rfl⟩
    have hhead := List.head?_dropWhile_not isBlank s.rest
    rw [show s.rest.dropWhile isBlank = c :: cs from hrest] at hhead
    simpa using hhead

theorem spelled_of_next? (h : s.next? = some (t, s')) : t.Spelled := by
  obtain ⟨c, cs, -, hblank, rfl, -⟩ := next?_eq_some h
  obtain ⟨ds, hchars, hfirst⟩ := Lexeme.exists_first_eq c cs
  exact ⟨c, ds, by simp [hchars], hblank, hfirst⟩

/-- **Every token of a text is spelled as its kind says.** -/
theorem spelled_ahead (s : Scanner) : ∀ t ∈ s.ahead, t.Spelled := by
  fun_induction ahead s with
  | case1 s h => simp
  | case2 s t s' h ih =>
    intro u hu
    rcases List.mem_cons.1 hu with rfl | hu
    · exact spelled_of_next? h
    · exact ih u hu

/-- The characters of tokens are characters of the text. -/
theorem mem_rest_of_mem_ahead {s : Scanner} {t : Token} {c : Char} (ht : t ∈ s.ahead)
    (hc : c ∈ t.literal.toList) : c ∈ s.rest := by
  fun_induction ahead s with
  | case1 s h => cases ht
  | case2 s u s' h ih =>
    obtain ⟨d, ds, hrest, -, rfl, rfl⟩ := next?_eq_some h
    have happend := Lexeme.first_append d ds
    refine (List.dropWhile_suffix isBlank).subset (show c ∈ s.skipBlanks.rest from ?_)
    rw [hrest, ← happend]
    rcases List.mem_cons.1 ht with rfl | ht
    · exact List.mem_append_left _ (by simpa using hc)
    · refine List.mem_append_right _ ?_
      have := ih ht
      rwa [skip, hrest] at this

end Scanner

theorem isBlank_of_isDigit {c : Char} (h : c.isDigit = true) : isBlank c = false := by
  cases hb : isBlank c with
  | false => rfl
  | true =>
    simp only [isBlank, Bool.or_eq_true, decide_eq_true_eq] at hb
    rcases hb with ((rfl | rfl) | rfl) | rfl <;> exact absurd h (by decide)

theorem isWordStart_of_isDigit {c : Char} (h : c.isDigit = true) : isWordStart c = false := by
  simp only [Char.isDigit, Bool.and_eq_true, decide_eq_true_eq] at h
  have hle := UInt32.le_iff_toNat_le.1 h.2
  have hupper : c.isUpper = false := by
    rw [← Bool.not_eq_true]
    intro hc
    have hge := UInt32.le_iff_toNat_le.1 (of_decide_eq_true hc).1
    simp at hle hge
    omega
  have hlower : c.isLower = false := by
    rw [← Bool.not_eq_true]
    intro hc
    have hge := UInt32.le_iff_toNat_le.1 (of_decide_eq_true (Bool.and_eq_true_iff.1 hc).1)
    simp at hle hge
    omega
  have hline : c ≠ '_' := by
    rintro rfl
    exact absurd h.2 (by decide)
  have halpha : c.isAlpha = false := by
    show (c.isUpper || c.isLower) = false
    rw [hupper, hlower]
    rfl
  simp [isWordStart, halpha, hline]

/-- A run of digits is one lexeme. -/
theorem Lexeme.first_integer {c : Char} {cs : List Char} (hc : c.isDigit = true)
    (hcs : ∀ d ∈ cs, d.isDigit = true) : first c cs = ⟨.integer, c :: cs⟩ := by
  unfold first
  rw [if_neg (by simp [isWordStart_of_isDigit hc]), if_pos hc, List.takeWhile_eq_self_iff.2 hcs]

/-! ## What the literal of a kind is -/

/-- The spelling of a kind that has only one. -/
def Kind.spelling? : Kind → Option String
  | eof | illegal | identifier | integer => none
  | assign => some "="
  | equal => some "=="
  | bang => some "!"
  | notEqual => some "!="
  | less => some "<"
  | greater => some ">"
  | plus => some "+"
  | minus => some "-"
  | star => some "*"
  | slash => some "/"
  | semicolon => some ";"
  | comma => some ","
  | openParen => some "("
  | closeParen => some ")"
  | openBrace => some "\x7b"
  | closeBrace => some "\x7d"
  | varWord => some "var"
  | returnWord => some "return"
  | functionWord => some "function"
  | ifWord => some "if"
  | elseWord => some "else"
  | trueWord => some "true"
  | falseWord => some "false"

/-- A word is an identifier, unless it is the spelling of its kind. -/
theorem Kind.ofWord_cases (w : String) :
    ofWord w = identifier ∨ (ofWord w).spelling? = some w := by
  unfold ofWord reserved?
  cases h : reservedWords.lookup w with
  | none => exact .inl rfl
  | some k =>
    refine .inr ?_
    revert h
    simp only [reservedWords, List.lookup_cons, List.lookup_nil]
    repeat' split
    all_goals
      rintro ⟨⟩
      first | (rename_i hw; rw [beq_iff_eq.1 hw]; rfl) | skip

theorem Lexeme.symbol?_spelling {c : Char} {k : Kind} (h : symbol? c = some k) :
    k.spelling? = some (String.ofList [c]) := by
  unfold symbol? at h
  split at h <;> cases h <;> rfl

/-- The three shapes of a lexeme. -/
theorem Lexeme.first_cases (c : Char) (cs : List Char) :
    (isWordStart c = true ∧ first c cs = word (c :: cs.takeWhile isWordPart)) ∨
    (c.isDigit = true ∧ first c cs = ⟨.integer, c :: cs.takeWhile Char.isDigit⟩) ∨
    (isWordStart c = false ∧ c.isDigit = false ∧ ((first c cs).kind = .illegal ∨
      (first c cs).kind.spelling? = some (String.ofList (first c cs).chars))) := by
  cases hw : isWordStart c with
  | true => exact .inl ⟨rfl, by simp [first, hw]⟩
  | false =>
    cases hd : c.isDigit with
    | true => exact .inr (.inl ⟨rfl, by simp [first, hw, hd]⟩)
    | false =>
      refine .inr (.inr ⟨rfl, rfl, ?_⟩)
      unfold first
      simp only [hw, hd, Bool.false_eq_true, if_false]
      split
      · exact .inr rfl
      · exact .inr rfl
      · cases hs : symbol? c with
        | none => exact .inl rfl
        | some k => exact .inr (symbol?_spelling hs)

namespace Token.Spelled

variable {t : Token}

theorem kind_ne_eof (h : t.Spelled) : t.kind ≠ .eof := by
  obtain ⟨c, cs, -, -, hfirst⟩ := h
  have hne := Lexeme.first_kind_ne_eof c cs
  rwa [hfirst] at hne

/-- The three shapes of a literal. -/
theorem cases (h : t.Spelled) :
    (∃ c cs, t.literal.toList = c :: cs ∧ isWordStart c = true ∧
      (∀ d ∈ cs, isWordPart d = true) ∧ t.kind = .ofWord t.literal) ∨
    (t.literal.toList ≠ [] ∧ (∀ d ∈ t.literal.toList, d.isDigit = true) ∧ t.kind = .integer) ∨
    (t.kind = .illegal ∨ t.kind.spelling? = some t.literal) := by
  obtain ⟨c, cs, hlit, -, hfirst⟩ := h
  have hof : String.ofList (c :: cs) = t.literal := by rw [← hlit, String.ofList_toList]
  rcases Lexeme.first_cases c cs with ⟨hw, heq⟩ | ⟨hd, heq⟩ | ⟨-, -, hs⟩
  · rw [hfirst] at heq
    simp only [Lexeme.word, Lexeme.mk.injEq, List.cons.injEq, true_and] at heq
    refine .inl ⟨c, cs, hlit, hw, fun d hmem => ?_, ?_⟩
    · rw [heq.2] at hmem
      exact List.all_eq_true.1 List.all_takeWhile d hmem
    · rw [heq.1, ← heq.2, hof]
  · rw [hfirst] at heq
    simp only [Lexeme.mk.injEq, List.cons.injEq, true_and] at heq
    refine .inr (.inl ⟨by simp [hlit], fun d hmem => ?_, heq.1⟩)
    rw [hlit, List.mem_cons] at hmem
    rcases hmem with rfl | hmem
    · exact hd
    · rw [heq.2] at hmem
      exact List.all_eq_true.1 List.all_takeWhile d hmem
  · rw [hfirst, hof] at hs
    exact .inr (.inr hs)

theorem literal_eq (h : t.Spelled) {w : String} (hk : t.kind.spelling? = some w) :
    t.literal = w := by
  rcases h.cases with ⟨-, -, -, -, -, hword⟩ | ⟨-, -, hint⟩ | hill | hs
  · rcases Kind.ofWord_cases t.literal with hid | hs
    · rw [hword, hid] at hk; cases hk
    · rw [hword, hs] at hk; exact Option.some.inj hk
  · rw [hint] at hk; cases hk
  · rw [hill] at hk; cases hk
  · rw [hs] at hk; exact Option.some.inj hk

theorem isDigit (h : t.Spelled) (hk : t.kind = .integer) :
    t.literal.toList ≠ [] ∧ ∀ c ∈ t.literal.toList, c.isDigit = true := by
  rcases h.cases with ⟨-, -, -, -, -, hword⟩ | ⟨hne, hall, -⟩ | hill | hs
  · rcases Kind.ofWord_cases t.literal with hid | hs
    · rw [hword, hid] at hk; cases hk
    · rw [← hword, hk] at hs; cases hs
  · exact ⟨hne, hall⟩
  · rw [hill] at hk; cases hk
  · rw [hk] at hs; cases hs

/-- A run of digits spells an integer. -/
theorem of_digits (hk : t.kind = .integer) (hne : t.literal.toList ≠ [])
    (hall : ∀ c ∈ t.literal.toList, c.isDigit = true) : t.Spelled := by
  obtain ⟨c, cs, hlit⟩ := List.exists_cons_of_ne_nil hne
  rw [hlit] at hall
  have hc : c.isDigit = true := hall c List.mem_cons_self
  refine ⟨c, cs, hlit, isBlank_of_isDigit hc, ?_⟩
  rw [hk]
  exact Lexeme.first_integer hc fun d hd => hall d (List.mem_cons_of_mem c hd)

/-- The literal of an integer is read as its decimal value, and refused exactly above the largest
    integer. -/
theorem integer_eq (h : t.Spelled) (hk : t.kind = .integer) :
    Numeral.integer t.literal.toList =
      if t.decimal ≤ Numeral.largest then .ok (t.decimal : Int) else .error .tooLarge := by
  obtain ⟨hne, hall⟩ := h.isDigit hk
  unfold Numeral.integer
  split
  · next he => rw [he] at hall; exact absurd (hall '-' (by simp)) (by decide)
  · rw [Numeral.natural_of_digits hne hall, Numeral.digits_eq (Nat.zero_le _) hall]
    unfold decimal
    split <;> rfl

end Token.Spelled

end Scriptlet
