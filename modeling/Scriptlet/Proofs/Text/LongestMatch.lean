/-
  Longest match over the lexical grammar. `Lexical` and `Scans` say nothing of
  how a text is scanned; a scanner gives what they say (`tokenize_longest`).
-/
import Scriptlet.Proofs.Text.Layout
import Scriptlet.Proofs.Text.Lexemes

namespace Scriptlet

/-! ## The lexical grammar -/

/-- A character that a word begins with. -/
def Letter (c : Char) : Prop := 'A' ≤ c ∧ c ≤ 'Z' ∨ 'a' ≤ c ∧ c ≤ 'z' ∨ c = '_'

/-- A character of an integer. -/
def Digit (c : Char) : Prop := '0' ≤ c ∧ c ≤ '9'

/-- The operators and delimiters. -/
def symbols : List (String × Kind) :=
  [("==", .equal), ("!=", .notEqual), ("=", .assign), ("!", .bang), ("+", .plus), ("-", .minus),
   ("*", .star), ("/", .slash), ("<", .less), (">", .greater), (";", .semicolon), (",", .comma),
   ("(", .openParen), (")", .closeParen), ("\x7b", .openBrace), ("\x7d", .closeBrace)]

/-- The characters are a lexeme of the kind. -/
inductive Lexical : List Char → Kind → Prop
  | reserved {w : String} {k : Kind} (hw : (w, k) ∈ Kind.reservedWords) : Lexical w.toList k
  | identifier {c : Char} {cs : List Char} (hc : Letter c) (hcs : ∀ d ∈ cs, Letter d ∨ Digit d)
      (hw : ∀ k, (String.ofList (c :: cs), k) ∉ Kind.reservedWords) :
      Lexical (c :: cs) .identifier
  | integer {ds : List Char} (hne : ds ≠ []) (hds : ∀ d ∈ ds, Digit d) : Lexical ds .integer
  | symbol {w : String} {k : Kind} (hw : (w, k) ∈ symbols) : Lexical w.toList k

/-- The longest lexeme that the text begins with. -/
structure Longest (text : List Char) (l : Lexeme) : Prop where
  lexical : Lexical l.chars l.kind
  isPrefix : l.chars <+: text
  longest : ∀ cs k, Lexical cs k → cs <+: text → cs.length ≤ l.chars.length

/-- The lexemes of a text by the longest match. -/
inductive Scans : List Char → List Lexeme → Prop
  | done : Scans [] []
  | blank {c : Char} {text : List Char} {ls : List Lexeme} (hc : c ∈ blankChars)
      (h : Scans text ls) : Scans (c :: text) ls
  | longest {l : Lexeme} {rest : List Char} {ls : List Lexeme} (hl : Longest (l.chars ++ rest) l)
      (h : Scans rest ls) : Scans (l.chars ++ rest) (l :: ls)
  | illegal {c : Char} {rest : List Char} {ls : List Lexeme} (hblank : c ∉ blankChars)
      (hnone : ∀ cs k, Lexical cs k → ¬ cs <+: c :: rest) (h : Scans rest ls) :
      Scans (c :: rest) (⟨.illegal, [c]⟩ :: ls)

/-! ## The classes of characters -/

variable {c d : Char} {cs ds rest text : List Char} {k : Kind} {l l' : Lexeme}

theorem isDigit_iff : c.isDigit = true ↔ Digit c := by
  simp [Char.isDigit, Digit, Char.le_def]

theorem isUpper_iff : c.isUpper = true ↔ 'A' ≤ c ∧ c ≤ 'Z' :=
  decide_eq_true_iff

theorem isLower_iff : c.isLower = true ↔ 'a' ≤ c ∧ c ≤ 'z' := by
  show (decide (c.val ≥ 'a'.val) && decide (c.val ≤ 'z'.val)) = true ↔ _
  rw [Bool.and_eq_true, decide_eq_true_eq, decide_eq_true_eq]
  exact .rfl

theorem isWordStart_iff : isWordStart c = true ↔ Letter c := by
  show ((c.isUpper || c.isLower) || decide (c = '_')) = true ↔ _
  rw [Bool.or_eq_true, Bool.or_eq_true, isUpper_iff, isLower_iff, decide_eq_true_eq, or_assoc]
  exact .rfl

theorem isWordPart_iff : isWordPart c = true ↔ Letter c ∨ Digit c := by
  rw [← isWordStart_iff, ← isDigit_iff]
  simp [isWordPart, isWordStart, Char.isAlphanum, or_right_comm]

theorem isBlank_of_isWordStart (h : isWordStart c = true) : isBlank c = false := by
  by_contra hblank
  rw [Bool.not_eq_false, isBlank_iff] at hblank
  rw [isWordStart_iff, Letter] at h
  simp only [blankChars, List.mem_cons, List.not_mem_nil, or_false] at hblank
  rcases hblank with rfl | rfl | rfl | rfl <;> exact absurd h (by decide)

/-! ## The lexemes -/

theorem ofWord_of_mem {w : String} (h : (w, k) ∈ Kind.reservedWords) : Kind.ofWord w = k := by
  simp only [Kind.reservedWords, List.mem_cons, List.not_mem_nil, or_false, Prod.mk.injEq] at h
  rcases h with ⟨rfl, rfl⟩ | ⟨rfl, rfl⟩ | ⟨rfl, rfl⟩ | ⟨rfl, rfl⟩ | ⟨rfl, rfl⟩ | ⟨rfl, rfl⟩ |
    ⟨rfl, rfl⟩ <;> rfl

/-- A word is reserved, with the kind the table gives, or an identifier. -/
theorem ofWord_spec (w : String) : (w, Kind.ofWord w) ∈ Kind.reservedWords ∨
    Kind.ofWord w = .identifier ∧ ∀ k, (w, k) ∉ Kind.reservedWords := by
  cases h : Kind.reservedWords.lookup w with
  | some k =>
    obtain ⟨before, after, hsplit, -⟩ := List.lookup_eq_some_iff.1 h
    have hmem : (w, k) ∈ Kind.reservedWords := by rw [hsplit]; simp
    rw [ofWord_of_mem hmem]
    exact .inl hmem
  | none =>
    refine .inr ⟨by simp [Kind.ofWord, Kind.reserved?, h], fun k hk => ?_⟩
    simpa using List.lookup_eq_none_iff.1 h _ hk

/-- A word is a lexeme. -/
theorem lexical_word (hc : Letter c) (hcs : ∀ d ∈ cs, Letter d ∨ Digit d) :
    Lexical (c :: cs) (.ofWord (String.ofList (c :: cs))) := by
  rcases ofWord_spec (String.ofList (c :: cs)) with hw | ⟨hid, hw⟩
  · simpa using Lexical.reserved hw
  · rw [hid]
    exact .identifier hc hcs hw

namespace Lexeme

theorem first_word (hc : isWordStart c = true) (hcs : ∀ d ∈ cs, isWordPart d = true) :
    first c cs = word (c :: cs) := by
  unfold first
  rw [if_pos hc, List.takeWhile_eq_self_iff.2 hcs]

/-- The kind of a symbol, or that of an illegal character. -/
theorem first_symbol (hw : isWordStart c = false) (hd : c.isDigit = false) (cs : List Char) :
    (∃ ds, first c cs = ⟨.equal, ['=', '=']⟩ ∧ c = '=' ∧ cs = '=' :: ds) ∨
    (∃ ds, first c cs = ⟨.notEqual, ['!', '=']⟩ ∧ c = '!' ∧ cs = '=' :: ds) ∨
    first c cs = ⟨(symbol? c).getD .illegal, [c]⟩ := by
  unfold first
  simp only [hw, hd, Bool.false_eq_true, if_false]
  split
  · exact .inl ⟨_, rfl, rfl, rfl⟩
  · exact .inr (.inl ⟨_, rfl, rfl, rfl⟩)
  · exact .inr (.inr rfl)

theorem mem_symbols (h : symbol? c = some k) : (String.ofList [c], k) ∈ symbols := by
  unfold symbol? at h
  split at h <;> cases h <;> decide

theorem symbol?_ne_illegal (c : Char) : symbol? c ≠ some .illegal := by
  intro h
  have hmem := mem_symbols h
  simp [symbols] at hmem

/-- A character that begins an illegal lexeme is one whatever comes after it. -/
theorem first_eq_illegal (h : (first c cs).kind = .illegal) (ds : List Char) :
    first c ds = ⟨.illegal, [c]⟩ := by
  rcases first_cases c cs with ⟨-, heq⟩ | ⟨-, heq⟩ | ⟨hw, hd, -⟩
  · rw [heq] at h
    rcases ofWord_spec (String.ofList (c :: cs.takeWhile isWordPart)) with hmem | ⟨hid, -⟩
    · rw [show Kind.ofWord _ = .illegal from h] at hmem
      simp [Kind.reservedWords] at hmem
    · cases hid.symm.trans h
  · rw [heq] at h
    cases h
  · have hnone : symbol? c = none := by
      rcases first_symbol hw hd cs with ⟨-, heq, -⟩ | ⟨-, heq, -⟩ | heq
      · cases heq ▸ h
      · cases heq ▸ h
      · cases hs : symbol? c with
        | none => rfl
        | some k =>
          rw [heq, hs] at h
          exact absurd (hs.trans (congrArg some h)) (symbol?_ne_illegal c)
    rcases first_symbol hw hd ds with ⟨-, -, rfl, -⟩ | ⟨-, -, rfl, -⟩ | heq
    · cases hnone
    · cases hnone
    · rw [heq, hnone]
      rfl

/-- The more of a text there is, the longer is its first lexeme. -/
theorem length_first_le (h : ds <+: cs) :
    (first c ds).chars.length ≤ (first c cs).chars.length := by
  obtain ⟨rest, rfl⟩ := h
  have hrun : ∀ p : Char → Bool, (ds.takeWhile p).length ≤ ((ds ++ rest).takeWhile p).length := by
    intro p
    rw [List.takeWhile_append]
    split
    · next hall =>
      rw [hall]
      simp
    · exact Nat.le_refl _
  cases hw : isWordStart c with
  | true => simpa [first, hw, word] using hrun isWordPart
  | false =>
    cases hd : c.isDigit with
    | true => simpa [first, hw, hd] using hrun Char.isDigit
    | false =>
      rcases first_symbol hw hd ds with ⟨es, -, rfl, rfl⟩ | ⟨es, -, rfl, rfl⟩ | heq
      · exact Nat.le_refl _
      · exact Nat.le_refl _
      · rw [heq]
        exact List.length_pos_iff.2 (first_ne_nil c (ds ++ rest))

end Lexeme

/-- **The lexemes are what is read as one lexeme of a kind that is not illegal.** -/
theorem Lexical.iff_first : Lexical cs k ↔ ∃ c ds, cs = c :: ds ∧ isBlank c = false ∧
    Lexeme.first c ds = ⟨k, c :: ds⟩ ∧ k ≠ .illegal := by
  constructor
  · intro h
    cases h with
    | reserved hw =>
      simp only [Kind.reservedWords, List.mem_cons, List.not_mem_nil, or_false, Prod.mk.injEq] at hw
      rcases hw with ⟨rfl, rfl⟩ | ⟨rfl, rfl⟩ | ⟨rfl, rfl⟩ | ⟨rfl, rfl⟩ | ⟨rfl, rfl⟩ | ⟨rfl, rfl⟩ |
        ⟨rfl, rfl⟩ <;> exact ⟨_, _, rfl, rfl, rfl, by simp⟩
    | @identifier c ds hc hds hw =>
      have hstart := isWordStart_iff.2 hc
      refine ⟨c, ds, rfl, isBlank_of_isWordStart hstart, ?_, by simp⟩
      rw [Lexeme.first_word hstart fun d hd => isWordPart_iff.2 (hds d hd), Lexeme.word]
      rcases ofWord_spec (String.ofList (c :: ds)) with hmem | ⟨hid, -⟩
      · exact absurd hmem (hw _)
      · rw [hid]
    | integer hne hds =>
      obtain ⟨c, ds, rfl⟩ := List.exists_cons_of_ne_nil hne
      have hc : c.isDigit = true := isDigit_iff.2 (hds c List.mem_cons_self)
      refine ⟨c, ds, rfl, isBlank_of_isDigit hc, ?_, by simp⟩
      exact Lexeme.first_integer hc fun d hd => isDigit_iff.2 (hds d (List.mem_cons_of_mem c hd))
    | symbol hw =>
      simp only [symbols, List.mem_cons, List.not_mem_nil, or_false, Prod.mk.injEq] at hw
      rcases hw with ⟨rfl, rfl⟩ | ⟨rfl, rfl⟩ | ⟨rfl, rfl⟩ | ⟨rfl, rfl⟩ | ⟨rfl, rfl⟩ | ⟨rfl, rfl⟩ |
        ⟨rfl, rfl⟩ | ⟨rfl, rfl⟩ | ⟨rfl, rfl⟩ | ⟨rfl, rfl⟩ | ⟨rfl, rfl⟩ | ⟨rfl, rfl⟩ | ⟨rfl, rfl⟩ |
        ⟨rfl, rfl⟩ | ⟨rfl, rfl⟩ | ⟨rfl, rfl⟩ <;> exact ⟨_, _, rfl, rfl, rfl, by simp⟩
  · rintro ⟨c, ds, rfl, hblank, hfirst, hk⟩
    rcases Lexeme.first_cases c ds with ⟨hc, heq⟩ | ⟨hc, heq⟩ | ⟨hw, hd, -⟩
    · rw [hfirst] at heq
      have hkind : k = .ofWord (String.ofList (c :: ds.takeWhile isWordPart)) :=
        congrArg Lexeme.kind heq
      have hrun : ds = ds.takeWhile isWordPart := (List.cons.inj (congrArg Lexeme.chars heq)).2
      rw [hkind, ← hrun]
      refine lexical_word (isWordStart_iff.1 hc) fun d hd => isWordPart_iff.1 ?_
      rw [hrun] at hd
      exact List.mem_takeWhile_imp hd
    · rw [hfirst] at heq
      have hrun : ds = ds.takeWhile Char.isDigit := (List.cons.inj (congrArg Lexeme.chars heq)).2
      rw [show k = .integer from congrArg Lexeme.kind heq]
      refine .integer (List.cons_ne_nil c ds) fun d hd => isDigit_iff.1 ?_
      rcases List.mem_cons.1 hd with rfl | hd
      · exact hc
      · rw [hrun] at hd
        exact List.mem_takeWhile_imp hd
    · rcases Lexeme.first_symbol hw hd ds with ⟨-, heq, -⟩ | ⟨-, heq, -⟩ | heq
      · cases hfirst.symm.trans heq
        show Lexical "==".toList .equal
        exact .symbol (by simp [symbols])
      · cases hfirst.symm.trans heq
        show Lexical "!=".toList .notEqual
        exact .symbol (by simp [symbols])
      · rw [hfirst] at heq
        cases hs : Lexeme.symbol? c with
        | none =>
          rw [hs] at heq
          exact absurd (congrArg Lexeme.kind heq) hk
        | some k' =>
          rw [hs] at heq
          cases heq
          simpa using Lexical.symbol (Lexeme.mem_symbols hs)

/-! ## The longest one -/

/-- A lexeme is of one kind only. -/
theorem Lexical.kind_unique {k' : Kind} (h : Lexical cs k) (h' : Lexical cs k') : k = k' := by
  obtain ⟨c, ds, rfl, -, hfirst, -⟩ := iff_first.1 h
  obtain ⟨c', ds', heq, -, hfirst', -⟩ := iff_first.1 h'
  cases heq
  exact congrArg Lexeme.kind (hfirst.symm.trans hfirst')

theorem Longest.unique (h : Longest text l) (h' : Longest text l') : l = l' := by
  have hchars : l.chars = l'.chars := by
    have hle := h.longest _ _ h'.lexical h'.isPrefix
    have hge := h'.longest _ _ h.lexical h.isPrefix
    exact (List.prefix_of_prefix_length_le h.isPrefix h'.isPrefix hge).eq_of_length
      (Nat.le_antisymm hge hle)
  have hkind : l.kind = l'.kind := by
    refine h.lexical.kind_unique ?_
    rw [hchars]
    exact h'.lexical
  cases l
  cases l'
  cases hchars
  cases hkind
  rfl

/-- **The first lexeme is the longest one**, if it is one of the grammar. -/
theorem Lexeme.first_longest (hblank : isBlank c = false) (hk : (first c cs).kind ≠ .illegal) :
    Longest (c :: cs) (first c cs) := by
  refine ⟨?_, ⟨_, first_append c cs⟩, ?_⟩
  · obtain ⟨ds, hchars, hfirst⟩ := exists_first_eq c cs
    exact Lexical.iff_first.2 ⟨c, ds, hchars, hblank, hchars ▸ hfirst, hk⟩
  · intro es k hes hbegins
    obtain ⟨d, ds, rfl, -, hfirst, -⟩ := Lexical.iff_first.1 hes
    obtain ⟨rfl, hds⟩ := List.cons_prefix_cons.1 hbegins
    have hle := length_first_le (c := d) hds
    rwa [hfirst] at hle

/-- A text that begins with a lexeme of the grammar does not begin with an illegal one. -/
theorem Lexeme.first_kind_ne_illegal (h : Lexical ds k) (hbegins : ds <+: c :: cs) :
    (first c cs).kind ≠ .illegal := by
  obtain ⟨d, es, rfl, -, hfirst, hk⟩ := Lexical.iff_first.1 h
  obtain ⟨rfl, -⟩ := List.cons_prefix_cons.1 hbegins
  intro hill
  exact hk (congrArg Lexeme.kind (hfirst.symm.trans (first_eq_illegal hill es)))

theorem lexemes_of_longest (h : Longest (l.chars ++ rest) l) :
    lexemes (l.chars ++ rest) = l :: lexemes rest := by
  obtain ⟨c, ds, hchars, hblank, -, -⟩ := Lexical.iff_first.1 h.lexical
  have hbegins : l.chars <+: c :: (ds ++ rest) := ⟨rest, by simp [hchars]⟩
  have hne := Lexeme.first_kind_ne_illegal h.lexical hbegins
  rw [hchars, List.cons_append] at h
  have hfirst : Lexeme.first c (ds ++ rest) = ⟨l.kind, c :: ds⟩ := by
    rw [(Lexeme.first_longest hblank hne).unique h, ← hchars]
  rw [hchars, lexemes_of_first hblank hfirst, ← hchars]

/-! ## A text -/

variable {ls : List Lexeme}

theorem Scans.of_dropWhile (h : Scans (cs.dropWhile isBlank) ls) : Scans cs ls := by
  induction cs with
  | nil => exact h
  | cons c cs ih =>
    by_cases hc : isBlank c = true
    · rw [List.dropWhile_cons_of_pos hc] at h
      exact .blank (isBlank_iff.1 hc) (ih h)
    · rwa [List.dropWhile_cons_of_neg hc] at h

theorem scans_lexemes (cs : List Char) : Scans cs (lexemes cs) := by
  fun_induction lexemes cs with
  | case1 cs h =>
    refine .of_dropWhile ?_
    rw [h]
    exact .done
  | case2 cs c rest h ih =>
    refine .of_dropWhile ?_
    have hblank : isBlank c = false := by
      have hhead := List.head?_dropWhile_not isBlank cs
      rw [h] at hhead
      simpa using hhead
    rw [h]
    by_cases hk : (Lexeme.first c rest).kind = .illegal
    · have hfirst := Lexeme.first_eq_illegal hk rest
      rw [hfirst] at ih ⊢
      refine .illegal (fun hc => ?_) (fun ds k hds hbegins => ?_) ih
      · rw [isBlank_iff.2 hc] at hblank
        cases hblank
      · exact Lexeme.first_kind_ne_illegal hds hbegins hk
    · have happend := Lexeme.first_append c rest
      have hlongest := Lexeme.first_longest hblank hk
      rw [← happend] at hlongest
      conv => arg 1; rw [← happend]
      exact .longest hlongest ih

/-- **A scanner gives the lexemes of the longest match.** -/
theorem scans_iff : Scans text ls ↔ ls = lexemes text := by
  constructor
  · intro h
    induction h with
    | done => exact lexemes_nil.symm
    | blank hc _ ih => rw [ih, lexemes_blank (isBlank_iff.2 hc)]
    | longest hl _ ih => rw [ih, lexemes_of_longest hl]
    | @illegal c rest ls hblank hnone _ ih =>
      have hc : isBlank c = false := by
        by_contra hc
        exact hblank (isBlank_iff.1 (by simpa using hc))
      have hill : (Lexeme.first c rest).kind = .illegal := by
        by_contra hk
        have hlongest := Lexeme.first_longest hc hk
        exact hnone _ _ hlongest.lexical hlongest.isPrefix
      have hfirst : Lexeme.first c ([] ++ rest) = ⟨.illegal, [c]⟩ :=
        Lexeme.first_eq_illegal hill rest
      rw [ih, ← lexemes_of_first hc hfirst]
      rfl
  · rintro rfl
    exact scans_lexemes text

/-! ## What comes after a token -/

/-- What comes after the longest lexeme does not go on with it. -/
theorem Longest.not_lexical (h : Longest (l.chars ++ d :: rest) l) (k : Kind) :
    ¬ Lexical (l.chars ++ [d]) k := by
  intro hlexical
  have hle := h.longest _ k hlexical ⟨rest, by simp⟩
  rw [List.length_append, List.length_singleton] at hle
  omega

theorem Lexical.of_identifier (h : Lexical cs .identifier) :
    ∃ c ds, cs = c :: ds ∧ Letter c ∧ ∀ d ∈ ds, Letter d ∨ Digit d := by
  cases h with
  | reserved hw => simp [Kind.reservedWords] at hw
  | @identifier c ds hc hds hw => exact ⟨c, ds, rfl, hc, hds⟩
  | symbol hw => simp [symbols] at hw

theorem Lexical.of_integer (h : Lexical cs .integer) : ∀ d ∈ cs, Digit d := by
  cases h with
  | reserved hw => simp [Kind.reservedWords] at hw
  | integer hne hds => exact hds
  | symbol hw => simp [symbols] at hw

theorem Lexical.of_assign (h : Lexical cs k) (hk : k = .assign ∨ k = .bang) :
    cs = ['='] ∨ cs = ['!'] := by
  cases h with
  | reserved hw =>
    rcases hk with rfl | rfl <;> simp [Kind.reservedWords] at hw
  | identifier => simp at hk
  | integer => simp at hk
  | symbol hw =>
    rcases hk with rfl | rfl
    · simp [symbols] at hw
      simp [hw]
    · simp [symbols] at hw
      simp [hw]

theorem Longest.identifier (h : Longest (l.chars ++ d :: rest) l) (hk : l.kind = .identifier) :
    ¬ (Letter d ∨ Digit d) := by
  intro hd
  obtain ⟨c, ds, hchars, hc, hds⟩ := (hk ▸ h.lexical).of_identifier
  refine h.not_lexical (.ofWord (String.ofList (c :: (ds ++ [d])))) ?_
  rw [hchars]
  refine lexical_word hc fun e he => ?_
  rcases List.mem_append.1 he with he | he
  · exact hds e he
  · rwa [List.mem_singleton.1 he]

theorem Longest.integer (h : Longest (l.chars ++ d :: rest) l) (hk : l.kind = .integer) :
    ¬ Digit d := by
  intro hd
  have hds := (hk ▸ h.lexical).of_integer
  refine h.not_lexical .integer (.integer (by simp) fun e he => ?_)
  rcases List.mem_append.1 he with he | he
  · exact hds e he
  · rwa [List.mem_singleton.1 he]

theorem Longest.assign (h : Longest (l.chars ++ d :: rest) l)
    (hk : l.kind = .assign ∨ l.kind = .bang) : d ≠ '=' := by
  rintro rfl
  rcases h.lexical.of_assign hk with hchars | hchars
  · refine h.not_lexical .equal ?_
    rw [hchars]
    show Lexical "==".toList .equal
    exact .symbol (by simp [symbols])
  · refine h.not_lexical .notEqual ?_
    rw [hchars]
    show Lexical "!=".toList .notEqual
    exact .symbol (by simp [symbols])

/-- A token that is not illegal is the longest lexeme of the text that begins with it. -/
theorem Scanner.Layout.longest {s : Scanner} {w v : List Char} {ps qs rs : List (Token × List Char)}
    {t : Token} (h : s.Layout w ps) (hsplit : ps = qs ++ (t, v) :: rs) (hk : t.kind ≠ .illegal) :
    Longest (t.literal.toList ++ laidOut v rs) t.lexeme := by
  obtain ⟨c, cs, htext, hfirst⟩ := h.first qs t v rs hsplit
  have hmem : t ∈ s.ahead := by
    rw [h.tokens, hsplit]
    simp
  obtain ⟨d, ds, hliteral, hblank, -⟩ := s.spelled_ahead t hmem
  obtain ⟨rfl, -⟩ := List.cons.inj ((congrArg (· ++ laidOut v rs) hliteral).symm.trans htext)
  rw [htext, hfirst]
  refine Lexeme.first_longest hblank ?_
  rw [← hfirst]
  exact hk

/-- **Tokens are the longest match over the lexical grammar.** -/
theorem tokenize_longest (text : String) :
    (∀ ls, Scans text.toList ls ↔ (tokenize text).map Token.lexeme = ls ++ [⟨.eof, []⟩]) ∧
      ∃ w ps e, tokenize text = ps.map Prod.fst ++ [e] ∧ text.toList = laidOut w ps ∧
        (∀ v ∈ w :: ps.map Prod.snd, ∀ c ∈ v, c ∈ blankChars) ∧
        ∀ qs t v rs d, ps = qs ++ (t, v) :: rs → (laidOut v rs).head? = some d →
          (t.kind = .identifier → ¬ (Letter d ∨ Digit d)) ∧
          (t.kind = .integer → ¬ Digit d) ∧
          (t.kind = .assign ∨ t.kind = .bang → d ≠ '=') := by
  constructor
  · intro ls
    rw [tokenize, List.map_append, Scanner.map_lexeme_ahead, scans_iff, eq_comm]
    exact (List.append_left_inj _).symm
  · obtain ⟨w, ps, hlayout⟩ := (Scanner.ofText text).exists_layout
    refine ⟨w, ps, .eof (Scanner.ofText text).finish, ?_, hlayout.rest, hlayout.blank, ?_⟩
    · rw [tokenize, hlayout.tokens]
    · intro qs t v rs d hsplit hd
      obtain ⟨rest, hrest⟩ := List.head?_eq_some_iff.1 hd
      have hlongest : t.kind ≠ .illegal → Longest (t.lexeme.chars ++ d :: rest) t.lexeme := by
        intro hk
        rw [← hrest]
        exact hlayout.longest hsplit hk
      refine ⟨fun hk => ?_, fun hk => ?_, fun hk => ?_⟩
      · exact (hlongest (by simp [hk])).identifier hk
      · exact (hlongest (by simp [hk])).integer hk
      · exact (hlongest (by rcases hk with hk | hk <;> simp [hk])).assign hk

end Scriptlet
