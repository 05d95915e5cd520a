/-
  Lexemes: the characters of one token, before they are given a place.

  * A word is a letter or underscore followed by letters, digits and
    underscores; an integer is a run of digits; `==` and `!=` are taken
    whole; every other character is a lexeme by itself, an illegal one if
    it is no operator and no delimiter.
  * Letters and digits are the ASCII ones: any other letter is illegal.
  * `Lexeme.first c cs` is the lexeme that `c :: cs` begins with. It is a
    non-empty prefix of the text (`Lexeme.first_append`,
    `Lexeme.first_ne_nil`), so reading it always moves on, and its kind is
    never that of the end of a text (`Lexeme.first_kind_ne_eof`).
-/
import Scriptlet.Kind

namespace Scriptlet

/-- A character that separates tokens and belongs to none. -/
def isBlank (c : Char) : Bool :=
  c = ' ' || c = '\t' || c = '\n' || c = '\r'

/-- A character that a word begins with. -/
def isWordStart (c : Char) : Bool :=
  c.isAlpha || c = '_'

/-- A character that a word goes on with. -/
def isWordPart (c : Char) : Bool :=
  c.isAlphanum || c = '_'

/-- The kind and the characters of a token. -/
structure Lexeme where
  /-- What the token is. -/
  kind : Kind
  /-- The characters that make it up. -/
  chars : List Char
deriving DecidableEq, Repr, Inhabited

namespace Lexeme

/-- The kind of an operator or delimiter of one character. -/
def symbol? : Char → Option Kind
  | '=' => some .assign
  | '!' => some .bang
  | '+' => some .plus
  | '-' => some .minus
  | '*' => some .star
  | '/' => some .slash
  | '<' => some .less
  | '>' => some .greater
  | ';' => some .semicolon
  | ',' => some .comma
  | '(' => some .openParen
  | ')' => some .closeParen
  | '\x7b' => some .openBrace
  | '\x7d' => some .closeBrace
  | _ => none

/-- The word `cs`, reserved or not. -/
def word (cs : List Char) : Lexeme := ⟨.ofWord (String.ofList cs), cs⟩

/-- The lexeme that the text `c :: cs` begins with, `c` being no blank. -/
def first (c : Char) (cs : List Char) : Lexeme :=
  if isWordStart c then
    word (c :: cs.takeWhile isWordPart)
  else if c.isDigit then
    ⟨.integer, c :: cs.takeWhile Char.isDigit⟩
  else
    match c, cs with
    | '=', '=' :: _ => ⟨.equal, ['=', '=']⟩
    | '!', '=' :: _ => ⟨.notEqual, ['!', '=']⟩
    | c, _ => ⟨(symbol? c).getD .illegal, [c]⟩

theorem first_append (c : Char) (cs : List Char) :
    (first c cs).chars ++ (c :: cs).drop (first c cs).chars.length = c :: cs := by
  have hrun : ∀ p : Char → Bool,
      (c :: cs.takeWhile p) ++ (c :: cs).drop (c :: cs.takeWhile p).length = c :: cs := by
    intro p
    have h : c :: cs = (c :: cs.takeWhile p) ++ cs.dropWhile p := by
      simp [List.takeWhile_append_dropWhile]
    conv => lhs; arg 2; rw [h, List.drop_left]
    exact h.symm
  unfold first
  split
  · exact hrun isWordPart
  · split
    · exact hrun Char.isDigit
    · split <;> simp

theorem first_ne_nil (c : Char) (cs : List Char) : (first c cs).chars ≠ [] := by
  unfold first
  split
  · simp [word]
  · split
    · simp
    · split <;> simp

theorem length_drop_first_lt (c : Char) (cs : List Char) :
    ((c :: cs).drop (first c cs).chars.length).length < (c :: cs).length := by
  have := List.length_pos_iff.2 (first_ne_nil c cs)
  simp only [List.length_drop, List.length_cons]
  omega

theorem ofWord_ne_eof (w : String) : Kind.ofWord w ≠ .eof := by
  unfold Kind.ofWord Kind.reserved? Kind.reservedWords
  simp only [List.lookup_cons, List.lookup_nil]
  repeat' split
  all_goals simp

theorem symbol?_ne_eof (c : Char) : symbol? c ≠ some .eof := by
  unfold symbol?
  split <;> simp

theorem first_kind_ne_eof (c : Char) (cs : List Char) : (first c cs).kind ≠ .eof := by
  unfold first
  split
  · exact ofWord_ne_eof _
  · split
    · simp
    · split
      · simp
      · simp
      · have := symbol?_ne_eof c
        cases h : symbol? c with
        | none => simp
        | some k => rintro rfl; exact this h

end Lexeme

end Scriptlet
