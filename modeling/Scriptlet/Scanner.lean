/-
  Scanners: a place in a text, from which tokens are read one after another.

  * `Scanner.next` skips blanks and reads one token. At the end of the text
    it gives the end token, again and again; `Scanner.item` gives nothing
    there.
  * `Scanner.ahead` lists the tokens still to come, the end left out, and
    `Scanner.finish` is the place of the end; `tokenize` lists the tokens of
    a text with the end token last.
  * Tokens are read lazily or all at once with the same result:
    `Scanner.ahead_eq_nil` and `Scanner.ahead_eq_cons` relate `ahead` to
    `next`.
-/
import Scriptlet.Lexeme
import Scriptlet.Token

namespace Scriptlet

/-- What is left of a text, and the place where it starts. -/
structure Scanner where
  /-- The characters not yet read. -/
  rest : List Char
  /-- The place of the first of them. -/
  position : Position
deriving DecidableEq, Repr, Inhabited

namespace Scanner

/-- The scanner at the start of a text. -/
def ofText (text : String) : Scanner := ⟨text.toList, .start⟩

/-- Whether every character has been read. -/
def atEnd (s : Scanner) : Bool := s.rest.isEmpty

/-- The scanner after its first `n` characters. -/
def skip (s : Scanner) (n : Nat) : Scanner :=
  ⟨s.rest.drop n, s.position.after (s.rest.take n)⟩

/-- The scanner at the next character that is no blank. -/
def skipBlanks (s : Scanner) : Scanner :=
  ⟨s.rest.dropWhile isBlank, s.position.after (s.rest.takeWhile isBlank)⟩

/-- Reads a token, if there is one, from a place where no blank stands. -/
def lexeme? (s : Scanner) : Option (Token × Scanner) :=
  match s.rest with
  | [] => none
  | c :: cs =>
    let l := Lexeme.first c cs
    some (⟨l.kind, String.ofList l.chars, s.position⟩, s.skip l.chars.length)

/-- Reads a token, if there is one. -/
def next? (s : Scanner) : Option (Token × Scanner) :=
  s.skipBlanks.lexeme?

/-- Reads a token; at the end of the text, the end token. -/
def next (s : Scanner) : Token × Scanner :=
  s.next?.getD (.eof s.skipBlanks.position, s.skipBlanks)

/-- Reads the next item of an iteration over the tokens; at the end of the text there is none. -/
def item (s : Scanner) : Option Token × Scanner :=
  (if s.next.1.kind = .eof then none else some s.next.1, s.next.2)

theorem length_rest_of_lexeme? {s s' : Scanner} {t : Token} (h : s.lexeme? = some (t, s')) :
    s'.rest.length < s.rest.length := by
  unfold lexeme? at h
  split at h
  · cases h
  · next c cs hs =>
    cases h
    simpa [skip, hs] using Lexeme.length_drop_first_lt c cs

theorem length_rest_of_next? {s s' : Scanner} {t : Token} (h : s.next? = some (t, s')) :
    s'.rest.length < s.rest.length :=
  Nat.lt_of_lt_of_le (length_rest_of_lexeme? h)
    (List.IsSuffix.length_le (List.dropWhile_suffix _))

/-- The tokens still to come, the end token left out. -/
def ahead (s : Scanner) : List Token :=
  match _h : s.next? with
  | none => []
  | some (t, s') => t :: s'.ahead
termination_by s.rest.length
decreasing_by exact length_rest_of_next? _h

/-- The place where the text ends. -/
def finish (s : Scanner) : Position :=
  s.position.after s.rest

theorem ahead_eq_nil {s : Scanner} (h : s.next? = none) : s.ahead = [] := by
  rw [ahead]
  split
  · rfl
  · simp_all

theorem ahead_eq_cons {s s' : Scanner} {t : Token} (h : s.next? = some (t, s')) :
    s.ahead = t :: s'.ahead := by
  rw [ahead]
  split <;> simp_all

end Scanner

/-- The tokens of a text, with the end token last. -/
def tokenize (text : String) : List Token :=
  (Scanner.ofText text).ahead ++ [.eof (Scanner.ofText text).finish]

end Scriptlet
