/-
  Tokens: a kind, the spelling found in the text, and the place of its first
  character.
-/
import Scriptlet.Kind
import Scriptlet.Position
import Scriptlet.Text.Quoted

namespace Scriptlet

/-- A located piece of a text. -/
structure Token where
  /-- What the token is. -/
  kind : Kind
  /-- The characters of the text that make up the token. -/
  literal : String
  /-- The place of its first character. -/
  position : Position
deriving DecidableEq, Repr, Inhabited

namespace Token

/-- The token that stands for the end of a text, at the given place. -/
def eof (p : Position) : Token := ⟨.eof, "", p⟩

/-- The written form of a token: place, kind and quoted spelling. -/
def text (t : Token) : String :=
  t.position.text ++ " " ++ t.kind.name ++ " " ++ Text.quoted t.literal

instance : ToString Token := ⟨text⟩

@[simp] theorem kind_eof (p : Position) : (eof p).kind = .eof := rfl

@[simp] theorem position_eof (p : Position) : (eof p).position = p := rfl

end Token

end Scriptlet
