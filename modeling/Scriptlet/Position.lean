/-
  Positions in a text: a line and a column, both counted from one.

  * Only a line feed starts a new line; every other character, a carriage
    return or a tab included, takes one column (`Position.step`).
  * Lines and columns are 32-bit words, which wrap. In a text of less than
    2³² characters every character has its exact line and column, but after
    2³² - 1 characters of one line comes column 0, and after as many line
    feeds line 0.
  * A position is written `line:column` (`Position.text`).
-/
namespace Scriptlet

/-- A place in a text. -/
structure Position where
  /-- The line, the first one being 1. -/
  line : UInt32
  /-- The column within the line, the first one being 1. -/
  column : UInt32
deriving DecidableEq, Repr, Inhabited

namespace Position

/-- The place of the first character of a text. -/
def start : Position := ⟨1, 1⟩

/-- The place of the character after `c`, when `c` stands at the given place. -/
def step (p : Position) (c : Char) : Position :=
  if c = '\n' then ⟨p.line + 1, 1⟩ else ⟨p.line, p.column + 1⟩

/-- The place reached from `p` after the characters `cs`. -/
def after (p : Position) (cs : List Char) : Position :=
  cs.foldl step p

/-- The written form `line:column`. -/
def text (p : Position) : String :=
  toString p.line.toNat ++ ":" ++ toString p.column.toNat

instance : ToString Position := ⟨text⟩

@[simp] theorem after_nil (p : Position) : p.after [] = p := rfl

@[simp] theorem after_cons (p : Position) (c : Char) (cs : List Char) :
    p.after (c :: cs) = (p.step c).after cs := rfl

theorem after_append (p : Position) (cs ds : List Char) :
    p.after (cs ++ ds) = (p.after cs).after ds :=
  List.foldl_append

end Position

end Scriptlet
