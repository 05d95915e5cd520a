/-
  The lines of a text.

  A line ends at a line feed, or at the end of the text; a carriage return
  right before the line feed belongs to the line end. A carriage return
  anywhere else, at the end of the text too, is part of the line.

  * `firstLine` is the line a text begins with, `nthLine` any line; lines
    that a text does not have are empty.
-/
namespace Scriptlet.Text

/-- The line that a text begins with. -/
def firstLine : List Char → List Char
  | [] => []
  | '\n' :: _ => []
  | '\r' :: '\n' :: _ => []
  | c :: cs => c :: firstLine cs

/-- The line of a text that has `n` lines before it. -/
def nthLine : Nat → List Char → List Char
  | 0, cs => firstLine cs
  | _ + 1, [] => []
  | n + 1, c :: cs => if c = '\n' then nthLine n cs else nthLine (n + 1) cs

@[simp] theorem nthLine_nil (n : Nat) : nthLine n [] = [] := by
  cases n <;> rfl

/-- A line is the first of what follows the line feeds before it. -/
theorem nthLine_append {cs : List Char} (hcs : '\n' ∉ cs) (n : Nat) (ds : List Char) :
    nthLine (n + 1) (cs ++ '\n' :: ds) = nthLine n ds := by
  induction cs with
  | nil => simp [nthLine]
  | cons c cs ih =>
    simp only [List.mem_cons, not_or] at hcs
    simp [nthLine, Ne.symm hcs.1, ih hcs.2]

end Scriptlet.Text
