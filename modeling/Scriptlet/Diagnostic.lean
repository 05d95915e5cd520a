/-
  Diagnostics: what is wrong with a text, and where.

  * `Fault` is the cause. It has a name, a message and sometimes a tip that
    says what to do about it.
  * `Diagnostic` is a fault with the place of the token it concerns.
-/
import Scriptlet.Kind
import Scriptlet.Position

namespace Scriptlet

/-- What can be wrong with a text. -/
inductive Fault where
  /-- A token of one kind is due, and one of another kind comes next. -/
  | unexpected (expected got : Kind)
  /-- No expression begins with a token of this kind. -/
  | noOperand (kind : Kind)
  /-- An integer literal denotes no integer of the language. -/
  | unreadableInteger (literal : String)
  /-- Expressions are nested in more levels than are allowed. -/
  | tooDeep (limit : Nat)
deriving DecidableEq, Repr

namespace Fault

/-- The name of the sort of fault. -/
def name : Fault → String
  | unexpected .. => "UnexpectedToken"
  | noOperand _ => "NoPrefixParseFn"
  | unreadableInteger _ => "IntegerParseError"
  | tooDeep _ => "NestingTooDeep"

/-- The message that describes a fault. -/
def message : Fault → String
  | unexpected expected got =>
    "expected next token to be " ++ expected.name ++ ", got " ++ got.name
  | noOperand k => "no prefix parse function for " ++ k.name ++ " found"
  | unreadableInteger literal => "could not parse " ++ literal ++ " as integer"
  | tooDeep limit => "expression nested deeper than " ++ toString limit ++ " levels"

/-- Advice on a fault, for those that have any. -/
def tip? : Fault → Option String
  | unexpected .semicolon _ | unexpected .closeParen _ | unexpected .closeBrace _ =>
    some "is a delimiter missing?"
  | unexpected _ _ => none
  | noOperand .illegal => some "unrecognised character in source"
  | noOperand k => some ("an expression cannot start with " ++ k.name)
  | unreadableInteger literal => some ("`" ++ literal ++ "` is above the integer limit")
  | tooDeep _ => some "split the expression with `var` bindings"

end Fault

/-- A fault and the place of the token it concerns. -/
structure Diagnostic where
  /-- What is wrong. -/
  fault : Fault
  /-- Where. -/
  position : Position
deriving DecidableEq, Repr

namespace Diagnostic

/-- The message that describes a diagnostic. -/
def message (d : Diagnostic) : String := d.fault.message

instance : ToString Diagnostic := ⟨message⟩

end Diagnostic

end Scriptlet
