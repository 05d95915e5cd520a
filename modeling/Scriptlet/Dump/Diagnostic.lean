/-
  The structure of diagnostics.
-/
import Scriptlet.Diagnostic
import Scriptlet.Dump.Tree

namespace Scriptlet

/-- The structure of a fault. -/
def Fault.dump (f : Fault) : Dump :=
  .record f.name <|
    match f with
    | .unexpected expected got => [("expected", expected.dump), ("got", got.dump)]
    | .noOperand k => [("kind", k.dump)]
    | .unreadableInteger literal => [("literal", .ofString literal)]
    | .tooDeep limit => [("limit", .ofNat limit)]

/-- The structure of a diagnostic. -/
def Diagnostic.dump (d : Diagnostic) : Dump :=
  .record "Error" [("internal_error", d.fault.dump), ("position", d.position.dump)]

end Scriptlet
