import Scriptlet.Dump.Diagnostic
import Scriptlet.Main
import Scriptlet.Proofs.CommandLine.File
import Scriptlet.Proofs.CommandLine.Lines
import Scriptlet.Proofs.Diagnostics.Absent
import Scriptlet.Proofs.Diagnostics.Caret
import Scriptlet.Proofs.Diagnostics.Grounds
import Scriptlet.Proofs.Diagnostics.Nesting
import Scriptlet.Proofs.Diagnostics.Reported
import Scriptlet.Proofs.Language.FunctionBody
import Scriptlet.Proofs.Language.Semicolons
import Scriptlet.Proofs.Reading.Aligned
import Scriptlet.Proofs.Recovery.Block
import Scriptlet.Proofs.Recovery.NextStatement
import Scriptlet.Proofs.Recovery.SafePoint
import Scriptlet.Proofs.Recovery.Separator
import Scriptlet.Proofs.Rendering.Injective
import Scriptlet.Proofs.Rendering.RoundTrip
import Scriptlet.Proofs.Session.Ending
import Scriptlet.Proofs.Session.Frame
import Scriptlet.Proofs.Session.Log
import Scriptlet.Proofs.Session.Operations
import Scriptlet.Proofs.Session.Precedence
import Scriptlet.Proofs.Session.Window
import Scriptlet.Proofs.Text.Requests
import Scriptlet.Proofs.Tree.Depth
import Scriptlet.Proofs.Tree.Faithful
import Scriptlet.Tree.Equality
