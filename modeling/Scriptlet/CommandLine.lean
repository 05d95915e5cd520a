/-
  The command: what it writes, and how it ends, for given arguments, files
  and input.

  * `Options.process` treats one text. It writes the tokens, or the canonical
    text or the structure of the program; if there are diagnostics, it
    writes no more than `maxErrors` of them to the error stream, says how
    many are left, and writes no program.
  * `Options.runFile` treats the contents of a file.
  * `Options.answer` treats a line of the input, and `Options.interact` all
    of them, each by itself, with a prompt before each, until the input ends
    or a line holds `exit` and white space only. Errors in a line do not end
    it; a line that is not text does.
  * `commandLine` is the whole command.
-/
import Scriptlet.CommandLine.Folder
import Scriptlet.CommandLine.Options
import Scriptlet.Dump.Tree
import Scriptlet.Report
import Scriptlet.Session

namespace Scriptlet

/-- How a command ends. -/
inductive Status where
  | success
  | failure
  /-- the arguments make no sense -/
  | misuse
  /-- a report could not be written -/
  | abort
deriving DecidableEq, Repr

/-- The code by which a command tells how it ended. -/
def Status.code : Status → Nat
  | success => 0
  | failure => 1
  | misuse => 2
  | abort => 101

/-- What a command writes, and how it ends. -/
structure Outcome where
  /-- How the command ends. -/
  status : Status
  /-- The text on the output stream. -/
  stdout : String
  /-- The text on the error stream. -/
  stderr : String
deriving DecidableEq, Repr

/-- What is said of bytes that are not text. -/
def notText : String := "stream did not contain valid UTF-8"

/-- Diagnostics, reported one after another; the first that cannot be reported ends the list. -/
def reports (source file : String) : List Diagnostic → Status × String
  | [] => (.failure, "")
  | d :: ds =>
    match d.report source file with
    | .ok text =>
      let rest := reports source file ds
      (rest.1, text ++ rest.2)
    | .error e => (.abort, e.message ++ "\n")

namespace Options

/-- The number of diagnostics that are not shown, if there are any. -/
def remainder (o : Options) (count : Nat) : String :=
  if count > o.maxErrors then
    "... and " ++ toString (count - o.maxErrors) ++ " more error(s)\n"
  else ""

/-- Treats the text `source`, known as `file`. -/
def process (o : Options) (source file : String) : Outcome :=
  if o.tokens then
    ⟨.success, String.join ((tokenize source).map fun t => t.text ++ "\n"), ""⟩
  else
    let read := parse source
    if read.2.isEmpty then
      let text := if o.structured then read.1.dump.indented else read.1.text
      ⟨.success, text ++ "\n", ""⟩
    else
      let shown := reports source file (read.2.take o.maxErrors)
      match shown.1 with
      | .abort => ⟨.abort, "", shown.2⟩
      | _ => ⟨.failure, "", shown.2 ++ o.remainder read.2.length⟩

/-- Treats the contents of a file, if it can be read. -/
def runFile (o : Options) (file : String) (contents : Except FileError ByteArray) : Outcome :=
  match contents with
  | .error e => ⟨.failure, "", file ++ ": " ++ e.message ++ "\n"⟩
  | .ok bytes =>
    match String.fromUTF8? bytes with
    | none => ⟨.failure, "", file ++ ": " ++ notText ++ "\n"⟩
    | some source => o.process source file

/-- The prompt before each line. -/
def prompt : String := ">> "

/-- The name by which reports call a line of the input. -/
def shell : String := "shell"

/-- Whether a line asks for the end. -/
def isExit (line : String) : Bool :=
  Text.trim line.toList = "exit".toList

/-- What a line of the input is answered. -/
structure Answer where
  /-- The text on the output stream. -/
  stdout : String
  /-- The text on the error stream. -/
  stderr : String
  /-- How the command ends, if it ends with this line. -/
  ending : Option Status
deriving DecidableEq, Repr

/-- Answers a line of the input; a line that is not text is given as `none`. -/
def answer (o : Options) : Option String → Answer
  | none =>
    ⟨"", "Error: Error \x7b kind: InvalidData, message: " ++ Text.quoted notText ++ " \x7d\n",
      some .failure⟩
  | some line =>
    if isExit line then ⟨"", "", some .success⟩
    else
      let now := o.process line shell
      ⟨now.stdout, now.stderr, if now.status = .abort then some .abort else none⟩

/-- Answers the lines of the input, with a prompt before each. -/
def interact (o : Options) : List (Option String) → Outcome
  | [] => ⟨.success, prompt, ""⟩
  | line :: lines =>
    let now := o.answer line
    match now.ending with
    | some status => ⟨status, prompt ++ now.stdout, now.stderr⟩
    | none =>
      let later := o.interact lines
      ⟨later.status, prompt ++ now.stdout ++ later.stdout, now.stderr ++ later.stderr⟩

end Options

/-! ## The lines of the input -/

/-- The line feed. -/
def lineFeed : UInt8 := 10

/-- The carriage return. -/
def carriageReturn : UInt8 := 13

/-- Bytes without a carriage return at the end. -/
def dropReturn (bytes : List UInt8) : List UInt8 :=
  if bytes.getLast? = some carriageReturn then bytes.dropLast else bytes

/-- The lines of some bytes. A line ends at a line feed or at the end of the bytes; a carriage
    return right before the line feed belongs to the line end. -/
def byteLines (bytes : List UInt8) : List (List UInt8) :=
  match _h : bytes.dropWhile (· ≠ lineFeed) with
  | _ :: rest => dropReturn (bytes.takeWhile (· ≠ lineFeed)) :: byteLines rest
  | [] => if bytes.isEmpty then [] else [bytes]
termination_by bytes.length
decreasing_by
  have := (List.dropWhile_suffix (l := bytes) (· ≠ lineFeed)).length_le
  rw [_h, List.length_cons] at this
  omega

/-- The lines of the input, as far as they are text. -/
def inputLines (input : ByteArray) : List (Option String) :=
  (byteLines input.data.toList).map fun line => String.fromUTF8? line.toByteArray

/-- The command with the given arguments and input, where `read` reads the file of a path. -/
def commandLine (arguments : List String) (read : String → Except FileError ByteArray)
    (input : ByteArray) : Outcome :=
  match Options.ofArguments arguments with
  | .error e => ⟨.misuse, "", e.message⟩
  | .ok o =>
    match o.file with
    | some file => o.runFile file (read file)
    | none => o.interact (inputLines input)

end Scriptlet
