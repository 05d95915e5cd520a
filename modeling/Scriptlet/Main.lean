/-
  The program: the command of `Scriptlet.CommandLine` over the real streams
  and files. Lines of the input are answered as they come.
-/
import Scriptlet.CommandLine

namespace Scriptlet

/-- The code of a status, for the system. -/
def Status.exitCode (s : Status) : UInt32 := s.code.toUInt32

/-- Writes to the output stream and then to the error stream. -/
def write (stdout stderr : String) : IO Unit := do
  IO.print stdout
  (← IO.getStdout).flush
  IO.eprint stderr

/-- Writes what a command has to say, and gives its code. -/
def Outcome.emit (o : Outcome) : IO UInt32 := do
  write o.stdout o.stderr
  return o.status.exitCode

/-- The number of an error of the system; some come negated, in 32 bits. -/
def errorNumber (code : UInt32) : Nat :=
  if code < 0x80000000 then code.toNat else (-code).toNat

/-- Why the system did not read a file. -/
def FileError.ofSystem : IO.Error → FileError
  | .noFileOrDirectory _ code reason
  | .alreadyExists _ code reason
  | .invalidArgument _ code reason
  | .permissionDenied _ code reason
  | .resourceExhausted _ code reason
  | .inappropriateType _ code reason
  | .noSuchThing _ code reason
  | .interrupted _ code reason
  | .otherError code reason
  | .resourceBusy code reason
  | .resourceVanished code reason
  | .unsupportedOperation code reason
  | .hardwareFault code reason
  | .unsatisfiedConstraints code reason
  | .illegalOperation code reason
  | .protocolError code reason
  | .timeExpired code reason => .ofCode (errorNumber code) reason
  | .unexpectedEof | .userError _ => .notFound

/-- The contents of a file, if it can be read. -/
def contentsOf (file : String) : IO (Except FileError ByteArray) :=
  try
    return .ok (← IO.FS.readBinFile file)
  catch e =>
    return .error (.ofSystem e)

/-- The bytes up to the end of a line, and with it; none at the end of the input. -/
partial def readLine (input : IO.FS.Stream) (bytes : ByteArray) : IO ByteArray := do
  let byte ← input.read 1
  let bytes := bytes ++ byte
  if byte.isEmpty || byte.data.back? = some lineFeed then return bytes
  readLine input bytes

/-- Answers the lines of the input as they come. -/
partial def converse (o : Options) (input : IO.FS.Stream) : IO UInt32 := do
  write Options.prompt ""
  match inputLines (← readLine input ByteArray.empty) with
  | [] => return Status.success.exitCode
  | line :: _ =>
    let answer := o.answer line
    write answer.stdout answer.stderr
    match answer.ending with
    | some status => return status.exitCode
    | none => converse o input

end Scriptlet

open Scriptlet in
/-- Runs the command. -/
def main (arguments : List String) : IO UInt32 := do
  match Options.ofArguments arguments with
  | .error e => Outcome.emit ⟨.misuse, "", e.message⟩
  | .ok o =>
    match o.file with
    | some file => Outcome.emit (o.runFile file (← contentsOf file))
    | none => converse o (← IO.getStdin)
