/-
  Options of the command.

  * `-t` and `--tokens` ask for the tokens, `-d` and `--debug-ast` for the
    structure of the tree; short options may share a dash. Tokens win if
    both are asked for.
  * `--max-errors` takes a number, of 64 bits, as the next argument or
    after an equals sign: how many diagnostics to show.
  * An argument looks like an option if it is a dash with something after
    it (`looksLikeOption`); a dash alone is a value or a file.
  * Any other argument is the name of the file, and so is every argument
    after `--`. Without a file the command is interactive.
  * Options stand in any order. A number is only looked at when everything
    else is in order.
-/
import Scriptlet.Numeral
import Scriptlet.Text.Quoted

namespace Scriptlet

/-- What the command is asked to do. -/
structure Options where
  /-- Show the tokens of the text. -/
  tokens : Bool
  /-- Show the structure of the tree, not its canonical text. -/
  structured : Bool
  /-- How many diagnostics to show. -/
  maxErrors : Nat
  /-- The file to read, if the command is not interactive. -/
  file : Option String
deriving DecidableEq, Repr

/-- What is wrong with the arguments of the command. -/
inductive UsageError where
  /-- The value of `--max-errors` is no number that can be used. -/
  | badLimit (value : String) (problem : Numeral.Problem)
  /-- An option stands without its value. -/
  | noValue (option : String)
  /-- An option is given twice. -/
  | twice (option : String)
  /-- An argument has no meaning where it stands. -/
  | unknown (argument : String)
deriving DecidableEq, Repr

/-- The option that limits the number of diagnostics, as it is named to the user. -/
def UsageError.limitOption : String := "--max-errors <MAX_ERRORS>"

/-- What the user is told. -/
def UsageError.message (e : UsageError) : String :=
  "error: " ++
    (match e with
     | badLimit value problem =>
       "Invalid value " ++ Text.quoted value ++ " for '" ++ limitOption ++ "': " ++ problem.message
     | noValue option =>
       "The argument '" ++ option ++ "' requires a value but none was supplied"
     | twice option =>
       "The argument '" ++ option ++
         "' was provided more than once, but cannot be used multiple times"
     | unknown argument =>
       "Found argument '" ++ argument ++
         "' which wasn't expected, or isn't valid in this context") ++
    "\n\nFor more information try --help\n"

namespace Options

/-- The largest number that `--max-errors` takes. -/
def largestLimit : Nat := Nat.pow 2 64 - 1

/-- How many diagnostics are shown if nothing else is asked for. -/
def defaultLimit : Nat := 3

/-- The arguments read so far. -/
structure Draft where
  /-- The tokens were asked for. -/
  tokens : Bool
  /-- The structure was asked for. -/
  structured : Bool
  /-- The value given to `--max-errors`. -/
  limit : Option String
  /-- The name of the file. -/
  file : Option String

namespace Draft

/-- Takes `-t`. -/
def askTokens (d : Draft) : Except UsageError Draft :=
  if d.tokens then .error (.twice "--tokens") else .ok { d with tokens := true }

/-- Takes `-d`. -/
def askStructure (d : Draft) : Except UsageError Draft :=
  if d.structured then .error (.twice "--debug-ast") else .ok { d with structured := true }

/-- Takes the value of `--max-errors`. -/
def setLimit (d : Draft) (value : String) : Except UsageError Draft :=
  if d.limit.isSome then .error (.twice UsageError.limitOption)
  else .ok { d with limit := some value }

/-- Takes the name of the file. -/
def setFile (d : Draft) (name : String) : Except UsageError Draft :=
  if d.file.isSome then .error (.unknown name) else .ok { d with file := some name }

/-- Takes short options that share a dash. -/
def short (argument : String) : List Char → Draft → Except UsageError Draft
  | [], d => .ok d
  | 't' :: cs, d => d.askTokens >>= short argument cs
  | 'd' :: cs, d => d.askStructure >>= short argument cs
  | _ :: _, _ => .error (.unknown argument)

/-- Takes every argument as the name of a file. -/
def files : List String → Draft → Except UsageError Draft
  | [], d => .ok d
  | argument :: rest, d => d.setFile argument >>= files rest

/-- The start of `--max-errors` with its value in the same argument. -/
def limitEquals : List Char := "--max-errors=".toList

/-- Whether an argument is a dash with something after it. -/
def looksLikeOption (argument : String) : Bool :=
  match argument.toList with
  | '-' :: _ :: _ => true
  | _ => false

/-- Takes all arguments. -/
def takeAll : List String → Draft → Except UsageError Draft
  | [], d => .ok d
  | "--" :: rest, d => files rest d
  | "--tokens" :: rest, d => d.askTokens >>= takeAll rest
  | "--debug-ast" :: rest, d => d.askStructure >>= takeAll rest
  | ["--max-errors"], _ => .error (.noValue UsageError.limitOption)
  | "--max-errors" :: value :: rest, d =>
    if looksLikeOption value then .error (.noValue UsageError.limitOption)
    else d.setLimit value >>= takeAll rest
  | argument :: rest, d =>
    if limitEquals.isPrefixOf argument.toList then
      d.setLimit (String.ofList (argument.toList.drop limitEquals.length)) >>= takeAll rest
    else
      match argument.toList with
      | '-' :: '-' :: _ => .error (.unknown argument)
      | '-' :: c :: cs => short argument (c :: cs) d >>= takeAll rest
      | _ => d.setFile argument >>= takeAll rest

/-- The limit that was asked for. -/
def maxErrors (d : Draft) : Except UsageError Nat :=
  match d.limit with
  | none => .ok defaultLimit
  | some value =>
    match Numeral.natural largestLimit value.toList with
    | .ok n => .ok n
    | .error problem => .error (.badLimit value problem)

end Draft

/-- The options that the arguments of the command stand for. -/
def ofArguments (arguments : List String) : Except UsageError Options := do
  let d ← Draft.takeAll arguments ⟨false, false, none, none⟩
  return ⟨d.tokens, d.structured, ← d.maxErrors, d.file⟩

end Options

end Scriptlet
