/-
  Readers: the tokens of a text, seen through a window of two.

  A reader stands on the current token and sees the next one; at the end of
  the text both are the end token. It also collects the diagnostics reported
  so far and the log.

  * `Reader.ofScanner` stands on the first token that a scanner gives.
  * `Reader.advance` moves on by one token, and logs the token that comes
    into view; at the end of the text it stays.
  * `Reader.synchronize` moves on to where a statement may end: see there.
    Nothing but the place and the log changes (`Reader.synchronize_errors`).
-/
import Scriptlet.Log
import Scriptlet.Scanner

namespace Scriptlet

/-- A place among the tokens of a text. -/
structure Reader where
  /-- The current token and all after it, the end token left out. -/
  ahead : List Token
  /-- The place where the text ends. -/
  finish : Position
  /-- The diagnostics reported, oldest first. -/
  errors : Array Diagnostic
  /-- The log, oldest record first. -/
  log : Array Record

namespace Reader

/-- The reader on the first token that the scanner gives. -/
def ofScanner (s : Scanner) : Reader where
  ahead := s.ahead
  finish := s.finish
  errors := #[]
  log := (s.ahead.take 2).toArray.map .lexed

/-- The current token. -/
def current (r : Reader) : Token :=
  r.ahead.headD (.eof r.finish)

/-- The token after the current one. -/
def next (r : Reader) : Token :=
  r.ahead.tail.headD (.eof r.finish)

/-- Adds a record to the log. -/
def note (r : Reader) (record : Record) : Reader :=
  { r with log := r.log.push record }

/-- Reports a diagnostic. -/
def report (r : Reader) (d : Diagnostic) : Reader :=
  { r with errors := r.errors.push d, log := r.log.push (.reported d) }

/-- Moves on by one token. -/
def advance (r : Reader) : Reader where
  ahead := r.ahead.tail
  finish := r.finish
  errors := r.errors
  log :=
    match r.ahead with
    | _ :: _ :: t :: _ => r.log.push (.lexed t)
    | _ => r.log

@[simp] theorem ahead_note (r : Reader) (record : Record) : (r.note record).ahead = r.ahead := rfl

@[simp] theorem errors_note (r : Reader) (record : Record) :
    (r.note record).errors = r.errors := rfl

@[simp] theorem ahead_report (r : Reader) (d : Diagnostic) : (r.report d).ahead = r.ahead := rfl

@[simp] theorem errors_report (r : Reader) (d : Diagnostic) :
    (r.report d).errors = r.errors.push d := rfl

@[simp] theorem ahead_advance (r : Reader) : r.advance.ahead = r.ahead.tail := rfl

@[simp] theorem errors_advance (r : Reader) : r.advance.errors = r.errors := rfl

@[simp] theorem finish_advance (r : Reader) : r.advance.finish = r.finish := rfl

/-- Moves on to a token at which a broken statement may be given up: a `;`, the end of the text,
    or a token with a `}` or the start of a statement after it. -/
def synchronize (starts : Kind → Bool) (r : Reader) : Reader :=
  match _h : r.ahead with
  | [] => r
  | t :: _ =>
    if t.kind.isTerminator || r.next.kind = .closeBrace || starts r.next.kind then r
    else r.advance.synchronize starts
termination_by r.ahead.length
decreasing_by simp [_h]

theorem synchronize_errors (starts : Kind → Bool) (r : Reader) :
    (r.synchronize starts).errors = r.errors := by
  fun_induction synchronize starts r with
  | case1 => rfl
  | case2 => rfl
  | case3 _ _ _ _ _ ih => exact ih

theorem synchronize_suffix (starts : Kind → Bool) (r : Reader) :
    (r.synchronize starts).ahead <:+ r.ahead := by
  fun_induction synchronize starts r with
  | case1 => exact List.suffix_refl _
  | case2 => exact List.suffix_refl _
  | case3 _ _ _ _ _ ih => exact ih.trans (List.tail_suffix _)

end Reader

end Scriptlet
