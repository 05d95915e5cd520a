/-
  The log is a complete record of what a session has done. An onlooker sees
  the level and the message of a record, and by how a message begins it can be
  told what is on record.
-/
import Scriptlet.Proofs.Language.Acceptance
import Scriptlet.Proofs.Session.Ending

namespace Scriptlet

open Grammar (maintains_program nestingLimit script)

/-! ## Messages -/

namespace Record

/-- The diagnostic that is noted as reported. -/
def diagnostic? : Record → Option Diagnostic
  | reported d => some d
  | lexed _ | kept _ | repeated => none

/-- The statement that is noted as kept. -/
def statement? : Record → Option Stmt
  | kept s => some s
  | lexed _ | reported _ | repeated => none

/-- Whether a request for a program is noted that comes after the first. -/
def again? : Record → Option Unit
  | repeated => some ()
  | lexed _ | reported _ | kept _ => none

/-- The record is on the level, and its message begins with `start`. -/
def Begins (level : Level) (start : String) (x : Record) : Prop :=
  x.level = level ∧ start.toList <+: x.message.toList

instance (level : Level) (start : String) (x : Record) : Decidable (x.Begins level start) :=
  inferInstanceAs (Decidable (_ ∧ _))

/-- The records that begin so are those that note something of the sort `f`, and they give the
    message `m` about it. -/
structure Tells (level : Level) (start : String) (f : Record → Option α) (m : α → String) :
    Prop where
  some : ∀ {x a}, f x = some a → x.Begins level start ∧ x.message = m a
  none : ∀ {x}, f x = none → ¬ x.Begins level start

section

variable {level : Level} {start other rest : String} {x : Record}

theorem Begins.of_append (hlevel : x.level = level) (h : x.message = start ++ rest) :
    x.Begins level start := by
  refine ⟨hlevel, ?_⟩
  rw [h, String.toList_append]
  exact List.prefix_append _ _

theorem Begins.head_eq {c d : Char} {cs ds : List Char} (h : x.Begins level start)
    (hmessage : x.message = other ++ rest) (hstart : start.toList = c :: cs)
    (hother : other.toList = d :: ds) : c = d := by
  obtain ⟨rest', happend⟩ := h.2
  rw [hmessage, String.toList_append, hstart, hother] at happend
  exact List.head_eq_of_cons_eq happend

end

theorem message_reported (d : Diagnostic) : (reported d).message =
    "syntax error at " ++ (d.position.text ++ (": " ++ d.message)) :=
  String.append_assoc.trans String.append_assoc

theorem message_kept (s : Stmt) : (kept s).message = "parsed statement `" ++ (s.text ++ "`") :=
  String.append_assoc

theorem tells_lexed : Tells .trace "lexed " token? fun t => "lexed " ++ t.text := by
  constructor
  · rintro (t | d | s | _) _ ⟨⟩
    exact ⟨.of_append rfl rfl, rfl⟩
  · rintro (t | d | s | _) ⟨⟩ hbegins
    · cases hbegins.1
    · exact absurd (hbegins.head_eq (message_kept s) rfl rfl) (by decide)
    · cases hbegins.1

theorem tells_reported : Tells .debug "syntax error at " diagnostic?
    fun d => "syntax error at " ++ d.position.text ++ ": " ++ d.message := by
  constructor
  · rintro (t | d | s | _) _ ⟨⟩
    exact ⟨.of_append rfl (message_reported d), rfl⟩
  · rintro (t | d | s | _) ⟨⟩ ⟨⟨⟩, -⟩

theorem tells_kept : Tells .trace "parsed statement `" statement?
    fun s => "parsed statement `" ++ s.text ++ "`" := by
  constructor
  · rintro (t | d | s | _) _ ⟨⟩
    exact ⟨.of_append rfl (message_kept s), rfl⟩
  · rintro (t | d | s | _) ⟨⟩ hbegins
    · have hlexed : (lexed t).message = "lexed " ++ t.text := rfl
      exact absurd (hbegins.head_eq hlexed rfl rfl) (by decide)
    · cases hbegins.1
    · cases hbegins.1

theorem tells_repeated : Tells .warn "" again? fun _ =>
    "parse_program called again on a consumed parser" := by
  constructor
  · rintro (t | d | s | _) _ ⟨⟩
    exact ⟨⟨rfl, List.nil_prefix⟩, rfl⟩
  · rintro (t | d | s | _) ⟨⟩ ⟨⟨⟩, -⟩

end Record

namespace Reader

/-- The messages on a level that begin with `start`, in the order of the log. -/
def messages (r : Reader) (level : Level) (start : String) : List String :=
  (r.log.toList.filter fun x => x.Begins level start).map Record.message

/-- What the log notes of a sort, in order. -/
def extract (r : Reader) (f : Record → Option α) : List α :=
  r.log.toList.filterMap f

variable {r : Reader} {f : Record → Option α}

theorem messages_eq {level : Level} {start : String} {m : α → String}
    (h : Record.Tells level start f m) : r.messages level start = (r.extract f).map m := by
  unfold messages extract
  induction r.log.toList with
  | nil => rfl
  | cons x log ih =>
    cases hx : f x with
    | some a =>
      obtain ⟨hbegins, hm⟩ := h.some hx
      rw [List.filter_cons_of_pos (by simpa using hbegins), List.filterMap_cons_some hx,
        List.map_cons, List.map_cons, hm, ih]
    | none =>
      have hbegins : ¬ x.Begins level start := h.none hx
      rw [List.filter_cons_of_neg (by simpa using hbegins), List.filterMap_cons_none hx, ih]

theorem extract_note (x : Record) : (r.note x).extract f = r.extract f ++ (f x).toList := by
  cases h : f x <;> simp [extract, note, h]

theorem extract_report (d : Diagnostic) :
    (r.report d).extract f = r.extract f ++ (f (.reported d)).toList :=
  extract_note (.reported d)

theorem extract_ofScanner (hf : ∀ t, f (.lexed t) = none) (s : Scanner) :
    (ofScanner s).extract f = [] := by
  unfold extract ofScanner
  rw [Array.toList_map, List.filterMap_map, List.filterMap_eq_nil_iff]
  exact fun t _ => hf t

/-- A record that notes no token is not made by moving on. -/
theorem extract_advance (hf : ∀ t, f (.lexed t) = none) : r.advance.extract f = r.extract f := by
  unfold extract advance
  rcases r.ahead with _ | ⟨c, _ | ⟨t, _ | ⟨u, rest⟩⟩⟩ <;> simp [hf]

/-- Where a reader has come to the end of the text, all tokens are on record. -/
theorem At.extract_of_nil {s : Scanner} {i : ℕ} (h : r.At s i) (hnil : r.ahead = []) :
    r.extract Record.token? = s.ahead := by
  have hlength : s.ahead.length ≤ i := List.drop_eq_nil_iff.1 (h.ahead.symm.trans hnil)
  exact h.noted.trans (List.take_of_length_le (Nat.le_add_right_of_le hlength))

end Reader

/-! ## Whatever is read -/

namespace Grammar

variable (g : Grammar)

/-- The diagnostics on record are those reported, and there is no warning. -/
def accounting : g.Invariant where
  Holds r := r.extract Record.diagnostic? = r.errors.toList ∧ r.extract Record.again? = []
  Tells _ _ := True
  advance h := ⟨(Reader.extract_advance fun _ => rfl).trans h.1,
    (Reader.extract_advance fun _ => rfl).trans h.2⟩
  report h _ := by
    rw [Reader.extract_report, Reader.extract_report, h.1, h.2, Reader.errors_report,
      Array.toList_push]
    exact ⟨rfl, rfl⟩
  unexpected _ _ := trivial
  unclosed _ _ := trivial
  noOperand _ _ := trivial
  unreadable _ _ _ := trivial
  tooDeep _ := trivial

instance : g.accounting.Recording where
  kept {r} s h := by
    refine ⟨?_, ?_⟩
    · rw [Reader.extract_note, h.1]
      exact List.append_nil _
    · rw [Reader.extract_note, h.2]
      rfl

/-- The statements on record are `ss`. -/
def abiding (ss : List Stmt) : g.Invariant where
  Holds r := r.extract Record.statement? = ss
  Tells _ _ := True
  advance h := (Reader.extract_advance fun _ => rfl).trans h
  report h _ := by rw [Reader.extract_report, h]; exact List.append_nil ss
  unexpected _ _ := trivial
  unclosed _ _ := trivial
  noOperand _ _ := trivial
  unreadable _ _ _ := trivial
  tooDeep _ := trivial

/-- Round after round, the statements of the program are put on record. -/
theorem extract_program (sub : Power → Parse Expr)
    [∀ ss p, Parse.Maintains (g.abiding ss) (sub p)] (r : Reader) :
    ((g.program sub).run r).2.extract Record.statement? =
      r.extract Record.statement? ++ ((g.program sub).run r).1 := by
  rw [program_eq_untilKind]
  show (Walk.rounds _ _ r).2.extract Record.statement? =
    r.extract Record.statement? ++ (Walk.rounds _ _ r).1
  fun_induction Walk.rounds (fun _ => false) (g.stmt? sub >>= keep) r with
  | case1 => exact (List.append_nil _).symm
  | case2 _ _ _ _ hstop => cases hstop
  | case3 r _ _ _ _ here later ih =>
    have hround : here.2.extract Record.statement? =
        r.extract Record.statement? ++ here.1.toList := by
      have hstmt : ((g.stmt? sub).run r).2.extract Record.statement? =
          r.extract Record.statement? :=
        (maintains_stmt? (I := g.abiding (r.extract Record.statement?)) sub).holds rfl
      rw [show here = (keep ((g.stmt? sub).run r).1).run ((g.stmt? sub).run r).2 from rfl, ← hstmt]
      cases ((g.stmt? sub).run r).1 with
      | none => exact (List.append_nil _).symm
      | some s => exact Reader.extract_note (.kept s)
    show later.2.extract Record.statement? = _ ++ (here.1.toList ++ later.1)
    rw [← List.append_assoc, ← hround]
    exact ih.trans (congrArg (· ++ later.1) (Reader.extract_advance fun _ => rfl))

end Grammar

namespace Session

variable {s : Session}

/-- Once the program has been read, it stays so. -/
theorem consumed_after (h : s.consumed = true) (op : Operation) : (s.after op).consumed = true := by
  cases op with
  | enter => rcases enter_cases s with ⟨-, henter⟩ | henter <;> (rw [after, henter]; exact h)
  | program =>
    rcases program_cases s with hprogram | hprogram <;> rw [after, hprogram]
    exact h
  | register new =>
    obtain ⟨g, hregister⟩ := register_eq s new
    rw [after, hregister]
    exact h
  | _ => exact h

/-- Asked again, a session gives no statement, and leaves a warning. -/
theorem program_of_read (h : s.consumed = true) :
    s.program = (⟨[]⟩, { s with reader := s.reader.note .repeated }) := by
  rw [program, if_pos h]
  rfl

/-- **The log is a complete record.** When the program of a text has been read, the log shows the
    tokens of the text, the diagnostics and the statements of the program, each of them once and in
    order, and no warning. From then on, whatever is done with the session, asking for the program
    adds a warning, gives no statement and does nothing else. -/
theorem log_complete (text : String) :
    let s := (ofText text).program.2
    s.reader.messages .trace "lexed " =
        (tokenize text).dropLast.map (fun t => "lexed " ++ t.text) ∧
      s.reader.messages .debug "syntax error at " =
        (parse text).2.map
          (fun d => "syntax error at " ++ d.position.text ++ ": " ++ d.message) ∧
      s.reader.messages .trace "parsed statement `" =
        (parse text).1.statements.map (fun t => "parsed statement `" ++ t.text ++ "`") ∧
      s.reader.messages .warn "" = [] ∧
      ∀ ops : List Operation,
        let x := s.run ops
        x.program = (⟨[]⟩, { x with reader := x.reader.note .repeated }) ∧
          x.program.2.reader.log = x.reader.log.push .repeated ∧
          x.program.2.reader.messages .warn "" = x.reader.messages .warn "" ++
            ["parse_program called again on a consumed parser"] ∧
          x.program.2.reader.errors = x.reader.errors ∧
          x.program.2.reader.current = x.reader.current ∧
          x.program.2.reader.next = x.reader.next := by
  intro s
  have hprogram := program_of_unread (s := ofText text) rfl
  have hreader : s.reader = ((script.program (script.expr nestingLimit)).run
      (.ofScanner (.ofText text))).2 := congrArg (·.2.reader) hprogram
  have hconsumed : s.consumed = true := congrArg (·.2.consumed) hprogram
  have haccount : script.accounting.Holds s.reader := by
    rw [hreader]
    refine (maintains_program (script.expr nestingLimit)).holds ⟨?_, ?_⟩
    · exact Reader.extract_ofScanner (fun _ => rfl) _
    · exact Reader.extract_ofScanner (fun _ => rfl) _
  refine ⟨?_, ?_, ?_, ?_, fun ops => ?_⟩
  · obtain ⟨i, -, hat⟩ := at_after (x := ofText text) (Reader.at_ofScanner _) .program
    have hnil : s.reader.ahead = [] := hreader ▸ script.ahead_program _ _
    rw [Reader.messages_eq Record.tells_lexed, dropLast_tokenize, ← hat.extract_of_nil hnil]
    rfl
  · rw [Reader.messages_eq Record.tells_reported, haccount.1]
    rfl
  · have hkept := script.extract_program (script.expr nestingLimit) (.ofScanner (.ofText text))
    rw [Reader.extract_ofScanner fun _ => rfl, List.nil_append, ← hreader] at hkept
    rw [Reader.messages_eq Record.tells_kept, hkept]
    rfl
  · rw [Reader.messages_eq Record.tells_repeated, haccount.2, List.map_nil]
  · have hread : (s.run ops).consumed = true :=
      run_induction (P := (·.consumed = true)) hconsumed (fun op h => consumed_after h op) ops
    intro x
    have hagain : x.program = _ := program_of_read hread
    rw [hagain]
    refine ⟨rfl, rfl, ?_, rfl, rfl, rfl⟩
    rw [Reader.messages_eq Record.tells_repeated, Reader.messages_eq Record.tells_repeated,
      Reader.extract_note, List.map_append]
    rfl

end Session

end Scriptlet
