/-
  What a session shows of its text: the current token and the next one.
-/
import Scriptlet.Proofs.Reading.Invariant
import Scriptlet.Proofs.Session.Operations
import Scriptlet.Proofs.Text.Stream

namespace Scriptlet

/-! ## Readers of a scanner -/

/-- The token that is noted as read. -/
def Record.token? : Record → Option Token
  | .lexed t => some t
  | .reported _ | .kept _ | .repeated => none

namespace Reader

/-- The tokens noted as read, in order. -/
def noted (r : Reader) : List Token :=
  r.log.toList.filterMap Record.token?

/-- The number of tokens of the scanner before the current one. -/
def passed (r : Reader) (s : Scanner) : ℕ :=
  s.ahead.length - r.ahead.length

/-- The reader shows the tokens `i` and `i + 1` that the scanner gives, and it has read the text up
    to the end of these. -/
structure Sees (r : Reader) (s : Scanner) (i : ℕ) : Prop where
  current : r.current = s.token i
  next : r.next = s.token (i + 1)
  rest : r.ahead.drop 2 = (s.later (i + 2)).ahead
  finish : r.finish = (s.later (i + 2)).finish
  noted : r.noted = s.ahead.take (i + 2)

/-- The reader stands where `i` tokens of the scanner have been passed. -/
structure At (r : Reader) (s : Scanner) (i : ℕ) : Prop where
  ahead : r.ahead = s.ahead.drop i
  finish : r.finish = s.finish
  noted : r.noted = s.ahead.take (i + 2)

variable {r : Reader} {s : Scanner} {i : ℕ}

theorem noted_note (r : Reader) (record : Record) :
    (r.note record).noted = r.noted ++ record.token?.toList := by
  cases h : record.token? <;> simp [noted, note, h]

theorem noted_report (r : Reader) (d : Diagnostic) : (r.report d).noted = r.noted := by
  simp [noted, report, Record.token?]

/-- The token that comes into view is noted, if there is one. -/
theorem noted_advance (r : Reader) :
    r.advance.noted = r.noted ++ (r.ahead.drop 2).head?.toList := by
  unfold noted advance
  rcases r.ahead with _ | ⟨c, _ | ⟨t, _ | ⟨u, rest⟩⟩⟩ <;> simp [Record.token?]

theorem at_ofScanner (s : Scanner) : (ofScanner s).At s 0 where
  ahead := rfl
  finish := rfl
  noted := by
    simp only [noted, ofScanner, Array.toList_map, List.filterMap_map]
    exact List.filterMap_some

namespace At

theorem advance (h : r.At s i) : r.advance.At s (i + 1) where
  ahead := by rw [ahead_advance, h.ahead, List.tail_drop]
  finish := h.finish
  noted := by
    rw [noted_advance, h.noted, h.ahead, List.drop_drop, List.head?_drop]
    exact List.take_add_one.symm

theorem report (h : r.At s i) (d : Diagnostic) : (r.report d).At s i where
  ahead := h.ahead
  finish := h.finish
  noted := by rw [noted_report, h.noted]

theorem note (h : r.At s i) {record : Record} (hrecord : record.token? = none) :
    (r.note record).At s i where
  ahead := h.ahead
  finish := h.finish
  noted := by rw [noted_note, hrecord, h.noted, Option.toList_none, List.append_nil]

theorem sees (h : r.At s i) : r.Sees s i where
  current := by rw [current, h.ahead, h.finish, Scanner.token_eq]
  next := by rw [next, h.ahead, h.finish, List.tail_drop, Scanner.token_eq]
  rest := by rw [h.ahead, List.drop_drop, Scanner.ahead_later]
  finish := by rw [h.finish, Scanner.finish_later]
  noted := h.noted

/-- At the end of the text the number of tokens passed is not counted on. -/
theorem passed_eq (h : r.At s i) : r.passed s = min i s.ahead.length := by
  rw [passed, h.ahead, List.length_drop]
  omega

theorem at_passed (h : r.At s i) : r.At s (r.passed s) := by
  rw [h.passed_eq]
  rcases Nat.le_total i s.ahead.length with hle | hle
  · rwa [Nat.min_eq_left hle]
  · rw [Nat.min_eq_right hle]
    refine ⟨?_, h.finish, ?_⟩
    · rw [h.ahead, List.drop_length, List.drop_eq_nil_of_le hle]
    · rw [h.noted, List.take_of_length_le (by omega), List.take_of_length_le (by omega)]

end At

end Reader

/-! ## Whatever is read -/

/-- A reader that has passed `n` tokens of the scanner goes on from there. -/
def Grammar.window (g : Grammar) (s : Scanner) (n : ℕ) : g.Invariant where
  Holds r := ∃ i, n ≤ i ∧ r.At s i
  Tells _ _ := True
  advance := fun ⟨i, hi, h⟩ => ⟨i + 1, Nat.le_succ_of_le hi, h.advance⟩
  report := fun ⟨i, hi, h⟩ _ => ⟨i, hi, h.report _⟩
  unexpected _ _ := trivial
  unclosed _ _ := trivial
  noOperand _ _ := trivial
  unreadable _ _ _ := trivial
  tooDeep _ := trivial

instance (g : Grammar) (s : Scanner) (n : ℕ) : (g.window s n).Recording :=
  ⟨fun _ ⟨i, hi, h⟩ => ⟨i, hi, h.note rfl⟩⟩

namespace Session

variable {s : Scanner} {x : Session} {n : ℕ}

instance (I : x.grammar.Invariant) (p : Power) : Parse.Maintains I (x.sub p) :=
  Grammar.maintains_expr _ p

/-- Any rule may read at any token. -/
instance maintains_window (rule : OperandRule) :
    Parse.Maintains (x.grammar.window s n) (x.grammar.readOperand x.sub rule) := by
  by_cases hrule : rule = .integer
  · subst hrule
    refine ⟨fun {r} h => ?_⟩
    simp only [Grammar.readOperand, Parse.integer, Parse.on_bind, Parse.on_lift]
    split
    · exact h
    · exact ⟨h, trivial⟩
  · exact Grammar.maintains_readOperand x.sub hrule

theorem holds_walk (w : Walk α) [hw : Walk.Maintains (x.grammar.window s n) w]
    (h : (x.grammar.window s n).Holds x.reader) :
    (x.grammar.window s n).Holds (x.walk w).2.reader :=
  hw.holds h

theorem holds_perform (p : Parse α) [hp : Parse.Maintains (x.grammar.window s n) p]
    (h : (x.grammar.window s n).Holds x.reader) :
    (x.grammar.window s n).Holds (x.perform p).2.reader :=
  (hp.outcome h).holds

/-- **An operation shows two tokens one after the other, and does not go back.** -/
theorem at_after (h : x.reader.At s n) (op : Operation) :
    ∃ i, n ≤ i ∧ (x.after op).reader.At s i := by
  have hold : (x.grammar.window s n).Holds x.reader := ⟨n, Nat.le_refl n, h⟩
  cases op with
  | advance => exact holds_walk Walk.advance hold
  | expect k => exact holds_perform (Parse.expect k) hold
  | synchronize => exact (x.grammar.window s n).synchronize x.grammar.startsStatement hold
  | report d => exact ⟨n, Nat.le_refl n, h.report d⟩
  | enter =>
    rcases enter_cases x with ⟨-, henter⟩ | henter <;> (rw [after, henter]; exact hold)
  | leave => exact hold
  | expr p => exact holds_perform (x.sub p) hold
  | operandBy rule => exact holds_perform (x.grammar.readOperand x.sub rule) hold
  | operatorBy rule left p => exact holds_perform (rule.read x.sub left p) hold
  | stmt => exact holds_perform (x.grammar.stmt x.sub) hold
  | stmtBy rule => exact holds_perform (x.grammar.readStatement x.sub rule) hold
  | stmt? => exact holds_walk (x.grammar.stmt? x.sub) hold
  | block => exact holds_perform (x.grammar.block x.sub) hold
  | program =>
    rcases program_cases x with hprogram | hprogram <;> rw [after, hprogram]
    · exact holds_walk (x.grammar.program x.sub) hold
    · exact ⟨n, Nat.le_refl n, h.note rfl⟩
  | register new => cases new <;> exact hold
  | restoreScript => exact hold

theorem at_run (s : Scanner) (ops : List Operation) :
    ∃ i, ((ofScanner s).run ops).reader.At s i := by
  refine run_induction (P := fun x => ∃ i, x.reader.At s i) ⟨0, Reader.at_ofScanner s⟩ ?_ ops
  rintro x op ⟨i, h⟩
  obtain ⟨j, -, hafter⟩ := at_after h op
  exact ⟨j, hafter⟩

end Session

/-! ## Powers and rules -/

/-- A kind has a power just when it has an operator rule. -/
def Grammar.Paired (g : Grammar) : Prop :=
  ∀ k, (g.power k).isSome = (g.operator k).isSome

namespace Grammar.Paired

variable {g h : Grammar}

theorem script : Grammar.script.Paired := by
  intro k
  cases k <;> rfl

theorem setOperator (hg : g.Paired) (k : Kind) (p : Power) (rule : OperatorRule) :
    (g.setOperator k p rule).Paired := by
  intro k'
  by_cases hk : k' = k
  · simp [Grammar.setOperator, hk]
  · simpa [Grammar.setOperator, hk] using hg k'

theorem overlay (hg : g.Paired) (hh : h.Paired) : (g.overlay h).Paired := by
  intro k
  simp only [Grammar.overlay, Option.isSome_or, hg k, hh k]

theorem register {x : Session} (hx : x.grammar.Paired) (new : Registration) :
    (x.register new).grammar.Paired := by
  cases new with
  | operand k rule => exact hx
  | operator k p rule => exact hx.setOperator k p rule
  | statement k rule => exact hx

theorem after {x : Session} (hx : x.grammar.Paired) (op : Operation) :
    (x.after op).grammar.Paired := by
  rcases Session.grammar_after (s := x) op with h | ⟨new, h⟩ | h <;> rw [h]
  · exact hx
  · exact hx.register new
  · exact hx.overlay script

/-- What binds more tightly than some power has a rule. -/
theorem operator_of_precedence (hg : g.Paired) {k : Kind} {p : Power} (hp : p < g.precedence k) :
    (g.operator k).isSome := by
  rw [← hg k]
  cases hpower : g.power k with
  | some q => rfl
  | none =>
    rw [precedence, hpower, Option.getD_none, Power.lt_iff] at hp
    exact absurd hp (Nat.not_lt_zero _)

end Grammar.Paired

/-! ## Sessions -/

/-- **The window of a session is a faithful view of its text**, whatever has been done with it: it
    shows two tokens one after the other, and no operation goes back. Moreover no more levels are
    open than may be, a kind has a power just when it has an operator rule, and so there is a rule
    for every token that binds more tightly than some power. -/
theorem Session.window_faithful (s : Scanner) (ops : List Operation) :
    let x := (Session.ofScanner s).run ops
    x.reader.Sees s (x.reader.passed s) ∧
      (∀ op, x.reader.passed s ≤ (x.after op).reader.passed s) ∧
      x.depth ≤ Grammar.nestingLimit ∧
      (∀ k, (x.grammar.power k).isSome = (x.grammar.operator k).isSome) ∧
      ∀ k p, p < x.grammar.precedence k → (x.grammar.operator k).isSome := by
  intro x
  obtain ⟨i, hreader⟩ : ∃ i, x.reader.At s i := at_run s ops
  have hdepth : x.depth ≤ Grammar.nestingLimit :=
    run_induction (P := fun x => x.depth ≤ Grammar.nestingLimit) (Nat.zero_le _)
      (fun op h => depth_after_le op h) ops
  have hpaired : x.grammar.Paired :=
    run_induction (P := fun x => x.grammar.Paired) Grammar.Paired.script
      (fun op h => h.after op) ops
  refine ⟨hreader.at_passed.sees, fun op => ?_, hdepth, hpaired,
    fun k p => hpaired.operator_of_precedence⟩
  obtain ⟨j, hj, hafter⟩ := at_after hreader.at_passed op
  rw [hafter.passed_eq]
  exact Nat.le_min.2 ⟨hj, Nat.sub_le _ _⟩

end Scriptlet
