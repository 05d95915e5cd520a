/-
  A broken statement is given up at the first safe point, neither a token
  before it nor a token after it.
-/
import Mathlib.Order.Bounds.Basic
import Mathlib.Order.Nat
import Scriptlet.Proofs.Session.Ending

namespace Scriptlet

/-! ## Streams of tokens -/

/-- The reader stands on the token `i` of a stream, and the tokens of the stream are those that it
    comes to stand on as it moves on. -/
def Reader.Reads (r : Reader) (T : ℕ → Token) (i : ℕ) : Prop :=
  ∀ n, (advance^[n] r).current = T (i + n)

namespace Reader

variable {r : Reader} {T : ℕ → Token} {i : ℕ} {s : Scanner}

theorem ahead_iterate_advance (r : Reader) (n : ℕ) : (advance^[n] r).ahead = r.ahead.drop n := by
  induction n with
  | zero => rfl
  | succ n ih => rw [Function.iterate_succ_apply', ahead_advance, ih, List.tail_drop]

theorem At.iterate_advance (h : r.At s i) (n : ℕ) : (Reader.advance^[n] r).At s (i + n) := by
  induction n with
  | zero => exact h
  | succ n ih =>
    rw [Function.iterate_succ_apply']
    exact ih.advance

/-- A reader of a scanner reads what the scanner gives. -/
theorem At.reads (h : r.At s i) : r.Reads s.token i :=
  fun n => (h.iterate_advance n).sees.current

namespace Reads

theorem current (h : r.Reads T i) : r.current = T i := h 0

theorem next (h : r.Reads T i) : r.next = T (i + 1) := h 1

theorem iterate_advance (h : r.Reads T i) (n : ℕ) : (Reader.advance^[n] r).Reads T (i + n) := by
  intro m
  rw [← Function.iterate_add_apply, h, Nat.add_right_comm, Nat.add_assoc, Nat.add_comm m n]

theorem advance (h : r.Reads T i) : r.advance.Reads T (i + 1) := h.iterate_advance 1

end Reads

end Reader

/-- **A session reads what its scanner gives**, after the tokens that it has passed, whatever has
    been done with it. -/
theorem Session.reads_run (s : Scanner) (ops : List Operation) :
    let r := ((ofScanner s).run ops).reader
    r.Reads s.token (r.passed s) := by
  obtain ⟨i, h⟩ := at_run s ops
  exact h.at_passed.reads

/-! ## Safe points -/

/-- A broken statement may be given up at the token `j` of a stream: it is a `;` or the end token,
    or a `}` or the first token of a statement comes after it. -/
def Grammar.SafeAt (g : Grammar) (T : ℕ → Token) (j : ℕ) : Prop :=
  (T j).kind = .semicolon ∨ (T j).kind = .eof ∨
    (T (j + 1)).kind = .closeBrace ∨ g.startsStatement (T (j + 1)).kind = true

instance Grammar.decidableSafeAt (g : Grammar) (T : ℕ → Token) : DecidablePred (g.SafeAt T) :=
  fun _ => inferInstanceAs (Decidable (_ ∨ _))

namespace Reader.Reads

variable {r : Reader} {T : ℕ → Token} {i : ℕ} {g : Grammar}

theorem safeAt_iff (h : r.Reads T i) : g.SafeAt T i ↔
    (r.current.kind.isTerminator || r.next.kind = .closeBrace ||
      g.startsStatement r.next.kind) = true := by
  rw [h.current, h.next, Grammar.SafeAt, Bool.or_eq_true, Bool.or_eq_true, decide_eq_true_eq,
    Kind.isTerminator_iff, or_assoc, or_assoc]

/-- Where no token is left, the end token is the current one. -/
theorem exists_safe (h : r.Reads T i) (g : Grammar) : ∃ j, i ≤ j ∧ g.SafeAt T j := by
  have hnil : (Reader.advance^[r.ahead.length] r).ahead = [] := by
    rw [ahead_iterate_advance, List.drop_length]
  have hend : (T (i + r.ahead.length)).kind = .eof := by
    rw [← h, current_of_nil hnil, Token.kind_eof]
  exact ⟨i + r.ahead.length, Nat.le_add_right _ _, .inr (.inl hend)⟩

/-- A turn at a safe point is the last. -/
theorem synchronizing_of_safe (h : r.Reads T i) (hsafe : g.SafeAt T i) (rest : Reader → Reader) :
    synchronizing g.startsStatement rest r = r := by
  rw [synchronizing, if_pos (h.safeAt_iff.1 hsafe)]

/-- A turn elsewhere moves on by one token. -/
theorem synchronizing_of_not_safe (h : r.Reads T i) (hsafe : ¬ g.SafeAt T i)
    (rest : Reader → Reader) : synchronizing g.startsStatement rest r = rest r.advance := by
  rw [synchronizing, if_neg fun hstop => hsafe (h.safeAt_iff.2 hstop)]

/-- **The loop takes a turn for every token before the first safe point, and one there.** -/
theorem synchronizing_ends (h : r.Reads T i) {n : ℕ} (hbefore : ∀ m < n, ¬ g.SafeAt T (i + m))
    (hsafe : g.SafeAt T (i + n)) :
    EndsWithin (synchronizing g.startsStatement) (n + 1) r (Reader.advance^[n] r) := by
  -- one turn brings the reader to the next token of the stream, and so nearer to the safe point
  induction n generalizing r i with
  | zero => exact EndsWithin.now (h.synchronizing_of_safe hsafe)
  | succ n ih =>
    have hhere : ¬ g.SafeAt T i := hbefore 0 n.succ_pos
    have hlater : ∀ m < n, ¬ g.SafeAt T (i + 1 + m) := by
      intro m hm
      rw [Nat.add_right_comm]
      exact hbefore (m + 1) (Nat.succ_lt_succ hm)
    have hstop : g.SafeAt T (i + 1 + n) := by rwa [Nat.add_right_comm]
    rw [Function.iterate_succ_apply]
    exact EndsWithin.turn (f := id) (h.synchronizing_of_not_safe hhere)
      (ih h.advance hlater hstop)

end Reader.Reads

/-! ## Sessions -/

/-- **A broken statement is given up at the first safe point**, whatever kinds begin a statement.
    There is one, and the loop that looks for it ends there, on the very token; no diagnostic has
    been reported by then, and neither the levels nor the rules have changed. -/
theorem Session.synchronize_isLeast {x : Session} {T : ℕ → Token} {i : ℕ}
    (h : x.reader.Reads T i) :
    ∃ j, IsLeast {j | i ≤ j ∧ x.grammar.SafeAt T j} j ∧
      EndsWithin (Reader.synchronizing x.grammar.startsStatement) (j - i + 1) x.reader
        x.synchronize.reader ∧
      x.synchronize.reader = Reader.advance^[j - i] x.reader ∧
      x.synchronize.reader.Reads T j ∧
      x.synchronize.reader.errors = x.reader.errors ∧
      x.synchronize.depth = x.depth ∧
      x.synchronize.grammar = x.grammar := by
  obtain ⟨j, hleast⟩ : ∃ j, IsLeast {j | i ≤ j ∧ x.grammar.SafeAt T j} j :=
    ⟨_, Nat.isLeast_find (h.exists_safe x.grammar)⟩
  obtain ⟨n, rfl⟩ := Nat.exists_eq_add_of_le hleast.1.1
  have hbefore : ∀ m < n, ¬ x.grammar.SafeAt T (i + m) := by
    intro m hm hsafe
    have hle : i + n ≤ i + m := hleast.2 ⟨Nat.le_add_right i m, hsafe⟩
    omega
  -- the loop is known to end, so it ends where these turns of it do
  have hloop := h.synchronizing_ends hbefore hleast.1.2
  have hreader : x.synchronize.reader = Reader.advance^[n] x.reader :=
    (Reader.synchronize_ends _ _).unique hloop
  refine ⟨i + n, hleast, ?_, ?_, ?_, Reader.synchronize_errors _ _, rfl, rfl⟩
  · rwa [Nat.add_sub_cancel_left, hreader]
  · rw [Nat.add_sub_cancel_left, hreader]
  · rw [hreader]
    exact h.iterate_advance n

/-- Where `if` begins a statement, a statement that breaks off at the `+` is given up before it, and
    not only at the `;`. -/
theorem Session.synchronize_isLeast_before_if :
    let s := Scanner.ofText "1 + ) if x;"
    let d : Diagnostic := ⟨.noOperand .closeParen, ⟨1, 5⟩⟩
    let x := (ofScanner s).run
      [.register (.statement .ifWord .expr), .enter, .advance, .report d]
    x.reader.Reads s.token 1 ∧
      IsLeast {j | 1 ≤ j ∧ x.grammar.SafeAt s.token j} 2 ∧
      x.synchronize.reader.Reads s.token 2 ∧
      x.synchronize.reader.current = ⟨.closeParen, ")", ⟨1, 5⟩⟩ ∧
      x.synchronize.reader.errors = #[d] ∧
      x.synchronize.depth = 1 := by
  intro s d x
  have hreads : x.reader.Reads s.token 1 := ((Reader.at_ofScanner s).advance.report d).reads
  obtain ⟨j, hleast, -, -, hafter, herrors, hdepth, -⟩ := synchronize_isLeast hreads
  have hplus : ¬ x.grammar.SafeAt s.token 1 := by decide +kernel
  have hparen : x.grammar.SafeAt s.token 2 := by decide +kernel
  have htwo : IsLeast {j | 1 ≤ j ∧ x.grammar.SafeAt s.token j} 2 := by
    refine ⟨⟨by omega, hparen⟩, ?_⟩
    rintro k ⟨hk, hsafe⟩
    have hne : k ≠ 1 := fun h => hplus (h ▸ hsafe)
    omega
  obtain rfl := hleast.unique htwo
  have hcurrent : s.token 2 = ⟨.closeParen, ")", ⟨1, 5⟩⟩ := by decide +kernel
  exact ⟨hreads, htwo, hafter, hafter.current.trans hcurrent, herrors, hdepth⟩

end Scriptlet
