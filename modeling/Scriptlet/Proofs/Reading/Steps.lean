/-
  Single steps of a reading, on a reader whose next tokens are known.
-/
import Scriptlet.Proofs.Language.Derivation

namespace Scriptlet

/-! ## Where a reading arrives -/

/-- Between the readers nothing has been reported, and after the current token of the second come
    the tokens `rest`. -/
structure Reader.Arrives (r r' : Reader) (rest : List Token) : Prop where
  ahead : ∃ t, r'.ahead = t :: rest
  errors : r'.errors = r.errors

section

variable {r r' r'' : Reader} {t u : Token} {rest rest' : List Token}

theorem Reader.current_of_ahead (h : r.ahead = t :: rest) : r.current = t := by
  simp [Reader.current, h]

theorem Reader.next_of_ahead (h : r.ahead = t :: u :: rest) : r.next = u := by
  simp [Reader.next, h]

/-- A next token of a kind that is not the end's is there. -/
theorem Reader.ahead_of_next {k : Kind} (h : r.next.kind = k) (hk : k ≠ .eof) :
    ∃ c rest, r.ahead = c :: r.next :: rest := by
  rcases hr : r.ahead with _ | ⟨c, _ | ⟨t, rest⟩⟩
  · rw [Reader.next, hr] at h; exact absurd h.symm hk
  · rw [Reader.next, hr] at h; exact absurd h.symm hk
  · exact ⟨c, rest, by simp [Reader.next, hr]⟩

theorem Reader.ahead_advance_of_next {k : Kind} (h : r.next.kind = k) (hk : k ≠ .eof) :
    r.advance.ahead = r.next :: r.advance.advance.ahead := by
  obtain ⟨c, rest, hr⟩ := Reader.ahead_of_next h hk
  simp [hr]

theorem Reader.current_advance (r : Reader) : r.advance.current = r.next := rfl

/-- A current token of a kind that is not the end's is there. -/
theorem Reader.ahead_of_current {k : Kind} (h : r.current.kind = k) (hk : k ≠ .eof) :
    r.ahead = r.current :: r.advance.ahead := by
  rcases hr : r.ahead with _ | ⟨t, rest⟩
  · rw [Reader.current, hr] at h; exact absurd h.symm hk
  · simp [Reader.current, hr]

theorem Reader.kind_next_of_ahead (h : r.ahead = t :: rest) : r.next.kind = firstKind rest := by
  cases rest <;> simp [Reader.next, firstKind, h]

theorem Reader.ahead_advance_of_ahead (h : r.ahead = t :: rest) : r.advance.ahead = rest := by
  simp [h]

@[simp] theorem firstKind_nil : firstKind [] = .eof := rfl

@[simp] theorem firstKind_cons : firstKind (t :: rest) = t.kind := rfl

theorem Reader.kind_next (r : Reader) : r.next.kind = firstKind r.advance.ahead := by
  rcases h : r.ahead with _ | ⟨c, _ | ⟨t, rest⟩⟩ <;> simp [next, h]

namespace Reader.Arrives

theorem here (h : r.ahead = t :: rest) : r.Arrives r rest :=
  ⟨⟨t, h⟩, rfl⟩

theorem advance (h : r.ahead = t :: u :: rest) : r.Arrives r.advance rest :=
  ⟨⟨u, by simp [h]⟩, r.errors_advance⟩

theorem after (h : r'.Arrives r'' rest) (h' : r'.errors = r.errors) : r.Arrives r'' rest :=
  ⟨h.ahead, h.errors.trans h'⟩

/-- One step further. -/
theorem step (h : r.Arrives r' (u :: rest)) :
    r.Arrives r'.advance rest ∧ r'.advance.ahead = u :: rest ∧ r'.next = u := by
  obtain ⟨⟨t, ht⟩, he⟩ := h
  have hahead : r'.advance.ahead = u :: rest := by simp [ht]
  exact ⟨⟨⟨u, hahead⟩, he⟩, hahead, next_of_ahead ht⟩

theorem kind_next (h : r.Arrives r' rest) : r'.next.kind = firstKind rest := by
  obtain ⟨⟨t, ht⟩, -⟩ := h
  exact kind_next_of_ahead ht

end Reader.Arrives

theorem Reader.Arrives.on_expect {k : Kind} (h : r.Arrives r' (u :: rest)) (hk : u.kind = k) :
    (Parse.expect k).on r' = (.ok (), r'.advance) := by
  rw [Parse.on_expect, h.kind_next, firstKind_cons, if_pos hk]

theorem Parse.on_expect_of_ahead {k : Kind} (h : r.ahead = t :: u :: rest) (hk : u.kind = k) :
    (Parse.expect k).on r = (.ok (), r.advance) := by
  rw [Parse.on_expect, Reader.next_of_ahead h, if_pos hk]

end

/-! ## Moving on to the end of a broken statement -/

namespace Reader

variable {starts : Kind → Bool} {r : Reader} {t : Token} {rest : List Token}

theorem synchronize_of_nil (h : r.ahead = []) : r.synchronize starts = r := by
  rw [synchronize]
  split
  · rfl
  · next h' => cases h.symm.trans h'

theorem synchronize_of_stop (ht : r.ahead = t :: rest)
    (h : t.kind.isTerminator || r.next.kind = .closeBrace || starts r.next.kind) :
    r.synchronize starts = r := by
  rw [synchronize]
  split
  · rfl
  · next h' =>
    cases h'.symm.trans ht
    rw [if_pos h]

theorem synchronize_of_not_stop (ht : r.ahead = t :: rest)
    (h : ¬ (t.kind.isTerminator || r.next.kind = .closeBrace || starts r.next.kind)) :
    r.synchronize starts = r.advance.synchronize starts := by
  rw [synchronize]
  split
  · next h' => cases h'.symm.trans ht
  · next h' =>
    cases h'.symm.trans ht
    rw [if_neg h]

end Reader

namespace Parse

/-- Where the next token has no rule, rounds end. -/
theorem on_whileNext_of_next {rule : Kind → Option ρ} {body : ρ → α → Parse α} {a : α}
    {r : Reader} (h : rule r.next.kind = none) : (whileNext rule body a).on r = (.ok a, r) := by
  refine on_whileNext_of_none fun c t rest ht => ?_
  rwa [Reader.next_of_ahead ht] at h

end Parse

/-! ## Reading an expression: an operand, and what goes on with it -/

namespace Grammar

/-- Goes on with an expression by the operators that bind more tightly than `p`. -/
def goOn (g : Grammar) (sub : Power → Parse Expr) (p : Power) (e : Expr) : Parse Expr :=
  Parse.whileNext (g.binding p) (fun (rule, q) left => rule.read sub left q) e

section

variable {g : Grammar} {sub : Power → Parse Expr} {p : Power} {r r' : Reader} {e : Expr}
  {t u : Token} {rest : List Token}

theorem on_nested {rule : OperandRule} (h : r.ahead = t :: rest)
    (hrule : g.operand t.kind = some rule) : (g.nested sub p).on r =
      match (g.readOperand sub rule).on r with
      | (.ok e, r') => (g.goOn sub p e).on r'
      | (.error d, r') => (.error d, r') := by
  simp only [nested, Parse.on_bind, Parse.on_lift, Reader.current_of_ahead h, hrule]
  rcases (g.readOperand sub rule).on r with ⟨_ | _, _⟩ <;> rfl

theorem on_stmt {rule : StatementRule} (h : r.ahead = t :: rest)
    (hrule : (g.statement t.kind).getD .expr = rule) :
    (g.stmt sub).on r = (g.readStatement sub rule).on r := by
  simp only [stmt, Parse.on_bind, Parse.on_lift, Reader.current_of_ahead h, hrule]

theorem on_goOn_of_none (h : g.binding p r.next.kind = none) :
    (g.goOn sub p e).on r = (.ok e, r) :=
  Parse.on_whileNext_of_next h

theorem on_goOn_of_some {rule : OperatorRule} {q : Power} (ht : r.ahead = t :: u :: rest)
    (h : g.binding p u.kind = some (rule, q)) : (g.goOn sub p e).on r =
      match (rule.read sub e q).on r.advance with
      | (.ok e', r') => (g.goOn sub p e').on r'
      | (.error d, r') => (.error d, r') := by
  rw [goOn, Parse.on_whileNext_of_some ht h]
  rcases (rule.read sub e q).on r.advance with ⟨_ | _, _⟩ <;> rfl

end

/-- A block reads statements up to its `}`, and fails if the text ends before. -/
theorem on_block_eq (g : Grammar) (sub : Power → Parse Expr) (r : Reader) : (g.block sub).on r =
    let out := (Walk.untilKind (· = .closeBrace) (g.stmt? sub)).run r.advance
    if out.2.current.kind = .eof then
      (.error ⟨.unexpected .closeBrace .eof, out.2.current.position⟩, out.2)
    else (.ok (.mk r.current out.1), out.2) := by
  simp only [block, Parse.on_bind, Parse.on_lift, Parse.on_ite, Parse.on_throw, Parse.on_pure]

/-- An item of a list, from the token before it on. -/
def item (sub : Power → Parse Expr) : Parse Expr := do
  Walk.advance
  sub .lowest

/-- Puts a statement of a program on record, if there is one. -/
def keep (s? : Option Stmt) : Walk (Option Stmt) := do
  if let some s := s? then Walk.note (.kept s)
  return s?

/-- A program is read statement by statement. -/
theorem program_eq_untilKind (g : Grammar) (sub : Power → Parse Expr) :
    g.program sub = Walk.untilKind (fun _ => false) (g.stmt? sub >>= keep) := rfl

end Grammar

/-! ## Lists with commas -/

namespace Parse

/-- Items with commas between them, put before those of `acc` the other way round. -/
def more (item : Parse α) (acc : List α) : Parse (List α) := do
  let a ← item
  whileNext comma? (fun _ as => return (← item) :: as) (a :: acc)

section

variable {item : Parse α} {acc as : List α} {a : α} {r r' : Reader}

theorem on_more_of_last (h : item.on r = (.ok a, r')) (hk : r'.next.kind ≠ .comma) :
    (more item acc).on r = (.ok (a :: acc), r') := by
  rw [more, on_bind, h]
  exact on_whileNext_of_next (if_neg hk)

theorem on_more_of_comma {t c : Token} {rest : List Token} (h : item.on r = (.ok a, r'))
    (ht : r'.ahead = t :: c :: rest) (hk : c.kind = .comma) :
    (more item acc).on r = (more item (a :: acc)).on r'.advance := by
  rw [more, on_bind, h]
  refine (on_whileNext_of_some ht (by rw [hk]; rfl)).trans ?_
  rw [more, on_bind, on_bind]
  rcases item.on r'.advance with ⟨_ | _, _⟩ <;> rfl

theorem on_parenthesised_of_none (h : r.next.kind = .closeParen) :
    (parenthesised item).on r = (.ok [], r.advance) := by
  simp only [parenthesised, on_bind, on_lift, h, if_true, on_pure]

theorem commaList_eq (item : Parse α) :
    commaList item = (do let as ← more item []; return as.reverse) := by
  simp only [commaList, more, bind_assoc]

theorem on_parenthesised_of_more {rest : List Token} (hr : r.next.kind ≠ .closeParen)
    (h : (more item []).on r = (.ok as, r')) (hr' : r.Arrives r' rest)
    (hrest : firstKind rest = .closeParen) :
    (parenthesised item).on r = (.ok as.reverse, r'.advance) := by
  have hlist : (commaList item).on r = (.ok as.reverse, r') := by
    rw [commaList_eq, on_bind, h]; rfl
  have hexpect : (expect .closeParen).on r' = (.ok (), r'.advance) := by
    rw [on_expect, hr'.kind_next, hrest, if_pos rfl]
  simp only [parenthesised, on_bind, on_lift, if_neg hr, hlist, hexpect, on_pure]

end

end Parse

end Scriptlet
