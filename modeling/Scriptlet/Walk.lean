/-
  Walks: actions on a reader that never go back.

  A `Walk α` takes a reader to another one and gives an `α`. The tokens
  ahead of it afterwards are a suffix of the tokens ahead before
  (`Walk.forward`), so that a loop which reads a token in every round comes
  to an end. A `Parse α` is a walk that may fail with a diagnostic; what it
  has read by then stays read.

  * `Walk.untilKind` repeats a walk, and moves on after every round, until it
    stands on a token of a given kind or at the end of the text.
  * `Parse.whileNext` goes on as long as the next token has a rule.
  * `Parse.commaList` reads items with commas between them, and
    `Parse.parenthesised` such a list, empty perhaps, before a `)`.
-/
import Scriptlet.Reader

namespace Scriptlet

/-- An action on a reader that never goes back. -/
structure Walk (α : Type) where
  /-- What the action gives, and where it leaves the reader. -/
  run : Reader → α × Reader
  /-- No token is read a second time. -/
  forward : ∀ r, (run r).2.ahead <:+ r.ahead

namespace Walk

@[ext] theorem ext {a b : Walk α} (h : ∀ r, a.run r = b.run r) : a = b := by
  cases a; cases b
  simp only [mk.injEq]
  exact funext h

/-- Gives a value and stays. -/
protected def pure (a : α) : Walk α where
  run r := (a, r)
  forward _ := List.suffix_refl _

/-- One walk after another. -/
protected def bind (w : Walk α) (f : α → Walk β) : Walk β where
  run r := (f (w.run r).1).run (w.run r).2
  forward r := ((f (w.run r).1).forward _).trans (w.forward r)

instance : Monad Walk where
  pure := Walk.pure
  bind := Walk.bind

@[simp] theorem run_pure (a : α) (r : Reader) : (pure a : Walk α).run r = (a, r) := rfl

@[simp] theorem run_bind (w : Walk α) (f : α → Walk β) (r : Reader) :
    (w >>= f).run r = (f (w.run r).1).run (w.run r).2 := rfl

@[simp] theorem run_map (f : α → β) (w : Walk α) (r : Reader) :
    (f <$> w).run r = (f (w.run r).1, (w.run r).2) := rfl

instance : LawfulMonad Walk :=
  LawfulMonad.mk' Walk (fun _ => rfl) (fun _ _ => rfl) (fun _ _ _ => rfl)

/-- The current token. -/
abbrev current : Walk Token where
  run r := (r.current, r)
  forward _ := List.suffix_refl _

/-- The token after the current one. -/
abbrev next : Walk Token where
  run r := (r.next, r)
  forward _ := List.suffix_refl _

/-- Moves on by one token. -/
abbrev advance : Walk Unit where
  run r := ((), r.advance)
  forward _ := List.tail_suffix _

/-- Adds a record to the log. -/
abbrev note (record : Record) : Walk Unit where
  run r := ((), r.note record)
  forward _ := List.suffix_refl _

/-- Reports a diagnostic. -/
abbrev report (d : Diagnostic) : Walk Unit where
  run r := ((), r.report d)
  forward _ := List.suffix_refl _

/-- Moves on to where a broken statement may be given up. -/
abbrev synchronize (starts : Kind → Bool) : Walk Unit where
  run r := ((), r.synchronize starts)
  forward r := r.synchronize_suffix starts

theorem run_ite (c : Prop) [Decidable c] (v w : Walk α) (r : Reader) :
    (if c then v else w).run r = if c then v.run r else w.run r := by
  split <;> rfl

/-- Moves on to the next token if it is of the given kind. -/
def optional (k : Kind) : Walk Unit := do
  if (← next).kind = k then advance

@[simp] theorem run_optional (k : Kind) (r : Reader) :
    (optional k).run r = ((), if r.next.kind = k then r.advance else r) := by
  simp only [optional, run_bind, run_ite]
  split <;> rfl

/-! ## Rounds until a kind of token -/

theorem length_advance_run_lt (w : Walk α) {r : Reader} (h : r.ahead ≠ []) :
    ((w.run r).2.advance).ahead.length < r.ahead.length := by
  have hle := (w.forward r).length_le
  have hpos := List.length_pos_iff.2 h
  simp only [Reader.ahead_advance, List.length_tail]
  omega

/-- The rounds of `untilKind`. -/
def rounds (stop : Kind → Bool) (one : Walk (Option α)) (r : Reader) : List α × Reader :=
  match _h : r.ahead with
  | [] => ([], r)
  | t :: _ =>
    if stop t.kind then ([], r)
    else
      let here := one.run r
      let later := rounds stop one here.2.advance
      (here.1.toList ++ later.1, later.2)
termination_by r.ahead.length
decreasing_by exact length_advance_run_lt one (by simp [_h])

theorem rounds_suffix (stop : Kind → Bool) (one : Walk (Option α)) (r : Reader) :
    (rounds stop one r).2.ahead <:+ r.ahead := by
  fun_induction rounds stop one r with
  | case1 => exact List.suffix_refl _
  | case2 => exact List.suffix_refl _
  | case3 r _ _ _ _ here later ih => exact (ih.trans (List.tail_suffix _)).trans (one.forward r)

/-- Repeats a walk, and moves on by one token after each round, up to a token of a kind that
    `stop` names or to the end of the text. The values that the rounds gave are listed in order. -/
def untilKind (stop : Kind → Bool) (one : Walk (Option α)) : Walk (List α) where
  run := rounds stop one
  forward := rounds_suffix stop one

theorem run_untilKind_of_stop {stop : Kind → Bool} {one : Walk (Option α)} {r : Reader}
    (h : ∀ t rest, r.ahead = t :: rest → stop t.kind = true) :
    (untilKind stop one).run r = ([], r) := by
  show rounds stop one r = _
  rw [rounds]
  split
  · rfl
  · next t rest ht => rw [if_pos (h t rest ht)]

theorem run_untilKind_of_not_stop {stop : Kind → Bool} {one : Walk (Option α)} {r : Reader}
    {t : Token} {rest : List Token} (ht : r.ahead = t :: rest) (h : stop t.kind = false) :
    (untilKind stop one).run r =
      ((one.run r).1.toList ++ ((untilKind stop one).run (one.run r).2.advance).1,
       ((untilKind stop one).run (one.run r).2.advance).2) := by
  show rounds stop one r = _
  rw [rounds]
  split
  · next h' => cases h'.symm.trans ht
  · next t' rest' ht' =>
    cases ht'.symm.trans ht
    rw [if_neg (by simp [h])]
    rfl

end Walk

/-- A walk that may fail. -/
abbrev Parse (α : Type) := ExceptT Diagnostic Walk α

namespace Parse

/-- What a parse gives when it starts at a reader, and where it leaves the reader. -/
def on (p : Parse α) (r : Reader) : Except Diagnostic α × Reader :=
  (ExceptT.run p).run r

theorem on_suffix (p : Parse α) (r : Reader) : (p.on r).2.ahead <:+ r.ahead :=
  (ExceptT.run p).forward r

@[simp] theorem on_pure (a : α) (r : Reader) : (pure a : Parse α).on r = (.ok a, r) := rfl

@[simp] theorem on_throw (d : Diagnostic) (r : Reader) :
    (throw d : Parse α).on r = (.error d, r) := rfl

theorem on_bind (p : Parse α) (f : α → Parse β) (r : Reader) :
    (p >>= f).on r =
      match p.on r with
      | (.ok a, r') => (f a).on r'
      | (.error d, r') => (.error d, r') := by
  show (ExceptT.bindCont f (p.on r).1).run (p.on r).2 = _
  rcases p.on r with ⟨_ | _, r'⟩ <;> rfl

@[simp] theorem on_map (f : α → β) (p : Parse α) (r : Reader) :
    (f <$> p).on r =
      match p.on r with
      | (.ok a, r') => (.ok (f a), r')
      | (.error d, r') => (.error d, r') := by
  rw [map_eq_pure_bind, on_bind]
  rcases p.on r with ⟨_ | _, r'⟩ <;> rfl

@[simp] theorem on_lift (w : Walk α) (r : Reader) :
    (liftM w : Parse α).on r = (.ok (w.run r).1, (w.run r).2) := rfl

theorem on_ite (c : Prop) [Decidable c] (p q : Parse α) (r : Reader) :
    (if c then p else q).on r = if c then p.on r else q.on r := by
  split <;> rfl

/-- Moves on to the next token, which must be of the given kind. -/
def expect (k : Kind) : Parse Unit := do
  let t ← Walk.next
  if t.kind = k then Walk.advance
  else throw ⟨.unexpected k t.kind, t.position⟩

theorem on_expect (k : Kind) (r : Reader) :
    (expect k).on r =
      if r.next.kind = k then (.ok (), r.advance)
      else (.error ⟨.unexpected k r.next.kind, r.next.position⟩, r) := by
  simp only [expect, on_bind, on_lift, on_ite]
  split <;> simp

/-! ## Rounds while the next token has a rule -/

/-- The rounds of `whileNext`. -/
def rounds (rule : Kind → Option ρ) (body : ρ → α → Parse α) (a : α) (r : Reader) :
    Except Diagnostic α × Reader :=
  match _h : r.ahead with
  | _ :: t :: _ =>
    match rule t.kind with
    | none => (.ok a, r)
    | some x =>
      let out := (body x a).on r.advance
      match out.1 with
      | .ok b => rounds rule body b out.2
      | .error d => (.error d, out.2)
  | _ => (.ok a, r)
termination_by r.ahead.length
decreasing_by
  have hle := ((body x a).on_suffix r.advance).length_le
  simp only [Reader.ahead_advance, _h, List.tail_cons, List.length_cons] at hle ⊢
  omega

theorem rounds_suffix (rule : Kind → Option ρ) (body : ρ → α → Parse α) (a : α) (r : Reader) :
    (rounds rule body a r).2.ahead <:+ r.ahead := by
  fun_induction rounds rule body a r with
  | case1 => exact List.suffix_refl _
  | case2 a r _ _ _ _ x _ out _ _ ih =>
    exact (ih.trans ((body x a).on_suffix _)).trans (List.tail_suffix _)
  | case3 a r _ _ _ _ x _ out _ _ =>
    exact ((body x a).on_suffix _).trans (List.tail_suffix _)
  | case4 => exact List.suffix_refl _

/-- As long as `rule` has an entry for the kind of the next token, moves on to that token and
    goes on with what has been read. -/
def whileNext (rule : Kind → Option ρ) (body : ρ → α → Parse α) (a : α) : Parse α :=
  ExceptT.mk ⟨rounds rule body a, rounds_suffix rule body a⟩

theorem on_whileNext_of_none {rule : Kind → Option ρ} {body : ρ → α → Parse α} {a : α}
    {r : Reader} (h : ∀ c t rest, r.ahead = c :: t :: rest → rule t.kind = none) :
    (whileNext rule body a).on r = (.ok a, r) := by
  show rounds rule body a r = _
  rw [rounds]
  split
  · next c t rest ht => rw [h c t rest ht]
  · rfl

theorem on_whileNext_of_some {rule : Kind → Option ρ} {body : ρ → α → Parse α} {a : α}
    {r : Reader} {c t : Token} {rest : List Token} {x : ρ} (ht : r.ahead = c :: t :: rest)
    (h : rule t.kind = some x) :
    (whileNext rule body a).on r =
      match (body x a).on r.advance with
      | (.ok b, r') => (whileNext rule body b).on r'
      | (.error d, r') => (.error d, r') := by
  show rounds rule body a r = _
  rw [rounds]
  split
  · next c' t' rest' ht' =>
    cases ht'.symm.trans ht
    rw [h]
    dsimp only
    rcases (body x a).on r.advance with ⟨_ | _, r'⟩ <;> rfl
  · next h' => exact absurd ht (h' c t rest)

/-- The rule that goes on at a comma. -/
def comma? (k : Kind) : Option Unit :=
  if k = .comma then some () else none

/-- Items with commas between them. Each item begins after the current token. -/
def commaList (item : Parse α) : Parse (List α) := do
  let first ← item
  let latestFirst ← whileNext comma? (fun _ as => return (← item) :: as) [first]
  return latestFirst.reverse

/-- Items with commas between them, or none, up to and with a closing parenthesis. -/
def parenthesised (item : Parse α) : Parse (List α) := do
  if (← Walk.next).kind = .closeParen then
    Walk.advance
    return []
  else
    let as ← commaList item
    expect .closeParen
    return as

end Parse

end Scriptlet
