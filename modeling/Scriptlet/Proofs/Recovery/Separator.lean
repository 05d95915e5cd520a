/-
  A `;` outside of blocks separates what stands before it from what stands
  after it.
-/
import Scriptlet.Proofs.Reading.Simulation
import Scriptlet.Proofs.Text.Places
import Scriptlet.Session
import Scriptlet.Tree.Equality

namespace Scriptlet

open Grammar (script nestingLimit)

/-! ## Up to a `;` -/

/-- Ahead of both readers are the same tokens, the last one a `;`, and ahead of the second there
    are `us` besides. -/
structure Reader.UpTo (us : List Token) (f : Position) (r s : Reader) : Prop where
  ahead : s.ahead = r.ahead ++ us
  finish : s.finish = f
  errors : s.errors = r.errors
  last : ∃ ts t, r.ahead = ts ++ [t] ∧ t.kind = .semicolon

/-- The first reader is at the end of its text, and the second has the tokens `us` ahead. -/
structure Reader.Beyond (us : List Token) (f : Position) (r s : Reader) : Prop where
  nil : r.ahead = []
  ahead : s.ahead = us
  finish : s.finish = f
  errors : s.errors = r.errors

namespace Reader.UpTo

variable {us : List Token} {f : Position} {r s : Reader}

theorem cases (h : r.UpTo us f s) : ∃ t rest, r.ahead = t :: rest ∧
    (rest = [] ∧ t.kind = .semicolon ∨ ∃ u rest', rest = u :: rest') := by
  obtain ⟨ts, t, hahead, hk⟩ := h.last
  rcases ts with _ | ⟨c, _ | ⟨d, ts⟩⟩
  · exact ⟨t, [], hahead, .inl ⟨rfl, hk⟩⟩
  · exact ⟨c, [t], hahead, .inr ⟨t, [], rfl⟩⟩
  · exact ⟨c, d :: ts ++ [t], hahead, .inr ⟨d, ts ++ [t], rfl⟩⟩

theorem current (h : r.UpTo us f s) : s.current = r.current := by
  obtain ⟨t, rest, hahead, -⟩ := h.cases
  rw [current_of_ahead hahead, current_of_ahead (by rw [h.ahead, hahead]; rfl)]

theorem advance (h : r.UpTo us f s) (hne : r.advance.ahead ≠ []) :
    r.advance.UpTo us f s.advance where
  ahead := by
    obtain ⟨t, rest, hahead, -⟩ := h.cases
    rw [ahead_advance, ahead_advance, h.ahead, hahead]
    rfl
  finish := h.finish
  errors := h.errors
  last := by
    obtain ⟨ts, t, hahead, hk⟩ := h.last
    rcases ts with _ | ⟨c, ts⟩
    · exact absurd (by rw [ahead_advance, hahead]; rfl) hne
    · exact ⟨ts, t, by rw [ahead_advance, hahead]; rfl, hk⟩

theorem beyond (h : r.UpTo us f s) (hnil : r.advance.ahead = []) :
    r.advance.Beyond us f s.advance where
  nil := hnil
  ahead := by
    obtain ⟨t, rest, hahead, -⟩ := h.cases
    obtain rfl : rest = [] := by rwa [ahead_advance, hahead] at hnil
    rw [ahead_advance, h.ahead, hahead]
    rfl
  finish := h.finish
  errors := h.errors

end Reader.UpTo

/-- A text that ends with a `;`, beside one that goes on with the tokens `us`. -/
def Simulation.upTo (us : List Token) (f : Position) : Simulation where
  Same t u := t = u
  left := .id
  right := .id
  Level := Reader.UpTo us f
  Inner r s := r.UpTo us f s ∧ r.advance.ahead ≠ []
  Past := Reader.Beyond us f
  kind h := congrArg _ h
  literal h := congrArg _ h
  integer h := h
  statement h := h
  other h := h
  level h := h.1
  current h := h.current.symm
  next h := (h.1.advance h.2).current.symm
  advance h := h.1.advance h.2
  inner h hk := by
    refine ⟨h, fun hnil => hk ?_⟩
    obtain ⟨t, rest, hahead, ⟨-, hsemicolon⟩ | ⟨u, rest', rfl⟩⟩ := h.cases
    · rwa [Reader.current_of_ahead hahead]
    · rw [Reader.ahead_advance, hahead] at hnil
      cases hnil
  inner_or_past {r s} h := by
    by_cases hnil : r.advance.ahead = []
    · exact .inr (h.beyond hnil)
    · exact .inl ⟨h, hnil⟩
  ended {r s} h := by
    obtain ⟨t, rest, hahead, -⟩ := h.cases
    simp [h.ahead, hahead]
  past_ended h := h.nil
  report {r s d e} h hde := by
    refine ⟨h.ahead, h.finish, ?_, h.last⟩
    obtain ⟨hfault, t, u, rfl, hd, he⟩ := hde
    have heq : e = d := by
      cases d; cases e
      simp_all
    rw [Reader.errors_report, Reader.errors_report, h.errors, heq]
  kept a b h := ⟨h.ahead, h.finish, h.errors, h.last⟩

/-! ## The same text at another place -/

/-- The diagnostic at another place. -/
def Diagnostic.move (m : Position → Position) (d : Diagnostic) : Diagnostic :=
  { d with position := m d.position }

/-- All tokens are moved. -/
def Retoken.moved (m : Position → Position) : Retoken :=
  ⟨Token.move m, Token.move m, Token.move m⟩

/-- Ahead of both readers are the same tokens, but for their places, and the second has reported
    some diagnostics `before`. -/
structure Reader.Moved (m : Position → Position) (before : List Diagnostic) (r s : Reader) :
    Prop where
  ahead : s.ahead = r.ahead.map (Token.move m)
  finish : s.finish = m r.finish
  errors : s.errors.toList = before ++ r.errors.toList.map (Diagnostic.move m)

namespace Reader.Moved

variable {m : Position → Position} {before : List Diagnostic} {r s : Reader}

theorem current (h : r.Moved m before s) : s.current = r.current.move m := by
  unfold Reader.current
  rw [h.ahead, h.finish]
  cases r.ahead <;> rfl

theorem advance (h : r.Moved m before s) : r.advance.Moved m before s.advance :=
  ⟨by rw [ahead_advance, ahead_advance, h.ahead, List.map_tail], h.finish, h.errors⟩

end Reader.Moved

/-- A text, and the same one at another place, where something has been reported `before`. -/
def Simulation.moved (m : Position → Position) (before : List Diagnostic) : Simulation where
  Same t u := u = t.move m
  left := .moved m
  right := .id
  Level := Reader.Moved m before
  Inner := Reader.Moved m before
  Past _ _ := False
  kind h := by rw [h]; rfl
  literal h := by rw [h]; rfl
  integer h := h.symm
  statement h := h.symm
  other h := h.symm
  level h := h
  current h := h.current
  next h := h.advance.current
  advance h := h.advance
  inner h _ := h
  inner_or_past h := .inl h
  ended h := by rw [h.ahead, List.map_eq_nil_iff]
  past_ended h := h.elim
  report {r s d e} h hde := by
    refine ⟨h.ahead, h.finish, ?_⟩
    obtain ⟨hfault, t, u, rfl, hd, he⟩ := hde
    have heq : e = d.move m := by
      cases d; cases e
      simp_all [Diagnostic.move, Token.move]
    rw [Reader.errors_report, Reader.errors_report, Array.toList_push, Array.toList_push, h.errors,
      heq, List.map_append, List.append_assoc]
    rfl
  kept a b h := ⟨h.ahead, h.finish, h.errors⟩

/-! ## Two texts with a `;` between them -/

section

variable {s₁ s₂ : String} {us : List Token} {f : Position} {r s : Reader}

/-- What a program reads up to a `;`, outside of blocks, it reads whatever comes after that. -/
theorem Reader.UpTo.program (n : Nat) (h : r.UpTo us f s)
    (hclosed : ¬ ((script.program (script.expr n)).run r).2.Unclosed) :
    ∃ s', ((script.program (script.expr n)).run r).2.Beyond us f s' ∧
      (script.program (script.expr n)).run s =
        (((script.program (script.expr n)).run r).1 ++
            ((script.program (script.expr n)).run s').1,
          ((script.program (script.expr n)).run s').2) := by
  have hpasses := (Simulation.upTo us f).passes_program n h
  generalize (script.program (script.expr n)).run r = x at hpasses hclosed ⊢
  generalize hy : (script.program (script.expr n)).run s = y at hpasses
  cases hpasses with
  | stopped _ hrs hstop =>
    obtain ⟨t, rest, hahead, -⟩ := Reader.UpTo.cases hrs
    cases hstop t rest hahead
  | @past as bs r' s' hss hpast =>
    have heq := Simulation.retokenAll_stmt hss
    change Stmt.retokenAll .id as = Stmt.retokenAll .id bs at heq
    rw [Stmt.retokenAll_id, Stmt.retokenAll_id] at heq
    subst heq
    exact ⟨s', hpast, rfl⟩
  | unclosed _ hopen => exact absurd hopen hclosed

/-- A program is read alike wherever its text stands, and whatever has been reported before. -/
theorem Reader.Moved.program {m : Position → Position} {before : List Diagnostic} (n : Nat)
    (h : r.Moved m before s) :
    ((script.program (script.expr n)).run s).1 =
        Stmt.retokenAll (.moved m) ((script.program (script.expr n)).run r).1 ∧
      ((script.program (script.expr n)).run r).2.Moved m before
        ((script.program (script.expr n)).run s).2 := by
  have hpasses := (Simulation.moved m before).passes_program n h
  generalize (script.program (script.expr n)).run r = x at hpasses ⊢
  generalize (script.program (script.expr n)).run s = y at hpasses ⊢
  cases hpasses with
  | @stopped as bs r' s' hss hrs _ =>
    have heq := Simulation.retokenAll_stmt hss
    change Stmt.retokenAll (.moved m) as = Stmt.retokenAll .id bs at heq
    rw [Stmt.retokenAll_id] at heq
    exact ⟨heq.symm, hrs⟩
  | past _ hpast => exact hpast.elim
  | unclosed hpast _ => exact hpast.elim

/-- The scanner on what comes after a text and a `;`. -/
def Scanner.afterSemicolon (s₁ s₂ : String) : Scanner :=
  ⟨s₂.toList, Position.start.after (s₁ ++ ";").toList⟩

/-- The tokens of two texts with a `;` between them. -/
theorem upTo_ofText (s₁ s₂ : String) :
    (Reader.ofScanner (.ofText (s₁ ++ ";"))).UpTo (Scanner.afterSemicolon s₁ s₂).ahead
      (Scanner.afterSemicolon s₁ s₂).finish (.ofScanner (.ofText (s₁ ++ ";" ++ s₂))) := by
  have hplace : Position.start.after (s₁ ++ ";").toList =
      (Scanner.ofText s₁).finish.step ';' := by
    rw [String.toList_append, Position.after_append]
    rfl
  have hfirst : Scanner.ofText (s₁ ++ ";") = (Scanner.ofText s₁).followedBy [';'] := by
    simp [Scanner.ofText, Scanner.followedBy]
  have hboth : Scanner.ofText (s₁ ++ ";" ++ s₂) =
      (Scanner.ofText s₁).followedBy (';' :: s₂.toList) := by
    simp [Scanner.ofText, Scanner.followedBy]
  have hahead : (Scanner.ofText (s₁ ++ ";")).ahead =
      (Scanner.ofText s₁).ahead ++ [⟨.semicolon, ";", (Scanner.ofText s₁).finish⟩] := by
    rw [hfirst, Scanner.ahead_followedBy_semicolon,
      Scanner.ahead_eq_nil (s := ⟨[], _⟩) rfl]
  refine ⟨?_, ?_, rfl, _, _, hahead, rfl⟩
  · show (Scanner.ofText (s₁ ++ ";" ++ s₂)).ahead = (Scanner.ofText (s₁ ++ ";")).ahead ++ _
    rw [hahead, hboth, Scanner.ahead_followedBy_semicolon, Scanner.afterSemicolon, hplace,
      List.append_assoc]
    rfl
  · show (Scanner.ofText (s₁ ++ ";" ++ s₂)).finish = _
    simp only [Scanner.finish, Scanner.ofText, Scanner.afterSemicolon, String.toList_append,
      Position.after_append]

/-- **A `;` outside of blocks separates completely.** If the text up to the `;` leaves no block
    open, then what comes after it is read as it is by itself, each token at its place in the whole
    text, and nothing else is. -/
theorem parse_append_semicolon (hlength : (s₁ ++ ";" ++ s₂).length < 2 ^ 32)
    (hclosed : ∀ d ∈ (parse (s₁ ++ ";")).2, d.fault ≠ .unexpected .closeBrace .eof) :
    let place := (Position.start.after (s₁ ++ ";").toList).shift
    (parse (s₁ ++ ";" ++ s₂)).1.statements =
        (parse (s₁ ++ ";")).1.statements ++
          Stmt.retokenAll (.moved place) (parse s₂).1.statements ∧
      (parse (s₁ ++ ";" ++ s₂)).2 =
        (parse (s₁ ++ ";")).2 ++ (parse s₂).2.map (Diagnostic.move place) := by
  intro place
  obtain ⟨s', hbeyond, hwhole⟩ := (upTo_ofText s₁ s₂).program nestingLimit
    fun ⟨d, hd, hfault⟩ => hclosed d hd hfault
  have hshort : s₂.toList.length + 1 < 2 ^ 32 := by
    rw [String.length_append, String.length_append, show ";".length = 1 from rfl] at hlength
    rw [String.length_toList]
    omega
  have hmoves := Scanner.moves_shift (Position.start.after (s₁ ++ ";").toList) hshort
  have hmoved : (Reader.ofScanner (.ofText s₂)).Moved place (parse (s₁ ++ ";")).2 s' := by
    refine ⟨hbeyond.ahead.trans hmoves.ahead, hbeyond.finish.trans hmoves.finish, ?_⟩
    rw [hbeyond.errors]
    exact (List.append_nil _).symm
  obtain ⟨hstatements, hend⟩ := hmoved.program nestingLimit
  rw [parse_eq (s₁ ++ ";" ++ s₂), hwhole]
  refine ⟨?_, hend.errors⟩
  show _ ++ _ = _
  rw [hstatements]
  rfl

/-- Three faults before the `;`, the last of them found there, and two after it. -/
theorem parse_append_semicolon_faults :
    let s₁ := "f(1 2;\nvar x = @; if (a) \x7b b \x7d else"
    let s₂ := "var y 4\nreturn z)"
    (s₁ ++ ";" ++ s₂).length < 2 ^ 32 ∧
      (∀ d ∈ (parse (s₁ ++ ";")).2, d.fault ≠ .unexpected .closeBrace .eof) ∧
      (parse (s₁ ++ ";" ++ s₂)).2 = (parse (s₁ ++ ";")).2 ++
        [⟨.unexpected .assign .integer, ⟨2, 36⟩⟩, ⟨.noOperand .closeParen, ⟨3, 9⟩⟩] := by
  intro s₁ s₂
  have hlength : (s₁ ++ ";" ++ s₂).length < 2 ^ 32 := by decide +kernel
  have hclosed : ∀ d ∈ (parse (s₁ ++ ";")).2, d.fault ≠ .unexpected .closeBrace .eof := by
    decide +kernel
  refine ⟨hlength, hclosed, (parse_append_semicolon hlength hclosed).2.trans ?_⟩
  decide +kernel

end

end Scriptlet
