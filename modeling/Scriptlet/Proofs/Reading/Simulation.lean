/-
  Two texts read at the same pace. The fields of a `Simulation` are all that
  reading looks at; every reading of the language keeps to it
  (`Simulation.passes_program`).
-/
import Mathlib.Data.List.Forall2
import Scriptlet.Proofs.Reading.Keeps
import Scriptlet.Proofs.Tree.Retoken

namespace Scriptlet

open Grammar (script)

/-- The diagnostics are about the same fault of tokens that correspond. -/
def Diagnostic.Matches (Same : Token → Token → Prop) (d e : Diagnostic) : Prop :=
  d.fault = e.fault ∧ ∃ t u, Same t u ∧ d.position = t.position ∧ e.position = u.position

/-- A relation between the readers of two texts that reading keeps. -/
structure Simulation where
  /-- The tokens that correspond to each other. -/
  Same : Token → Token → Prop
  /-- What the trees of the first text are compared by. -/
  left : Retoken
  /-- What the trees of the second text are compared by. -/
  right : Retoken
  /-- The current tokens correspond. -/
  Level : Reader → Reader → Prop
  /-- The current tokens correspond, and those after them. -/
  Inner : Reader → Reader → Prop
  /-- The first text has been read to its end, and the second goes on. -/
  Past : Reader → Reader → Prop
  kind : ∀ {t u}, Same t u → t.kind = u.kind
  literal : ∀ {t u}, Same t u → t.literal = u.literal
  integer : ∀ {t u}, Same t u → left.integer t = right.integer u
  statement : ∀ {t u}, Same t u → left.statement t = right.statement u
  other : ∀ {t u}, Same t u → left.other t = right.other u
  level : ∀ {r s}, Inner r s → Level r s
  current : ∀ {r s}, Level r s → Same r.current s.current
  next : ∀ {r s}, Inner r s → Same r.next s.next
  advance : ∀ {r s}, Inner r s → Level r.advance s.advance
  /-- The first text ends only after a `;`. -/
  inner : ∀ {r s}, Level r s → r.current.kind ≠ .semicolon → Inner r s
  inner_or_past : ∀ {r s}, Level r s → Inner r s ∨ Past r.advance s.advance
  ended : ∀ {r s}, Level r s → (r.ahead = [] ↔ s.ahead = [])
  past_ended : ∀ {r s}, Past r s → r.ahead = []
  report : ∀ {r s d e}, Level r s → d.Matches Same e → Level (r.report d) (s.report e)
  kept : ∀ {r s} (a b : Stmt), Level r s → Level (r.note (.kept a)) (s.note (.kept b))

/-- A block was open at the end of the text. -/
def Diagnostic.Unclosed (d : Diagnostic) : Prop :=
  d.fault = .unexpected .closeBrace .eof

/-- It has been reported that a block was open at the end of the text. -/
def Reader.Unclosed (r : Reader) : Prop :=
  ∃ d ∈ r.errors.toList, d.Unclosed

/-- It has been reported, or is about to be, that a block was open at the end of the text. -/
def Parse.Unclosed (x : Except Diagnostic α × Reader) : Prop :=
  x.2.Unclosed ∨ ∃ d, x.1 = .error d ∧ d.Unclosed

theorem Reader.Unclosed.before {r r' : Reader} (h : r.Unclosed) (h' : r.Before r') :
    r'.Unclosed := by
  obtain ⟨d, hd, hfault⟩ := h
  exact ⟨d, h'.subset hd, hfault⟩

theorem Parse.Unclosed.reader {a : α} {r : Reader} (h : Parse.Unclosed (.ok a, r)) :
    r.Unclosed := by
  rcases h with h | ⟨_, ⟨⟩, -⟩
  exact h

/-- What is read afterwards takes nothing back. -/
theorem Parse.Unclosed.later {β : Type} {x : Except Diagnostic α × Reader}
    {f : α → Reader → Except Diagnostic β × Reader} (h : Parse.Unclosed x)
    (hf : ∀ (a : α) (r : Reader), r.Before (f a r).2) :
    Parse.Unclosed (match x with
      | (.ok a, r) => f a r
      | (.error d, r) => (.error d, r)) := by
  rcases x with ⟨d | a, r⟩
  · rcases h with h | ⟨_, heq, h⟩
    · exact .inl h
    · exact .inr ⟨d, rfl, by cases heq; exact h⟩
  · exact .inl (h.reader.before (hf a r))

theorem Diagnostic.Matches.of_same {Same : Token → Token → Prop} {t u : Token} (f : Fault)
    (h : Same t u) : Diagnostic.Matches Same ⟨f, t.position⟩ ⟨f, u.position⟩ :=
  ⟨rfl, t, u, h, rfl, rfl⟩

namespace Simulation

variable {S : Simulation}

/-! ## What two readings come to -/

/-- Names that correspond. -/
def SameName (S : Simulation) (i j : Identifier) : Prop :=
  i.retoken S.left = j.retoken S.right

/-- Expressions that correspond. -/
def SameExpr (S : Simulation) (e f : Expr) : Prop :=
  e.retoken S.left = f.retoken S.right

/-- Blocks that correspond. -/
def SameBlock (S : Simulation) (b c : Block) : Prop :=
  b.retoken S.left = c.retoken S.right

/-- Statements that correspond. -/
def SameStmt (S : Simulation) (a b : Stmt) : Prop :=
  a.retoken S.left = b.retoken S.right

/-- What two readings come to. -/
inductive Meets (S : Simulation) (X : Reader → Reader → Prop) (M : α → β → Prop) :
    Except Diagnostic α × Reader → Except Diagnostic β × Reader → Prop
  | ok {a : α} {b : β} {r s : Reader} : M a b → X r s → Meets S X M (.ok a, r) (.ok b, s)
  | error {d e : Diagnostic} {r s : Reader} : d.Matches S.Same e → S.Level r s →
      Meets S X M (.error d, r) (.error e, s)
  | unclosed {r s : Reader} {x : Except Diagnostic α × Reader}
      {y : Except Diagnostic β × Reader} : S.Past r s → Parse.Unclosed x → Meets S X M x y

/-- Two readings that start in the relation `Y` and end in the relation `X`, with values in the
    relation `M`. -/
structure Leads (S : Simulation) (Y X : Reader → Reader → Prop) (M : α → β → Prop)
    (p : Parse α) (q : Parse β) : Prop where
  meets : ∀ {r s}, Y r s → S.Meets X M (p.on r) (q.on s)

section

variable {α β γ δ : Type} {X Y Z : Reader → Reader → Prop} {M : α → β → Prop} {N : γ → δ → Prop}
  {p : Parse α} {q : Parse β} {r s : Reader} {k : Kind}

theorem Leads.pure {a : α} {b : β} (h : M a b) : S.Leads X X M (pure a) (pure b) :=
  ⟨.ok h⟩

theorem Leads.bind {f : α → Parse γ} {g : β → Parse δ} [hf : ∀ a, Parse.Keeps (f a)]
    (h : S.Leads Y X M p q) (hfg : ∀ {a b}, M a b → S.Leads X Z N (f a) (g b)) :
    S.Leads Y Z N (p >>= f) (q >>= g) := by
  refine ⟨fun {r s} hrs => ?_⟩
  have hpq := h.meets hrs
  rw [Parse.on_bind, Parse.on_bind]
  generalize p.on r = x at hpq ⊢
  generalize q.on s = y at hpq ⊢
  cases hpq with
  | ok hab hrs' => exact (hfg hab).meets hrs'
  | error hde hrs' => exact .error hde hrs'
  | unclosed hpast hopen => exact .unclosed hpast (hopen.later fun a => (hf a).before)

theorem Leads.current : S.Leads S.Inner S.Inner S.Same (liftM Walk.current : Parse Token)
    (liftM Walk.current : Parse Token) :=
  ⟨fun hrs => .ok (S.current (S.level hrs)) hrs⟩

theorem Leads.next : S.Leads S.Inner S.Inner S.Same (liftM Walk.next : Parse Token)
    (liftM Walk.next : Parse Token) :=
  ⟨fun hrs => .ok (S.next hrs) hrs⟩

theorem Leads.identifier : S.Leads S.Inner S.Inner S.SameName
    (liftM Walk.identifier : Parse Identifier) (liftM Walk.identifier : Parse Identifier) := by
  refine ⟨fun {r s} hrs => .ok ?_ hrs⟩
  have hsame := S.current (S.level hrs)
  exact congrArg₂ Identifier.mk (S.other hsame) (S.literal hsame)

theorem Leads.advance : S.Leads S.Inner S.Level (fun _ _ => True)
    (liftM Walk.advance : Parse Unit) (liftM Walk.advance : Parse Unit) :=
  ⟨fun hrs => .ok trivial (S.advance hrs)⟩

theorem Leads.expect (hk : k ≠ .semicolon) :
    S.Leads S.Inner S.Inner (fun _ _ => True) (Parse.expect k) (Parse.expect k) := by
  refine ⟨fun {r s} hrs => ?_⟩
  have hnext := S.next hrs
  rw [Parse.on_expect, Parse.on_expect, ← S.kind hnext]
  split
  · next hkind => exact .ok trivial (S.inner (S.advance hrs) fun h => hk (hkind.symm.trans h))
  · exact .error (.of_same _ hnext) (S.level hrs)

theorem Leads.optional : S.Leads S.Inner S.Level (fun _ _ => True)
    (liftM (Walk.optional k) : Parse Unit) (liftM (Walk.optional k) : Parse Unit) := by
  refine ⟨fun {r s} hrs => ?_⟩
  rw [Parse.on_lift, Parse.on_lift, Walk.run_optional, Walk.run_optional, ← S.kind (S.next hrs)]
  split
  · exact .ok trivial (S.advance hrs)
  · exact .ok trivial (S.level hrs)

/-- Rounds go on at the same tokens, which are no `;`, and so at the same pace. -/
theorem Leads.whileNext {rule : Kind → Option ρ} {body : ρ → α → Parse α}
    {body' : ρ → β → Parse β} [hkeeps : ∀ x a, Parse.Keeps (body x a)]
    (hrule : ∀ k, k.isTerminator = true → rule k = none)
    (hbody : ∀ {k x a b}, rule k = some x → M a b →
      S.Leads S.Inner S.Inner M (body x a) (body' x b)) {a : α} {b : β} (hab : M a b) :
    S.Leads S.Inner S.Inner M (Parse.whileNext rule body a) (Parse.whileNext rule body' b) := by
  refine ⟨fun {r s} hrs => ?_⟩
  -- each round has fewer tokens ahead
  induction hn : r.ahead.length using Nat.strongRecOn generalizing a b r s with
  | ind n ih =>
    subst hn
    have hkind := S.kind (S.next hrs)
    cases hx : rule r.next.kind with
    | none =>
      rw [Parse.on_whileNext_of_next hx, Parse.on_whileNext_of_next (by rwa [← hkind])]
      exact .ok hab hrs
    | some x =>
      have hgoes : ¬ r.next.kind.isTerminator = true := fun h => by
        rw [hrule _ h] at hx; cases hx
      have hne : r.next.kind ≠ .eof := fun h => hgoes (by rw [h]; rfl)
      have hinner : S.Inner r.advance s.advance :=
        S.inner (S.advance hrs) fun h => hgoes (by rw [← Reader.current_advance, h]; rfl)
      obtain ⟨c, rest, hahead⟩ := Reader.ahead_of_next rfl hne
      obtain ⟨c', rest', hahead'⟩ := Reader.ahead_of_next hkind.symm hne
      rw [Parse.on_whileNext_of_some hahead hx, Parse.on_whileNext_of_some hahead' (hkind ▸ hx)]
      have hround := (hbody hx hab).meets hinner
      have hsuffix := (body x a).on_suffix r.advance
      generalize (body x a).on r.advance = o at hround hsuffix ⊢
      generalize (body' x b).on s.advance = o' at hround ⊢
      cases hround with
      | error hde hrs' => exact .error hde hrs'
      | unclosed hpast hopen => exact .unclosed hpast (hopen.later fun a => Parse.Keeps.before)
      | ok hab' hrs' =>
        refine ih _ ?_ hab' hrs' rfl
        have hle := hsuffix.length_le
        simp only [Reader.ahead_advance, List.length_tail, hahead, List.length_cons] at hle ⊢
        omega

theorem Leads.commaList {item : Parse α} {item' : Parse β} [Parse.Keeps item]
    (h : S.Leads S.Inner S.Inner M item item') :
    S.Leads S.Inner S.Inner (List.Forall₂ M) (Parse.commaList item) (Parse.commaList item') := by
  have hcomma : ∀ k, k.isTerminator = true → Parse.comma? k = none := by
    intro k hk
    refine if_neg ?_
    rintro rfl
    cases hk
  refine h.bind fun hab => Leads.bind ?_ fun has => .pure (List.rel_reverse has)
  refine Leads.whileNext hcomma (fun _ has => ?_) (.cons hab .nil)
  exact h.bind fun hab => .pure (.cons hab has)

/-- Both texts go on past the next token, or neither. -/
theorem Leads.ifNext {p' : Parse α} {q' : Parse β} (hk : k ≠ .semicolon)
    (h : S.Leads S.Inner X M p q) (h' : S.Leads S.Inner X M p' q') :
    S.Leads S.Inner X M
      (do if (← Walk.next).kind = k then (do Walk.advance; p) else p')
      (do if (← Walk.next).kind = k then (do Walk.advance; q) else q') := by
  refine ⟨fun {r s} hrs => ?_⟩
  have hkind := S.kind (S.next hrs)
  rw [Parse.on_bind, Parse.on_bind]
  show S.Meets X M ((if r.next.kind = k then _ else _ : Parse α).on r)
    ((if s.next.kind = k then _ else _ : Parse β).on s)
  rw [← hkind]
  split
  · next hnext =>
    rw [Parse.on_bind, Parse.on_bind]
    exact h.meets (S.inner (S.advance hrs) fun he => hk (hnext.symm.trans he))
  · exact h'.meets hrs

/-- A list ends at its `)` in both texts. -/
theorem Leads.parenthesised {item : Parse α} {item' : Parse β} [Parse.Keeps item]
    (h : S.Leads S.Inner S.Inner M item item') :
    S.Leads S.Inner S.Inner (List.Forall₂ M) (Parse.parenthesised item)
      (Parse.parenthesised item') := by
  refine Leads.ifNext (by decide) (.pure .nil) (h.commaList.bind fun has => ?_)
  exact (Leads.expect (by decide)).bind fun _ => .pure has

/-! ## Recovering, and round after round -/

theorem ahead_of_level {t : Token} {rest : List Token} (h : S.Level r s)
    (hahead : r.ahead = t :: rest) :
    ∃ u rest', s.ahead = u :: rest' ∧ t.kind = u.kind := by
  have hkind := S.kind (S.current h)
  rcases hs : s.ahead with _ | ⟨u, rest'⟩
  · rw [(S.ended h).2 hs] at hahead
    cases hahead
  · rw [Reader.current_of_ahead hahead, Reader.current_of_ahead hs] at hkind
    exact ⟨u, rest', rfl, hkind⟩

/-- A broken statement is given up at the same token. -/
theorem level_synchronize (starts : Kind → Bool) (h : S.Level r s) :
    S.Level (r.synchronize starts) (s.synchronize starts) := by
  fun_induction Reader.synchronize starts r generalizing s with
  | case1 r hahead =>
    rw [Reader.synchronize_of_nil ((S.ended h).1 hahead)]
    exact h
  | case2 r t rest hahead hstop =>
    obtain ⟨u, rest', hahead', hkind⟩ := ahead_of_level h hahead
    rw [Reader.synchronize_of_stop hahead']
    · exact h
    · by_cases hsemicolon : t.kind = .semicolon
      · simp [← hkind, hsemicolon, Kind.isTerminator]
      · have hinner := S.inner h (by rwa [Reader.current_of_ahead hahead])
        rwa [← hkind, ← S.kind (S.next hinner)]
  | case3 r t rest hahead hgo ih =>
    obtain ⟨u, rest', hahead', hkind⟩ := ahead_of_level h hahead
    have hsemicolon : t.kind ≠ .semicolon := fun he => hgo (by simp [he, Kind.isTerminator])
    have hinner := S.inner h (by rwa [Reader.current_of_ahead hahead])
    rw [Reader.synchronize_of_not_stop hahead']
    · exact ih (S.advance hinner)
    · rwa [← hkind, ← S.kind (S.next hinner)]

/-- What fails in one text fails in the other, and is given up at the same token. -/
theorem Leads.recover {g : Grammar} (h : S.Leads S.Level S.Level M p q) :
    S.Leads S.Level S.Level (Option.Rel M) (liftM (g.recover p) : Parse (Option α))
      (liftM (g.recover q) : Parse (Option β)) := by
  refine ⟨fun {r s} hrs => ?_⟩
  have hpq := h.meets hrs
  rw [Parse.on_lift, Parse.on_lift, Grammar.run_recover, Grammar.run_recover]
  generalize p.on r = x at hpq ⊢
  generalize q.on s = y at hpq ⊢
  cases hpq with
  | ok hab hrs' => exact .ok (.some hab) hrs'
  | error hde hrs' => exact .ok .none (level_synchronize _ (S.report hrs' hde))
  | unclosed hpast hopen =>
    refine .unclosed hpast (.inl ?_)
    rcases x with ⟨d | a, r'⟩
    · show ((r'.report d).synchronize _).Unclosed
      rw [Reader.Unclosed, Reader.synchronize_errors, Reader.errors_report, Array.toList_push]
      rcases hopen with ⟨e, he, hfault⟩ | ⟨e, ⟨⟩, hfault⟩
      · exact ⟨e, List.mem_append_left _ he, hfault⟩
      · exact ⟨d, List.mem_append_right _ List.mem_cons_self, hfault⟩
    · exact hopen.reader

/-- What rounds in two texts come to. -/
inductive Passes (S : Simulation) (stop : Kind → Bool) (M : α → β → Prop)
    (one : Walk (Option β)) : List α × Reader → List β × Reader → Prop
  /-- Both have come to where they stop. -/
  | stopped {as : List α} {bs : List β} {r s : Reader} : List.Forall₂ M as bs → S.Level r s →
      (∀ t rest, r.ahead = t :: rest → stop t.kind = true) → Passes S stop M one (as, r) (bs, s)
  /-- The first text has ended, and the rounds in the second go on. -/
  | past {as : List α} {bs : List β} {r s : Reader} : List.Forall₂ M as bs → S.Past r s →
      Passes S stop M one (as, r)
        (bs ++ ((Walk.untilKind stop one).run s).1, ((Walk.untilKind stop one).run s).2)
  | unclosed {r s r' : Reader} {as : List α} {y : List β × Reader} : S.Past r s → r'.Unclosed →
      Passes S stop M one (as, r') y

theorem Passes.prepend {stop : Kind → Bool} {one : Walk (Option β)} {as as' : List α}
    {bs bs' : List β} (h : List.Forall₂ M as bs) (h' : S.Passes stop M one (as', r) (bs', s)) :
    S.Passes stop M one (as ++ as', r) (bs ++ bs', s) := by
  cases h' with
  | stopped hm hrs hstop => exact .stopped (List.rel_append h hm) hrs hstop
  | past hm hpast =>
    rw [← List.append_assoc]
    exact .past (List.rel_append h hm) hpast
  | unclosed hpast hopen => exact .unclosed hpast hopen

theorem forall₂_toList {a? : Option α} {b? : Option β} (h : Option.Rel M a? b?) :
    List.Forall₂ M a?.toList b?.toList := by
  cases h with
  | none => exact .nil
  | some hab => exact .cons hab .nil

/-- Round after round two readings go at the same pace. -/
theorem Leads.rounds {one : Walk (Option α)} {one' : Walk (Option β)} [hkeeps : Walk.Keeps one]
    (h : S.Leads S.Level S.Level (Option.Rel M) (liftM one : Parse (Option α))
      (liftM one' : Parse (Option β))) (stop : Kind → Bool) (hrs : S.Level r s) :
    S.Passes stop M one' ((Walk.untilKind stop one).run r) ((Walk.untilKind stop one').run s) := by
  show S.Passes stop M one' (Walk.rounds stop one r) _
  fun_induction Walk.rounds stop one r generalizing s with
  | case1 r hahead =>
    have hahead' := (S.ended hrs).1 hahead
    rw [Walk.run_untilKind_of_stop fun t rest ht => by cases hahead'.symm.trans ht]
    exact .stopped .nil hrs fun t rest ht => by cases hahead.symm.trans ht
  | case2 r t rest hahead hstop =>
    obtain ⟨u, rest', hahead', hkind⟩ := ahead_of_level hrs hahead
    rw [Walk.run_untilKind_of_stop fun t' rest ht => by
      cases hahead'.symm.trans ht; rwa [← hkind]]
    exact .stopped .nil hrs fun t' rest ht => by cases hahead.symm.trans ht; exact hstop
  | case3 r t rest hahead hgo here later =>
    rename_i ih
    obtain ⟨u, rest', hahead', hkind⟩ := ahead_of_level hrs hahead
    rw [Walk.run_untilKind_of_not_stop hahead' (by simpa [← hkind] using hgo)]
    have hround := h.meets hrs
    rw [Parse.on_lift, Parse.on_lift] at hround
    change S.Meets _ _ (.ok here.1, here.2) _ at hround
    have hlater : ∀ {s'}, S.Past here.2.advance s' → later = ([], here.2.advance) := by
      intro s' hpast
      have hnil := S.past_ended hpast
      exact Walk.run_untilKind_of_stop fun t rest ht => by cases hnil.symm.trans ht
    have hbefore := (Walk.keeps_untilKind stop one).before here.2.advance
    generalize one'.run s = here' at hround ⊢
    cases hround with
    | ok hab hrs' =>
      have hone := forall₂_toList hab
      rcases S.inner_or_past hrs' with hinner | hpast
      · exact .prepend hone (ih (S.advance hinner))
      · rw [hlater hpast, List.append_nil]
        exact .past hone hpast
    | unclosed hpast hopen =>
      have hadvance : here.2.Before here.2.advance := .of_eq here.2.errors_advance
      exact .unclosed hpast (hopen.reader.before (hadvance.trans hbefore))

end

/-! ## Lists of what corresponds -/

theorem retokenAll_expr {es fs : List Expr} (h : List.Forall₂ S.SameExpr es fs) :
    Expr.retokenAll S.left es = Expr.retokenAll S.right fs := by
  induction h with
  | nil => rfl
  | cons hef _ ih => rw [Expr.retokenAll, Expr.retokenAll, hef, ih]

theorem retokenAll_stmt {ss ts : List Stmt} (h : List.Forall₂ S.SameStmt ss ts) :
    Stmt.retokenAll S.left ss = Stmt.retokenAll S.right ts := by
  induction h with
  | nil => rfl
  | cons hst _ ih => rw [Stmt.retokenAll, Stmt.retokenAll, hst, ih]

theorem map_retoken {is js : List Identifier} (h : List.Forall₂ S.SameName is js) :
    is.map (·.retoken S.left) = js.map (·.retoken S.right) := by
  induction h with
  | nil => rfl
  | cons hij _ ih => rw [List.map_cons, List.map_cons, hij, ih]

/-! ## The rules of the language -/

section

variable {sub : Power → Parse Expr} [hkeeps : ∀ p, Parse.Keeps (sub p)]
  {X : Reader → Reader → Prop} {α β : Type} {M : α → β → Prop} {r s : Reader}

theorem Leads.current_bind {f : Token → Parse α} {g : Token → Parse β}
    (h : ∀ {r s}, S.Level r s → S.Meets X M ((f r.current).on r) ((g s.current).on s)) :
    S.Leads S.Level X M (liftM Walk.current >>= f) (liftM Walk.current >>= g) := by
  refine ⟨fun {r s} hrs => ?_⟩
  rw [Parse.on_bind, Parse.on_bind]
  exact h hrs

theorem leads_integer : S.Leads S.Inner S.Inner S.SameExpr Parse.integer Parse.integer := by
  refine ⟨fun {r s} hrs => ?_⟩
  have hsame := S.current (S.level hrs)
  simp only [Parse.integer, Parse.on_bind, Parse.on_lift]
  rw [← S.literal hsame]
  cases Numeral.integer r.current.literal.toList with
  | ok v =>
    refine .ok ?_ hrs
    show Expr.integer _ _ = Expr.integer _ _
    rw [S.integer hsame]
  | error e => exact .error (.of_same _ hsame) (S.level hrs)

theorem leads_parameter : S.Leads S.Inner S.Inner S.SameName
    (do Parse.expect .identifier; Walk.identifier : Parse Identifier)
    (do Parse.expect .identifier; Walk.identifier) :=
  (Leads.expect (by decide)).bind fun _ => Leads.identifier

variable (hsub : ∀ p, S.Leads S.Level S.Inner S.SameExpr (sub p) (sub p))

include hsub

omit hkeeps in
theorem leads_closedExpr : S.Leads S.Level S.Level S.SameExpr (Grammar.closedExpr sub)
    (Grammar.closedExpr sub) :=
  (hsub .lowest).bind fun he => Leads.optional.bind fun _ => .pure he

theorem leads_var : S.Leads S.Inner S.Level S.SameStmt (script.readStatement sub .var)
    (script.readStatement sub .var) := by
  refine Leads.current.bind fun ht => ?_
  refine (Leads.expect (by decide)).bind fun _ => ?_
  refine Leads.identifier.bind fun hi => ?_
  refine (Leads.expect (by decide)).bind fun _ => ?_
  refine Leads.advance.bind fun _ => (leads_closedExpr hsub).recover.bind fun hv => .pure ?_
  cases hv with
  | none =>
    show Stmt.var _ _ none = Stmt.var _ _ none
    rw [S.other ht, hi]
  | some he =>
    show Stmt.var _ _ (some _) = Stmt.var _ _ (some _)
    rw [S.other ht, hi, he]

theorem leads_ret : S.Leads S.Inner S.Level S.SameStmt (script.readStatement sub .ret)
    (script.readStatement sub .ret) := by
  refine Leads.current.bind fun ht => ?_
  refine Leads.advance.bind fun _ => (leads_closedExpr hsub).recover.bind fun hv => .pure ?_
  cases hv with
  | none =>
    show Stmt.ret _ none = Stmt.ret _ none
    rw [S.other ht]
  | some he =>
    show Stmt.ret _ (some _) = Stmt.ret _ (some _)
    rw [S.other ht, he]

theorem leads_stmt : S.Leads S.Level S.Level S.SameStmt (script.stmt sub) (script.stmt sub) := by
  refine Leads.current_bind fun {r s} hrs => ?_
  have hsame := S.current hrs
  rw [← S.kind hsame]
  cases hrule : (script.statement r.current.kind).getD .expr with
  | var =>
    refine (leads_var hsub).meets (S.inner hrs fun h => ?_)
    rw [h] at hrule
    cases hrule
  | ret =>
    refine (leads_ret hsub).meets (S.inner hrs fun h => ?_)
    rw [h] at hrule
    cases hrule
  | expr =>
    have hexpr : S.Leads S.Level S.Level S.SameStmt (script.readStatement sub .expr)
        (script.readStatement sub .expr) := by
      refine Leads.current_bind fun {r s} hrs => ?_
      refine ((leads_closedExpr hsub).bind fun he => .pure ?_).meets hrs
      show Stmt.expr _ _ = Stmt.expr _ _
      rw [S.statement (S.current hrs), he]
    exact hexpr.meets hrs

theorem leads_stmt? : S.Leads S.Level S.Level (Option.Rel S.SameStmt)
    (liftM (script.stmt? sub) : Parse (Option Stmt)) (liftM (script.stmt? sub)) :=
  (leads_stmt hsub).recover

/-- A block ends at its `}` in both texts, unless the first one ends before. -/
theorem leads_block : S.Leads S.Inner S.Inner S.SameBlock (script.block sub)
    (script.block sub) := by
  refine ⟨fun {r s} hrs => ?_⟩
  have hsame := S.current (S.level hrs)
  have hrounds := (leads_stmt? hsub).rounds (· = .closeBrace) (S.advance hrs)
  rw [Grammar.on_block_eq, Grammar.on_block_eq]
  generalize (Walk.untilKind _ _).run r.advance = x at hrounds ⊢
  generalize (Walk.untilKind _ _).run s.advance = y at hrounds ⊢
  cases hrounds with
  | @stopped as bs r' s' hss hrs' hstop =>
    have hsame' := S.current hrs'
    show S.Meets _ _ (if r'.current.kind = .eof then _ else _)
      (if s'.current.kind = .eof then _ else _)
    rw [← S.kind hsame']
    by_cases hend : r'.current.kind = .eof
    · rw [if_pos hend, if_pos hend]
      exact .error (.of_same _ hsame') hrs'
    · rw [if_neg hend, if_neg hend]
      have hclose := of_decide_eq_true (hstop _ _ (Reader.ahead_of_current rfl hend))
      refine .ok ?_ (S.inner hrs' fun h => by cases hclose.symm.trans h)
      show Block.mk _ _ = Block.mk _ _
      rw [S.other hsame, retokenAll_stmt hss]
  | @past as bs r' s' hss hpast =>
    refine .unclosed hpast ?_
    have hend : r'.current.kind = .eof := by
      rw [Reader.current, S.past_ended hpast]
      rfl
    show Parse.Unclosed (if r'.current.kind = .eof then _ else _)
    rw [if_pos hend]
    exact .inr ⟨_, rfl, rfl⟩
  | unclosed hpast hopen =>
    refine .unclosed hpast ?_
    dsimp only
    split <;> exact .inl hopen

theorem leads_item : S.Leads S.Inner S.Inner S.SameExpr (Grammar.item sub) (Grammar.item sub) :=
  Leads.advance.bind fun _ => hsub .lowest

set_option synthInstance.maxSize 2048 in
/-- The operand rules. -/
theorem leads_readOperand (rule : OperandRule) : S.Leads S.Inner S.Inner S.SameExpr
    (script.readOperand sub rule) (script.readOperand sub rule) := by
  cases rule with
  | name =>
    refine Leads.identifier.bind fun hi => .pure ?_
    exact congrArg Expr.name hi
  | integer => exact leads_integer
  | boolean =>
    refine Leads.current.bind fun ht => .pure ?_
    show Expr.boolean _ _ = Expr.boolean _ _
    rw [S.other ht, S.kind ht]
  | unary =>
    refine Leads.current.bind fun ht => Leads.advance.bind fun _ => ?_
    refine (hsub .unary).bind fun he => .pure ?_
    show Expr.unary _ _ _ = Expr.unary _ _ _
    rw [S.other ht, S.literal ht, he]
  | group =>
    refine Leads.advance.bind fun _ => (hsub .lowest).bind fun he => ?_
    exact (Leads.expect (by decide)).bind fun _ => .pure he
  | conditional =>
    refine Leads.current.bind fun ht => (Leads.expect (by decide)).bind fun _ => ?_
    refine Leads.advance.bind fun _ => (hsub .lowest).bind fun hc => ?_
    refine (Leads.expect (by decide)).bind fun _ => (Leads.expect (by decide)).bind fun _ => ?_
    refine (leads_block hsub).bind fun hb => Leads.ifNext (by decide) ?_ (.pure ?_)
    · refine (Leads.expect (by decide)).bind fun _ => (leads_block hsub).bind fun ha => .pure ?_
      show Expr.conditional _ _ _ (some _) = Expr.conditional _ _ _ (some _)
      rw [S.other ht, hc, hb, ha]
    · show Expr.conditional _ _ _ none = Expr.conditional _ _ _ none
      rw [S.other ht, hc, hb]
  | function =>
    refine Leads.current.bind fun ht => (Leads.expect (by decide)).bind fun _ => ?_
    refine leads_parameter.parenthesised.bind fun hps => ?_
    refine (Leads.expect (by decide)).bind fun _ => (leads_block hsub).bind fun hb => .pure ?_
    show Expr.function _ _ _ = Expr.function _ _ _
    rw [S.other ht, map_retoken hps, hb]

/-- The operator rules. -/
theorem leads_read {left left' : Expr} (p : Power) (rule : OperatorRule)
    (hleft : S.SameExpr left left') : S.Leads S.Inner S.Inner S.SameExpr
      (rule.read sub left p) (rule.read sub left' p) := by
  cases rule with
  | binary =>
    refine Leads.current.bind fun ht => Leads.advance.bind fun _ => ?_
    refine (hsub p).bind fun he => .pure ?_
    show Expr.binary _ _ _ _ = Expr.binary _ _ _ _
    rw [S.other ht, hleft, S.literal ht, he]
  | call =>
    refine Leads.current.bind fun ht => (leads_item hsub).parenthesised.bind fun has => .pure ?_
    show Expr.call _ _ _ = Expr.call _ _ _
    rw [S.other ht, hleft, retokenAll_expr has]

/-- An operand and the operators after it. -/
theorem leads_nested (p : Power) : S.Leads S.Level S.Inner S.SameExpr (script.nested sub p)
    (script.nested sub p) := by
  refine Leads.current_bind fun {r s} hrs => ?_
  have hsame := S.current hrs
  rw [← S.kind hsame]
  cases hrule : script.operand r.current.kind with
  | none => exact .error (.of_same _ hsame) hrs
  | some rule =>
    have hinner : S.Inner r s := S.inner hrs fun h => by rw [h] at hrule; cases hrule
    refine ((leads_readOperand hsub rule).bind fun he => ?_).meets hinner
    refine Leads.whileNext (fun k hk => ?_) (fun {k x a b} _ hab => ?_) he
    · simp [Grammar.binding, hk]
    · exact leads_read hsub x.2 x.1 hab

end

/-- **Expressions are read at the same pace**, whatever faults there are. -/
theorem leads_expr (n : Nat) (p : Power) : S.Leads S.Level S.Inner S.SameExpr (script.expr n p)
    (script.expr n p) := by
  induction n generalizing p with
  | zero =>
    refine Leads.current_bind fun {r s} hrs => ?_
    exact .error (.of_same _ (S.current hrs)) hrs
  | succ n ih => exact leads_nested ih p

theorem leads_keep (a? b? : Option Stmt) (h : Option.Rel S.SameStmt a? b?) :
    S.Leads S.Level S.Level (Option.Rel S.SameStmt) (liftM (Grammar.keep a?) : Parse (Option Stmt))
      (liftM (Grammar.keep b?)) := by
  refine ⟨fun {r s} hrs => ?_⟩
  cases h with
  | none => exact .ok .none hrs
  | some hab => exact .ok (.some hab) (S.kept _ _ hrs)

/-- **Programs are read at the same pace**, as far as both texts go. -/
theorem passes_program (n : Nat) {r s : Reader} (hrs : S.Level r s) :
    S.Passes (fun _ => false) S.SameStmt (script.stmt? (script.expr n) >>= Grammar.keep)
      ((script.program (script.expr n)).run r) ((script.program (script.expr n)).run s) := by
  have hone : S.Leads S.Level S.Level (Option.Rel S.SameStmt)
      (liftM (script.stmt? (script.expr n) >>= Grammar.keep) : Parse (Option Stmt))
      (liftM (script.stmt? (script.expr n) >>= Grammar.keep)) :=
    ⟨fun hrs => ((leads_stmt? (leads_expr n)).bind fun h => leads_keep _ _ h).meets hrs⟩
  exact hone.rounds _ hrs

end Simulation

end Scriptlet
