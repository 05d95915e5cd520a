/-
  Where expressions are nested too deeply: openers within one another, of any
  sorts (`parse_nested`).
-/
import Scriptlet.Proofs.Language.Acceptance

namespace Scriptlet

open Grammar (script nestingLimit)

/-- Recovery goes on at a token of the kind, and before one. -/
def Kind.PassedOver (starts : Kind → Bool) (k : Kind) : Prop :=
  k.isTerminator = false ∧ k ≠ .closeBrace ∧ starts k = false

instance (starts : Kind → Bool) (k : Kind) : Decidable (k.PassedOver starts) :=
  inferInstanceAs (Decidable (_ ∧ _))

/-! ## Openers -/

/-- What opens a level of expressions. -/
inductive Opener where
  /-- `(` -/
  | group
  /-- `-` -/
  | minus
  /-- `!` -/
  | bang
  /-- `f(` -/
  | call
deriving DecidableEq, Repr

namespace Opener

/-- The kinds of the tokens of an opener. -/
def kinds : Opener → List Kind
  | group => [.openParen]
  | minus => [.minus]
  | bang => [.bang]
  | call => [.identifier, .openParen]

/-- The kinds of the tokens that close what an opener has opened. -/
def closing : Opener → List Kind
  | group | call => [.closeParen]
  | minus | bang => []

/-- The kinds of openers one within another, of a name within them, and of what closes them. -/
def around (os : List Opener) : List Kind :=
  os.flatMap kinds ++ .identifier :: os.flatMap closing

/-- What closes an opener may as well come last: there is only one kind of it. -/
theorem flatMap_closing_cons (o : Opener) (os : List Opener) :
    (o :: os).flatMap closing = os.flatMap closing ++ o.closing := by
  induction os with
  | nil => simp
  | cons o' os ih =>
    have hswap : o.closing ++ o'.closing = o'.closing ++ o.closing := by
      cases o <;> cases o' <;> rfl
    rw [List.flatMap_cons] at ih
    rw [List.flatMap_cons, List.flatMap_cons, ← List.append_assoc, hswap, List.append_assoc, ih,
      List.append_assoc]

theorem around_cons (o : Opener) (os : List Opener) :
    around (o :: os) = o.kinds ++ (around os ++ o.closing) := by
  rw [around, flatMap_closing_cons, List.flatMap_cons, around]
  simp only [List.append_assoc, List.cons_append]

/-- Each opener opens one level. -/
theorem derives {os : List Opener} {ts : List Token} (h : ts.map (·.kind) = around os) :
    ∃ e, Derives os.length (.expr .unary) ts e := by
  induction os generalizing ts with
  | nil =>
    obtain ⟨t, us, rfl, hk, hnil⟩ := List.map_eq_cons_iff.1 h
    obtain rfl := List.map_eq_nil_iff.1 hnil
    exact ⟨_, (Derives.name hk).loosen (by decide)⟩
  | cons o os ih =>
    rw [around_cons] at h
    obtain ⟨before, inner, rfl, hbefore, h⟩ := List.map_eq_append_iff.1 h
    obtain ⟨us, last, rfl, hus, hlast⟩ := List.map_eq_append_iff.1 h
    obtain ⟨e, he⟩ := ih hus
    cases o with
    | group =>
      obtain ⟨t, rfl, ht⟩ := List.map_eq_singleton_iff.1 hbefore
      obtain ⟨c, rfl, hc⟩ := List.map_eq_singleton_iff.1 hlast
      exact ⟨e, (Derives.group ht (he.loosen (by decide)) hc).loosen (by decide)⟩
    | minus | bang =>
      obtain ⟨t, rfl, ht⟩ := List.map_eq_singleton_iff.1 hbefore
      obtain rfl := List.map_eq_nil_iff.1 hlast
      rw [List.append_nil]
      exact ⟨_, .unary (by rw [ht]; decide) he⟩
    | call =>
      obtain ⟨f, after, rfl, hf, hafter⟩ := List.map_eq_cons_iff.1 hbefore
      obtain ⟨t, rfl, ht⟩ := List.map_eq_singleton_iff.1 hafter
      obtain ⟨c, rfl, hc⟩ := List.map_eq_singleton_iff.1 hlast
      have hcallee : Derives 0 (.expr .call) [f] _ := (Derives.name hf).loosen (by decide)
      have hcall := Derives.call hcallee ht (.arguments (.item (he.loosen (by decide)))) hc
      rw [Nat.zero_max] at hcall
      exact ⟨_, hcall.loosen (by decide)⟩

/-- Openers begin with no parenthesis that closes anything. -/
theorem firstKind_append {os : List Opener} {ts us : List Token}
    (h : ts.map (·.kind) = os.flatMap kinds) (hus : firstKind us ≠ .closeParen) :
    firstKind (ts ++ us) ≠ .closeParen := by
  cases os with
  | nil =>
    obtain rfl := List.map_eq_nil_iff.1 h
    exact hus
  | cons o os =>
    rcases ts with _ | ⟨t, ts⟩
    · cases o <;> cases h
    · have hkind : ∀ k ks, o.kinds = k :: ks → t.kind = k := by
        intro k ks ho
        rw [List.flatMap_cons, ho] at h
        exact (List.cons.inj h).1
      show t.kind ≠ .closeParen
      cases o <;> (rw [hkind _ _ rfl]; decide)

/-- Behind the first openers of some stands a token that closes nothing. -/
theorem exists_behind {os : List Opener} {ts : List Token} (h : ts.map (·.kind) = around os)
    (n : Nat) : ∃ before t after, ts = before ++ t :: after ∧
      before.map (·.kind) = (os.take n).flatMap kinds ∧ t.kind ≠ .closeParen := by
  -- the first openers, those within them, and the name with what closes them all
  have hsplit : around os = (os.take n).flatMap kinds ++
      ((os.drop n).flatMap kinds ++ .identifier :: os.flatMap closing) := by
    rw [← List.append_assoc, ← List.flatMap_append, List.take_append_drop, around]
  obtain ⟨before, within, rfl, hbefore, hwithin⟩ := List.map_eq_append_iff.1 (h.trans hsplit)
  obtain ⟨inner, last, rfl, hinner, hlast⟩ := List.map_eq_append_iff.1 hwithin
  obtain ⟨x, closers, rfl, hx, -⟩ := List.map_eq_cons_iff.1 hlast
  have hname : firstKind (x :: closers) ≠ .closeParen := by
    rw [firstKind_cons, hx]
    decide
  have hfirst := firstKind_append hinner hname
  obtain ⟨t, after, ht⟩ := List.exists_cons_of_ne_nil
    (List.append_ne_nil_of_right_ne_nil inner (List.cons_ne_nil x closers))
  rw [ht] at hfirst
  exact ⟨before, t, after, by rw [ht], hbefore, hfirst⟩

/-- Nothing among openers, a name and what closes them stops a recovery. -/
theorem passedOver_around {os : List Opener} {k : Kind} (h : k ∈ around os) :
    k.PassedOver script.startsStatement := by
  have hkinds : ∀ o : Opener, ∀ k ∈ o.kinds, k.PassedOver script.startsStatement := by
    intro o
    cases o <;> decide
  have hclosing : ∀ o : Opener, ∀ k ∈ o.closing, k.PassedOver script.startsStatement := by
    intro o
    cases o <;> decide
  rcases List.mem_append.1 h with hk | hk
  · obtain ⟨o, -, hk⟩ := List.mem_flatMap.1 hk
    exact hkinds o k hk
  · rcases List.mem_cons.1 hk with rfl | hk
    · decide
    · obtain ⟨o, -, hk⟩ := List.mem_flatMap.1 hk
      exact hclosing o k hk

end Opener

/-! ## Too few levels -/

theorem Parse.on_parenthesised_of_error {item : Parse α} {r r' : Reader} {d : Diagnostic}
    (hr : r.next.kind ≠ .closeParen) (h : item.on r = (.error d, r')) :
    (parenthesised item).on r = (.error d, r') := by
  simp only [parenthesised, commaList, on_bind, on_lift, if_neg hr, h]

namespace Grammar

section

variable {n : Nat} {p : Power} {r r' : Reader} {d : Diagnostic} {t u : Token} {ts : List Token}

/-- An expression in parentheses fails where the one between them does. -/
theorem expr_group_of_error (hr : r.ahead = t :: ts) (ht : t.kind = .openParen)
    (h : (script.expr n .lowest).on r.advance = (.error d, r')) :
    (script.expr (n + 1) p).on r = (.error d, r') := by
  refine (on_nested hr (by rw [ht]; rfl)).trans ?_
  simp only [readOperand, Parse.on_bind, Parse.on_lift, h]

/-- An operator before its operand fails where that does. -/
theorem expr_unary_of_error (hr : r.ahead = t :: ts) (ht : t.kind = .bang ∨ t.kind = .minus)
    (h : (script.expr n .unary).on r.advance = (.error d, r')) :
    (script.expr (n + 1) p).on r = (.error d, r') := by
  have hrule : script.operand t.kind = some .unary := by
    rcases ht with ht | ht <;> (rw [ht]; rfl)
  refine (on_nested hr hrule).trans ?_
  simp only [readOperand, Parse.on_bind, Parse.on_lift, h]

/-- A call fails where its first argument does. -/
theorem expr_call_of_error (hp : p < .call) (hr : r.ahead = t :: u :: ts)
    (ht : t.kind = .identifier) (hu : u.kind = .openParen) (hts : firstKind ts ≠ .closeParen)
    (h : (script.expr n .lowest).on r.advance.advance = (.error d, r')) :
    (script.expr (n + 1) p).on r = (.error d, r') := by
  have hadv : r.advance.ahead = u :: ts := Reader.ahead_advance_of_ahead hr
  have hnext : r.advance.next.kind ≠ .closeParen := by rwa [Reader.kind_next_of_ahead hadv]
  have hitem : (item (script.expr n)).on r.advance = (.error d, r') := by
    simp only [item, Parse.on_bind, Parse.on_lift, h]
  have hlist := Parse.on_parenthesised_of_error hnext hitem
  have hcall (e : Expr) : (OperatorRule.call.read (script.expr n) e .call).on r.advance =
      (.error d, r') := by
    simp only [OperatorRule.read, Parse.on_bind, Parse.on_lift]
    rw [show (do Walk.advance; script.expr n .lowest : Parse Expr) = item (script.expr n) from rfl,
      hlist]
  refine (on_nested hr (by rw [ht]; rfl)).trans ?_
  refine (on_goOn_of_some hr (by rw [hu]; exact binding_openParen hp)).trans ?_
  rw [hcall]

end

/-- As many levels as there are openers are one too few. -/
theorem expr_tooDeep {os : List Opener} {p : Power} {r : Reader} {before after : List Token}
    {t : Token} (hp : p < .call) (hr : r.ahead = before ++ t :: after)
    (hbefore : before.map (·.kind) = os.flatMap Opener.kinds) (ht : t.kind ≠ .closeParen) :
    ∃ r', (script.expr os.length p).on r = (.error ⟨.tooDeep nestingLimit, t.position⟩, r') ∧
      r'.ahead = t :: after ∧ r'.errors = r.errors := by
  induction os generalizing p r before with
  | nil =>
    obtain rfl := List.map_eq_nil_iff.1 hbefore
    refine ⟨r, ?_, hr, rfl⟩
    rw [← Reader.current_of_ahead hr]
    rfl
  | cons o os ih =>
    rw [List.flatMap_cons] at hbefore
    obtain ⟨opening, inner, rfl, hopening, hinner⟩ := List.map_eq_append_iff.1 hbefore
    rw [List.append_assoc] at hr
    cases o with
    | group =>
      obtain ⟨b, rfl, hb⟩ := List.map_eq_singleton_iff.1 hopening
      obtain ⟨r', hon, hend⟩ := ih (p := .lowest) (by decide)
        (Reader.ahead_advance_of_ahead hr) hinner
      exact ⟨r', expr_group_of_error hr hb hon, hend⟩
    | minus | bang =>
      obtain ⟨b, rfl, hb⟩ := List.map_eq_singleton_iff.1 hopening
      obtain ⟨r', hon, hend⟩ := ih (p := .unary) (by decide)
        (Reader.ahead_advance_of_ahead hr) hinner
      exact ⟨r', expr_unary_of_error hr (by rw [hb]; decide) hon, hend⟩
    | call =>
      obtain ⟨f, last, rfl, hf, hlast⟩ := List.map_eq_cons_iff.1 hopening
      obtain ⟨b, rfl, hb⟩ := List.map_eq_singleton_iff.1 hlast
      have hadv : r.advance.advance.ahead = inner ++ t :: after :=
        Reader.ahead_advance_of_ahead (Reader.ahead_advance_of_ahead hr)
      have hfirst : firstKind (inner ++ t :: after) ≠ .closeParen :=
        Opener.firstKind_append hinner ht
      obtain ⟨r', hon, hend⟩ := ih (p := .lowest) (by decide) hadv hinner
      exact ⟨r', expr_call_of_error hp hr hf hb hfirst hon, hend⟩

end Grammar

/-! ## Programs -/

/-- Where nothing stops it, recovery moves on to the end of the text. -/
theorem Reader.synchronize_to_end {starts : Kind → Bool} {r : Reader}
    (h : ∀ t ∈ r.ahead, t.kind.PassedOver starts)
    (heof : starts .eof = false) : (r.synchronize starts).ahead = [] := by
  fun_induction synchronize starts r with
  | case1 _ hnil => exact hnil
  | case2 r t rest hr hstop =>
    have hnext : r.next.kind ≠ .closeBrace ∧ starts r.next.kind = false := by
      rw [kind_next_of_ahead hr]
      rcases rest with _ | ⟨u, rest⟩
      · exact ⟨by decide, heof⟩
      · exact (h u (by simp [hr])).2
    simp [(h t (by simp [hr])).1, hnext] at hstop
  | case3 r t rest hr _ ih => exact ih fun u hu => h u (List.mem_of_mem_tail hu)

/-- A statement that is an expression fails where that does. -/
theorem Grammar.stmt_of_error {g : Grammar} {sub : Power → Parse Expr} {r r' : Reader} {t : Token}
    {ts : List Token} {d : Diagnostic} (hr : r.ahead = t :: ts)
    (ht : g.startsStatement t.kind = false) (h : (sub .lowest).on r = (.error d, r')) :
    (g.stmt sub).on r = (.error d, r') := by
  have hrule : (g.statement t.kind).getD .expr = .expr := by
    rcases hs : g.statement t.kind with _ | rule
    · rfl
    · rw [startsStatement, hs] at ht
      cases ht
  rw [on_stmt hr hrule]
  simp only [readStatement, Parse.on_bind, Parse.on_lift, on_closedExpr, h]

/-- A statement that is given up at the end of the text leaves no program. -/
theorem Grammar.program_of_error {g : Grammar} {sub : Power → Parse Expr} {r r' : Reader}
    {d : Diagnostic} {t : Token} {ts : List Token} (hr : r.ahead = t :: ts)
    (h : (g.stmt sub).on r = (.error d, r'))
    (hend : ((r'.report d).synchronize g.startsStatement).ahead = []) :
    ((g.program sub).run r).1 = [] ∧ ((g.program sub).run r).2.errors = r'.errors.push d := by
  have hround : (g.stmt? sub >>= keep).run r =
      (none, (r'.report d).synchronize g.startsStatement) := by
    rw [Walk.run_bind, stmt?, run_recover, h]
    rfl
  have hstop : ∀ t rest, ((r'.report d).synchronize g.startsStatement).advance.ahead = t :: rest →
      false = true := by
    rw [Reader.ahead_advance, hend]
    rintro t rest ⟨⟩
  rw [program_eq_untilKind, Walk.run_untilKind_of_not_stop hr rfl, hround,
    Walk.run_untilKind_of_stop hstop]
  exact ⟨rfl, Reader.synchronize_errors _ _⟩

section

variable {source : String} {os : List Opener}

theorem parse_of_fewer (h : (Scanner.ofText source).ahead.map (·.kind) = Opener.around os)
    (hos : os.length < nestingLimit) : ∃ s, parse source = (⟨[s]⟩, []) := by
  obtain ⟨e, he⟩ := Opener.derives h
  obtain ⟨t, ts, hts, -⟩ := he.begins
  rw [hts] at he
  have hprogram : Derives _ .statements _ [_] :=
    .opened (.expr (he.loosen (by decide))) (by simp [goesOn_iff]; rfl) .empty
  rw [List.append_nil, ← hts] at hprogram
  exact ⟨_, parse_eq_iff.2 ⟨_, by rw [Nat.max_zero]; exact hos, hprogram⟩⟩

theorem parse_of_more (h : (Scanner.ofText source).ahead.map (·.kind) = Opener.around os)
    (hos : nestingLimit ≤ os.length) :
    ∃ before t after, (Scanner.ofText source).ahead = before ++ t :: after ∧
      before.map (·.kind) = (os.take nestingLimit).flatMap Opener.kinds ∧
      parse source = (⟨[]⟩, [⟨.tooDeep nestingLimit, t.position⟩]) := by
  obtain ⟨before, t, after, hsource, hbefore, ht⟩ := Opener.exists_behind h nestingLimit
  refine ⟨before, t, after, hsource, hbefore, ?_⟩
  have hpassed : ∀ u ∈ (Scanner.ofText source).ahead, u.kind.PassedOver script.startsStatement :=
    fun u hu => Opener.passedOver_around (h ▸ List.mem_map_of_mem hu)
  obtain ⟨r', hon, hahead, herr⟩ :=
    Grammar.expr_tooDeep (p := .lowest) (r := .ofScanner (.ofText source)) (by decide) hsource
      hbefore ht
  rw [List.length_take_of_le hos] at hon
  have hend : ((r'.report ⟨.tooDeep nestingLimit, t.position⟩).synchronize
      script.startsStatement).ahead = [] := by
    refine Reader.synchronize_to_end (fun u hu => hpassed u ?_) rfl
    rw [Reader.ahead_report, hahead] at hu
    rw [hsource]
    exact List.mem_append_right before hu
  obtain ⟨c, rest, hc⟩ : ∃ c rest, (Scanner.ofText source).ahead = c :: rest :=
    List.exists_cons_of_ne_nil (by rw [hsource]; simp)
  have hstarts := (hpassed c (by rw [hc]; exact List.mem_cons_self)).2.2
  obtain ⟨hstatements, herrors⟩ :=
    Grammar.program_of_error hc (Grammar.stmt_of_error hc hstarts hon) hend
  rw [parse_eq, hstatements, herrors, herr]
  rfl

end

/-- **Fewer than 128 openers are one statement, and more are none but a single diagnostic, at the
    token behind the first 128 of them.** -/
theorem parse_nested {source : String} {os : List Opener}
    (h : (tokenize source).map (·.kind) = Opener.around os ++ [.eof]) :
    (os.length ≤ 127 → (parse source).2 = [] ∧ (parse source).1.statements.length = 1) ∧
      (128 ≤ os.length → (parse source).1.statements = [] ∧
        ∃ t, (tokenize source)[((os.take 128).flatMap Opener.kinds).length]? = some t ∧
          (parse source).2 = [⟨.tooDeep 128, t.position⟩]) := by
  have hahead : (Scanner.ofText source).ahead.map (·.kind) = Opener.around os := by
    rw [tokenize, List.map_append] at h
    exact List.append_cancel_right h
  constructor
  · intro hle
    obtain ⟨s, hparse⟩ := parse_of_fewer hahead (Nat.lt_succ_of_le hle)
    rw [hparse]
    exact ⟨rfl, rfl⟩
  · intro hle
    obtain ⟨before, t, after, hsource, hbefore, hparse⟩ := parse_of_more hahead hle
    rw [hparse]
    refine ⟨rfl, t, ?_, rfl⟩
    have hlength : ((os.take 128).flatMap Opener.kinds).length = before.length :=
      (congrArg List.length hbefore.symm).trans (List.length_map _)
    rw [hlength, tokenize, hsource, List.append_assoc,
      List.getElem?_append_right (Nat.le_refl _), Nat.sub_self]
    rfl

/-- After 128 openers, some of every sort, the name within them is what is too deep. -/
theorem parse_nested_mixed :
    let os : List Opener := [.call, .minus, .bang, .group] ++ List.replicate 124 .minus
    let source := "f(-!(" ++ String.ofList (List.replicate 124 '-') ++ "x))"
    (tokenize source).map (·.kind) = Opener.around os ++ [.eof] ∧
      (parse source).1.statements = [] ∧
      (parse source).2 = [⟨.tooDeep 128, ⟨1, 130⟩⟩] := by
  intro os source
  obtain ⟨hkinds, hposition⟩ :
      (tokenize source).map (·.kind) = Opener.around os ++ [.eof] ∧
        (tokenize source)[((os.take 128).flatMap Opener.kinds).length]?.map (·.position) =
          some ⟨1, 130⟩ := by
    decide +kernel
  obtain ⟨hnone, t, ht, herr⟩ := (parse_nested hkinds).2 (by decide +kernel)
  have hname : t.position = ⟨1, 130⟩ := by
    rw [ht] at hposition
    exact Option.some.inj hposition
  rw [hname] at herr
  exact ⟨hkinds, hnone, herr⟩

end Scriptlet
