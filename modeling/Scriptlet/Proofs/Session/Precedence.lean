/-
  Precedence climbing is right for every table of powers
  (`Session.expr_climbs`).
-/
import Scriptlet.Proofs.Session.Frame
import Scriptlet.Proofs.Tree.Infix

namespace Scriptlet

open Grammar (script)

/-! ## Tables of powers -/

/-- Makes each binary operator one of a power. -/
def infixTable (power : Kind → Power) : List Registration :=
  OperatorRule.binary.kinds.map fun k => .operator k (power k) .binary

/-- A grammar with the operands of the language, and binary operators of the given powers. -/
structure Grammar.Climbing (g : Grammar) (power : Kind → Power) : Prop where
  operand : g.operand = script.operand
  operator : ∀ k ∈ OperatorRule.binary.kinds, g.operator k = some .binary
  precedence : ∀ k ∈ OperatorRule.binary.kinds, g.precedence k = power k

/-- Rules for operators leave the operands alone. -/
theorem Session.operand_operators {s : Session} (power : Kind → Power) (ks : List Kind) :
    ((ks.map fun k => .operator k (power k) .binary).foldl register s).grammar.operand =
      s.grammar.operand := by
  induction ks generalizing s with
  | nil => rfl
  | cons k ks ih => exact ih

theorem Session.climbing_infixTable {s : Session} (power : Kind → Power)
    (h : s.grammar.operand = script.operand) :
    ((infixTable power).foldl register s).grammar.Climbing power := by
  refine ⟨(operand_operators power _).trans h, ?_, ?_⟩ <;>
  · intro k hk
    simp only [OperatorRule.kinds, List.mem_cons, List.not_mem_nil, or_false] at hk
    rcases hk with rfl | rfl | rfl | rfl | rfl | rfl | rfl | rfl <;> rfl

/-! ## What a sequence is read as -/

/-- The operators `os₁` after the operand `a` have been taken into the tree `e`, and the operators
    `os₂` come next. -/
structure Taken (power : Kind → Power) (p : Power) (a : Atom) (os₁ os₂ : List (Infix × Atom))
    (rest : List Token) (r r' : Reader) (e : Expr) : Prop where
  tree : InOrder (sequence a os₁) e
  climbs : e.Climbs power
  tight : ∀ k ∈ e.root?, p < power k
  arrives : r.Arrives r' (pairs os₂ ++ rest)

/-- One operator more is taken in, and all that its right operand has taken in. -/
theorem Taken.step {power : Kind → Power} {p : Power} {a b : Atom} {o : Infix}
    {os₁ os₂ os₃ os₄ : List (Infix × Atom)} {rest : List Token} {r r' r₁ : Reader} {e e₁ : Expr}
    (h : Taken power p a os₁ os₂ rest r r' e) (hp : p < power o.token.kind)
    (hroot : ∀ k ∈ e.root?, power o.token.kind ≤ power k)
    (hright : Taken power (power o.token.kind) b os₃ os₄ rest r'.advance.advance r₁ e₁) :
    Taken power p a (os₁ ++ (o, b) :: os₃) os₄ rest r r₁
      (.binary o.token e o.token.literal e₁) := by
  refine ⟨?_, ⟨h.climbs, hright.climbs, hroot, hright.tight⟩, ?_, ?_⟩
  · rw [sequence_append]
    exact h.tree.binary o hright.tree
  · rintro k ⟨⟩
    exact hp
  · exact hright.arrives.after h.arrives.errors

/-- Reads the operators of a sequence up to the first that binds no more tightly than `p`. -/
def Takes (power : Kind → Power) (rest : List Token) (p : Power) (sub : Parse Expr) : Prop :=
  ∀ (a : Atom) os (r : Reader), r.ahead = sequence a os ++ rest → ∃ os₁ os₂ e r',
    os = os₁ ++ os₂ ∧ (∀ x ∈ os₂.head?, power x.1.token.kind ≤ p) ∧
      Taken power p a os₁ os₂ rest r r' e ∧ sub.on r = (.ok e, r')

theorem Power.rank_le (p : Power) : p.rank ≤ 6 := by cases p <;> decide

namespace Grammar

variable {g : Grammar} {power : Kind → Power} {sub : Power → Parse Expr} {p : Power}
  {rest : List Token} {r r' : Reader} {e : Expr} {a : Atom} {os₁ os₂ : List (Infix × Atom)}

theorem binding_of_isTerminator {k : Kind} (h : k.isTerminator = true) : g.binding p k = none := by
  simp [binding, h]

theorem on_readOperand_atom (h : r.current = a.token) :
    (g.readOperand sub a.rule).on r = (.ok a.expr, r) := by
  cases a with
  | name t hk =>
    have ht : r.current = t := h
    subst ht
    rfl
  | boolean t hk =>
    have ht : r.current = t := h
    subst ht
    rfl
  | integer t hk hs hle =>
    have hvalue := hs.integer_eq hk
    rw [if_pos hle] at hvalue
    simp only [Atom.rule, Atom.expr, readOperand, Parse.integer, Parse.on_bind, Parse.on_lift,
      show r.current = t from h, hvalue, Parse.on_pure]

theorem on_read_binary {t : Token} {e₁ : Expr} (ht : r.current = t)
    (h : (sub p).on r.advance = (.ok e₁, r')) :
    (OperatorRule.binary.read sub e p).on r = (.ok (.binary t e t.literal e₁), r') := by
  simp only [OperatorRule.read, Parse.on_bind, Parse.on_lift, Parse.on_pure, ht, h]

theorem isTerminator_infix (o : Infix) : o.token.kind.isTerminator = false := by
  have hinfix : ∀ k ∈ OperatorRule.binary.kinds, k.isTerminator = false := by decide
  exact hinfix _ o.mem

namespace Climbing

theorem binding_of_lt (hg : g.Climbing power) (o : Infix) (h : p < power o.token.kind) :
    g.binding p o.token.kind = some (.binary, power o.token.kind) := by
  simp [binding, isTerminator_infix, h, hg.operator _ o.mem, hg.precedence _ o.mem]

theorem binding_of_le (hg : g.Climbing power) (o : Infix) (h : power o.token.kind ≤ p) :
    g.binding p o.token.kind = none := by
  simp [binding, Power.not_lt.2 h, hg.precedence _ o.mem]

/-- One operator with its right operand after another is taken in, until one binds no more tightly
    than `p`. -/
theorem takes_goOn (hg : g.Climbing power) (hrest : (firstKind rest).isTerminator = true)
    (hsub : ∀ q, p < q → Takes power rest q (sub q)) (h : Taken power p a os₁ os₂ rest r r' e)
    (hnext : ∀ x ∈ os₂.head?, ∀ k ∈ e.root?, power x.1.token.kind ≤ power k) :
    ∃ os₃ os₄ e' r'', os₂ = os₃ ++ os₄ ∧ (∀ x ∈ os₄.head?, power x.1.token.kind ≤ p) ∧
      Taken power p a (os₁ ++ os₃) os₄ rest r r'' e' ∧
      (g.goOn sub p e).on r' = (.ok e', r'') := by
  induction hlen : os₂.length using Nat.strongRecOn generalizing os₁ os₂ r' e with
  | ind _ ih =>
    subst hlen
    rcases os₂ with _ | ⟨⟨o, b⟩, os⟩
    · refine ⟨[], [], e, r', rfl, by simp, by simpa using h, on_goOn_of_none ?_⟩
      rw [h.arrives.kind_next]
      exact binding_of_isTerminator hrest
    · obtain ⟨t, ht⟩ := h.arrives.ahead
      by_cases hlt : p < power o.token.kind
      · have hright : r'.advance.advance.ahead = sequence b os ++ rest := by
          rw [Reader.ahead_advance, Reader.ahead_advance, ht]
          rfl
        obtain ⟨os₃, os₄, e₁, r₁, rfl, hstop, htaken, hon⟩ := hsub _ hlt b os _ hright
        have hshorter : os₄.length < ((o, b) :: (os₃ ++ os₄)).length := by
          simp only [List.length_cons, List.length_append]
          omega
        have hround := h.step hlt (hnext _ rfl) htaken
        -- the operator taken in is the root, and the next one binds no more tightly
        obtain ⟨os₅, os₆, e', r'', rfl, hstop', htaken', hon'⟩ := ih _ hshorter hround
          (by rintro x hx k ⟨⟩; exact hstop x hx) rfl
        refine ⟨(o, b) :: os₃ ++ os₅, os₆, e', r'', by simp, hstop', by simpa using htaken', ?_⟩
        have hcurrent : r'.advance.current = o.token := Reader.next_of_ahead ht
        rw [on_goOn_of_some ht (hg.binding_of_lt o hlt), on_read_binary hcurrent hon]
        exact hon'
      · refine ⟨[], (o, b) :: os, e, r', rfl, ?_, by simpa using h, on_goOn_of_none ?_⟩
        · rintro x ⟨⟩
          exact Power.not_lt.1 hlt
        · rw [h.arrives.kind_next]
          exact hg.binding_of_le o (Power.not_lt.1 hlt)

/-- As many levels are enough as there are powers above `p`, and one. -/
theorem takes_expr (hg : g.Climbing power) (hrest : (firstKind rest).isTerminator = true) {n : Nat}
    (hn : 7 ≤ n + p.rank) : Takes power rest p (g.expr n p) := by
  induction n generalizing p with
  | zero =>
    have hrank := p.rank_le
    omega
  | succ n ih =>
    intro a os r hr
    have hrule : g.operand a.token.kind = some a.rule := hg.operand ▸ a.operand_kind
    have hfirst : Taken power p a [] os rest r r a.expr := by
      refine ⟨.atom a, a.climbs_expr, ?_, .here hr⟩
      rw [a.root?_expr]
      rintro k ⟨⟩
    have hnext : ∀ x ∈ os.head?, ∀ k ∈ a.expr.root?, power x.1.token.kind ≤ power k := by
      rw [a.root?_expr]
      rintro x - k ⟨⟩
    have hsub : ∀ q, p < q → Takes power rest q (g.expr n q) := by
      intro q hq
      rw [Power.lt_iff] at hq
      exact ih (by omega)
    obtain ⟨os₁, os₂, e, r', hos, hstop, htaken, hon⟩ := hg.takes_goOn hrest hsub hfirst hnext
    refine ⟨os₁, os₂, e, r', hos, hstop, htaken, ?_⟩
    refine (on_nested hr hrule).trans ?_
    rw [on_readOperand_atom (Reader.current_of_ahead hr)]
    exact hon

end Climbing

end Grammar

/-- **For every table of powers, reading a sequence of operands and operators gives the one tree
    that climbs, and stands on the last token of the sequence.** -/
theorem Session.expr_climbs {s : Session} {power : Kind → Power} {a : Atom}
    {os : List (Infix × Atom)} {rest : List Token}
    (hpower : ∀ k ∈ OperatorRule.binary.kinds, .lowest < power k)
    (hoperand : s.grammar.operand = script.operand) (hdepth : s.depth = 0)
    (hahead : s.reader.ahead = sequence a os ++ rest)
    (hrest : (firstKind rest).isTerminator = true) :
    ∃ e s', ((infixTable power).foldl register s).expr .lowest = (.ok e, s') ∧
      s'.reader.ahead = (sequence a os).getLast?.toList ++ rest ∧
      s'.reader.errors = s.reader.errors ∧ InOrder (sequence a os) e ∧ e.Climbs power ∧
      ∀ e', InOrder (sequence a os) e' → e'.Climbs power → e' = e := by
  obtain ⟨g, hs⟩ := foldl_register_eq s (infixTable power)
  have hg : g.Climbing power := by
    have hclimbing := climbing_infixTable power hoperand
    rwa [hs] at hclimbing
  have hlevels : 7 ≤ Grammar.nestingLimit - s.depth + Power.lowest.rank := by rw [hdepth]; decide
  obtain ⟨os₁, os₂, e, r', hos, hstop, htaken, hon⟩ :=
    hg.takes_expr hrest hlevels a os s.reader hahead
  rcases os₂ with _ | ⟨x, os₂⟩
  · rw [List.append_nil] at hos
    subst hos
    refine ⟨e, { s with grammar := g, reader := r' }, ?_, ?_, htaken.arrives.errors, htaken.tree,
      htaken.climbs, fun e' htree hclimbs => htree.unique htaken.tree hclimbs htaken.climbs⟩
    · rw [hs]
      exact perform_eq_iff.2 ⟨hon, rfl⟩
    · -- what has been read ends with the current token
      obtain ⟨t, ht⟩ := htaken.arrives.ahead
      have hsuffix := (g.expr (Grammar.nestingLimit - s.depth) .lowest).on_suffix s.reader
      rw [hon, hahead, ht] at hsuffix
      obtain ⟨before, hbefore⟩ := hsuffix
      have hlast : sequence a os = before ++ [t] :=
        List.append_cancel_right (by rw [← hbefore]; simp [pairs])
      show r'.ahead = _
      rw [ht, hlast]
      simp [pairs]
  · exact absurd (hpower _ x.1.mem) (Power.not_lt.2 (hstop x rfl))

/-- Where a difference is tighter than a product, `x * y - true` is a product. -/
theorem Session.expr_climbs_loose_product :
    let s := Session.ofText "x * y - true;"
    let x : Token := ⟨.identifier, "x", ⟨1, 1⟩⟩
    let star : Token := ⟨.star, "*", ⟨1, 3⟩⟩
    let y : Token := ⟨.identifier, "y", ⟨1, 5⟩⟩
    let minus : Token := ⟨.minus, "-", ⟨1, 7⟩⟩
    let yes : Token := ⟨.trueWord, "true", ⟨1, 9⟩⟩
    let power : Kind → Power := fun k => if k = .star then .equality else .sum
    ∃ s', ((infixTable power).foldl register s).expr .lowest =
        (.ok (.binary star (.name ⟨x, "x"⟩) "*"
          (.binary minus (.name ⟨y, "y"⟩) "-" (.boolean yes true))), s') ∧
      s'.reader.ahead = [yes, ⟨.semicolon, ";", ⟨1, 13⟩⟩] := by
  intro s x star y minus yes power
  have hpower : ∀ k ∈ OperatorRule.binary.kinds, .lowest < power k := by decide
  let times : Infix := ⟨star, by decide⟩
  let less : Infix := ⟨minus, by decide⟩
  let os : List (Infix × Atom) := [(times, .name y rfl), (less, .boolean yes (.inl rfl))]
  have hahead : s.reader.ahead =
      sequence (.name x rfl) os ++ [⟨.semicolon, ";", ⟨1, 13⟩⟩] := by
    show s.reader.ahead = [x, star, y, minus, yes, ⟨.semicolon, ";", ⟨1, 13⟩⟩]
    decide +kernel
  obtain ⟨e, s', hexpr, hend, -, -, -, hunique⟩ := Session.expr_climbs hpower rfl rfl hahead rfl
  have htree : InOrder (sequence (.name x rfl) os) _ :=
    .binary times (.atom (.name x rfl))
      (.binary less (.atom (.name y rfl)) (.atom (.boolean yes (.inl rfl))))
  have hright : ∀ k ∈ some Kind.minus, power .star < power k := by
    rintro k ⟨⟩
    decide
  have hsame := hunique _ htree
    ⟨trivial, ⟨trivial, trivial, by rintro k ⟨⟩, by rintro k ⟨⟩⟩, by rintro k ⟨⟩, hright⟩
  have hlast : (sequence (.name x rfl) os).getLast? = some yes := rfl
  rw [hlast] at hend
  rw [← hsame] at hexpr
  exact ⟨s', hexpr, hend⟩

end Scriptlet
