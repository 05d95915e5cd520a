/-
  Where tokens stand makes no difference to what is derived.
-/
import Scriptlet.Proofs.Language.Derivation
import Scriptlet.Proofs.Text.Lexemes
import Scriptlet.Proofs.Tree.Retoken

namespace Scriptlet

/-- The tree of a phrase with its tokens replaced. -/
def Phrase.retoken (ρ : Retoken) : (p : Phrase) → p.Tree → p.Tree
  | .expr _ => Expr.retoken ρ
  | .items | .arguments => Expr.retokenAll ρ
  | .block => Block.retoken ρ
  | .statement => Stmt.retoken ρ
  | .statements => Stmt.retokenAll ρ

/-- The tokens have the same lexemes. -/
def Same (us ts : List Token) : Prop :=
  us.map Token.lexeme = ts.map Token.lexeme

section

variable {t u : Token}

theorem Token.kind_eq_of_lexeme (h : u.lexeme = t.lexeme) : u.kind = t.kind :=
  congrArg Lexeme.kind h

theorem Token.literal_eq_of_lexeme (h : u.lexeme = t.lexeme) : u.literal = t.literal :=
  String.toList_inj.1 (congrArg Lexeme.chars h)

theorem Token.unplaced_eq_of_lexeme (h : u.lexeme = t.lexeme) : u.unplaced = t.unplaced := by
  rw [unplaced, unplaced, kind_eq_of_lexeme h, literal_eq_of_lexeme h]

theorem Token.decimal_eq_of_lexeme (h : u.lexeme = t.lexeme) : u.decimal = t.decimal := by
  rw [decimal, decimal, literal_eq_of_lexeme h]

end

namespace Same

variable {t u : Token} {us ts ts₁ ts₂ : List Token}

theorem nil (h : Same us []) : us = [] :=
  List.map_eq_nil_iff.1 h

theorem append (h : Same us (ts₁ ++ ts₂)) :
    ∃ us₁ us₂, us = us₁ ++ us₂ ∧ Same us₁ ts₁ ∧ Same us₂ ts₂ := by
  rw [Same, List.map_append] at h
  exact List.map_eq_append_iff.1 h

theorem cons (h : Same us (t :: ts)) :
    ∃ u us', us = u :: us' ∧ u.lexeme = t.lexeme ∧ Same us' ts :=
  List.map_eq_cons_iff.1 h

theorem singleton (h : Same us [t]) : ∃ u, us = [u] ∧ u.lexeme = t.lexeme := by
  obtain ⟨u, us', rfl, hu, hus⟩ := h.cons
  exact ⟨u, by rw [hus.nil], hu⟩

theorem cons_of_kind {k : Kind} (h : Same us (t :: ts)) (hk : t.kind = k) :
    ∃ u us', us = u :: us' ∧ u.kind = k ∧ u.unplaced = t.unplaced ∧ Same us' ts := by
  obtain ⟨u, us', rfl, hu, hus⟩ := h.cons
  exact ⟨u, us', rfl, (Token.kind_eq_of_lexeme hu).trans hk, Token.unplaced_eq_of_lexeme hu, hus⟩

theorem singleton_of_kind {k : Kind} (h : Same us [t]) (hk : t.kind = k) :
    ∃ u, us = [u] ∧ u.kind = k ∧ u.unplaced = t.unplaced := by
  obtain ⟨u, us', rfl, hu, heq, hus⟩ := h.cons_of_kind hk
  exact ⟨u, by rw [hus.nil], hu, heq⟩

theorem firstKind (h : Same us ts) : firstKind us = firstKind ts := by
  cases ts with
  | nil => rw [h.nil]
  | cons t ts =>
    obtain ⟨u, us', rfl, hu, -⟩ := h.cons
    exact congrArg Lexeme.kind hu

end Same

open Token in
theorem Names.relocate {ts us : List Token} {is : List Identifier} (h : Names ts is)
    (hsame : Same us ts) : ∃ js, Names us js ∧
      js.map (·.retoken .unplaced) = is.map (·.retoken .unplaced) := by
  induction h generalizing us with
  | one hk =>
    obtain ⟨u, rfl, hu⟩ := hsame.singleton
    refine ⟨_, .one ((kind_eq_of_lexeme hu).trans hk), ?_⟩
    simp [Identifier.retoken, Retoken.unplaced, unplaced_eq_of_lexeme hu, literal_eq_of_lexeme hu]
  | more hk hc _ ih =>
    obtain ⟨u, us', rfl, hu, hsame⟩ := hsame.cons
    obtain ⟨c, us'', rfl, hc', hsame⟩ := hsame.cons
    obtain ⟨js, hjs, heq⟩ := ih hsame
    refine ⟨_, .more ((kind_eq_of_lexeme hu).trans hk) ((kind_eq_of_lexeme hc').trans hc) hjs, ?_⟩
    rw [List.map_cons, List.map_cons, heq]
    simp [Identifier.retoken, Retoken.unplaced, unplaced_eq_of_lexeme hu, literal_eq_of_lexeme hu]

theorem Parameters.relocate {ts us : List Token} {is : List Identifier} (h : Parameters ts is)
    (hsame : Same us ts) : ∃ js, Parameters us js ∧
      js.map (·.retoken .unplaced) = is.map (·.retoken .unplaced) := by
  cases h with
  | none => exact ⟨[], by rw [hsame.nil]; exact .none, rfl⟩
  | some h =>
    obtain ⟨js, hjs, heq⟩ := h.relocate hsame
    exact ⟨js, .some hjs, heq⟩

open Token in
/-- **Tokens of the same lexemes have the same derivations**, wherever they stand. -/
theorem Derives.relocate {d : Nat} {p : Phrase} {ts us : List Token} {x : p.Tree}
    (h : Derives d p ts x) (hsame : Same us ts) :
    ∃ y, Derives d p us y ∧ p.retoken .unplaced y = p.retoken .unplaced x := by
  induction h generalizing us with
  | name hk =>
    obtain ⟨u, rfl, hu⟩ := hsame.singleton
    refine ⟨_, .name ((kind_eq_of_lexeme hu).trans hk), ?_⟩
    simp [Phrase.retoken, Expr.retoken, Identifier.retoken, Retoken.unplaced,
      unplaced_eq_of_lexeme hu, literal_eq_of_lexeme hu]
  | integer hk hle =>
    obtain ⟨u, rfl, hu⟩ := hsame.singleton
    have hdec := decimal_eq_of_lexeme hu
    refine ⟨_, .integer ((kind_eq_of_lexeme hu).trans hk) (hdec ▸ hle), ?_⟩
    simp [Phrase.retoken, Expr.retoken, Retoken.unplaced, unplaced_eq_of_lexeme hu, hdec]
  | boolean hk =>
    obtain ⟨u, rfl, hu⟩ := hsame.singleton
    refine ⟨_, .boolean (by rwa [kind_eq_of_lexeme hu]), ?_⟩
    simp [Phrase.retoken, Expr.retoken, Retoken.unplaced, unplaced_eq_of_lexeme hu,
      kind_eq_of_lexeme hu]
  | group ho _ hc ih =>
    obtain ⟨vs, ws, rfl, hvs, hws⟩ := hsame.append
    obtain ⟨o, vs, rfl, ho, -, hvs⟩ := hvs.cons_of_kind ho
    obtain ⟨c, rfl, hc, -⟩ := hws.singleton_of_kind hc
    obtain ⟨y, hy, heq⟩ := ih hvs
    exact ⟨y, .group ho hy hc, heq⟩
  | conditional hi ho _ hc _ ih ih₁ =>
    obtain ⟨vs, ws, rfl, hvs, hws⟩ := hsame.append
    obtain ⟨i, vs, rfl, hi, hieq, hvs⟩ := hvs.cons_of_kind hi
    obtain ⟨o, vs, rfl, ho, -, hvs⟩ := hvs.cons_of_kind ho
    obtain ⟨c, ws, rfl, hc, -, hws⟩ := hws.cons_of_kind hc
    obtain ⟨y, hy, heq⟩ := ih hvs
    obtain ⟨b, hb, hbeq⟩ := ih₁ hws
    refine ⟨_, .conditional hi ho hy hc hb, ?_⟩
    simp only [Phrase.retoken, Expr.retoken, Retoken.unplaced, hieq] at heq hbeq ⊢
    rw [heq, hbeq]
  | alternative hi ho _ hc _ hw _ ih ih₁ ih₂ =>
    obtain ⟨vs, ws, rfl, hvs, hws⟩ := hsame.append
    obtain ⟨i, vs, rfl, hi, hieq, hvs⟩ := hvs.cons_of_kind hi
    obtain ⟨o, vs, rfl, ho, -, hvs⟩ := hvs.cons_of_kind ho
    obtain ⟨c, ws, rfl, hc, -, hws⟩ := hws.cons_of_kind hc
    obtain ⟨bs, ws, rfl, hbs, hws⟩ := hws.append
    obtain ⟨w, ws, rfl, hw, -, hws⟩ := hws.cons_of_kind hw
    obtain ⟨y, hy, heq⟩ := ih hvs
    obtain ⟨b, hb, hbeq⟩ := ih₁ hbs
    obtain ⟨a, ha, haeq⟩ := ih₂ hws
    refine ⟨_, .alternative hi ho hy hc hb hw ha, ?_⟩
    simp only [Phrase.retoken, Expr.retoken, Retoken.unplaced, hieq] at heq hbeq haeq ⊢
    rw [heq, hbeq, haeq]
  | function hf ho hps hc _ ih =>
    obtain ⟨vs, ws, rfl, hvs, hws⟩ := hsame.append
    obtain ⟨f, vs, rfl, hf, hfeq, hvs⟩ := hvs.cons_of_kind hf
    obtain ⟨o, vs, rfl, ho, -, hvs⟩ := hvs.cons_of_kind ho
    obtain ⟨c, ws, rfl, hc, -, hws⟩ := hws.cons_of_kind hc
    obtain ⟨js, hjs, hjeq⟩ := hps.relocate hvs
    obtain ⟨b, hb, hbeq⟩ := ih hws
    refine ⟨_, .function hf ho hjs hc hb, ?_⟩
    simp only [Phrase.retoken] at hbeq
    simp only [Phrase.retoken, Expr.retoken, hjeq, hbeq]
    simp [Retoken.unplaced, hfeq]
  | call _ ho _ hc ih ih₁ =>
    obtain ⟨vs, ws, rfl, hvs, hws⟩ := hsame.append
    obtain ⟨us, vs, rfl, hus, hvs⟩ := hvs.append
    obtain ⟨o, vs, rfl, ho, hoeq, hvs⟩ := hvs.cons_of_kind ho
    obtain ⟨c, rfl, hc, -⟩ := hws.singleton_of_kind hc
    obtain ⟨y, hy, heq⟩ := ih hus
    obtain ⟨zs, hzs, hzeq⟩ := ih₁ hvs
    refine ⟨_, .call hy ho hzs hc, ?_⟩
    simp only [Phrase.retoken] at heq hzeq
    simp only [Phrase.retoken, Expr.retoken, heq, hzeq]
    simp [Retoken.unplaced, hoeq]
  | unary hk _ ih =>
    obtain ⟨t, us, rfl, ht, hus⟩ := hsame.cons
    obtain ⟨y, hy, heq⟩ := ih hus
    refine ⟨_, .unary (by rwa [kind_eq_of_lexeme ht]) hy, ?_⟩
    simp only [Phrase.retoken] at heq
    simp only [Phrase.retoken, Expr.retoken, heq, literal_eq_of_lexeme ht]
    simp [Retoken.unplaced, unplaced_eq_of_lexeme ht]
  | binary _ hk _ ih ih₁ =>
    obtain ⟨vs, ws, rfl, hvs, hws⟩ := hsame.append
    obtain ⟨t, us, rfl, ht, hus⟩ := hws.cons
    obtain ⟨y, hy, heq⟩ := ih hvs
    obtain ⟨z, hz, hzeq⟩ := ih₁ hus
    refine ⟨_, .binary hy (by rwa [kind_eq_of_lexeme ht]) hz, ?_⟩
    simp only [Phrase.retoken] at heq hzeq
    simp only [Phrase.retoken, Expr.retoken, heq, hzeq, literal_eq_of_lexeme ht]
    simp [Retoken.unplaced, unplaced_eq_of_lexeme ht]
  | tighter _ ih =>
    obtain ⟨y, hy, heq⟩ := ih hsame
    exact ⟨y, .tighter hy, heq⟩
  | item _ ih =>
    obtain ⟨y, hy, heq⟩ := ih hsame
    exact ⟨[y], .item hy, congrArg (fun e => [e]) heq⟩
  | items _ hc _ ih ih₁ =>
    obtain ⟨vs, ws, rfl, hvs, hws⟩ := hsame.append
    obtain ⟨c, us, rfl, hc, -, hus⟩ := hws.cons_of_kind hc
    obtain ⟨y, hy, heq⟩ := ih hvs
    obtain ⟨zs, hzs, hzeq⟩ := ih₁ hus
    exact ⟨y :: zs, .items hy hc hzs, List.cons_eq_cons.2 ⟨heq, hzeq⟩⟩
  | noArguments => exact ⟨[], by rw [hsame.nil]; exact .noArguments, rfl⟩
  | arguments _ ih =>
    obtain ⟨ys, hys, heq⟩ := ih hsame
    exact ⟨ys, .arguments hys, heq⟩
  | block ho _ hc ih =>
    obtain ⟨vs, ws, rfl, hvs, hws⟩ := hsame.append
    obtain ⟨o, vs, rfl, ho, hoeq, hvs⟩ := hvs.cons_of_kind ho
    obtain ⟨c, rfl, hc, -⟩ := hws.singleton_of_kind hc
    obtain ⟨ys, hys, heq⟩ := ih hvs
    refine ⟨_, .block ho hys hc, ?_⟩
    simp only [Phrase.retoken] at heq
    simp only [Phrase.retoken, Block.retoken, heq]
    simp [Retoken.unplaced, hoeq]
  | var hv hx ha _ ih =>
    obtain ⟨v, vs, rfl, hv, hveq, hvs⟩ := hsame.cons_of_kind hv
    obtain ⟨x, vs, rfl, hx, hxeq, hvs⟩ := hvs.cons_of_kind hx
    obtain ⟨a, vs, rfl, ha, -, hvs⟩ := hvs.cons_of_kind ha
    obtain ⟨y, hy, heq⟩ := ih hvs
    refine ⟨_, .var hv hx ha hy, ?_⟩
    have hliteral := congrArg Token.literal hxeq
    simp only [literal_unplaced] at hliteral
    simp only [Phrase.retoken] at heq
    simp only [Phrase.retoken, Stmt.retoken, heq, Identifier.retoken, hliteral]
    simp [Retoken.unplaced, hveq, hxeq]
  | ret hw _ ih =>
    obtain ⟨w, us, rfl, hw, hweq, hus⟩ := hsame.cons_of_kind hw
    obtain ⟨y, hy, heq⟩ := ih hus
    refine ⟨_, .ret hw hy, ?_⟩
    simp only [Phrase.retoken] at heq
    simp only [Phrase.retoken, Stmt.retoken, heq]
    simp [Retoken.unplaced, hweq]
  | expr _ ih =>
    obtain ⟨t, us, rfl, ht, -⟩ := hsame.cons
    obtain ⟨y, hy, heq⟩ := ih hsame
    refine ⟨_, .expr hy, ?_⟩
    simp only [Phrase.retoken] at heq
    simp only [Phrase.retoken, Stmt.retoken, heq]
    simp [Retoken.unplaced, unplaced_eq_of_lexeme ht]
  | empty => exact ⟨[], by rw [hsame.nil]; exact .empty, rfl⟩
  | closed _ hc _ ih ih₁ =>
    obtain ⟨vs, ws, rfl, hvs, hws⟩ := hsame.append
    obtain ⟨c, us, rfl, hc, -, hus⟩ := hws.cons_of_kind hc
    obtain ⟨y, hy, heq⟩ := ih hvs
    obtain ⟨zs, hzs, hzeq⟩ := ih₁ hus
    exact ⟨y :: zs, .closed hy hc hzs, List.cons_eq_cons.2 ⟨heq, hzeq⟩⟩
  | opened _ hnext _ ih ih₁ =>
    obtain ⟨vs, us, rfl, hvs, hus⟩ := hsame.append
    obtain ⟨y, hy, heq⟩ := ih hvs
    obtain ⟨zs, hzs, hzeq⟩ := ih₁ hus
    exact ⟨y :: zs, .opened hy (by rwa [hus.firstKind]) hzs, List.cons_eq_cons.2 ⟨heq, hzeq⟩⟩

end Scriptlet
