/-
  The tree of a text is what its tokens spell, with or without diagnostics.
-/
import Scriptlet.Proofs.Tree.Faithful
import Scriptlet.Proofs.Tree.Spelled

namespace Scriptlet

open Grammar (script nestingLimit)

/-- The token of each node is spelled as its kind says, and the node is what it spells. -/
def Fitting (ns : List Node) : Prop :=
  ∀ n ∈ ns, n.token.Spelled ∧ n.Fits

section

variable {n : Node} {ns ms : List Node} {t : Token} {op : String} {v : Int} {w : Bool}
  {i : Identifier}

theorem fitting_cons : Fitting (n :: ns) ↔ (n.token.Spelled ∧ n.Fits) ∧ Fitting ns :=
  List.forall_mem_cons

theorem fitting_append : Fitting (ns ++ ms) ↔ Fitting ns ∧ Fitting ms :=
  List.forall_mem_append

namespace Node.Fits

/-- An identifier is what its token spells. -/
theorem name (h : (Node.name i).token.Spelled ∧ (Node.name i).Fits) : i.Spelled :=
  ⟨⟨h.2.1, h.1⟩, h.2.2⟩

theorem integer (h : (Node.integer t v).token.Spelled ∧ (Node.integer t v).Fits) :
    (Expr.integer t v).Spelled True := by
  obtain ⟨hspelled, hk, hv, -, hle⟩ := h
  have hlargest : Numeral.largest = 2 ^ 63 - 1 := rfl
  exact ⟨⟨hk, hspelled⟩, by omega, hv⟩

theorem boolean (h : (Node.boolean t w).token.Spelled ∧ (Node.boolean t w).Fits) :
    (Expr.boolean t w).Spelled True := by
  obtain ⟨hspelled, hk, hv⟩ := h
  change t.Spelled at hspelled
  rcases hk with hk | hk
  · have hliteral : t.literal = "true" := hspelled.literal_eq (by rw [hk]; rfl)
    exact .inl ⟨⟨hk, hspelled⟩, hv.2 hliteral⟩
  · have hliteral : t.literal = "false" := hspelled.literal_eq (by rw [hk]; rfl)
    refine .inr ⟨⟨hk, hspelled⟩, ?_⟩
    by_contra hw
    have htrue := hv.1 (by simpa using hw)
    rw [hliteral] at htrue
    simp at htrue

theorem unary (h : (Node.unary t op).token.Spelled ∧ (Node.unary t op).Fits) :
    (t.Is .bang ∨ t.Is .minus) ∧ op = t.literal := by
  obtain ⟨hspelled, hk | hk, hop⟩ := h
  · exact ⟨.inl ⟨hk, hspelled⟩, hop⟩
  · exact ⟨.inr ⟨hk, hspelled⟩, hop⟩

/-- The operator of a binary operation is one of a tier. -/
theorem binary (h : (Node.binary t op).Fits) : ∃ m : Tier, t.kind ∈ m.operators := by
  have hk := h.1
  simp only [List.mem_cons, List.not_mem_nil, or_false] at hk
  rcases hk with hk | hk | hk | hk | hk | hk | hk | hk <;> rw [hk]
  · exact ⟨.equality, by simp [Tier.operators]⟩
  · exact ⟨.equality, by simp [Tier.operators]⟩
  · exact ⟨.comparison, by simp [Tier.operators]⟩
  · exact ⟨.comparison, by simp [Tier.operators]⟩
  · exact ⟨.sum, by simp [Tier.operators]⟩
  · exact ⟨.sum, by simp [Tier.operators]⟩
  · exact ⟨.product, by simp [Tier.operators]⟩
  · exact ⟨.product, by simp [Tier.operators]⟩

end Node.Fits

end

mutual

theorem Expr.spelled_of_nodes : ∀ e : Expr, Fitting e.nodes → e.Spelled True
  | .name i, h => Node.Fits.name (fitting_cons.1 h).1
  | .integer t v, h => Node.Fits.integer (fitting_cons.1 h).1
  | .boolean t v, h => Node.Fits.boolean (fitting_cons.1 h).1
  | .unary t op e, h => by
    obtain ⟨hnode, he⟩ := fitting_cons.1 h
    obtain ⟨ht, hop⟩ := Node.Fits.unary hnode
    exact ⟨ht, hop, e.spelled_of_nodes he⟩
  | .binary t l op r, h => by
    obtain ⟨hl, h⟩ := fitting_append.1 h
    obtain ⟨⟨ht, hfits⟩, hr⟩ := fitting_cons.1 h
    exact ⟨hfits.binary, ht, hfits.2, l.spelled_of_nodes hl, r.spelled_of_nodes hr⟩
  | .conditional t c b none, h => by
    obtain ⟨⟨ht, hk⟩, h⟩ := fitting_cons.1 h
    obtain ⟨hc, hb⟩ := fitting_append.1 h
    exact ⟨⟨hk, ht⟩, c.spelled_of_nodes hc, b.spelled_of_nodes hb⟩
  | .conditional t c b (some a), h => by
    obtain ⟨⟨ht, hk⟩, h⟩ := fitting_cons.1 h
    obtain ⟨hc, h⟩ := fitting_append.1 h
    obtain ⟨hb, ha⟩ := fitting_append.1 h
    exact ⟨⟨hk, ht⟩, c.spelled_of_nodes hc, b.spelled_of_nodes hb, a.spelled_of_nodes ha⟩
  | .function t ps b, h => by
    obtain ⟨⟨ht, hk⟩, h⟩ := fitting_cons.1 h
    obtain ⟨hps, hb⟩ := fitting_append.1 h
    refine ⟨⟨hk, ht⟩, fun i hi => ?_, b.spelled_of_nodes hb⟩
    exact Node.Fits.name (hps _ (List.mem_map_of_mem hi))
  | .call t f as, h => by
    obtain ⟨hf, h⟩ := fitting_append.1 h
    obtain ⟨⟨ht, hk⟩, has⟩ := fitting_cons.1 h
    exact ⟨⟨hk, ht⟩, f.spelled_of_nodes hf, Expr.spelledAll_of_nodes as has⟩

theorem Expr.spelledAll_of_nodes : ∀ es : List Expr, Fitting (Expr.nodesAll es) →
    Expr.SpelledAll True es
  | [], _ => trivial
  | e :: es, h => by
    obtain ⟨he, hes⟩ := fitting_append.1 h
    exact ⟨e.spelled_of_nodes he, Expr.spelledAll_of_nodes es hes⟩

theorem Block.spelled_of_nodes : ∀ b : Block, Fitting b.nodes → b.Spelled True
  | .mk t ss, h => by
    obtain ⟨⟨ht, hk⟩, hss⟩ := fitting_cons.1 h
    exact ⟨⟨hk, ht⟩, Stmt.spelledAll_of_nodes ss hss⟩

theorem Stmt.spelled_of_nodes : ∀ s : Stmt, Fitting s.nodes → s.Spelled True
  | .var t n none, h => by
    obtain ⟨⟨ht, hk⟩, h⟩ := fitting_cons.1 h
    exact ⟨⟨hk, ht⟩, Node.Fits.name (fitting_cons.1 h).1, trivial⟩
  | .var t n (some e), h => by
    obtain ⟨⟨ht, hk⟩, h⟩ := fitting_cons.1 h
    obtain ⟨hn, he⟩ := fitting_cons.1 h
    exact ⟨⟨hk, ht⟩, Node.Fits.name hn, e.spelled_of_nodes he⟩
  | .ret t none, h => by
    obtain ⟨⟨ht, hk⟩, -⟩ := fitting_cons.1 h
    exact ⟨⟨hk, ht⟩, trivial⟩
  | .ret t (some e), h => by
    obtain ⟨⟨ht, hk⟩, he⟩ := fitting_cons.1 h
    exact ⟨⟨hk, ht⟩, e.spelled_of_nodes he⟩
  | .expr t e, h => e.spelled_of_nodes (fitting_cons.1 h).2

theorem Stmt.spelledAll_of_nodes : ∀ ss : List Stmt, Fitting (Stmt.nodesAll ss) →
    Stmt.SpelledAll True ss
  | [], _ => trivial
  | s :: ss, h => by
    obtain ⟨hs, hss⟩ := fitting_append.1 h
    exact ⟨s.spelled_of_nodes hs, Stmt.spelledAll_of_nodes ss hss⟩

end

/-- **The tree of a text is what its tokens spell**, whatever is wrong with the text. -/
theorem parse_spelled (source : String) : Stmt.SpelledAll True (parse source).1.statements := by
  obtain ⟨one, hone, hprogram⟩ := script.program_eq (script.expr nestingLimit)
  have hgives := (faithful_expr nestingLimit).rounds (fun _ => false) hone
    (.ofScanner (.ofText source))
  rw [← hprogram] at hgives
  refine Stmt.spelledAll_of_nodes _ fun n hn => ?_
  have hspelled := Scanner.spelled_ahead _ _ (hgives.mem n hn)
  exact ⟨hspelled, hgives.fits n hn hspelled⟩

end Scriptlet
