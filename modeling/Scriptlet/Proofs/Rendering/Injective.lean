/-
  The canonical text of a program tells the program, but for what no text
  shows.
-/
import Scriptlet.Proofs.Rendering.Legible
import Scriptlet.Proofs.Tree.Fitting

namespace Scriptlet

variable {absent : Prop} {t u : Token} {rest rest' : List Char}

/-! ## Statements -/

/-- The text of a statement tells it. -/
def Stmt.Legible (s : Stmt) : Prop :=
  ∀ ⦃s' : Stmt⦄ ⦃rest rest' : List Char⦄, s'.Spelled True → FollowsExpr rest → FollowsExpr rest' →
    s.text.toList ++ rest = s'.text.toList ++ rest' →
      s.retoken .bare = s'.retoken .bare ∧ rest = rest'

namespace Stmt

variable {n : Identifier} {e : Expr} {v? : Option Expr} {sep : String}

/-- The text of the value of a statement, after `sep`. -/
def valueText (sep : String) : Option Expr → List Char
  | none => []
  | some e => sep.toList ++ e.text.toList

theorem toList_text_var (t : Token) (n : Identifier) (v? : Option Expr) (rest : List Char) :
    (var t n v?).text.toList ++ rest =
      t.literal.toList ++ ' ' :: (n.value.toList ++ (valueText " = " v? ++ ';' :: rest)) := by
  cases v? <;> simp [text, valueText]

theorem toList_text_ret (t : Token) (v? : Option Expr) (rest : List Char) :
    (ret t v?).text.toList ++ rest =
      t.literal.toList ++ (valueText " " v? ++ ';' :: rest) := by
  cases v? <;> simp [text, valueText]

theorem spelled_var (h : (var t n v?).Spelled absent) :
    t.Is .varWord ∧ n.Spelled ∧ ∀ e ∈ v?, e.Spelled absent := by
  cases v? with
  | none => exact ⟨h.1, h.2.1, by simp⟩
  | some e => exact ⟨h.1, h.2.1, by simpa using h.2.2⟩

theorem spelled_ret (h : (ret t v?).Spelled absent) :
    t.Is .returnWord ∧ ∀ e ∈ v?, e.Spelled absent := by
  cases v? with
  | none => exact ⟨h.1, by simp⟩
  | some e => exact ⟨h.1, by simpa using h.2⟩

theorem retoken_var (ρ : Retoken) :
    (var t n v?).retoken ρ = var (ρ.other t) (n.retoken ρ) (v?.map (·.retoken ρ)) := by
  cases v? <;> rfl

theorem retoken_ret (ρ : Retoken) :
    (ret t v?).retoken ρ = ret (ρ.other t) (v?.map (·.retoken ρ)) := by
  cases v? <;> rfl

theorem apart_valueText (hsep : sep = " = " ∨ sep = " ") (v? : Option Expr) (rest : List Char) :
    Apart (valueText sep v? ++ ';' :: rest) := by
  cases v? with
  | none => simp [valueText, isWordPart]
  | some e => rcases hsep with rfl | rfl <;> simp [valueText, isWordPart]

/-- The value of a statement is told, and whether there is one. -/
theorem valueText_unique (hsep : sep = " = " ∨ sep = " ") (hv : ∀ e ∈ v?, e.Legible)
    {v'? : Option Expr} (hv' : ∀ e ∈ v'?, e.Spelled True)
    (heq : valueText sep v? ++ ';' :: rest = valueText sep v'? ++ ';' :: rest') :
    v?.map (·.retoken .bare) = v'?.map (·.retoken .bare) ∧ rest = rest' := by
  cases v? with
  | none =>
    cases v'? with
    | none => exact ⟨rfl, (List.cons.inj heq).2⟩
    | some e' => rcases hsep with rfl | rfl <;> simp [valueText] at heq
  | some e =>
    cases v'? with
    | none => rcases hsep with rfl | rfl <;> simp [valueText] at heq
    | some e' =>
      rw [valueText, valueText, List.append_assoc, List.append_assoc] at heq
      obtain ⟨hee', heq⟩ := (hv e rfl).unique (hv' e' rfl) (followsExpr_cons (by simp) rest)
        (followsExpr_cons (by simp) rest') (List.append_cancel_left heq)
      exact ⟨congrArg some hee', (List.cons.inj heq).2⟩

/-- An expression does not begin with the word of a statement. -/
theorem leading_ne (e : Expr) : e.leading ≠ .varWord ∧ e.leading ≠ .returnWord := by
  have hmem := e.mem_leading
  constructor <;> intro h <;> rw [h] at hmem <;> simp at hmem

theorem Legible.var (h : (Stmt.var t n v?).Spelled True) (hv : ∀ e ∈ v?, e.Legible) :
    (Stmt.var t n v?).Legible := by
  intro s' rest rest' hs' hrest hrest' heq
  have hleading := leading_eq h hs' hrest.apart hrest'.apart heq
  obtain ⟨ht, hn, -⟩ := spelled_var h
  cases s' with
  | var u n' v'? =>
    obtain ⟨hu, hn', hv'⟩ := spelled_var hs'
    rw [toList_text_var, toList_text_var] at heq
    obtain ⟨htoken, heq⟩ := ht.2.unique hu.2 (by simp [isWordPart]) (by simp [isWordPart]) heq
    obtain ⟨hname, heq⟩ := hn.unique hn' (apart_valueText (.inl rfl) v? rest)
      (apart_valueText (.inl rfl) v'? rest') (List.cons.inj heq).2
    obtain ⟨hvalue, hrests⟩ := valueText_unique (.inl rfl) hv hv' heq
    refine ⟨?_, hrests⟩
    rw [retoken_var, retoken_var, hname, hvalue]
    exact congrArg (Stmt.var · _ _) htoken
  | ret => cases hleading
  | expr u e => exact absurd hleading.symm (leading_ne e).1

theorem Legible.ret (h : (Stmt.ret t v?).Spelled True) (hv : ∀ e ∈ v?, e.Legible) :
    (Stmt.ret t v?).Legible := by
  intro s' rest rest' hs' hrest hrest' heq
  have hleading := leading_eq h hs' hrest.apart hrest'.apart heq
  obtain ⟨ht, -⟩ := spelled_ret h
  cases s' with
  | ret u v'? =>
    obtain ⟨hu, hv'⟩ := spelled_ret hs'
    rw [toList_text_ret, toList_text_ret] at heq
    obtain ⟨htoken, heq⟩ := ht.2.unique hu.2 (apart_valueText (.inr rfl) v? rest)
      (apart_valueText (.inr rfl) v'? rest') heq
    obtain ⟨hvalue, hrests⟩ := valueText_unique (.inr rfl) hv hv' heq
    refine ⟨?_, hrests⟩
    rw [retoken_ret, retoken_ret, hvalue]
    exact congrArg (Stmt.ret · _) htoken
  | var => cases hleading
  | expr u e => exact absurd hleading.symm (leading_ne e).2

theorem Legible.expr (h : e.Spelled True) (he : e.Legible) : (Stmt.expr t e).Legible := by
  intro s' rest rest' hs' hrest hrest' heq
  have hleading := leading_eq (s := .expr t e) h hs' hrest.apart hrest'.apart heq
  cases s' with
  | var => exact absurd hleading (leading_ne e).1
  | ret => exact absurd hleading (leading_ne e).2
  | expr u e' =>
    obtain ⟨hee', hrests⟩ := he.unique hs' hrest hrest' heq
    exact ⟨congrArg (Stmt.expr default) hee', hrests⟩

end Stmt

/-! ## Rows of statements -/

namespace Stmt

variable {c : Char} {s : Stmt} {ss : List Stmt}

/-- A row of statements ends here: no statement goes on with it. -/
structure EndsRow (c : Char) (rest : List Char) : Prop where
  follows : FollowsExpr rest
  noStatement : ∀ {s : Stmt} {rest' : List Char}, s.Spelled True → Apart rest' →
    rest ≠ c :: (s.text.toList ++ rest')

theorem endsRow_closeBrace (rest : List Char) : EndsRow ' ' (' ' :: '\x7d' :: rest) := by
  have hbrace : leadingKind ('\x7d' :: rest) = some .closeBrace :=
    leadingKind_delimiter rfl (by decide)
  refine ⟨followsExpr_space (by simp [hbrace]), fun {s rest'} hs hrest' heq => ?_⟩
  have hkind := congrArg leadingKind (List.cons.inj heq).2
  rw [hbrace, leadingKind_text hs hrest'] at hkind
  have hmem := s.mem_leading
  rw [← Option.some.inj hkind] at hmem
  simp at hmem

theorem endsRow_nil (c : Char) : EndsRow c [] :=
  ⟨followsExpr_nil, fun _ _ heq => by cases heq⟩

/-- After a statement there are more of them, or the row ends. -/
theorem followsExpr_rowText (hc : c = ' ' ∨ c = '\n') (hss : SpelledAll True ss)
    (hrest : FollowsExpr rest) : FollowsExpr (rowText c ss ++ rest) := by
  induction ss with
  | nil => exact hrest
  | cons s ss ih =>
    rw [rowText_cons, List.cons_append]
    rcases hc with rfl | rfl
    · refine followsExpr_space ?_
      rw [List.append_assoc, leadingKind_text hss.1 (ih hss.2).apart]
      intro helse
      have hmem := s.mem_leading
      rw [Option.some.inj helse] at hmem
      simp at hmem
    · exact followsExpr_cons (by simp) _

/-- **A row of statements is told**, up to where it ends. -/
theorem rowText_unique (hc : c = ' ' ∨ c = '\n') (h : ∀ s ∈ ss, s.Legible)
    (hss : SpelledAll True ss) {ss' : List Stmt} (hss' : SpelledAll True ss')
    (hrest : EndsRow c rest) (hrest' : EndsRow c rest')
    (heq : rowText c ss ++ rest = rowText c ss' ++ rest') :
    retokenAll .bare ss = retokenAll .bare ss' ∧ rest = rest' := by
  induction ss generalizing ss' with
  | nil =>
    cases ss' with
    | nil => exact ⟨rfl, heq⟩
    | cons s' ss' =>
      rw [rowText_cons, List.cons_append, List.append_assoc] at heq
      have hfollows := followsExpr_rowText hc hss'.2 hrest'.follows
      exact absurd heq (hrest.noStatement hss'.1 hfollows.apart)
  | cons s ss ih =>
    have hfollows := followsExpr_rowText hc hss.2 hrest.follows
    rw [rowText_cons, List.cons_append, List.append_assoc] at heq
    cases ss' with
    | nil => exact absurd heq.symm (hrest'.noStatement hss.1 hfollows.apart)
    | cons s' ss' =>
      have hfollows' := followsExpr_rowText hc hss'.2 hrest'.follows
      rw [rowText_cons, List.cons_append, List.append_assoc] at heq
      rw [List.forall_mem_cons] at h
      obtain ⟨hs, heq⟩ := h.1 hss'.1 hfollows hfollows' (List.cons.inj heq).2
      obtain ⟨hrow, hrests⟩ := ih h.2 hss.2 hss'.2 heq
      exact ⟨by rw [retokenAll, retokenAll, hs, hrow], hrests⟩

end Stmt

/-- A block of legible statements is legible. -/
theorem Block.legible_of_statements {ss : List Stmt} (h : (Block.mk t ss).Spelled True)
    (hss : ∀ s ∈ ss, s.Legible) : (Block.mk t ss).Legible := by
  rintro ⟨u, ss'⟩ rest rest' ⟨hu, hss'⟩ heq
  obtain ⟨ht, hspelled⟩ := h
  rw [toList_text, toList_text] at heq
  obtain ⟨hrow, heq⟩ := Stmt.rowText_unique (.inl rfl) hss hspelled hss'
    (Stmt.endsRow_closeBrace rest) (Stmt.endsRow_closeBrace rest') (List.cons.inj heq).2
  refine ⟨?_, (List.cons.inj (List.cons.inj heq).2).2⟩
  show Block.mk t.unplaced _ = Block.mk u.unplaced _
  rw [ht.unplaced_eq (w := "\x7b") rfl, hu.unplaced_eq (w := "\x7b") rfl, hrow]

/-! ## Whole trees -/

mutual

theorem Expr.callable : ∀ e : Expr, e.Spelled True → e.Callable
  | .name _, h => (Expr.Head.name h).callable
  | .integer _ _, ⟨ht, hle, hv⟩ => hv ▸ (Expr.Head.integer ht hle).callable
  | .boolean _ _, h => (Expr.Head.boolean h).callable
  | .unary _ _ e, h => (Expr.Head.unary h (e.callable h.2.2).legible).callable
  | .binary _ l _ r, h =>
    (Expr.Head.binary h (l.callable h.2.2.2.1).legible (r.callable h.2.2.2.2).legible).callable
  | .conditional _ c b none, h =>
    (Expr.Head.conditional h (c.callable h.2.1).legible (b.legible h.2.2) (by simp)).callable
  | .conditional _ c b (some a), h =>
    (Expr.Head.conditional h (c.callable h.2.1).legible (b.legible h.2.2.1)
      (by simpa using a.legible h.2.2.2)).callable
  | .function _ _ b, h => (Expr.Head.function h (b.legible h.2.2)).callable
  | .call t f as, ⟨ht, hf, has⟩ => fun calls hcalls =>
    f.callable hf ((t, as) :: calls)
      (List.forall_mem_cons.2 ⟨⟨ht, Expr.listLegible has (Expr.legible_of_mem as has)⟩, hcalls⟩)

theorem Expr.legible_of_mem : ∀ es : List Expr, Expr.SpelledAll True es → ∀ e ∈ es, e.Legible
  | [], _ => by simp
  | e :: es, ⟨he, hes⟩ =>
    List.forall_mem_cons.2 ⟨(e.callable he).legible, Expr.legible_of_mem es hes⟩

theorem Block.legible : ∀ b : Block, b.Spelled True → b.Legible
  | .mk _ ss, h => Block.legible_of_statements h (Stmt.legible_of_mem ss h.2)

theorem Stmt.legible : ∀ s : Stmt, s.Spelled True → s.Legible
  | .var _ _ none, h => .var h (by simp)
  | .var _ _ (some e), h => .var h (by simpa using (e.callable h.2.2).legible)
  | .ret _ none, h => .ret h (by simp)
  | .ret _ (some e), h => .ret h (by simpa using (e.callable h.2).legible)
  | .expr _ e, h => .expr h (e.callable h).legible

theorem Stmt.legible_of_mem : ∀ ss : List Stmt, Stmt.SpelledAll True ss → ∀ s ∈ ss, s.Legible
  | [], _ => by simp
  | s :: ss, ⟨hs, hss⟩ => List.forall_mem_cons.2 ⟨s.legible hs, Stmt.legible_of_mem ss hss⟩

end

/-! ## Programs -/

namespace Program

/-- The text of statements is empty only where there are none. -/
theorem text_ne_empty {s : Stmt} {ss : List Stmt} (h : Stmt.SpelledAll True (s :: ss)) :
    (Program.mk (s :: ss)).text ≠ "" := by
  intro hempty
  have hkind := congrArg leadingKind (congrArg String.toList hempty)
  have hfollows := Stmt.followsExpr_rowText (.inr rfl) h.2 followsExpr_nil
  rw [List.append_nil] at hfollows
  rw [text, Stmt.texts, Stmt.toList_intercalate_texts (c := '\n') rfl,
    Stmt.leadingKind_text h.1 hfollows.apart] at hkind
  simp at hkind

/-- **The text of a program tells the program**, but for what it does not show. -/
theorem bare_eq_of_text {p q : Program} (hp : Stmt.SpelledAll True p.statements)
    (hq : Stmt.SpelledAll True q.statements) (h : p.text = q.text) : p.bare = q.bare := by
  obtain ⟨_ | ⟨s, ss⟩⟩ := p
  · obtain ⟨_ | ⟨s', ss'⟩⟩ := q
    · rfl
    · exact absurd h.symm (text_ne_empty hq)
  · obtain ⟨_ | ⟨s', ss'⟩⟩ := q
    · exact absurd h (text_ne_empty hp)
    · have hrow : Stmt.rowText '\n' (s :: ss) ++ [] = Stmt.rowText '\n' (s' :: ss') ++ [] := by
        have htext := congrArg String.toList h
        rw [text, text, Stmt.texts, Stmt.texts, Stmt.toList_intercalate_texts (c := '\n') rfl,
          Stmt.toList_intercalate_texts (c := '\n') rfl] at htext
        rw [Stmt.rowText_cons, Stmt.rowText_cons, htext]
      obtain ⟨hbare, -⟩ := Stmt.rowText_unique (.inr rfl) (Stmt.legible_of_mem _ hp) hp hq
        (Stmt.endsRow_nil '\n') (Stmt.endsRow_nil '\n') hrow
      exact congrArg Program.mk hbare

end Program

/-- **The canonical text determines the tree.** Programs of the same text are the same, but for the
    places of tokens, the first token of an expression statement and the leading zeros of integers,
    whatever is wrong with their sources. -/
theorem parse_text_injective {a b : String} (h : (parse a).1.text = (parse b).1.text) :
    (parse a).1.bare = (parse b).1.bare :=
  Program.bare_eq_of_text (parse_spelled a) (parse_spelled b) h

/-- Two sources with other faults, other parentheses, zeros and blanks. -/
theorem parse_text_injective_faults :
    let a := "var x = @;\nif ((a) == b) \x7b f(007)(!c); -d \x7d else \x7b\x7d"
    let b := "var x = ) ; if (a==b)\n\x7bf ( 7 ) (!c); -d;;\x7delse\x7b\x7d"
    (parse a).1.text = (parse b).1.text ∧
      (parse a).1.text = "var x;\nif (a == b) \x7b f(7)((!c)) (-d) \x7d else \x7b \x7d" ∧
      (parse a).2 ≠ (parse b).2 ∧ (parse a).1.bare = (parse b).1.bare := by
  intro a b
  have h : (parse a).1.text = (parse b).1.text := by decide +kernel
  exact ⟨h, by decide +kernel, by decide +kernel, parse_text_injective h⟩

end Scriptlet
