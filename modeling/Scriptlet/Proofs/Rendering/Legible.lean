/-
  The canonical text of an expression tells the expression.

  A call begins with its callee, which may be a call again. So an expression
  is taken as an operand that is no call, with one list of arguments after
  another (`Expr.called`).
-/
import Scriptlet.Proofs.Rendering.Leading

namespace Scriptlet

variable {absent : Prop} {t u : Token} {cs rest rest' : List Char}

/-! ## Texts with something between them -/

theorem toList_intercalate_cons (sep w : String) (ws : List String) :
    (sep.intercalate (w :: ws)).toList =
      w.toList ++ ws.flatMap fun w => sep.toList ++ w.toList := by
  induction ws generalizing w with
  | nil => simp
  | cons v ws ih =>
    rw [String.intercalate_cons_cons, String.toList_append, String.toList_append, ih,
      List.flatMap_cons, List.append_assoc, List.append_assoc]

/-! ## The texts of trees, by characters -/

/-- The text of statements with the character before each. -/
def Stmt.rowText (c : Char) (ss : List Stmt) : List Char :=
  ss.flatMap fun s => c :: s.text.toList

theorem Stmt.rowText_cons (c : Char) (s : Stmt) (ss : List Stmt) :
    rowText c (s :: ss) = c :: (s.text.toList ++ rowText c ss) := by
  simp [rowText]

theorem Stmt.toList_intercalate_texts {sep : String} {c : Char} (hsep : sep.toList = [c])
    (s : Stmt) (ss : List Stmt) :
    (sep.intercalate (s.text :: texts ss)).toList = s.text.toList ++ rowText c ss := by
  rw [toList_intercalate_cons, texts_eq_map, List.flatMap_map, hsep]
  rfl

theorem Block.toList_text (b : Block) (rest : List Char) :
    b.text.toList ++ rest =
      '\x7b' :: (Stmt.rowText ' ' b.statements ++ ' ' :: '\x7d' :: rest) := by
  obtain ⟨t, _ | ⟨s, ss⟩⟩ := b
  · simp [text, statements, Stmt.rowText]
  · rw [text, String.toList_append, String.toList_append,
      Stmt.toList_intercalate_texts (c := ' ') rfl, statements, Stmt.rowText_cons]
    simp

namespace Expr

theorem toList_text_unary (t : Token) (op : String) (e : Expr) (rest : List Char) :
    (unary t op e).text.toList ++ rest =
      '(' :: (op.toList ++ (e.text.toList ++ ')' :: rest)) := by
  simp [text]

theorem toList_text_binary (t : Token) (l : Expr) (op : String) (r : Expr) (rest : List Char) :
    (binary t l op r).text.toList ++ rest =
      '(' :: (l.text.toList ++ ' ' :: (op.toList ++ ' ' :: (r.text.toList ++ ')' :: rest))) := by
  simp [text]

/-- The text of a condition, in one pair of parentheses. -/
def conditionText (c : Expr) : List Char :=
  if c.isOperation then c.text.toList else '(' :: (c.text.toList ++ [')'])

/-- The text of what follows the first block of a conditional. -/
def elseText : Option Block → List Char
  | none => []
  | some a => [' ', 'e', 'l', 's', 'e', ' '] ++ a.text.toList

theorem toList_text_conditional (t : Token) (c : Expr) (b : Block) (a? : Option Block)
    (rest : List Char) : (conditional t c b a?).text.toList ++ rest =
      ['i', 'f', ' '] ++ (conditionText c ++ ' ' :: (b.text.toList ++ (elseText a? ++ rest))) := by
  cases a? <;> simp [text, conditionText, elseText, apply_ite String.toList]

/-- The text of expressions with commas between them. -/
def listText (es : List Expr) : List Char := (", ".intercalate (texts es)).toList

/-- The text of expressions with a comma before each. -/
def moreText (es : List Expr) : List Char :=
  es.flatMap fun e => ',' :: ' ' :: e.text.toList

theorem moreText_cons (e : Expr) (es : List Expr) :
    moreText (e :: es) = ',' :: ' ' :: (e.text.toList ++ moreText es) := by
  simp [moreText]

theorem listText_cons (e : Expr) (es : List Expr) :
    listText (e :: es) = e.text.toList ++ moreText es := by
  rw [listText, texts, toList_intercalate_cons, texts_eq_map, List.flatMap_map]
  rfl

theorem toList_text_function (t : Token) (ps : List Identifier) (b : Block) (rest : List Char) :
    (function t ps b).text.toList ++ rest =
      t.literal.toList ++ '(' :: (listText (ps.map .name) ++ ')' :: ' ' ::
        (b.text.toList ++ rest)) := by
  simp [text, listText, texts_eq_map, Function.comp_def]

/-! ## Calls -/

/-- The expression is a call. -/
def isCall : Expr → Bool
  | call .. => true
  | _ => false

/-- The expression, called with one list of arguments after another. -/
def called (e : Expr) : List (Token × List Expr) → Expr
  | [] => e
  | c :: cs => (call c.1 e c.2).called cs

/-- The text of lists of arguments, one after another. -/
def callsText (cs : List (Token × List Expr)) : List Char :=
  cs.flatMap fun c => '(' :: (listText c.2 ++ [')'])

theorem toList_text_called (e : Expr) (cs : List (Token × List Expr)) :
    (e.called cs).text.toList = e.text.toList ++ callsText cs := by
  induction cs generalizing e with
  | nil => simp [called, callsText]
  | cons c cs ih =>
    rw [called, ih]
    simp [text, callsText, listText]

theorem called_concat (e : Expr) (cs : List (Token × List Expr)) (t : Token) (as : List Expr) :
    e.called (cs ++ [(t, as)]) = call t (e.called cs) as := by
  induction cs generalizing e with
  | nil => rfl
  | cons c cs ih => exact ih _

theorem isOperation_called (e : Expr) (c : Token × List Expr) (cs : List (Token × List Expr)) :
    (e.called (c :: cs)).isOperation = false := by
  induction cs generalizing e c with
  | nil => rfl
  | cons c' cs ih => exact ih _ c'

/-- Every expression is one that is no call, called with one list of arguments after another. -/
theorem exists_called : ∀ e : Expr, e.Spelled absent →
    ∃ (h : Expr) (cs : List (Token × List Expr)), e = h.called cs ∧ h.isCall = false ∧
      h.Spelled absent ∧ ∀ c ∈ cs, c.1.Is .openParen ∧ SpelledAll absent c.2
  | .call t f as, ⟨ht, hf, has⟩ => by
    obtain ⟨h, cs, hcalled, hcall, hspelled, hcs⟩ := f.exists_called hf
    refine ⟨h, cs ++ [(t, as)], by rw [called_concat, ← hcalled], hcall, hspelled, ?_⟩
    intro c hc
    rcases List.mem_append.1 hc with hc | hc
    · exact hcs c hc
    · obtain rfl := List.mem_singleton.1 hc
      exact ⟨ht, has⟩
  | .name .., h | .integer .., h | .boolean .., h | .unary .., h | .binary .., h
  | .conditional .., h | .function .., h => ⟨_, [], rfl, rfl, h, by simp⟩

/-! ## What it is to be legible -/

/-- The text of the expression tells it, among all expressions that may stand in its place. -/
structure Legible (e : Expr) : Prop where
  unique : ∀ {e' : Expr} {rest rest' : List Char}, e'.Spelled True → FollowsExpr rest →
    FollowsExpr rest' → e.text.toList ++ rest = e'.text.toList ++ rest' →
      e.retoken .bare = e'.retoken .bare ∧ rest = rest'
  /-- The parentheses of an operation do not stand around another expression. -/
  ungrouped : e.isOperation = true → ∀ {c : Expr} {rest rest' : List Char}, c.Spelled True →
    e.text.toList ++ rest ≠ '(' :: (c.text.toList ++ ')' :: rest')

/-- The text of the operand tells it, where arguments may follow, among all that are no calls. -/
structure Head (e : Expr) : Prop where
  unique : ∀ {e' : Expr} {rest rest' : List Char}, e'.isCall = false → e'.Spelled True →
    FollowsOperand rest → FollowsOperand rest' → e.text.toList ++ rest = e'.text.toList ++ rest' →
      e.retoken .bare = e'.retoken .bare ∧ rest = rest'
  ungrouped : e.isOperation = true → ∀ {c : Expr} {rest rest' : List Char}, c.Spelled True →
    e.text.toList ++ rest ≠ '(' :: (c.text.toList ++ ')' :: rest')

/-- The text of a list of expressions tells it, up to the parenthesis that closes it. -/
def ListLegible (es : List Expr) : Prop :=
  ∀ ⦃es' : List Expr⦄ ⦃rest rest' : List Char⦄, SpelledAll True es' →
    listText es ++ ')' :: rest = listText es' ++ ')' :: rest' →
      retokenAll .bare es = retokenAll .bare es' ∧ rest = rest'

end Expr

/-- The text of a block tells it, whatever follows. -/
def Block.Legible (b : Block) : Prop :=
  ∀ ⦃b' : Block⦄ ⦃rest rest' : List Char⦄, b'.Spelled True →
    b.text.toList ++ rest = b'.text.toList ++ rest' →
      b.retoken .bare = b'.retoken .bare ∧ rest = rest'

/-! ## Names -/

/-- The text of a name tells it. -/
theorem Identifier.Spelled.unique {i j : Identifier} (hi : i.Spelled) (hj : j.Spelled)
    (hrest : Apart rest) (hrest' : Apart rest')
    (heq : i.value.toList ++ rest = j.value.toList ++ rest') :
    i.retoken .bare = j.retoken .bare ∧ rest = rest' := by
  obtain ⟨⟨-, hi⟩, hvalue⟩ := hi
  obtain ⟨⟨-, hj⟩, hvalue'⟩ := hj
  rw [hvalue, hvalue'] at heq
  obtain ⟨htoken, hrests⟩ := hi.unique hj hrest hrest' heq
  refine ⟨?_, hrests⟩
  show Identifier.mk i.token.unplaced i.value = Identifier.mk j.token.unplaced j.value
  rw [htoken, hvalue, hvalue', ← i.token.literal_unplaced, htoken, j.token.literal_unplaced]

/-! ## Lists of expressions -/

namespace Expr

variable {e : Expr} {es : List Expr}

theorem followsExpr_moreText (es : List Expr) (rest : List Char) :
    FollowsExpr (moreText es ++ ')' :: rest) := by
  cases es with
  | nil => exact followsExpr_cons (by simp) rest
  | cons e es => exact followsExpr_cons (by simp) _

theorem moreText_unique (h : ∀ e ∈ es, e.Legible) {es' : List Expr} (hes' : SpelledAll True es')
    (heq : moreText es ++ ')' :: rest = moreText es' ++ ')' :: rest') :
    retokenAll .bare es = retokenAll .bare es' ∧ rest = rest' := by
  induction es generalizing es' with
  | nil =>
    cases es' with
    | nil => exact ⟨rfl, (List.cons.inj heq).2⟩
    | cons e' es' => simp [moreText] at heq
  | cons e es ih =>
    cases es' with
    | nil => simp [moreText] at heq
    | cons e' es' =>
      rw [List.forall_mem_cons] at h
      have htext : e.text.toList ++ (moreText es ++ ')' :: rest) =
          e'.text.toList ++ (moreText es' ++ ')' :: rest') := by
        simpa [moreText_cons] using heq
      obtain ⟨he, hmore⟩ := h.1.unique hes'.1 (followsExpr_moreText es rest)
        (followsExpr_moreText es' rest') htext
      obtain ⟨hes, hrest⟩ := ih h.2 hes'.2 hmore
      exact ⟨by rw [retokenAll, retokenAll, he, hes], hrest⟩

/-- An expression does not begin with a closing parenthesis. -/
theorem text_ne_closeParen (he : e.Spelled absent) (hrest : Apart rest) :
    e.text.toList ++ rest ≠ ')' :: rest' := by
  intro h
  have hkind := congrArg leadingKind h
  rw [leadingKind_text he hrest, leadingKind_delimiter (k := .closeParen) rfl (by decide)] at hkind
  have hmem := e.mem_leading
  rw [Option.some.inj hkind] at hmem
  simp at hmem

/-- Lists of legible expressions are legible. -/
theorem listLegible (hes : SpelledAll True es) (h : ∀ e ∈ es, e.Legible) : ListLegible es := by
  intro es' rest rest' hes' heq
  cases es with
  | nil =>
    cases es' with
    | nil => exact ⟨rfl, (List.cons.inj heq).2⟩
    | cons e' es' =>
      rw [listText_cons, List.append_assoc] at heq
      exact absurd heq.symm (text_ne_closeParen hes'.1 (followsExpr_moreText es' rest').apart)
  | cons e es =>
    cases es' with
    | nil =>
      rw [listText_cons, List.append_assoc] at heq
      exact absurd heq (text_ne_closeParen hes.1 (followsExpr_moreText es rest).apart)
    | cons e' es' =>
      refine moreText_unique h hes' ?_
      rw [listText_cons, listText_cons] at heq
      rw [moreText_cons, moreText_cons, List.cons_append, List.cons_append, heq]
      rfl

/-! ## Calls -/

theorem followsOperand_callsText (calls : List (Token × List Expr)) (h : FollowsExpr rest) :
    FollowsOperand (callsText calls ++ rest) := by
  cases calls with
  | nil => exact h.toFollowsOperand
  | cons c calls => exact followsOperand_openParen _

/-- One list of arguments after another is told. -/
theorem callsText_unique {calls calls' : List (Token × List Expr)} {e e' : Expr}
    (hcalls : ∀ c ∈ calls, c.1.Is .openParen ∧ ListLegible c.2)
    (hcalls' : ∀ c ∈ calls', c.1.Is .openParen ∧ SpelledAll True c.2)
    (he : e.retoken .bare = e'.retoken .bare) (hrest : FollowsExpr rest)
    (hrest' : FollowsExpr rest') (heq : callsText calls ++ rest = callsText calls' ++ rest') :
    (e.called calls).retoken .bare = (e'.called calls').retoken .bare ∧ rest = rest' := by
  induction calls generalizing calls' e e' with
  | nil =>
    cases calls' with
    | nil => exact ⟨he, heq⟩
    | cons c' calls' => exact absurd (congrArg List.head? heq) hrest.noArguments
  | cons c calls ih =>
    cases calls' with
    | nil => exact absurd (congrArg List.head? heq).symm hrest'.noArguments
    | cons c' calls' =>
      rw [List.forall_mem_cons] at hcalls hcalls'
      obtain ⟨⟨ht, has⟩, hcalls⟩ := hcalls
      obtain ⟨⟨ht', has'⟩, hcalls'⟩ := hcalls'
      have hlist : listText c.2 ++ ')' :: (callsText calls ++ rest) =
          listText c'.2 ++ ')' :: (callsText calls' ++ rest') := by
        simpa [callsText] using heq
      obtain ⟨hlist, hmore⟩ := has has' hlist
      have hcall : (call c.1 e c.2).retoken .bare = (call c'.1 e' c'.2).retoken .bare := by
        show call c.1.unplaced _ _ = call c'.1.unplaced _ _
        rw [ht.unplaced_eq (w := "(") rfl, ht'.unplaced_eq (w := "(") rfl, he, hlist]
      show ((call c.1 e c.2).called calls).retoken .bare =
        ((call c'.1 e' c'.2).called calls').retoken .bare ∧ rest = rest'
      exact ih hcalls hcalls' hcall hmore

/-- The expression is legible, with any lists of legible arguments after it. -/
def Callable (e : Expr) : Prop :=
  ∀ calls : List (Token × List Expr), (∀ c ∈ calls, c.1.Is .openParen ∧ ListLegible c.2) →
    (e.called calls).Legible

theorem Callable.legible (h : e.Callable) : e.Legible :=
  h [] (by simp)

/-- An operand that is told stays so with any lists of arguments after it. -/
theorem Head.callable (h : e.Head) : e.Callable := by
  intro calls hcalls
  refine ⟨fun {e' rest rest'} he' hrest hrest' heq => ?_, fun hop => ?_⟩
  · obtain ⟨head, calls', rfl, hcall, hhead, hcalls'⟩ := e'.exists_called he'
    rw [toList_text_called, toList_text_called, List.append_assoc, List.append_assoc] at heq
    obtain ⟨he, heq⟩ := h.unique hcall hhead (followsOperand_callsText calls hrest)
      (followsOperand_callsText calls' hrest') heq
    exact callsText_unique hcalls hcalls' he hrest hrest' heq
  · cases calls with
    | nil => exact h.ungrouped hop
    | cons c calls =>
      rw [isOperation_called] at hop
      cases hop

/-! ## The operands, one by one -/

section

variable {i : Identifier} {v : Int} {w : Bool} {op : String} {c l r : Expr} {a b : Block}
  {ps : List Identifier} {a? : Option Block}

theorem Head.name (h : i.Spelled) : (Expr.name i).Head where
  unique {e' rest rest'} hcall he' hrest hrest' heq := by
    have hleading := leading_eq (e := .name i) h he' hrest.apart hrest'.apart heq
    cases e' with
    | name j =>
      rw [text, text] at heq
      obtain ⟨hij, rfl⟩ := h.unique he' hrest.apart hrest'.apart heq
      exact ⟨congrArg Expr.name hij, rfl⟩
    | call => cases hcall
    | boolean t w => cases w <;> cases hleading
    | _ => cases hleading
  ungrouped h := by cases h

theorem Head.integer (ht : t.Is .integer) (hle : t.decimal ≤ Numeral.largest) :
    (Expr.integer t t.decimal).Head where
  unique {e' rest rest'} hcall he' hrest hrest' heq := by
    have hleading := leading_eq (e := .integer t t.decimal) ⟨ht, hle, rfl⟩ he' hrest.apart
      hrest'.apart heq
    cases e' with
    | integer u v =>
      obtain ⟨hu, -, rfl⟩ := he'
      rw [text, text, toList_toString_natCast, toList_toString_natCast, ← t.toList_stripped,
        ← u.toList_stripped] at heq
      obtain ⟨htoken, rfl⟩ := ht.stripped.2.unique hu.stripped.2 hrest.apart hrest'.apart heq
      have hstripped : t.stripped = u.stripped := htoken
      refine ⟨?_, rfl⟩
      show Expr.integer t.stripped _ = Expr.integer u.stripped _
      rw [← t.decimal_stripped, hstripped, u.decimal_stripped]
    | call => cases hcall
    | boolean t w => cases w <;> cases hleading
    | _ => cases hleading
  ungrouped h := by cases h

/-- The text of a truth value is its token's. -/
theorem text_boolean (h : (Expr.boolean t w).Spelled absent) :
    (Expr.boolean t w).text = t.literal ∧ t.Spelled := by
  rcases h with ⟨ht, rfl⟩ | ⟨ht, rfl⟩
  · exact ⟨(ht.literal_eq (w := "true") rfl).symm, ht.2⟩
  · exact ⟨(ht.literal_eq (w := "false") rfl).symm, ht.2⟩

theorem Head.boolean (h : (Expr.boolean t w).Spelled True) : (Expr.boolean t w).Head where
  unique {e' rest rest'} hcall he' hrest hrest' heq := by
    have hleading := leading_eq h he' hrest.apart hrest'.apart heq
    cases e' with
    | boolean u w' =>
      obtain ⟨htext, ht⟩ := text_boolean h
      obtain ⟨htext', hu⟩ := text_boolean he'
      rw [htext, htext'] at heq
      obtain ⟨htoken, rfl⟩ := ht.unique hu hrest.apart hrest'.apart heq
      have hw : w = w' := by
        cases w <;> cases w' <;> first | rfl | cases hleading
      subst hw
      exact ⟨congrArg (Expr.boolean · w) htoken, rfl⟩
    | call => cases hcall
    | _ => cases w <;> cases hleading
  ungrouped h := by cases h

theorem Head.unary (h : (Expr.unary t op e).Spelled True) (he : e.Legible) :
    (Expr.unary t op e).Head where
  unique {e' rest rest'} hcall he' hrest hrest' heq := by
    have hleading := leading_eq h he' hrest.apart hrest'.apart heq
    obtain ⟨ht, rfl, hspelled⟩ := h
    cases e' with
    | unary u op' f =>
      obtain ⟨hu, rfl, hf⟩ := he'
      rw [toList_text_unary, toList_text_unary] at heq
      obtain ⟨htoken, heq⟩ := Token.Is.unary_unique ht hu hspelled hf (List.cons.inj heq).2
      obtain ⟨hef, heq⟩ := he.unique hf (followsExpr_cons (by simp) rest)
        (followsExpr_cons (by simp) rest') heq
      refine ⟨?_, (List.cons.inj heq).2⟩
      show Expr.unary t.unplaced t.unplaced.literal _ = Expr.unary u.unplaced u.unplaced.literal _
      rw [htoken, hef]
    | binary u l op' r =>
      rw [toList_text_unary, toList_text_binary] at heq
      have hl := he'.2.2.2.1
      exact absurd (List.cons.inj heq).2 (Token.Is.unary_ne ht hspelled hl (by simp [isWordPart]))
    | call => cases hcall
    | boolean t w => cases w <;> cases hleading
    | _ => cases hleading
  ungrouped _ c rest rest' hc heq := by
    obtain ⟨ht, rfl, hspelled⟩ := h
    rw [toList_text_unary] at heq
    exact Token.Is.unary_ne ht hspelled hc (followsExpr_cons (by simp) rest').apart
      (List.cons.inj heq).2

theorem Head.binary (h : (Expr.binary t l op r).Spelled True) (hl : l.Legible) (hr : r.Legible) :
    (Expr.binary t l op r).Head where
  unique {e' rest rest'} hcall he' hrest hrest' heq := by
    have hleading := leading_eq h he' hrest.apart hrest'.apart heq
    obtain ⟨⟨m, hm⟩, ht, rfl, hspelled, -⟩ := h
    cases e' with
    | unary u op' f =>
      obtain ⟨hu, rfl, hf⟩ := he'
      rw [toList_text_unary, toList_text_binary] at heq
      exact absurd (List.cons.inj heq).2.symm
        (Token.Is.unary_ne hu hf hspelled (by simp [isWordPart]))
    | binary u l' op' r' =>
      obtain ⟨⟨m', hm'⟩, hu, rfl, hl', hr'⟩ := he'
      rw [toList_text_binary, toList_text_binary] at heq
      obtain ⟨hleft, heq⟩ := hl.unique hl' (followsExpr_operator ht hm _)
        (followsExpr_operator hu hm' _) (List.cons.inj heq).2
      obtain ⟨htoken, heq⟩ := ht.unique hu (by simp [isWordPart]) (by simp [isWordPart])
        (List.cons.inj heq).2
      obtain ⟨hright, heq⟩ := hr.unique hr' (followsExpr_cons (by simp) rest)
        (followsExpr_cons (by simp) rest') (List.cons.inj heq).2
      refine ⟨?_, (List.cons.inj heq).2⟩
      show Expr.binary t.unplaced _ t.unplaced.literal _ =
        Expr.binary u.unplaced _ u.unplaced.literal _
      rw [htoken, hleft, hright]
    | call => cases hcall
    | boolean t w => cases w <;> cases hleading
    | _ => cases hleading
  ungrouped _ c rest rest' hc heq := by
    obtain ⟨⟨m, hm⟩, ht, rfl, -⟩ := h
    rw [toList_text_binary] at heq
    obtain ⟨-, heq⟩ := hl.unique hc (followsExpr_operator ht hm _)
      (followsExpr_cons (by simp) rest') (List.cons.inj heq).2
    exact absurd (List.cons.inj heq).1 (by decide)

/-! ## Conditions and blocks -/

/-- Where an operation stands, there is no other expression in parentheses. -/
theorem Legible.ne_operation (hc : c.Legible) (hspelled : c.Spelled True) (he : e.Spelled True)
    (hop : e.isOperation = true) :
    '(' :: (c.text.toList ++ ')' :: rest) ≠ e.text.toList ++ rest' := by
  intro heq
  cases e with
  | unary t op f =>
    obtain ⟨ht, rfl, hf⟩ := he
    rw [toList_text_unary] at heq
    exact Token.Is.unary_ne ht hf hspelled (followsExpr_cons (by simp) rest).apart
      (List.cons.inj heq).2.symm
  | binary t l op r =>
    obtain ⟨⟨m, hm⟩, ht, rfl, hl, -⟩ := he
    rw [toList_text_binary] at heq
    obtain ⟨-, heq⟩ := hc.unique hl (followsExpr_cons (by simp) rest) (followsExpr_operator ht hm _)
      (List.cons.inj heq).2
    exact absurd (List.cons.inj heq).1 (by decide)
  | _ => cases hop

/-- The text of a condition tells it. -/
theorem Legible.condition (hc : c.Legible) (hspelled : c.Spelled True) (he : e.Spelled True)
    (hrest : FollowsExpr rest) (hrest' : FollowsExpr rest')
    (heq : conditionText c ++ rest = conditionText e ++ rest') :
    c.retoken .bare = e.retoken .bare ∧ rest = rest' := by
  unfold conditionText at heq
  by_cases hop : c.isOperation = true
  · by_cases hop' : e.isOperation = true
    · rw [if_pos hop, if_pos hop'] at heq
      exact hc.unique he hrest hrest' heq
    · rw [if_pos hop, if_neg hop', List.cons_append, List.append_assoc] at heq
      exact absurd heq (hc.ungrouped hop he)
  · by_cases hop' : e.isOperation = true
    · rw [if_neg hop, if_pos hop', List.cons_append, List.append_assoc] at heq
      exact absurd heq (hc.ne_operation hspelled he hop')
    · rw [if_neg hop, if_neg hop', List.cons_append, List.cons_append, List.append_assoc,
        List.append_assoc] at heq
      obtain ⟨hce, heq⟩ := hc.unique he (followsExpr_cons (by simp) rest)
        (followsExpr_cons (by simp) rest') (List.cons.inj heq).2
      exact ⟨hce, (List.cons.inj heq).2⟩

theorem spelled_conditional : (Expr.conditional t c b a?).Spelled absent ↔
    t.Is .ifWord ∧ c.Spelled absent ∧ b.Spelled absent ∧ ∀ a ∈ a?, a.Spelled absent := by
  cases a? <;> simp [Spelled]

theorem retoken_conditional (ρ : Retoken) : (Expr.conditional t c b a?).retoken ρ =
    .conditional (ρ.other t) (c.retoken ρ) (b.retoken ρ) (a?.map (·.retoken ρ)) := by
  cases a? <;> rfl

/-- A block begins with its brace. -/
theorem followsExpr_block (b : Block) (rest : List Char) :
    FollowsExpr (' ' :: (b.text.toList ++ rest)) := by
  refine followsExpr_space ?_
  rw [b.toList_text, leadingKind_delimiter (k := .openBrace) rfl (by decide)]
  simp

/-- The second block of a conditional is told, and whether there is one. -/
theorem elseText_unique (ha : ∀ a ∈ a?, a.Legible) {a'? : Option Block}
    (ha' : ∀ a ∈ a'?, a.Spelled True) (hrest : FollowsOperand rest) (hrest' : FollowsOperand rest')
    (heq : elseText a? ++ rest = elseText a'? ++ rest') :
    a?.map (·.retoken .bare) = a'?.map (·.retoken .bare) ∧ rest = rest' := by
  cases a? with
  | none =>
    cases a'? with
    | none => exact ⟨rfl, heq⟩
    | some a' => exact absurd ⟨_, ((List.append_assoc ..).symm.trans heq.symm)⟩ hrest.noElse
  | some a =>
    cases a'? with
    | none => exact absurd ⟨_, ((List.append_assoc ..).symm.trans heq)⟩ hrest'.noElse
    | some a' =>
      rw [elseText, elseText, List.append_assoc, List.append_assoc] at heq
      obtain ⟨haa', hrests⟩ := ha a rfl (ha' a' rfl) (List.append_cancel_left heq)
      exact ⟨congrArg some haa', hrests⟩

theorem Head.conditional (h : (Expr.conditional t c b a?).Spelled True) (hc : c.Legible)
    (hb : b.Legible) (ha : ∀ a ∈ a?, a.Legible) : (Expr.conditional t c b a?).Head where
  unique {e' rest rest'} hcall he' hrest hrest' heq := by
    have hleading := leading_eq h he' hrest.apart hrest'.apart heq
    obtain ⟨ht, hspelled, -, -⟩ := spelled_conditional.1 h
    cases e' with
    | conditional u c' b' a'? =>
      obtain ⟨hu, hc', hb', ha'⟩ := spelled_conditional.1 he'
      rw [toList_text_conditional, toList_text_conditional] at heq
      obtain ⟨hcc', heq⟩ := hc.condition hspelled hc' (followsExpr_block b _)
        (followsExpr_block b' _) (List.append_cancel_left heq)
      obtain ⟨hbb', heq⟩ := hb hb' (List.cons.inj heq).2
      obtain ⟨haa', hrests⟩ := elseText_unique ha ha' hrest hrest' heq
      refine ⟨?_, hrests⟩
      rw [retoken_conditional, retoken_conditional, hcc', hbb', haa']
      show Expr.conditional t.unplaced _ _ _ = Expr.conditional u.unplaced _ _ _
      rw [ht.unplaced_eq (w := "if") rfl, hu.unplaced_eq (w := "if") rfl]
    | call => cases hcall
    | boolean t w => cases w <;> cases hleading
    | _ => cases hleading
  ungrouped h := by cases h

/-! ## Functions -/

theorem spelledAll_names (h : ∀ i ∈ ps, i.Spelled) : SpelledAll absent (ps.map .name) := by
  induction ps with
  | nil => trivial
  | cons i ps ih =>
    rw [List.forall_mem_cons] at h
    exact ⟨h.1, ih h.2⟩

theorem retokenAll_names (ρ : Retoken) (ps : List Identifier) :
    retokenAll ρ (ps.map .name) = (ps.map (·.retoken ρ)).map .name := by
  induction ps with
  | nil => rfl
  | cons i ps ih => rw [List.map_cons, retokenAll, ih]; rfl

/-- The text of the parameters of a function tells them. -/
theorem names_unique (hps : ∀ i ∈ ps, i.Spelled) {qs : List Identifier}
    (hqs : ∀ i ∈ qs, i.Spelled)
    (heq : listText (ps.map .name) ++ ')' :: rest = listText (qs.map .name) ++ ')' :: rest') :
    ps.map (·.retoken .bare) = qs.map (·.retoken .bare) ∧ rest = rest' := by
  have hlegible : ∀ e ∈ ps.map Expr.name, e.Legible := by
    intro e he
    obtain ⟨i, hi, rfl⟩ := List.mem_map.1 he
    exact (Head.name (hps i hi)).callable.legible
  obtain ⟨hnames, hrests⟩ := listLegible (spelledAll_names hps) hlegible (spelledAll_names hqs) heq
  rw [retokenAll_names, retokenAll_names] at hnames
  exact ⟨(List.map_inj_right fun _ _ => Expr.name.inj).1 hnames, hrests⟩

theorem Head.function (h : (Expr.function t ps b).Spelled True) (hb : b.Legible) :
    (Expr.function t ps b).Head where
  unique {e' rest rest'} hcall he' hrest hrest' heq := by
    have hleading := leading_eq h he' hrest.apart hrest'.apart heq
    obtain ⟨ht, hps, -⟩ := h
    cases e' with
    | function u qs b' =>
      obtain ⟨hu, hqs, hb'⟩ := he'
      rw [toList_text_function, toList_text_function] at heq
      obtain ⟨htoken, heq⟩ := ht.2.unique hu.2 (followsOperand_openParen _).apart
        (followsOperand_openParen _).apart heq
      obtain ⟨hnames, heq⟩ := names_unique hps hqs (List.cons.inj heq).2
      obtain ⟨hbb', hrests⟩ := hb hb' (List.cons.inj heq).2
      refine ⟨?_, hrests⟩
      show Expr.function t.unplaced _ _ = Expr.function u.unplaced _ _
      rw [htoken, hnames, hbb']
    | call => cases hcall
    | boolean t w => cases w <;> cases hleading
    | _ => cases hleading
  ungrouped h := by cases h

end

end Expr

end Scriptlet
