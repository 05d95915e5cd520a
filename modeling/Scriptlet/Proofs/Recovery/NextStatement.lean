/-
  The `var` or `return` statement after a text that may be broken: it is kept
  unless an operand is due where the text ends (`last_statement_iff`).
-/
import Scriptlet.Proofs.Language.Acceptance
import Scriptlet.Proofs.Language.Relocation
import Scriptlet.Proofs.Recovery.Rounds
import Scriptlet.Proofs.Text.Joining
import Scriptlet.Tree.Equality

namespace Scriptlet

open Grammar (script nestingLimit)

/-- What is read of a text, had it ended at the place `f`. -/
def readTo (f : Position) (s : String) : List Stmt × Reader :=
  (script.program (script.expr nestingLimit)).run { Reader.ofScanner (.ofText s) with finish := f }

/-- At the end of the text an operand is due: so says the last diagnostic, wherever the end is. -/
def OperandDue (s : String) : Prop :=
  ∀ f, ∃ d ∈ (readTo f s).2.errors.back?, d.Due (.eof f)

/-- The text begins with the word of a statement. -/
def BeginsStatement (v : String) : Prop :=
  ∃ t ∈ (tokenize v).head?, t.kind = .varWord ∨ t.kind = .returnWord

/-! ## The text and the statement after it -/

/-- A text without `\x7b` has no token of that kind. -/
theorem plain_of_notMem {s : String} (hs : '\x7b' ∉ s.toList) :
    ∀ t ∈ (Scanner.ofText s).ahead, t.kind ≠ .openBrace := by
  intro t ht hk
  have hlit : t.literal = "\x7b" :=
    (Scanner.spelled_ahead _ t ht).literal_eq (by rw [hk]; rfl)
  exact hs (Scanner.mem_rest_of_mem_ahead ht (by simp [hlit]))

/-- The scanner on the line after the text. -/
def Scanner.below (s v : String) : Scanner := ⟨v.toList, (Scanner.ofText s).finish.step '\n'⟩

theorem ahead_ofText_append (s v : String) :
    (Scanner.ofText (s ++ "\n" ++ v)).ahead =
      (Scanner.ofText s).ahead ++ (Scanner.below s v).ahead := by
  have hjoin : Scanner.ofText (s ++ "\n" ++ v) =
      (Scanner.ofText s).followedBy ('\n' :: v.toList) := by
    simp [Scanner.ofText, Scanner.followedBy]
  rw [hjoin]
  exact Scanner.ahead_followedBy rfl _

theorem same_below (s v : String) : Same (Scanner.below s v).ahead (Scanner.ofText v).ahead := by
  rw [Same, Scanner.map_lexeme_ahead, Scanner.map_lexeme_ahead]
  rfl

theorem BeginsStatement.firstKind {v : String} (hv : BeginsStatement v) :
    firstKind (Scanner.ofText v).ahead = .varWord ∨
      firstKind (Scanner.ofText v).ahead = .returnWord := by
  obtain ⟨t, ht, hk⟩ := hv
  rw [tokenize] at ht
  rcases h : (Scanner.ofText v).ahead with _ | ⟨u, us⟩ <;> rw [h] at ht <;> cases ht
  · rcases hk with hk | hk <;> cases hk
  · exact hk

/-- What comes after the text if the statement stands below it. -/
def Continuation.below (s v : String) (hv : BeginsStatement v) : Continuation where
  ahead := (Scanner.below s v).ahead
  finish := (Scanner.ofText (s ++ "\n" ++ v)).finish
  starts := by
    intro t ht
    obtain ⟨us, hus⟩ := List.head?_eq_some_iff.1 ht
    have hk : t.kind = firstKind (Scanner.ofText v).ahead := by
      rw [← (same_below s v).firstKind, hus]; rfl
    rw [hk]
    rcases hv.firstKind with h | h <;> rw [h] <;> rfl

/-! ## Readings that differ in what comes after the text -/

section

variable {s : String} {one : Walk (Option Stmt)}

/-- A reader at the start of the text `s`, with anything after it. -/
structure Reader.Starts (r : Reader) (s : String) (u : Continuation) : Prop where
  stands : r.Stands (Scanner.ofText s).ahead u
  errors : r.errors = #[]

theorem Reader.starts_stop (f : Position) (s : String) :
    { Reader.ofScanner (.ofText s) with finish := f : Reader }.Starts s (.stop f) :=
  ⟨⟨by simp [ofScanner, Continuation.stop], rfl⟩, rfl⟩

theorem Reader.starts_below {v : String} (hv : BeginsStatement v) :
    (Reader.ofScanner (.ofText (s ++ "\n" ++ v))).Starts s (.below s v hv) :=
  ⟨⟨ahead_ofText_append s v, rfl⟩, rfl⟩

/-- Two readings of a text, with different things after it, have the same statements where the
    text ends, or break off there both. -/
theorem Reader.Starts.rounds (hs : '\x7b' ∉ s.toList)
    (hone : Walk.Alike one (script.stmt? (script.expr nestingLimit))) {u v : Continuation}
    {r c : Reader} (hr : r.Starts s u) (hc : c.Starts s v) : ∃ ss r' c',
      Walk.Rounds one r ss r' ∧ Walk.Rounds one c ss c' ∧
        (r'.Abreast u v [] c' ∨ r'.Broken u ∧ c'.Broken v) := by
  have habreast : r.Abreast u v (Scanner.ofText s).ahead c :=
    ⟨hr.stands, hc.stands, plain_of_notMem hs, by rw [hr.errors, hc.errors]; exact .none⟩
  exact habreast.rounds (fun p => Grammar.anywhere_expr u v nestingLimit p) hone

theorem Walk.Rounds.run_of_nil {r r' : Reader} {as : List α} {one : Walk (Option α)}
    (h : Walk.Rounds one r as r') (hr' : r'.ahead = []) :
    (Walk.untilKind (fun _ => false) one).run r = (as, r') := by
  rw [h.run, Walk.run_untilKind_of_stop (by simp [hr']), List.append_nil]

theorem Reader.Broken.ahead_of_stop {r : Reader} {f : Position} (h : r.Broken (.stop f)) :
    r.ahead = [] := by
  rw [h.ahead, Reader.synchronize_of_nil rfl]
  rfl

/-- The statements of a text do not depend on where it is said to end. -/
theorem fst_readTo (hs : '\x7b' ∉ s.toList) (f g : Position) :
    (readTo f s).1 = (readTo g s).1 := by
  obtain ⟨one, hone, heq⟩ := script.program_eq (script.expr nestingLimit)
  obtain ⟨ss, r', c', hr, hc, hend⟩ :=
    (Reader.starts_stop f s).rounds hs hone (Reader.starts_stop g s)
  have hnil : r'.ahead = [] ∧ c'.ahead = [] := by
    rcases hend with h | ⟨h, h'⟩
    · exact ⟨h.left.ahead, h.right.ahead⟩
    · exact ⟨h.ahead_of_stop, h'.ahead_of_stop⟩
  rw [readTo, readTo, heq, hr.run_of_nil hnil.1, hc.run_of_nil hnil.2]

/-- If no operand is due at the end of the text, what comes after it is read as a statement. -/
theorem kept (hs : '\x7b' ∉ s.toList) (hdue : ¬ OperandDue s) {v : Continuation} {c : Reader}
    (hc : c.Starts s v) : ∃ ss c', c'.ahead = v.ahead ∧
      ((script.program (script.expr nestingLimit)).run c).1 =
        ss ++ ((script.program (script.expr nestingLimit)).run c').1 := by
  obtain ⟨f, hf⟩ := not_forall.1 hdue
  obtain ⟨one, hone, heq⟩ := script.program_eq (script.expr nestingLimit)
  obtain ⟨ss, r', c', hr, hc', hend⟩ := (Reader.starts_stop f s).rounds hs hone hc
  rw [heq, hc'.run]
  refine ⟨ss, c', ?_, rfl⟩
  rcases hend with h | ⟨h, -⟩
  · exact h.right.ahead
  · refine absurd ?_ hf
    rw [readTo, heq, hr.run_of_nil h.ahead_of_stop]
    exact h.due

/-- If an operand is due at the end of the text, the statement that is broken goes on past the
    word that comes after it. -/
theorem lost (hs : '\x7b' ∉ s.toList) (hdue : OperandDue s) {v : Continuation} {c : Reader}
    (hc : c.Starts s v) : ∃ c' : Reader,
      c'.ahead = (v.reader.synchronize script.startsStatement).advance.ahead ∧
      ((script.program (script.expr nestingLimit)).run c).1 = (parse s).1.statements ++
        ((script.program (script.expr nestingLimit)).run c').1 := by
  obtain ⟨one, hone, heq⟩ := script.program_eq (script.expr nestingLimit)
  by_contra hnone
  -- so what comes after the text is arrived at with a diagnostic about any place there is
  have harrive : ∀ f, ∃ ss c', Walk.Rounds one c ss c' ∧ c'.ahead = v.ahead ∧
      ∃ d ∈ c'.errors.back?, d.Due (.eof f) := by
    intro f
    obtain ⟨ss, r', c', hr, hc', hend⟩ := (Reader.starts_stop f s).rounds hs hone hc
    rcases hend with h | ⟨h, h'⟩
    · refine ⟨ss, c', hc', h.right.ahead, ?_⟩
      obtain ⟨d, hd, hfault⟩ := hdue f
      rw [readTo, heq, hr.run_of_nil h.left.ahead] at hd
      exact ⟨d, h.mem_back? hd hfault, hfault⟩
    · refine absurd ⟨c', h'.ahead, ?_⟩ hnone
      have hss : (parse s).1.statements = ss := by
        show (readTo (Scanner.ofText s).finish s).1 = ss
        rw [fst_readTo hs _ f, readTo, heq, hr.run_of_nil h.ahead_of_stop]
      rw [heq, hc'.run, hss]
  obtain ⟨ss, c₁, hc₁, hahead, d, hd, hdue₁⟩ := harrive ⟨0, 0⟩
  obtain ⟨ss', c₂, hc₂, hahead', e, he, hdue₂⟩ := harrive ⟨0, 1⟩
  obtain ⟨-, rfl⟩ := hc₁.unique hc₂ (by rw [hahead, hahead'])
  obtain rfl := Option.mem_unique hd he
  exact absurd (hdue₁.position.symm.trans hdue₂.position) (by decide)

/-- Recovery that begins on a `return` passes over the number after it. -/
theorem Reader.ahead_synchronize_of_return {r : Reader}
    (h : r.ahead.map (·.kind) = [.returnWord, .integer]) :
    (r.synchronize script.startsStatement).advance.ahead = [] := by
  have hlen : r.ahead.length = 2 := by simpa using congrArg List.length h
  obtain ⟨t, u, hahead⟩ : ∃ t u, r.ahead = [t, u] :=
    ⟨_, _, List.eq_getElem_of_length_eq_two _ hlen⟩
  obtain ⟨ht, hu⟩ : t.kind = .returnWord ∧ u.kind = .integer := by simpa [hahead] using h
  have hnext : r.next = u := next_of_ahead hahead
  have hadvance : r.advance.ahead = [u] := by rw [ahead_advance, hahead]; rfl
  have hlast : r.advance.next.kind = .eof := kind_next_of_ahead hadvance
  have hend : r.advance.advance.ahead = [] := by rw [ahead_advance, hadvance]; rfl
  rw [synchronize_of_not_stop hahead (by rw [ht, hnext, hu]; decide),
    synchronize_of_not_stop hadvance (by rw [hu, hlast]; decide), synchronize_of_nil hend,
    ahead_advance, hend]
  rfl

/-- What is lost is all of a `return` statement whose value is one number. -/
theorem statements_parse_append_of_due {v : String} (hs : '\x7b' ∉ s.toList)
    (hdue : OperandDue s) (hv : (tokenize v).map (·.kind) = [.returnWord, .integer, .eof]) :
    (parse (s ++ "\n" ++ v)).1.statements = (parse s).1.statements := by
  have hkinds : (Scanner.below s v).ahead.map (·.kind) = [.returnWord, .integer] := by
    have hdrop := congrArg List.dropLast hv
    rw [← List.map_dropLast, dropLast_tokenize] at hdrop
    have hsame := congrArg (List.map Lexeme.kind) (same_below s v)
    rw [List.map_map, List.map_map] at hsame
    exact hsame.trans hdrop
  have hbegins : BeginsStatement v := by
    rw [BeginsStatement]
    rcases htokens : tokenize v with _ | ⟨t, ts⟩ <;> rw [htokens] at hv
    · cases hv
    · exact ⟨t, rfl, .inr (List.cons.inj hv).1⟩
  obtain ⟨c', hahead, hrun⟩ := lost hs hdue (Reader.starts_below hbegins)
  have hnil : c'.ahead = [] := hahead.trans (Reader.ahead_synchronize_of_return hkinds)
  refine hrun.trans ?_
  obtain ⟨one, -, heq⟩ := script.program_eq (script.expr nestingLimit)
  rw [heq, Walk.run_untilKind_of_stop (by simp [hnil]), List.append_nil]

end

/-! ## The statement on the next line -/

/-- **After any text without blocks, a statement that begins with a word of its own is read as it
    is by itself**, whatever is wrong with the text, just if no operand is due at its end. -/
theorem last_statement_iff {s : String} (hs : '\x7b' ∉ s.toList) :
    (∀ v σ, BeginsStatement v → parse v = (⟨[σ]⟩, []) →
      ∃ σ' ∈ (parse (s ++ "\n" ++ v)).1.statements.getLast?, σ'.unplaced = σ.unplaced) ↔
    ¬ OperandDue s := by
  constructor
  · intro hall hdue
    -- both of these are lost, so both would have to be the last statement of the text itself
    have hlost : ∀ v σ, (tokenize v).map (·.kind) = [.returnWord, .integer, .eof] →
        BeginsStatement v → parse v = (⟨[σ]⟩, []) →
        ∃ σ' ∈ (parse s).1.statements.getLast?, σ'.unplaced = σ.unplaced := by
      intro v σ hkinds hv hparse
      rw [← statements_parse_append_of_due hs hdue hkinds]
      exact hall v σ hv hparse
    obtain ⟨σ₀, hσ₀, hzero⟩ := hlost "return 0"
      (.ret ⟨.returnWord, "return", ⟨1, 1⟩⟩ (some (.integer ⟨.integer, "0", ⟨1, 8⟩⟩ 0)))
      (by decide +kernel) ⟨⟨.returnWord, "return", ⟨1, 1⟩⟩, by decide +kernel, .inr rfl⟩
      (by decide +kernel)
    obtain ⟨σ₁, hσ₁, hone⟩ := hlost "return 1"
      (.ret ⟨.returnWord, "return", ⟨1, 1⟩⟩ (some (.integer ⟨.integer, "1", ⟨1, 8⟩⟩ 1)))
      (by decide +kernel) ⟨⟨.returnWord, "return", ⟨1, 1⟩⟩, by decide +kernel, .inr rfl⟩
      (by decide +kernel)
    obtain rfl := Option.mem_unique hσ₀ hσ₁
    have hsame := hzero.symm.trans hone
    simp [Stmt.unplaced, Stmt.retoken, Expr.retoken] at hsame
  · intro hdue v σ hv hparse
    obtain ⟨d, hd, hder⟩ := parse_eq_iff.1 hparse
    obtain ⟨ss, hss, hunplaced⟩ := hder.relocate (same_below s v)
    obtain ⟨rs, c', hahead, hrun⟩ := kept hs hdue (Reader.starts_below hv)
    have hspelled : c'.Spelled := by
      intro t ht
      rw [hahead] at ht
      exact Scanner.spelled_ahead _ t ht
    obtain ⟨hrest, -⟩ := (Grammar.run_program_iff hspelled ss).2 ⟨d, hd, by rw [hahead]; exact hss⟩
    have hstatements : (parse (s ++ "\n" ++ v)).1.statements = rs ++ ss := hrest ▸ hrun
    rw [hstatements]
    rcases ss with _ | ⟨σ', _ | ⟨σ₁, ss⟩⟩
    · cases hunplaced
    · exact ⟨σ', by simp, (List.cons.inj hunplaced).1⟩
    · cases (List.cons.inj hunplaced).2

/-- A declaration that breaks off before its `=` does no harm to the statement below it. -/
theorem last_statement_below_var : '\x7b' ∉ "var x 5".toList ∧ ∀ v σ, BeginsStatement v →
    parse v = (⟨[σ]⟩, []) →
      ∃ σ' ∈ (parse ("var x 5" ++ "\n" ++ v)).1.statements.getLast?, σ'.unplaced = σ.unplaced := by
  have hplain : '\x7b' ∉ "var x 5".toList := by decide +kernel
  refine ⟨hplain, (last_statement_iff hplain).2 fun hdue => ?_⟩
  have hlast : (readTo ⟨0, 0⟩ "var x 5").2.errors.back? =
      some ⟨.unexpected .assign .integer, ⟨1, 7⟩⟩ := by decide +kernel
  obtain ⟨d, hd, hd'⟩ := hdue ⟨0, 0⟩
  rw [hlast] at hd
  cases hd
  rcases hd' with h | h <;> cases h

/-- An operator that lacks its second operand takes the whole `return` statement below it. -/
theorem return_lost_below_operator :
    parse "return 1" =
      (⟨[.ret ⟨.returnWord, "return", ⟨1, 1⟩⟩ (some (.integer ⟨.integer, "1", ⟨1, 8⟩⟩ 1))]⟩, []) ∧
    parse ("1 +" ++ "\n" ++ "return 1") = (⟨[]⟩, [⟨.noOperand .returnWord, ⟨2, 1⟩⟩]) := by
  decide +kernel

end Scriptlet
