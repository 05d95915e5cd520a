/-
  Every diagnostic of a text stands at one of its tokens, and is true of it.
-/
import Mathlib.Algebra.Group.Nat.Defs
import Scriptlet.Proofs.Language.Binding
import Scriptlet.Proofs.Reading.Invariant
import Scriptlet.Proofs.Text.Spelling
import Scriptlet.Session

namespace Scriptlet

open Grammar (script)

/-- At the token the fault is there. -/
inductive Token.Grounds (t : Token) : Fault → Prop
  /-- The token is of another kind than is due. -/
  | unexpected {k : Kind} : t.kind ≠ k → t.Grounds (.unexpected k t.kind)
  /-- The language has no operand that begins with the token. -/
  | noOperand : script.operand t.kind = none → t.Grounds (.noOperand t.kind)
  /-- The token is an integer above the limit. -/
  | unreadableInteger : t.kind = .integer → 2 ^ 63 - 1 < t.decimal →
      t.Grounds (.unreadableInteger t.literal)
  | tooDeep : t.Grounds (.tooDeep 128)

/-- One of the tokens, which stands at the place of the diagnostic, is grounds for it. -/
def Diagnostic.Grounded (ts : List Token) (d : Diagnostic) : Prop :=
  ∃ t ∈ ts, d.position = t.position ∧ t.Grounds d.fault

/-- The reader is on one of the tokens `ts`, the last of which is the end token, and all
    diagnostics have grounds in them. -/
structure Reader.Grounded (ts : List Token) (r : Reader) : Prop where
  suffix : r.ahead ++ [.eof r.finish] <:+ ts
  spelled : ∀ t ∈ r.ahead, t.Spelled
  errors : ∀ d ∈ r.errors, d.Grounded ts

namespace Reader.Grounded

variable {ts : List Token} {r : Reader}

theorem current_mem (h : r.Grounded ts) : r.current ∈ ts := by
  refine h.suffix.subset ?_
  unfold current
  cases r.ahead <;> simp

theorem next_mem (h : r.Grounded ts) : r.next ∈ ts := by
  refine h.suffix.subset ?_
  unfold next
  rcases r.ahead with _ | ⟨c, _ | ⟨t, rest⟩⟩ <;> simp

theorem advance (h : r.Grounded ts) : r.advance.Grounded ts where
  suffix := by
    refine List.IsSuffix.trans ?_ h.suffix
    rw [ahead_advance, finish_advance]
    cases r.ahead with
    | nil => exact List.suffix_refl _
    | cons t rest => exact List.suffix_cons t _
  spelled t ht := h.spelled t (List.mem_of_mem_tail ht)
  errors := h.errors

theorem report {d : Diagnostic} (h : r.Grounded ts) (hd : d.Grounded ts) :
    (r.report d).Grounded ts where
  suffix := h.suffix
  spelled := h.spelled
  errors e he := by
    rcases Array.mem_push.1 he with he | rfl
    · exact h.errors e he
    · exact hd

/-- An integer that cannot be read is above the limit. -/
theorem largest_lt {e : Numeral.Problem} (h : r.Grounded ts) (hk : r.current.kind = .integer)
    (he : Numeral.integer r.current.literal.toList = .error e) :
    Numeral.largest < r.current.decimal := by
  rcases hahead : r.ahead with _ | ⟨t, rest⟩
  · rw [current, hahead] at hk
    cases hk
  · have hcurrent : r.current = t := current_of_ahead hahead
    have hspelled : t.Spelled := h.spelled t (by simp [hahead])
    rw [hcurrent] at hk he ⊢
    rw [hspelled.integer_eq hk] at he
    by_contra hle
    rw [if_pos (Nat.le_of_not_lt hle)] at he
    cases he

end Reader.Grounded

/-- While a text is read, all diagnostics have grounds in it. -/
def Grammar.grounded (ts : List Token) : script.Invariant where
  Holds := Reader.Grounded ts
  Tells d _ := d.Grounded ts
  advance h := h.advance
  report h hd := h.report hd
  unexpected h hk := ⟨_, h.next_mem, rfl, .unexpected hk⟩
  unclosed {r} h hk := by
    refine ⟨_, h.current_mem, rfl, ?_⟩
    have hgrounds : r.current.Grounds (.unexpected .closeBrace r.current.kind) :=
      .unexpected (by rw [hk]; decide)
    rwa [hk] at hgrounds
  noOperand h hnone := ⟨_, h.current_mem, rfl, .noOperand hnone⟩
  unreadable {r e} h hrule he := by
    have hk : r.current.kind = .integer := List.mem_singleton.1 (OperandRule.mem_kinds hrule)
    exact ⟨_, h.current_mem, rfl, .unreadableInteger hk (h.largest_lt hk he)⟩
  tooDeep h := ⟨_, h.current_mem, rfl, .tooDeep⟩

instance (ts : List Token) : (Grammar.grounded ts).Recording :=
  ⟨fun _ h => ⟨h.suffix, h.spelled, h.errors⟩⟩

theorem Reader.grounded_ofText (source : String) :
    (Reader.ofScanner (.ofText source)).Grounded (tokenize source) :=
  ⟨List.suffix_refl _, Scanner.spelled_ahead _, by simp [Reader.ofScanner]⟩

/-- A diagnostic stands at a token of its text. -/
theorem exists_token_of_mem_parse {source : String} {d : Diagnostic} (hd : d ∈ (parse source).2) :
    ∃ t ∈ tokenize source, d.position = t.position := by
  have hend := (Grammar.maintains_program (I := Grammar.grounded (tokenize source))
    (script.expr Grammar.nestingLimit)).holds (Reader.grounded_ofText source)
  obtain ⟨t, ht, hposition, -⟩ := hend.errors d (Array.mem_toList_iff.1 hd)
  exact ⟨t, ht, hposition⟩

/-- **Every diagnostic of a text is about one of its tokens, and is true of it.** -/
theorem diagnostics_grounded (source : String) :
    ∀ d ∈ (parse source).2, ∃ t ∈ tokenize source, d.position = t.position ∧ t.Grounds d.fault := by
  have hend : ((script.program (script.expr Grammar.nestingLimit)).run
      (.ofScanner (.ofText source))).2.Grounded (tokenize source) :=
    (Grammar.maintains_program (I := Grammar.grounded (tokenize source)) _).holds
      (Reader.grounded_ofText source)
  intro d hd
  exact hend.errors d (Array.mem_toList_iff.1 hd)

/-- A block that is open at the end of the text, after three other faults. -/
theorem diagnostics_grounded_unclosed :
    let source := "f(1 2; return 9223372036854775808; function() \x7b @"
    let d : Diagnostic := ⟨.unexpected .closeBrace .eof, ⟨1, 50⟩⟩
    d ∈ (parse source).2 ∧ ∃ t ∈ tokenize source, d.position = t.position ∧ t.Grounds d.fault := by
  intro source d
  have hd : d ∈ (parse source).2 := by decide +kernel
  exact ⟨hd, diagnostics_grounded source d hd⟩

end Scriptlet
