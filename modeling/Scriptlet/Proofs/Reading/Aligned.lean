/-
  The layout of a text makes no difference to what is read: texts of the same
  lexemes are read at the same pace.
-/
import Scriptlet.Proofs.Language.Relocation
import Scriptlet.Proofs.Reading.Simulation
import Scriptlet.Session

namespace Scriptlet

open Grammar (script nestingLimit)

/-- The tokens are of the same lexeme, and stand at the same index of `ts` and of `us`. -/
def Token.Corresponds (ts us : List Token) (t u : Token) : Prop :=
  t.lexeme = u.lexeme ∧ ∃ i : ℕ, ts[i]? = some t ∧ us[i]? = some u

/-- The readers are at the same index of the texts `ts` and `us`, which end at `f` and at `g`. The
    same lexemes are ahead of them, and they have reported the same faults of tokens that correspond
    to each other. -/
structure Reader.Aligned (ts us : List Token) (f g : Position) (r s : Reader) : Prop where
  index : ∃ read read', ts = read ++ r.ahead ∧ us = read' ++ s.ahead ∧ read.length = read'.length
  ahead : Same r.ahead s.ahead
  finish_left : r.finish = f
  finish_right : s.finish = g
  errors : List.Forall₂
    (Diagnostic.Matches (Token.Corresponds (ts ++ [.eof f]) (us ++ [.eof g])))
    r.errors.toList s.errors.toList

namespace Reader.Aligned

variable {ts us : List Token} {f g : Position} {r s : Reader}

/-- A reader stands on the token after those it has read, the end token included. -/
theorem getElem?_current (read : List Token) (r : Reader) :
    (read ++ r.ahead ++ [.eof r.finish])[read.length]? = some r.current := by
  rw [List.append_assoc, List.getElem?_append_right (Nat.le_refl _), Nat.sub_self, Reader.current]
  cases r.ahead <;> rfl

theorem lexeme_current (h : r.Aligned ts us f g s) : r.current.lexeme = s.current.lexeme := by
  have hahead := h.ahead
  unfold Reader.current
  cases hs : s.ahead with
  | nil =>
    rw [hs] at hahead
    rw [hahead.nil]
    rfl
  | cons u rest =>
    rw [hs] at hahead
    obtain ⟨t, rest', hr, hlexeme, -⟩ := hahead.cons
    rw [hr]
    exact hlexeme

theorem current (h : r.Aligned ts us f g s) :
    Token.Corresponds (ts ++ [.eof f]) (us ++ [.eof g]) r.current s.current := by
  obtain ⟨read, read', hts, hus, hlength⟩ := h.index
  refine ⟨h.lexeme_current, read.length, ?_, ?_⟩
  · rw [hts, ← h.finish_left]
    exact getElem?_current read r
  · rw [hus, ← h.finish_right, hlength]
    exact getElem?_current read' s

theorem ended (h : r.Aligned ts us f g s) : r.ahead = [] ↔ s.ahead = [] := by
  have hahead := h.ahead
  constructor
  · intro hr
    rw [hr] at hahead
    exact Same.nil hahead.symm
  · intro hs
    rw [hs] at hahead
    exact hahead.nil

/-- Neither text ends before the other. -/
theorem not_past : ¬ (r.Aligned ts us f g s ∧ r.ahead = [] ∧ s.ahead ≠ []) := by
  rintro ⟨h, hr, hs⟩
  exact hs (h.ended.1 hr)

theorem advance (h : r.Aligned ts us f g s) : r.advance.Aligned ts us f g s.advance := by
  obtain ⟨read, read', hts, hus, hlength⟩ := h.index
  have hahead := h.ahead
  refine ⟨?_, ?_, h.finish_left, h.finish_right, h.errors⟩
  · cases hs : s.ahead with
    | nil =>
      have hr := h.ended.2 hs
      refine ⟨read, read', ?_, ?_, hlength⟩
      · rw [hts, ahead_advance, hr, List.tail_nil]
      · rw [hus, ahead_advance, hs, List.tail_nil]
    | cons u rest =>
      rw [hs] at hahead
      obtain ⟨t, rest', hr, -⟩ := hahead.cons
      refine ⟨read ++ [t], read' ++ [u], ?_, ?_, ?_⟩
      · rw [hts, ahead_advance, hr, List.append_assoc]
        rfl
      · rw [hus, ahead_advance, hs, List.append_assoc]
        rfl
      · rw [List.length_append, List.length_append, hlength]
        rfl
  · rw [Same, ahead_advance, ahead_advance, List.map_tail, List.map_tail, hahead]

end Reader.Aligned

/-- Two texts of the same lexemes. -/
def Simulation.aligned (ts us : List Token) (f g : Position) : Simulation where
  Same := Token.Corresponds (ts ++ [.eof f]) (us ++ [.eof g])
  left := .unplaced
  right := .unplaced
  Level := Reader.Aligned ts us f g
  Inner := Reader.Aligned ts us f g
  Past r s := r.Aligned ts us f g s ∧ r.ahead = [] ∧ s.ahead ≠ []
  kind h := Token.kind_eq_of_lexeme h.1
  literal h := Token.literal_eq_of_lexeme h.1
  integer h := Token.unplaced_eq_of_lexeme h.1
  statement h := Token.unplaced_eq_of_lexeme h.1
  other h := Token.unplaced_eq_of_lexeme h.1
  level h := h
  current h := h.current
  next h := h.advance.current
  advance h := h.advance
  inner h _ := h
  inner_or_past h := .inl h
  ended h := h.ended
  past_ended h := h.2.1
  report h hde := by
    refine ⟨h.index, h.ahead, h.finish_left, h.finish_right, ?_⟩
    rw [Reader.errors_report, Reader.errors_report, Array.toList_push, Array.toList_push]
    exact List.rel_append h.errors (.cons hde .nil)
  kept a b h := ⟨h.index, h.ahead, h.finish_left, h.finish_right, h.errors⟩

section

variable {a b : String}

/-- Texts whose tokens are of the same lexemes are read from the same index. -/
theorem aligned_ofText (h : (tokenize a).map Token.lexeme = (tokenize b).map Token.lexeme) :
    (Reader.ofScanner (.ofText a)).Aligned (Scanner.ofText a).ahead (Scanner.ofText b).ahead
      (Scanner.ofText a).finish (Scanner.ofText b).finish (.ofScanner (.ofText b)) := by
  refine ⟨⟨[], [], rfl, rfl, rfl⟩, ?_, rfl, rfl, .nil⟩
  rw [tokenize, tokenize, List.map_append, List.map_append] at h
  exact List.append_cancel_right h

/-- **The layout of a text makes no difference to its meaning.** Where the tokens of two texts are
    of the same kinds and spellings, the programs are the same but for the places of tokens, and so
    are the diagnostics: each one stands at the token of the same index. -/
theorem parse_eq_of_lexemes
    (h : (tokenize a).map Token.lexeme = (tokenize b).map Token.lexeme) :
    Stmt.retokenAll .unplaced (parse a).1.statements =
        Stmt.retokenAll .unplaced (parse b).1.statements ∧
      (parse a).1.text = (parse b).1.text ∧
      List.Forall₂ (fun d e => d.fault = e.fault ∧ d.message = e.message ∧
        ∃ (i : ℕ) (t u : Token), (tokenize a)[i]? = some t ∧ (tokenize b)[i]? = some u ∧
          d.position = t.position ∧ e.position = u.position) (parse a).2 (parse b).2 := by
  have hpasses := (Simulation.aligned _ _ _ _).passes_program nestingLimit (aligned_ofText h)
  rw [parse_eq a, parse_eq b]
  generalize (script.program (script.expr nestingLimit)).run (.ofScanner (.ofText a)) = x
    at hpasses ⊢
  generalize (script.program (script.expr nestingLimit)).run (.ofScanner (.ofText b)) = y
    at hpasses ⊢
  cases hpasses with
  | @stopped as bs r s hss hrs _ =>
    have hstatements : Stmt.retokenAll .unplaced as = Stmt.retokenAll .unplaced bs :=
      Simulation.retokenAll_stmt hss
    refine ⟨hstatements, ?_, ?_⟩
    · exact congrArg ("\n".intercalate ·)
        (Stmt.texts_eq_of_retokenAll Retoken.keepsSpelling_unplaced hstatements)
    · refine List.Forall₂.imp ?_ (Reader.Aligned.errors hrs)
      rintro d e ⟨hfault, t, u, ⟨-, i, ht, hu⟩, hd, he⟩
      exact ⟨hfault, congrArg Fault.message hfault, i, t, u, ht, hu, hd, he⟩
  | past _ hpast => exact (Reader.Aligned.not_past hpast).elim
  | unclosed hpast _ => exact (Reader.Aligned.not_past hpast).elim

/-- Three faults on one line, and spread over many. -/
theorem parse_eq_of_lexemes_spread :
    let a := "var x=@;y=1;if(z)\x7bf(01);"
    let b := "var x\t= @ ;\n\n  y\n= 1;\r\nif (\n z )\n\n\x7bf ( 01\n)\t;\n"
    (tokenize a).map Token.lexeme = (tokenize b).map Token.lexeme ∧
      (parse b).1.text = "var x;\ny" ∧ (parse b).2.length = 3 := by
  intro a b
  have h : (tokenize a).map Token.lexeme = (tokenize b).map Token.lexeme := by decide +kernel
  obtain ⟨-, htext, herrors⟩ := parse_eq_of_lexemes h
  refine ⟨h, htext.symm.trans ?_, herrors.length_eq.symm.trans ?_⟩
  · decide +kernel
  · decide +kernel

end

end Scriptlet
