/-
  A scanner remembers nothing but its place: neither the requests before, nor
  the text before a blank.
-/
import Scriptlet.Proofs.Text.Layout

namespace Scriptlet

/-! ## Requests -/

/-- A way to ask a scanner for what comes next. -/
inductive Ask where
  /-- for a token -/
  | token
  /-- for an item of an iteration -/
  | item
deriving DecidableEq, Repr

/-- What one who asks is shown of a token. -/
def Ask.shows : Ask → Token → Option Token
  | token, t => some t
  | item, t => if t.kind = .eof then none else some t

namespace Scanner

/-- Reads what is asked for. -/
def ask (s : Scanner) : Ask → Option Token × Scanner
  | .token => (some s.next.1, s.next.2)
  | .item => s.item

theorem ask_eq (s : Scanner) (a : Ask) : s.ask a = (a.shows s.next.1, s.next.2) := by
  cases a <;> rfl

/-- The answers to requests, one after another. -/
def answers (s : Scanner) : List Ask → List (Option Token)
  | [] => []
  | a :: as => (s.ask a).1 :: (s.ask a).2.answers as

theorem token_next (s : Scanner) (n : ℕ) : s.next.2.token n = s.token (n + 1) := by
  rw [token, token, later_succ]

/-- **The answers are the tokens in order, however they are asked for.** -/
theorem answers_eq (s : Scanner) (as : List Ask) :
    s.answers as = as.mapIdx fun n a => a.shows (s.token n) := by
  induction as generalizing s with
  | nil => rfl
  | cons a as ih =>
    rw [answers, ih, List.mapIdx_cons, ask_eq]
    simp only [token_next]
    rfl

/-- The tokens of a text, and then its end token for ever. -/
theorem token_ofText (text : String) (n : ℕ) :
    (ofText text).token n = (tokenize text).getD n (.eof (ofText text).finish) := by
  rw [token_eq, tokenize, List.headD_eq_head?_getD, List.head?_drop, List.getD_eq_getElem?_getD]
  by_cases hn : n < (ofText text).ahead.length
  · rw [List.getElem?_append_left hn]
  · have hle := Nat.le_of_not_lt hn
    rw [List.getElem?_append_right hle, List.getElem?_eq_none hle]
    cases n - (ofText text).ahead.length <;> rfl

end Scanner

/-! ## A blank between two texts -/

theorem Scanner.finish_followedBy (s : Scanner) (cs : List Char) :
    (s.followedBy cs).finish = s.finish.after cs :=
  Position.after_append _ _ _

/-- The tokens of a text that begins somewhere else. -/
theorem tokenize_shift {text : String} (base : Position) (h : text.length + 1 < 2 ^ 32) :
    (Scanner.mk text.toList base).ahead ++ [.eof (Scanner.mk text.toList base).finish] =
      (tokenize text).map (Token.move base.shift) := by
  have hmoves : (Scanner.ofText text).Moves base.shift base :=
    Scanner.moves_shift base (by rwa [String.length_toList])
  have hahead : (Scanner.mk text.toList base).ahead =
      (Scanner.ofText text).ahead.map (Token.move base.shift) := hmoves.ahead
  have hfinish : (Scanner.mk text.toList base).finish = base.shift (Scanner.ofText text).finish :=
    hmoves.finish
  rw [hahead, hfinish, tokenize, List.map_append]
  rfl

/-- **A blank separates texts**: with one between them, the tokens are those of the first text, and
    then those of the second from the place where it begins. And the tokens of a text do not depend
    on how they are asked for. -/
theorem tokenize_append_blank {s₁ s₂ : String} {w : Char} (hw : w ∈ blankChars)
    (h : (s₁ ++ String.singleton w ++ s₂).length < 2 ^ 32) :
    tokenize (s₁ ++ String.singleton w ++ s₂) = (tokenize s₁).dropLast ++
      (tokenize s₂).map (Token.move (Position.start.after (s₁.toList ++ [w])).shift) ∧
    ∀ text as, (Scanner.ofText text).answers as = as.mapIdx fun n a =>
      a.shows ((tokenize text).getD n (.eof (Scanner.ofText text).finish)) := by
  constructor
  · have htext : Scanner.ofText (s₁ ++ String.singleton w ++ s₂) =
        (Scanner.ofText s₁).followedBy (w :: s₂.toList) := by
      simp [Scanner.ofText, Scanner.followedBy]
    have hbase : Position.start.after (s₁.toList ++ [w]) = (Scanner.ofText s₁).finish.step w :=
      Position.after_append _ _ _
    have hshort : s₂.length + 1 < 2 ^ 32 := by
      simp only [String.length_append, String.length_singleton] at h
      omega
    rw [hbase, ← tokenize_shift _ hshort, tokenize, tokenize, htext,
      Scanner.ahead_followedBy (isBlank_iff.2 hw), Scanner.finish_followedBy, List.dropLast_concat,
      List.append_assoc]
    rfl
  · intro text as
    simp only [Scanner.answers_eq, Scanner.token_ofText]

/-- A line feed between two texts that are cut within an operator and a line, and requests beyond
    the end. -/
theorem tokenize_append_blank_lines : '\n' ∈ blankChars ∧
    ("a =" ++ String.singleton '\n' ++ "= 1\r\n\t@ ").length < 2 ^ 32 ∧
    tokenize ("a =" ++ String.singleton '\n' ++ "= 1\r\n\t@ ") = (tokenize "a =").dropLast ++
      (tokenize "= 1\r\n\t@ ").map (Token.move (Position.shift ⟨2, 1⟩)) ∧
    (Scanner.ofText "a =").answers [.item, .token, .item, .token, .item] =
      [some ⟨.identifier, "a", ⟨1, 1⟩⟩, some ⟨.assign, "=", ⟨1, 3⟩⟩, none, some (.eof ⟨1, 4⟩),
        none] := by
  have hw : '\n' ∈ blankChars := by decide
  have h : ("a =" ++ String.singleton '\n' ++ "= 1\r\n\t@ ").length < 2 ^ 32 := by decide
  obtain ⟨htokens, hanswers⟩ := tokenize_append_blank hw h
  refine ⟨hw, h, htokens, ?_⟩
  rw [hanswers]
  decide +kernel

end Scriptlet
