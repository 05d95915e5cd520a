/-
  Braces, counted; and the tokens that recovery passes over.
-/
import Mathlib.Data.List.Infix
import Scriptlet.Proofs.Reading.Keeps
import Scriptlet.Proofs.Recovery.Rounds

namespace Scriptlet

open Grammar (script)

/-- A brace, on either side of a block. -/
def Kind.isBrace : Kind → Bool
  | openBrace | closeBrace => true
  | _ => false

/-- The tokens from the closing brace of the block that is `n` levels further out, by counting
    braces. -/
def closing? : Nat → List Token → Option (List Token)
  | _, [] => none
  | n, t :: ts =>
    match t.kind, n with
    | .openBrace, n => closing? (n + 1) ts
    | .closeBrace, 0 => some (t :: ts)
    | .closeBrace, n + 1 => closing? n ts
    | _, n => closing? n ts

section

variable {n m : Nat} {t : Token} {ts us xs : List Token}

theorem closing?_openBrace (h : t.kind = .openBrace) :
    closing? n (t :: ts) = closing? (n + 1) ts := by
  simp only [closing?, h]

theorem closing?_zero_closeBrace (h : t.kind = .closeBrace) :
    closing? 0 (t :: ts) = some (t :: ts) := by
  simp only [closing?, h]

theorem closing?_succ_closeBrace (h : t.kind = .closeBrace) :
    closing? (n + 1) (t :: ts) = closing? n ts := by
  simp only [closing?, h]

theorem closing?_of_not_isBrace (h : t.kind.isBrace = false) :
    closing? n (t :: ts) = closing? n ts := by
  generalize hk : t.kind = k at h
  cases k <;> first | exact Bool.noConfusion h | simp only [closing?, hk]

/-- What counting finds is a closing brace. -/
theorem closing?_eq_some (h : closing? n ts = some us) :
    ∃ t rest, us = t :: rest ∧ t.kind = .closeBrace := by
  fun_induction closing? n ts with
  | case1 => cases h
  | case2 _ _ _ _ ih => exact ih h
  | case3 t ts hk => cases h; exact ⟨t, ts, rfl, hk⟩
  | case4 _ _ _ _ ih => exact ih h
  | case5 _ _ _ _ _ _ ih => exact ih h

theorem closing?_suffix (h : closing? n ts = some us) : us <:+ ts := by
  fun_induction closing? n ts with
  | case1 => cases h
  | case2 _ _ _ _ ih => exact (ih h).trans (List.suffix_cons _ _)
  | case3 t ts _ => cases h; exact List.suffix_refl _
  | case4 _ _ _ _ ih => exact (ih h).trans (List.suffix_cons _ _)
  | case5 _ _ _ _ _ _ ih => exact (ih h).trans (List.suffix_cons _ _)

/-- The brace of a block further out comes after the one of the block inside. -/
theorem closing?_succ (h : closing? (m + n + 1) ts = some us) :
    ∃ t rest, closing? m ts = some (t :: rest) ∧ closing? n rest = some us := by
  induction ts generalizing m with
  | nil => cases h
  | cons t ts ih =>
    cases hk : t.kind.isBrace with
    | false =>
      rw [closing?_of_not_isBrace hk] at h ⊢
      exact ih h
    | true =>
      obtain ho | hc : t.kind = .openBrace ∨ t.kind = .closeBrace := by
        revert hk
        cases t.kind <;> simp [Kind.isBrace]
      · rw [closing?_openBrace ho] at h ⊢
        exact ih (by rwa [show m + 1 + n + 1 = m + n + 1 + 1 by omega])
      · rw [closing?_succ_closeBrace hc] at h
        cases m with
        | zero => exact ⟨t, ts, closing?_zero_closeBrace hc, by rwa [Nat.zero_add] at h⟩
        | succ m =>
          rw [closing?_succ_closeBrace hc]
          exact ih (by rwa [show m + n + 1 = m + 1 + n by omega])

end

/-! ## What recovery passes over -/

/-- What recovery passes over from the first of the tokens on: up to a `;`, or to where a `\x7d` or
    the start of a statement comes next. -/
def passedOver : List Token → List Token
  | [] => []
  | t :: ts =>
    t :: if t.kind.isTerminator || firstKind ts = .closeBrace ||
      script.startsStatement (firstKind ts) then [] else passedOver ts

/-- What recovery from the diagnostic passes over, where the first of the tokens is the one that it
    is about. A token that another one is due for is the next one, so that recovery may stop before
    it. Any other token that is wrong is the current one, and is passed over in any case. -/
def Diagnostic.passedOver (d : Diagnostic) (ts : List Token) : List Token :=
  match d.fault with
  | .unexpected .. =>
    if firstKind ts = .closeBrace || script.startsStatement (firstKind ts) then []
    else Scriptlet.passedOver ts
  | _ => Scriptlet.passedOver ts

theorem Diagnostic.passedOver_unexpected {k g : Kind} {p : Position} {t : Token} {ts : List Token}
    (h : ¬ (t.kind = .closeBrace || script.startsStatement t.kind)) :
    Diagnostic.passedOver ⟨.unexpected k g, p⟩ (t :: ts) = Scriptlet.passedOver (t :: ts) :=
  if_neg h

/-- Among the tokens `ts`, recovery from the diagnostic passes over no brace. -/
def Diagnostic.SparesBraces (d : Diagnostic) (ts : List Token) : Prop :=
  ∀ us ∈ ts.tails, us.head?.map (·.position) = some d.position →
    ∀ t ∈ d.passedOver us, t.kind.isBrace = false

instance (d : Diagnostic) (ts : List Token) : Decidable (d.SparesBraces ts) :=
  inferInstanceAs (Decidable (∀ us ∈ ts.tails, _ → ∀ t ∈ d.passedOver us, _))

/-- The tokens `xs` are the last ones of `ts`, and go on to the closing brace at the head of
    `us`. -/
structure Within (ts us xs : List Token) : Prop where
  suffix : xs <:+ ts
  closing : closing? 0 xs = some us

namespace Within

variable {t : Token} {ts us xs : List Token} {r : Reader}

theorem tail (h : Within ts us (t :: xs)) (ht : t.kind.isBrace = false) : Within ts us xs where
  suffix := (List.suffix_cons t xs).trans h.suffix
  closing := by rw [← h.closing, closing?_of_not_isBrace ht]

theorem ne_nil (h : Within ts us xs) : xs ≠ [] := by
  rintro rfl
  cases h.closing

/-- Recovery that passes over no brace stays within the block. -/
theorem advance_synchronize (h : Within ts us r.ahead)
    (hplain : ∀ t ∈ passedOver r.ahead, t.kind.isBrace = false) :
    Within ts us (r.synchronize script.startsStatement).advance.ahead := by
  fun_induction Reader.synchronize script.startsStatement r with
  | case1 r hr => exact absurd hr h.ne_nil
  | case2 r t rest hr hstop =>
    rw [hr] at h hplain
    rw [Reader.ahead_advance, hr]
    exact h.tail (hplain t (by simp [passedOver]))
  | case3 r t rest hr hstop ih =>
    rw [hr] at h hplain
    rw [Reader.kind_next_of_ahead hr] at hstop
    rw [passedOver, if_neg hstop] at hplain
    have hadvance : r.advance.ahead = rest := by rw [Reader.ahead_advance, hr]; rfl
    refine ih ?_ ?_
    · rw [hadvance]
      exact h.tail (hplain t (by simp))
    · rw [hadvance]
      exact fun u hu => hplain u (by simp [hu])

end Within

end Scriptlet
