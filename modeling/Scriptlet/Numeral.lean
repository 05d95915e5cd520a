/-
  Decimal numerals and the numbers they denote, within a limit.

  * `Numeral.natural limit` reads digits after an optional plus sign,
    `Numeral.integer` also a minus sign, within the signed 64-bit range.
    Leading zeros are allowed.
  * Digits are read from the left, and the first one that is no digit, or
    that takes the number over the limit, decides what is wrong.
  * `Numeral.digits_eq` is the closed form on digits: the number is
    `Nat.ofDigitChars 10`, refused exactly above the limit.
-/
namespace Scriptlet.Numeral

/-- What keeps a text from being a numeral. -/
inductive Problem where
  /-- There is nothing to read. -/
  | empty
  /-- Something other than a digit stands where a digit is due. -/
  | notADigit
  /-- The number is above the limit. -/
  | tooLarge
deriving DecidableEq, Repr

/-- The wording of a problem. -/
def Problem.message : Problem → String
  | empty => "cannot parse integer from empty string"
  | notADigit => "invalid digit found in string"
  | tooLarge => "number too large to fit in target type"

/-- The number denoted by the digits read so far, `n`, and those to come. -/
def digits (limit : Nat) : Nat → List Char → Except Problem Nat
  | n, [] => .ok n
  | n, c :: cs =>
    if c.isDigit then
      let n' := 10 * n + (c.toNat - '0'.toNat)
      if n' ≤ limit then digits limit n' cs else .error .tooLarge
    else .error .notADigit

/-- The number, at most `limit`, denoted by digits with an optional plus sign. -/
def natural (limit : Nat) : List Char → Except Problem Nat
  | [] => .error .empty
  | ['+'] => .error .notADigit
  | '+' :: cs => digits limit 0 cs
  | cs => digits limit 0 cs

/-- The largest integer of the language. -/
def largest : Nat := Nat.pow 2 63 - 1

/-- The integer, of 64 bits with a sign, denoted by digits with an optional sign. -/
def integer : List Char → Except Problem Int
  | '-' :: c :: cs => (fun n => -(n : Int)) <$> digits (largest + 1) 0 (c :: cs)
  | cs => (fun n => (n : Int)) <$> natural largest cs

/-- Digits without a sign are read as such. -/
theorem natural_of_digits {limit : Nat} {cs : List Char} (hne : cs ≠ [])
    (hcs : ∀ c ∈ cs, c.isDigit = true) : natural limit cs = digits limit 0 cs := by
  unfold natural
  split
  · next => exact absurd rfl hne
  · next => exact absurd (hcs '+' (List.mem_cons_self ..)) (by decide)
  · next => exact absurd (hcs '+' (List.mem_cons_self ..)) (by decide)
  · rfl

theorem le_ofDigitChars (cs : List Char) (n : Nat) : n ≤ Nat.ofDigitChars 10 cs n := by
  induction cs generalizing n with
  | nil => exact Nat.le_refl n
  | cons c cs ih =>
    refine Nat.le_trans ?_ (ih (10 * n + (c.toNat - '0'.toNat)))
    omega

/-- Digits denote their decimal value, and are refused exactly when it is above the limit. -/
theorem digits_eq {limit n : Nat} {cs : List Char} (hn : n ≤ limit)
    (hcs : ∀ c ∈ cs, c.isDigit = true) :
    digits limit n cs =
      if Nat.ofDigitChars 10 cs n ≤ limit then .ok (Nat.ofDigitChars 10 cs n)
      else .error .tooLarge := by
  induction cs generalizing n with
  | nil => simp [digits, Nat.ofDigitChars, hn]
  | cons c cs ih =>
    have hc := hcs c (List.mem_cons_self ..)
    have hle := le_ofDigitChars cs (10 * n + (c.toNat - '0'.toNat))
    have hstep : Nat.ofDigitChars 10 (c :: cs) n =
        Nat.ofDigitChars 10 cs (10 * n + (c.toNat - '0'.toNat)) := rfl
    simp only [digits, hc, if_true, hstep]
    split
    · next h => exact ih h fun d hd => hcs d (List.mem_cons_of_mem _ hd)
    · next h => rw [if_neg]; omega

end Scriptlet.Numeral
