import Mathlib.Data.List.Induction
import Mathlib.Data.Nat.Digits.Defs
import MissionScript.Parameter

/-!
# MissionScript.Proofs.Text.Decimals

What written numbers stand for, apart from how they are read.

The program reads digits from the left with an accumulator. `decimalValue` says instead that the last
digit counts ones and each digit before it ten times as much, and three notions are built on it:

* `Decimal` — digits with or without a minus sign, the numbers that the lexer makes tokens of;
* `Numeral` — these, or digits behind a plus sign: everything that is accepted as a number of 32 bits;
* digits alone, which is how the placeholders of a template are numbered.

Each has a lemma that says what the program makes of such a text (`Decimal.ofText?_eq`,
`Number.isSome_ofText?_iff`, `Number.digits?_eq_some_iff`), so no later proof has to look at the
accumulator.
-/

namespace MissionScript

/-! ### Digits -/

/-- The number that decimal digits stand for: the last digit counts ones, the one before it tens. -/
def decimalValue (digits : List Char) : Nat :=
  Nat.ofDigits 10 (digits.reverse.map fun d => d.toNat - '0'.toNat)

theorem ofDigitChars_eq_decimalValue (digits : List Char) :
    Nat.ofDigitChars 10 digits 0 = decimalValue digits := by
  induction digits using List.reverseRecOn with
  | nil => rfl
  | append_singleton digits d ih =>
      rw [Nat.ofDigitChars_append, ih, Nat.ofDigitChars_cons, Nat.ofDigitChars_nil,
        decimalValue.eq_def (digits ++ [d]), List.reverse_concat, List.map_cons, Nat.ofDigits_cons,
        ← decimalValue, Nat.add_comm]

theorem digits?_eq_decimalValue {digits : List Char} (hne : digits ≠ [])
    (hdigits : ∀ d ∈ digits, d.isDigit = true) : Number.digits? digits = some (decimalValue digits) := by
  have hall : digits.all Char.isDigit = true := List.all_eq_true.mpr hdigits
  rw [Number.digits?, if_neg (by simp [hne, hall]), ofDigitChars_eq_decimalValue]

/-- Digits are read as the number they stand for, and nothing else is read as digits. -/
theorem Number.digits?_eq_some_iff {cs : List Char} {n : Nat} :
    Number.digits? cs = some n ↔
      cs ≠ [] ∧ (∀ d ∈ cs, d.isDigit = true) ∧ decimalValue cs = n := by
  constructor
  · intro h
    by_cases hdigits : cs ≠ [] ∧ ∀ d ∈ cs, d.isDigit = true
    · rw [digits?_eq_decimalValue hdigits.1 hdigits.2] at h
      exact ⟨hdigits.1, hdigits.2, Option.some.inj h⟩
    · rw [Number.digits?, if_pos (by simpa [Classical.or_iff_not_imp_left] using hdigits)] at h
      cases h
  · rintro ⟨hne, hdigits, rfl⟩
    exact digits?_eq_decimalValue hne hdigits

/-! ### Numbers with a sign -/

/-- The characters are decimal digits, at least one, with or without a minus sign, and stand for the integer. -/
inductive Decimal : List Char → Int → Prop
  | plain {digits : List Char} (hne : digits ≠ []) (hdigits : ∀ d ∈ digits, d.isDigit = true) :
      Decimal digits (decimalValue digits)
  | negative {digits : List Char} (hne : digits ≠ []) (hdigits : ∀ d ∈ digits, d.isDigit = true) :
      Decimal ('-' :: digits) (-(decimalValue digits : Int))

theorem Decimal.signed?_eq {cs : List Char} {n : Int} (h : Decimal cs n) :
    Number.signed? cs = some n := by
  cases h with
  | plain hne hdigits =>
      have hdigit : ∀ {c : Char} {rest : List Char}, cs = c :: rest → c.isDigit = true :=
        fun heq => hdigits _ (heq ▸ List.mem_cons_self)
      unfold Number.signed?
      -- a sign is no digit
      split
      · exact absurd (hdigit rfl) (by decide)
      · exact absurd (hdigit rfl) (by decide)
      · rw [digits?_eq_decimalValue hne hdigits]
        rfl
  | negative hne hdigits =>
      rw [Number.signed?, digits?_eq_decimalValue hne hdigits]
      rfl

theorem Decimal.unique {cs : List Char} {m n : Int} (h : Decimal cs m) (h' : Decimal cs n) : m = n :=
  Option.some.inj (h.signed?_eq.symm.trans h'.signed?_eq)

/-- A number as the program reads it: a decimal number, or decimal digits behind a plus sign. The lexer
never makes a token of the latter, but a token may be made without it. -/
inductive Numeral : List Char → Int → Prop
  | decimal {cs : List Char} {n : Int} (h : Decimal cs n) : Numeral cs n
  | positive {digits : List Char} (hne : digits ≠ []) (hdigits : ∀ d ∈ digits, d.isDigit = true) :
      Numeral ('+' :: digits) (decimalValue digits)

theorem Number.signed?_eq_some_iff {cs : List Char} {n : Int} :
    Number.signed? cs = some n ↔ Numeral cs n := by
  constructor
  · intro h
    unfold Number.signed? at h
    -- a minus sign, a plus sign, or none
    split at h
    all_goals
      obtain ⟨size, hsize, rfl⟩ := Option.map_eq_some_iff.mp h
      obtain ⟨m, hm, hcast⟩ := Option.bind_eq_some_iff.mp hsize
      obtain ⟨hne, hdigits, rfl⟩ := Number.digits?_eq_some_iff.mp hm
      cases hcast
    · exact .decimal (.negative hne hdigits)
    · exact .positive hne hdigits
    · exact .decimal (.plain hne hdigits)
  · intro h
    cases h with
    | decimal h => exact h.signed?_eq
    | positive hne hdigits =>
        rw [Number.signed?, digits?_eq_decimalValue hne hdigits]
        rfl

/-! ### Numbers of 32 bits -/

theorem Number.fits_iff {n : Int} : Number.fits n = true ↔ -0x80000000 ≤ n ∧ n < 0x80000000 := by
  rw [Number.fits, Bool.and_eq_true, decide_eq_true_eq, decide_eq_true_eq, Number.least,
    Number.greatest]
  omega

/-- A written number is read if it has 32 bits. -/
theorem Decimal.ofText?_eq {text : String} {n : Int} (h : Decimal text.toList n) :
    Number.ofText? text = if -0x80000000 ≤ n ∧ n < 0x80000000 then some n else none := by
  rw [Number.ofText?, h.signed?_eq, Option.filter]
  exact if_congr Number.fits_iff rfl rfl

/-- A text is read as a number exactly when it is one and has 32 bits. -/
theorem Number.isSome_ofText?_iff {text : String} :
    (Number.ofText? text).isSome = true ↔
      ∃ n, Numeral text.toList n ∧ -0x80000000 ≤ n ∧ n < 0x80000000 := by
  simp only [Option.isSome_iff_exists, Number.ofText?, Option.filter_eq_some_iff, Number.signed?_eq_some_iff,
    Number.fits_iff]

end MissionScript
