import Mathlib.Data.Nat.Digits.Defs
import Mathlib.Algebra.Order.BigOperators.Group.List

/-!
# Decimal text

Signed decimal numerals as the standard parsers of systems languages read them:
an optional sign, then one or more ASCII digits.  Printing is Lean's own
{lit}`toString` on integers, so a printed number has no leading zero and no
plus sign.

Main results:

- Theorem {lit}`parseInt_print`: parsing a printed integer returns it.
- Theorem {lit}`print_injective`: distinct integers print differently.
- Theorem {lit}`utf8ByteSize_print_le`: a 64-bit integer prints in at most
  twenty bytes.
-/

namespace Decimal

/-! ## Parsing -/

/-- One or more ASCII digits, most significant first. -/
def parseNat (digits : List Char) : Option Nat :=
  if digits ≠ [] ∧ digits.all Char.isDigit then
    some (Nat.ofDigitChars 10 digits 0)
  else none

/-- An optional sign followed by one or more ASCII digits. -/
def parseInt : List Char → Option Int
  | '-' :: rest => (parseNat rest).map fun n => -(n : Int)
  | '+' :: rest => (parseNat rest).map fun n => (n : Int)
  | digits => (parseNat digits).map fun n => (n : Int)

/-- An optional plus sign followed by one or more ASCII digits: the grammar of
an unsigned parser, for which a minus sign is an invalid digit. -/
def parseUnsigned : List Char → Option Nat
  | '+' :: rest => parseNat rest
  | digits => parseNat digits

/-- A 64-bit signed parse: a numeral outside the range is an overflow error. -/
def parseI64 (s : String) : Option Int :=
  (parseInt s.toList).filter fun n => decide (-(2 ^ 63) ≤ n ∧ n < 2 ^ 63)

/-- A 64-bit unsigned parse. -/
def parseU64 (s : String) : Option Nat :=
  (parseUnsigned s.toList).filter fun n => decide (n < 2 ^ 64)

/-! ## Printing and parsing agree -/

theorem parseNat_toDigits (n : Nat) : parseNat (Nat.toDigits 10 n) = some n := by
  have hdigits : (Nat.toDigits 10 n).all Char.isDigit = true := by
    rw [List.all_eq_true]
    intro c hc
    exact Nat.isDigit_of_mem_toDigits (by decide) (by decide) hc
  simp [parseNat, Nat.toDigits_ne_nil, hdigits, Nat.ofDigitChars_ten_toDigits]

/-- A positive number is printed without leading zeros. -/
theorem toDigits_head_ne_zero {n : Nat} (pos : 0 < n) :
    (Nat.toDigits 10 n).head? ≠ some '0' := by
  induction n using Nat.strong_induction_on with
  | _ n ih =>
      by_cases small : n < 10
      · rw [Nat.toDigits_of_lt_base small]
        have table : ∀ k < 10, 0 < k → [Nat.digitChar k].head? ≠ some '0' := by decide
        exact table n small pos
      · have step := Nat.toDigits_of_base_le (b := 10) (by decide) (Nat.le_of_not_lt small)
        have quotient : 0 < n / 10 := by omega
        rw [step, List.head?_append_of_ne_nil _ Nat.toDigits_ne_nil]
        exact ih (n / 10) (by omega) quotient

/-- A run of digits starts with neither sign. -/
theorem toDigits_head_isDigit {n : Nat} {c : Char} {rest : List Char}
    (h : Nat.toDigits 10 n = c :: rest) : c.isDigit = true :=
  Nat.isDigit_of_mem_toDigits (b := 10) (n := n) (by decide) (by decide) (by simp [h])

theorem parseUnsigned_toDigits (n : Nat) :
    parseUnsigned (Nat.toDigits 10 n) = some n := by
  have hparse := parseNat_toDigits n
  cases hlist : Nat.toDigits 10 n with
  | nil => exact absurd hlist Nat.toDigits_ne_nil
  | cons c rest =>
      have hdigit := toDigits_head_isDigit hlist
      rw [hlist] at hparse
      unfold parseUnsigned
      split
      · rename_i heq
        obtain ⟨rfl, rfl⟩ := List.cons.inj heq
        exact absurd hdigit (by decide)
      · exact hparse

theorem parseInt_toDigits (n : Nat) :
    parseInt (Nat.toDigits 10 n) = some (n : Int) := by
  have hparse := parseNat_toDigits n
  cases hlist : Nat.toDigits 10 n with
  | nil => exact absurd hlist Nat.toDigits_ne_nil
  | cons c rest =>
      have hdigit := toDigits_head_isDigit hlist
      rw [hlist] at hparse
      unfold parseInt
      split
      · rename_i heq
        obtain ⟨rfl, rfl⟩ := List.cons.inj heq
        exact absurd hdigit (by decide)
      · rename_i heq
        obtain ⟨rfl, rfl⟩ := List.cons.inj heq
        exact absurd hdigit (by decide)
      · simp [hparse]

theorem toList_print_ofNat (n : Nat) :
    (toString (n : Int)).toList = Nat.toDigits 10 n := by
  change (Nat.repr n).toList = _
  exact Nat.toList_repr

theorem toList_print_negSucc (n : Nat) :
    (toString (Int.negSucc n)).toList = '-' :: Nat.toDigits 10 (n + 1) := by
  change ("-" ++ Nat.repr (n + 1)).toList = _
  rw [String.toList_append, Nat.toList_repr]
  rfl

/-- Parsing a printed integer returns it. -/
theorem parseInt_print (n : Int) : parseInt (toString n).toList = some n := by
  cases n with
  | ofNat n =>
      rw [Int.ofNat_eq_natCast, toList_print_ofNat, parseInt_toDigits]
  | negSucc n =>
      rw [toList_print_negSucc, parseInt, parseNat_toDigits]
      rfl

/-- Distinct integers print differently. -/
theorem print_injective {m n : Int} (h : toString m = toString n) : m = n := by
  have hm := parseInt_print m
  rw [h, parseInt_print] at hm
  exact (Option.some.inj hm).symm

/-- Distinct naturals print differently. -/
theorem print_nat_injective {m n : Nat} (h : toString m = toString n) : m = n := by
  have hm := parseNat_toDigits m
  have hlist : Nat.toDigits 10 m = Nat.toDigits 10 n := by
    rw [← Nat.toList_repr, ← Nat.toList_repr]
    exact congrArg String.toList h
  rw [hlist, parseNat_toDigits] at hm
  exact (Option.some.inj hm).symm

theorem parseI64_print {n : Int} (hlo : -(2 ^ 63) ≤ n) (hhi : n < 2 ^ 63) :
    parseI64 (toString n) = some n := by
  simp only [parseI64, parseInt_print, Option.filter_some, hlo, hhi, and_self,
    decide_true, if_true]

theorem parseU64_print {n : Nat} (h : n < 2 ^ 64) :
    parseU64 (toString n) = some n := by
  have hlist : (toString n).toList = Nat.toDigits 10 n := Nat.toList_repr
  simp only [parseU64, hlist, parseUnsigned_toDigits, Option.filter_some, h,
    decide_true, if_true]

/-- A parsed 64-bit value is in range. -/
theorem parseI64_range {s : String} {n : Int} (h : parseI64 s = some n) :
    -(2 ^ 63) ≤ n ∧ n < 2 ^ 63 := by
  simp only [parseI64, Option.filter_eq_some_iff, decide_eq_true_eq] at h
  exact h.2

/-! ## Printed length -/

/-- The byte length of a text is the sum of its characters' encodings. -/
theorem utf8ByteSize_eq_sum (s : String) :
    s.utf8ByteSize = (s.toList.map Char.utf8Size).sum := by
  have hlist : ∀ l : List Char, (String.ofList l).utf8ByteSize = (l.map Char.utf8Size).sum := by
    intro l
    induction l with
    | nil => rfl
    | cons c l ih =>
        have hcons : String.ofList (c :: l) = String.singleton c ++ String.ofList l := by
          apply String.toList_injective
          simp
        rw [hcons, String.utf8ByteSize_append, String.utf8ByteSize_singleton, ih]
        simp
  simpa using hlist s.toList

/-- Letters and digits are ASCII characters. -/
theorem utf8Size_of_isAlphanum {c : Char} (h : c.isAlphanum = true) : c.utf8Size = 1 := by
  have parts : c.isAlphanum = (decide (c.val ≥ 'A'.val ∧ c.val ≤ 'Z'.val)
      || (decide (c.val ≥ 'a'.val) && decide (c.val ≤ 'z'.val)) || c.isDigit) := rfl
  rw [parts] at h
  simp only [Char.isDigit, Bool.or_eq_true, Bool.and_eq_true, decide_eq_true_eq] at h
  rw [Char.utf8Size_eq_one_iff]
  rcases h with (⟨_, upper⟩ | ⟨_, lower⟩) | ⟨_, digit⟩
  · exact UInt32.le_trans upper (by decide)
  · exact UInt32.le_trans lower (by decide)
  · exact UInt32.le_trans digit (by decide)

theorem utf8Size_of_isDigit {c : Char} (h : c.isDigit = true) : c.utf8Size = 1 := by
  have hrange : c.val ≤ 57 := by
    simp only [Char.isDigit, Bool.and_eq_true, decide_eq_true_eq] at h
    exact h.2
  have hsmall : c.val ≤ 127 := UInt32.le_trans hrange (by decide)
  simp [Char.utf8Size, hsmall]

/-- Text without multi-byte characters has one byte a character. -/
theorem utf8ByteSize_of_ascii {s : String} (h : ∀ c ∈ s.toList, c.utf8Size = 1) :
    s.utf8ByteSize = s.toList.length := by
  rw [utf8ByteSize_eq_sum, List.map_congr_left h]
  simp

theorem utf8Size_of_mem_toDigits {n : Nat} {c : Char} (h : c ∈ Nat.toDigits 10 n) :
    c.utf8Size = 1 :=
  utf8Size_of_isDigit (Nat.isDigit_of_mem_toDigits (by decide) (by decide) h)

/-- A number below a power of ten prints in at most that many bytes. -/
theorem utf8ByteSize_print_nat_le {n k : Nat} (pos : 0 < k) (h : n < 10 ^ k) :
    (toString n).utf8ByteSize ≤ k := by
  have hlist : (toString n).toList = Nat.toDigits 10 n := Nat.toList_repr
  have hascii : ∀ c ∈ (toString n).toList, c.utf8Size = 1 := by
    rw [hlist]
    exact fun c hc => utf8Size_of_mem_toDigits hc
  rw [utf8ByteSize_of_ascii hascii, hlist]
  exact (Nat.length_toDigits_le_iff (by decide) pos).mpr h

/-- A 64-bit integer prints in at most twenty bytes. -/
theorem utf8ByteSize_print_le {n : Int} (hlo : -(2 ^ 63) ≤ n) (hhi : n < 2 ^ 63) :
    (toString n).utf8ByteSize ≤ 20 := by
  cases n with
  | ofNat n =>
      rw [Int.ofNat_eq_natCast] at *
      exact utf8ByteSize_print_nat_le (by decide) (by omega)
  | negSucc n =>
      have hlist := toList_print_negSucc n
      have hascii : ∀ c ∈ (toString (Int.negSucc n)).toList, c.utf8Size = 1 := by
        rw [hlist]
        intro c hc
        rcases List.mem_cons.mp hc with rfl | hc
        · decide
        · exact utf8Size_of_mem_toDigits hc
      rw [utf8ByteSize_of_ascii hascii, hlist, List.length_cons]
      have hlength : (Nat.toDigits 10 (n + 1)).length ≤ 19 :=
        (Nat.length_toDigits_le_iff (by decide) (by decide)).mpr (by omega)
      omega

end Decimal
