import Mathlib.Data.List.TakeWhile
import Noxide.Library.Sql
import Noxide.Protocol.Manifest

/-!
# Stored records

Rows of the record, account and deployment tables, and the columns of a record
that a policy filter compares.  The owner column is NULL for records of
anonymous creators; readers see it as the empty text.
-/

namespace Noxide

/-- One row of {lit}`nx_records`. -/
structure StoredRow where
  resource : Nat
  id : Nat
  owner : Option String
  tenant : String
  fields : Fields
  incarnation : String
  revision : Nat
  capVersion : Option Nat
  createdSeq : Nat
  deriving DecidableEq

/-- One row of {lit}`nx_accounts`, without its credentials. -/
structure Account where
  id : String
  tenant : String
  active : Bool
  deriving DecidableEq, Repr

/-- Host deployment identity from the invocation fence. -/
structure Deployment where
  contract : String
  incarnation : String
  generation : String
  deriving DecidableEq, Repr

/-- The tables that authorization reads. -/
structure AuthorityTables where
  records : List StoredRow
  accounts : List Account
  deployment : Option Deployment
  catalog : List (String × Nat)

/-- {lit}`COALESCE(owner,'')`. -/
def StoredRow.ownerText (row : StoredRow) : String := row.owner.getD ""

/-- The leading whitespace of the provider's numeric casts. -/
def castSpace (c : Char) : Bool :=
  c == ' ' || c == '\t' || c == '\n' || c == '\r' || c == '\x0b' || c == '\x0c'

/-- {lit}`CAST(text AS BIGINT)`: the value of the longest numeric prefix. -/
def castBigint (text : String) : Int :=
  match text.toList.dropWhile castSpace with
  | '-' :: rest => -(Nat.ofDigitChars 10 (rest.takeWhile Char.isDigit) 0 : Int)
  | '+' :: rest => (Nat.ofDigitChars 10 (rest.takeWhile Char.isDigit) 0 : Int)
  | digits => (Nat.ofDigitChars 10 (digits.takeWhile Char.isDigit) 0 : Int)

/-- The record columns a filter names. -/
inductive RecordColumn where
  | owner
  | tenant
  | field (name : String)
  | timestamp (name : String)
  deriving DecidableEq, Repr

def StoredRow.column (row : StoredRow) : RecordColumn → Option Sql.Datum
  | .owner => row.owner.map .text
  | .tenant => some (.text row.tenant)
  | .field name => (row.fields.lookup name).map .text
  | .timestamp name => (row.fields.lookup name).map fun text => .number (castBigint text)

/-- The cast of a printed nonnegative number is the number. -/
theorem castBigint_print (n : Nat) : castBigint (toString (n : Int)) = n := by
  have hlist := Decimal.toList_print_ofNat n
  have hdigits : ∀ c ∈ Nat.toDigits 10 n, c.isDigit = true := fun c hc =>
    Nat.isDigit_of_mem_toDigits (by decide) (by decide) hc
  unfold castBigint
  rw [hlist]
  cases hshape : Nat.toDigits 10 n with
  | nil => exact absurd hshape Nat.toDigits_ne_nil
  | cons c rest =>
      rw [hshape] at hdigits
      have hc := hdigits c (by simp)
      have hspace : castSpace c = false := by
        by_contra hspace
        simp only [castSpace, Bool.not_eq_false, Bool.or_eq_true, beq_iff_eq] at hspace
        rcases hspace with ((((rfl | rfl) | rfl) | rfl) | rfl) | rfl <;>
          exact absurd hc (by decide)
      have hminus : c ≠ '-' := by
        rintro rfl
        exact absurd hc (by decide)
      have hplus : c ≠ '+' := by
        rintro rfl
        exact absurd hc (by decide)
      have htake : (c :: rest).takeWhile Char.isDigit = c :: rest :=
        List.takeWhile_eq_self_iff.mpr hdigits
      rw [List.dropWhile_cons_of_neg (by simp [hspace])]
      split
      · rename_i heq
        exact absurd (List.cons.inj heq).1 hminus
      · rename_i heq
        exact absurd (List.cons.inj heq).1 hplus
      · rw [htake, ← hshape, Nat.ofDigitChars_ten_toDigits]

end Noxide
