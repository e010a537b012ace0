import Mathlib.Data.List.Basic

/-!
# Percent encoding

Bytes are spelled by text in which any byte may be escaped by its hexadecimal value, a space may
be a plus sign and every other byte but the percent sign may stand for itself.  One text spells
at most one list of bytes, which a decoder finds.

Main results:

- Theorem {lit}`decode_eq_some`: decoding succeeds exactly on the spellings, with the bytes that
  they spell.
-/

namespace PercentEncoding

/-- The value of a hexadecimal digit of either case. -/
def hexDigit (byte : UInt8) : Option Nat :=
  if 48 ≤ byte ∧ byte ≤ 57 then some (byte.toNat - 48)
  else if 97 ≤ byte ∧ byte ≤ 102 then some (byte.toNat - 87)
  else if 65 ≤ byte ∧ byte ≤ 70 then some (byte.toNat - 55)
  else none

/-- The spellings of a list of bytes. -/
inductive Spells : List UInt8 → List UInt8 → Prop where
  | nil : Spells [] []
  | plain (byte : UInt8) {text bytes : List UInt8} (plus : byte ≠ 43) (percent : byte ≠ 37)
      (rest : Spells text bytes) : Spells (byte :: text) (byte :: bytes)
  | space {text bytes : List UInt8} (rest : Spells text bytes) : Spells (43 :: text) (32 :: bytes)
  | escape (high low : UInt8) (a b : Nat) {text bytes : List UInt8} (first : hexDigit high = some a)
      (second : hexDigit low = some b) (rest : Spells text bytes) :
      Spells (37 :: high :: low :: text) (UInt8.ofNat (a * 16 + b) :: bytes)

def decode : List UInt8 → Option (List UInt8)
  | [] => some []
  | byte :: text =>
      if byte = 43 then (32 :: ·) <$> decode text
      else if byte = 37 then
        match text with
        | high :: low :: text => do
            let a ← hexDigit high
            let b ← hexDigit low
            let bytes ← decode text
            return UInt8.ofNat (a * 16 + b) :: bytes
        | _ => none
      else (byte :: ·) <$> decode text

/-- Decoding succeeds exactly on the spellings. -/
theorem decode_eq_some {text bytes : List UInt8} : decode text = some bytes ↔ Spells text bytes := by
  constructor
  · fun_induction decode text generalizing bytes with
    | case1 =>
        intro h
        cases h
        exact Spells.nil
    | case2 text ih =>
        intro h
        rcases Option.map_eq_some_iff.mp h with ⟨rest, decoded, rfl⟩
        exact Spells.space (ih decoded)
    | case3 high low text _ ih =>
        intro h
        simp only [Option.bind_eq_bind, Option.bind_eq_some_iff, Option.pure_def, Option.some.injEq] at h
        rcases h with ⟨a, first, b, second, rest, decoded, rfl⟩
        exact Spells.escape high low a b first second (ih decoded)
    | case4 => intro h; cases h
    | case5 byte text plus percent ih =>
        intro h
        rcases Option.map_eq_some_iff.mp h with ⟨rest, decoded, rfl⟩
        exact Spells.plain byte plus percent (ih decoded)
  · intro h
    induction h with
    | nil => rfl
    | plain byte plus percent _ ih =>
        unfold decode
        rw [if_neg plus, if_neg percent, ih]
        rfl
    | space _ ih =>
        unfold decode
        rw [if_pos rfl, ih]
        rfl
    | escape high low a b first second _ ih =>
        unfold decode
        rw [if_neg (by decide), if_pos rfl]
        simp only [first, second, ih]
        rfl

end PercentEncoding
