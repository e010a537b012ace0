import Noxide.Protocol.Scalar

/-!
# The normal form of a scalar

What storage and later decoding rely on in a canonical scalar: its characters, the value it
reads back as, and its length.

Main results:

- Theorem {lit}`CanonicalForm.alphabet`: a canonical form keeps to its kind's characters.
- Theorem {lit}`CanonicalForm.decodes`: a canonical form is read back within the kind's range.
- Theorem {lit}`scalar_normal_form`: what canonicalization accepts it maps to such a form, and
  leaves there.
-/

namespace Noxide

open Checked

/-! ## Stored values -/

/-- The characters of a kind's stored values. -/
def FieldKind.alphabet : FieldKind → Char → Prop
  | .blob _, c => lowerHex c = true ∨ c = '_'
  | .uploadHandle _, c => lowerHex c = true ∨ c = 'u' ∨ c = '_'
  | .account _, c => c.isAlphanum = true ∨ c = '-' ∨ c = '_'
  | .text, c => isControl c = true → c = '\n' ∨ c = '\t'
  | .boolean, c => c.isLower = true
  | .reference _, c | .timestamp, c | .duration _, c => c.isDigit = true
  | .integer _ _, c => c.isDigit = true ∨ c = '-'
  | .choice variants, c => ∃ variant ∈ variants, c ∈ variant.key.toList

/-- A stored value is read back as a value of the kind, and is the only spelling of it. -/
def FieldKind.Decodes : FieldKind → String → Prop
  | .blob _, v => blobRef v = true
  | .uploadHandle _, v => Noxide.uploadHandle v = true
  | .account _, v => accountId v = true
  | .text, v => v.toList ≠ []
  | .boolean, v => v = "true" ∨ v = "false"
  | .reference _, v => ∃ id, Decimal.parseU64 v = some id ∧ 0 < id ∧ id ≤ i64Max ∧ toString id = v
  | .timestamp, v => ∃ n, Decimal.parseI64 v = some n ∧ 0 ≤ n ∧ toString n = v
  | .duration maxMillis, v =>
      ∃ n, Decimal.parseI64 v = some n ∧ 0 ≤ n ∧ n ≤ maxMillis ∧ toString n = v
  | .integer min max, v => ∃ n, Decimal.parseI64 v = some n ∧ (∀ m ∈ min, m ≤ n) ∧ (∀ m ∈ max, n ≤ m)
      ∧ toString n = v
  | .choice variants, v => v ∈ variants.map ChoiceVariant.key

/-! ## Characters -/

theorem print_nat_digits (n : Nat) : ∀ c ∈ (toString n).toList, c.isDigit = true := by
  have digits : (toString n).toList = Nat.toDigits 10 n := Nat.toList_repr
  rw [digits]
  exact fun c member => Nat.isDigit_of_mem_toDigits (by decide) (by decide) member

/-- A number is printed in digits, behind a sign where it is negative. -/
theorem print_digits (n : Int) : ∀ c ∈ (toString n).toList, c.isDigit = true ∨ (n < 0 ∧ c = '-') := by
  intro c member
  cases n with
  | ofNat n =>
      rw [Int.ofNat_eq_natCast, Decimal.toList_print_ofNat] at member
      exact Or.inl (Nat.isDigit_of_mem_toDigits (by decide) (by decide) member)
  | negSucc n =>
      rw [Decimal.toList_print_negSucc] at member
      rcases List.mem_cons.mp member with sign | digit
      · exact Or.inr ⟨Int.negSucc_lt_zero n, sign⟩
      · exact Or.inl (Nat.isDigit_of_mem_toDigits (by decide) (by decide) digit)

theorem print_nonneg_digits {n : Int} (nonneg : 0 ≤ n) : ∀ c ∈ (toString n).toList, c.isDigit = true := by
  intro c member
  rcases print_digits n c member with digit | ⟨negative, _⟩
  · exact digit
  · omega

/-- A token is its tag and hexadecimal digits. -/
theorem blobToken_chars {tag : List Char} {v : String} (h : blobToken tag v = true) :
    ∀ c ∈ v.toList, c ∈ tag ∨ lowerHex c = true := by
  simp only [blobToken, Bool.and_eq_true, List.isPrefixOf_iff_prefix] at h
  rcases h with ⟨⟨rest, tagged⟩, _, hex⟩
  intro c member
  rw [← tagged] at member hex
  rw [List.drop_left, List.all_eq_true] at hex
  rcases List.mem_append.mp member with inside | digit
  · exact Or.inl inside
  · exact Or.inr (hex c digit)

/-- A canonical form keeps to its kind's characters. -/
theorem CanonicalForm.alphabet {kind : FieldKind} {v : String} (h : CanonicalForm kind v) :
    ∀ c ∈ v.toList, kind.alphabet c := by
  intro c member
  cases kind with
  | blob limit =>
      rcases blobToken_chars h c member with tag | hex
      · simp only [List.mem_cons, List.not_mem_nil, or_false] at tag
        rcases tag with rfl | rfl | rfl
        · exact Or.inl (by decide)
        · exact Or.inl (by decide)
        · exact Or.inr rfl
      · exact Or.inl hex
  | uploadHandle limit =>
      rcases blobToken_chars h c member with tag | hex
      · simp only [List.mem_cons, List.not_mem_nil, or_false] at tag
        rcases tag with rfl | rfl | rfl
        · exact Or.inr (Or.inl rfl)
        · exact Or.inl (by decide)
        · exact Or.inr (Or.inr rfl)
      · exact Or.inl hex
  | account scope =>
      simp only [CanonicalForm, accountId, Bool.and_eq_true, List.all_eq_true] at h
      have valid := h.1.2 c member
      simp only [Bool.or_eq_true, beq_iff_eq, or_assoc] at valid
      exact valid
  | text => exact h.2 c member
  | boolean =>
      have letters : ∀ c ∈ "true".toList ++ "false".toList, c.isLower = true := by decide
      rcases h with rfl | rfl
      · exact letters c (List.mem_append_left _ member)
      · exact letters c (List.mem_append_right _ member)
  | reference resource =>
      rcases h with ⟨id, _, _, rfl⟩
      exact print_nat_digits id c member
  | timestamp =>
      rcases h with ⟨n, nonneg, _, rfl⟩
      exact print_nonneg_digits nonneg c member
  | duration maxMillis =>
      rcases h with ⟨n, nonneg, _, _, rfl⟩
      exact print_nonneg_digits nonneg c member
  | integer min max =>
      rcases h with ⟨n, _, _, _, _, rfl⟩
      exact (print_digits n c member).imp id And.right
  | choice variants =>
      rcases List.mem_map.mp h with ⟨variant, listed, rfl⟩
      exact ⟨variant, listed, member⟩

/-! ## Values -/

/-- A canonical form is read back within the kind's range. -/
theorem CanonicalForm.decodes {kind : FieldKind} {v : String} (h : CanonicalForm kind v) :
    kind.Decodes v := by
  cases kind with
  | blob limit => exact h
  | uploadHandle limit => exact h
  | account scope => exact h
  | text => exact h.1
  | boolean => exact h
  | reference resource =>
      rcases h with ⟨id, nonzero, bound, rfl⟩
      have small : id < 2 ^ 64 := by
        unfold i64Max at bound
        omega
      exact ⟨id, Decimal.parseU64_print small, Nat.pos_of_ne_zero nonzero, bound, rfl⟩
  | timestamp =>
      rcases h with ⟨n, nonneg, bound, rfl⟩
      exact ⟨n, Decimal.parseI64_print (by omega) bound, nonneg, rfl⟩
  | duration maxMillis =>
      rcases h with ⟨n, nonneg, bound, range, rfl⟩
      exact ⟨n, Decimal.parseI64_print (by omega) range, nonneg, bound, rfl⟩
  | integer min max =>
      rcases h with ⟨n, low, high, least, greatest, rfl⟩
      exact ⟨n, Decimal.parseI64_print low high, least, greatest, rfl⟩
  | choice variants => exact h

/-- What canonicalization accepts it maps to a bounded value of its kind, or to the permitted
absence, and it leaves that value as it is. -/
theorem scalar_normal_form {kind : FieldKind} {optional : Bool} {maxBytes : Nat} {input v : String}
    (h : canonicalScalar kind optional maxBytes input = .ok v) :
    canonicalScalar kind optional maxBytes v = .ok v
      ∧ v.utf8ByteSize ≤ maxBytes
      ∧ (∀ c ∈ v.toList, kind.alphabet c)
      ∧ ((optional = true ∧ v = "") ∨ kind.Decodes v) := by
  refine ⟨canonicalScalar_idem h, ?_⟩
  rcases canonicalScalar_form h with ⟨absent, rfl⟩ | ⟨form, bounded⟩
  · refine ⟨Nat.zero_le _, ?_, Or.inl ⟨absent, rfl⟩⟩
    intro c member
    cases member
  · exact ⟨bounded, form.alphabet, Or.inr form.decodes⟩

/-- A signed number with leading zeros is stored in its one canonical spelling. -/
theorem scalar_normal_form_sample :
    canonicalScalar (.integer (some (-10)) (some 99)) false 3 "-007" = .ok "-7"
      ∧ canonicalScalar (.integer (some (-10)) (some 99)) false 3 "-7" = .ok "-7"
      ∧ FieldKind.Decodes (.integer (some (-10)) (some 99)) "-7" := by
  have accepted : canonicalScalar (.integer (some (-10)) (some 99)) false 3 "-007" = .ok "-7" := by
    decide
  have normal := scalar_normal_form accepted
  exact ⟨accepted, normal.1, normal.2.2.2.resolve_left (by decide)⟩

end Noxide
