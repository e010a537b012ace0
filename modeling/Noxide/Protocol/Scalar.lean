import Mathlib.Data.Finmap
import Mathlib.Data.String.Basic
import Noxide.Library.Checked
import Noxide.Library.Decimal

/-!
# Portable scalar schemas

Field declarations and the canonical text form in which every scalar crosses
the boundary between guest, host and store.  Absence of an optional value is
the empty text.

Main results:

- Theorem {lit}`canonicalScalar_self_iff`: a text is canonical for a schema
  exactly when it is the permitted absence or a bounded text of the kind's
  canonical form.
- Theorem {lit}`canonicalScalar_idem`: canonicalization is idempotent.
-/

namespace Noxide

open Checked

/-! ## Failures -/

/-- The failures a host operation reports: a plain message, or one of the
typed outcomes that a caller tells apart. -/
inductive Failure where
  | message (text : String)
  | calculationUnavailable
  | referenceUnavailable
  | guardFailure (input : Option String) (text : String)
  | conditionalConflict
  | temporalNotStarted
  | temporalOverflow
  deriving DecidableEq, Repr

/-- A fallible host computation. -/
abbrev Result := Except Failure

/-- The source's `ensure!` with a message. -/
abbrev check (text : String) (condition : Prop) [Decidable condition] : Result Unit :=
  ensure (Failure.message text) condition

/-- The source's `.context(..)` on an absent value. -/
abbrev need {α : Type} (text : String) (value : Option α) : Result α :=
  context (Failure.message text) value

/-- Signed 64-bit integers. -/
abbrev I64 := { n : Int // -(2 ^ 63) ≤ n ∧ n < 2 ^ 63 }

/-! ## Field declarations -/

/-- Field values by name. -/
abbrev Fields := Finmap fun _ : String => String

inductive AccountScope where
  | sameTenant
  deriving DecidableEq, Repr

structure ChoiceVariant where
  key : String
  label : String
  deriving DecidableEq, Repr

inductive FieldKind where
  | text
  | account (scope : AccountScope)
  | boolean
  | blob (maxBytes : Nat)
  | uploadHandle (maxBytes : Nat)
  | timestamp
  | duration (maxMillis : Int)
  | reference (resource : String)
  | integer (min max : Option Int)
  | choice (variants : List ChoiceVariant)
  deriving DecidableEq, Repr

structure TextField where
  immutable : Bool
  kind : FieldKind
  optional : Bool
  initial : Option String
  name : String
  label : String
  maxBytes : Nat
  deriving DecidableEq, Repr

structure Input where
  name : String
  label : String
  kind : FieldKind
  optional : Bool
  maxBytes : Nat
  deriving DecidableEq, Repr

def FieldKind.isReference : FieldKind → Bool
  | .reference _ => true
  | _ => false

def FieldKind.isAccount : FieldKind → Bool
  | .account _ => true
  | _ => false

/-- The upload limit of a stored blob. -/
def FieldKind.blobLimit : FieldKind → Option Nat
  | .blob maxBytes => some maxBytes
  | _ => none

def FieldKind.isBlob : FieldKind → Bool
  | .blob _ => true
  | _ => false

def FieldKind.isUploadHandle : FieldKind → Bool
  | .uploadHandle _ => true
  | _ => false

def FieldKind.isDuration : FieldKind → Bool
  | .duration _ => true
  | _ => false

/-- Kinds with finitely many values, which selections and gates compare. -/
def FieldKind.isFinite : FieldKind → Bool
  | .boolean | .choice _ => true
  | _ => false

def TextField.isImmutable (f : TextField) : Bool :=
  f.immutable || f.kind.isReference || f.kind.isAccount || f.kind.isBlob

/-! ## Token grammars -/

/-- Stable contract identifier grammar: at most 32 bytes, a lowercase letter
first, then lowercase letters, digits and underscores. -/
def identifier (name : String) : Bool :=
  match name.toList with
  | [] => false
  | first :: rest =>
      decide (name.utf8ByteSize ≤ 32) && first.isLower &&
        (first :: rest).all fun c => c.isLower || c.isDigit || c == '_'

/-- The last characters an unpadded encoding of 32 bytes can end in. -/
def accountIdEnds : List Char :=
  ['A', 'E', 'I', 'M', 'Q', 'U', 'Y', 'c', 'g', 'k', 'o', 's', 'w', '0', '4', '8']

/-- 32 bytes in unpadded base64url: 42 full digits and two residual bits. -/
def accountId (value : String) : Bool :=
  value.utf8ByteSize == 43 &&
    value.toList.all (fun c => c.isAlphanum || c == '-' || c == '_') &&
    value.toList.getLast?.any fun c => accountIdEnds.contains c

def lowerHex (c : Char) : Bool :=
  c.isDigit || (decide ('a' ≤ c) && decide (c ≤ 'f'))

/-- A three-character tag and 64 lowercase hexadecimal digits. -/
def blobToken (tag : List Char) (value : String) : Bool :=
  tag.isPrefixOf value.toList &&
    ((value.toList.drop tag.length).length == 64 &&
      (value.toList.drop tag.length).all lowerHex)

def blobRef (value : String) : Bool := blobToken ['b', '1', '_'] value

def uploadHandle (value : String) : Bool := blobToken ['u', '1', '_'] value

instance textTrans : IsTrans String (· ≤ ·) := inferInstance

instance textAntisymm : Std.Antisymm fun a b : String => a ≤ b := inferInstance

instance numberPairs : LawfulBEq (Nat × Nat) := inferInstance

/-- The characters of a text are checked one by one, not all characters that there are. -/
instance decidableChars (p : Char → Prop) [DecidablePred p] (text : List Char) :
    Decidable (∀ c ∈ text, p c) :=
  List.decidableBAll p text

/-- Unicode general category Cc. -/
def isControl (c : Char) : Bool :=
  decide (c.toNat < 32) || (decide (127 ≤ c.toNat) && decide (c.toNat ≤ 159))

/-- Carriage returns, alone or before a line feed, become line feeds. -/
def normalizeNewlines : List Char → List Char
  | [] => []
  | '\r' :: '\n' :: rest => '\n' :: normalizeNewlines rest
  | c :: rest => (if c = '\r' then '\n' else c) :: normalizeNewlines rest

/-! ## Canonical scalars -/

/-- The largest value of the store's signed 64-bit integers. -/
def i64Max : Nat := 2 ^ 63 - 1

/-- The kind's part of scalar canonicalization, before the byte limit. -/
def canonicalKind (kind : FieldKind) (input : String) : Except String String :=
  match kind with
  | .blob _ => do
      ensure "invalid blob token" (blobRef input)
      return input
  | .uploadHandle _ => do
      ensure "invalid blob token" (uploadHandle input)
      return input
  | .account _ => do
      ensure "invalid account reference" (accountId input)
      return input
  | .text => do
      let value := normalizeNewlines input.toList
      ensure "Enter text." (value ≠ [] ∧
        ∀ c ∈ value, isControl c = true → c = '\n' ∨ c = '\t')
      return String.ofList value
  | .boolean =>
      if input = "true" ∨ input = "on" then .ok "true"
      else if input = "false" then .ok "false"
      else .error "Choose true or false."
  | .reference _ => do
      let id ← context "invalid reference ID" (Decimal.parseU64 input)
      ensure "invalid reference ID" (id ≠ 0 ∧ id ≤ i64Max ∧ toString id = input)
      return toString id
  | .timestamp => do
      let value ← context "Enter UTC milliseconds." (Decimal.parseI64 input)
      ensure "Timestamp is outside its permitted range." (0 ≤ value)
      return toString value
  | .duration maxMillis => do
      let value ← context "Enter whole duration milliseconds." (Decimal.parseI64 input)
      ensure "Duration is outside its permitted range." (0 ≤ value ∧ value ≤ maxMillis)
      return toString value
  | .integer min max => do
      let value ← context "Enter a whole number." (Decimal.parseI64 input)
      ensure "Number is outside the permitted range."
        ((∀ m ∈ min, m ≤ value) ∧ ∀ m ∈ max, value ≤ m)
      return toString value
  | .choice variants => do
      ensure "Choose a listed value." (input ∈ variants.map ChoiceVariant.key)
      return input

/-- Host-defined canonical scalar encoding; optional absence is the empty text. -/
def canonicalScalar (kind : FieldKind) (optional : Bool) (maxBytes : Nat)
    (input : String) : Except String String :=
  if optional = true ∧ input = "" then .ok ""
  else do
    let value ← canonicalKind kind input
    ensure ("Use at most " ++ toString maxBytes ++ " UTF-8 bytes.")
      (value.utf8ByteSize ≤ maxBytes)
    return value

def TextField.canonical (f : TextField) (input : String) : Except String String :=
  if f.kind.isUploadHandle then .error "upload handles are action inputs only"
  else canonicalScalar f.kind f.optional f.maxBytes input

def Input.canonical (i : Input) (input : String) : Except String String :=
  if i.kind.isReference ∨ i.kind.isBlob then .error "invalid input kind"
  else canonicalScalar i.kind i.optional i.maxBytes input

/-! ## Canonical forms -/

/-- Text that canonicalization leaves alone: nonempty, and line feeds and tabs
are its only control characters. -/
def CanonicalText (value : String) : Prop :=
  value.toList ≠ [] ∧ ∀ c ∈ value.toList, isControl c = true → c = '\n' ∨ c = '\t'

/-- The fixed points of {lit}`canonicalKind`, kind by kind. -/
def CanonicalForm : FieldKind → String → Prop
  | .blob _, v => blobRef v = true
  | .uploadHandle _, v => uploadHandle v = true
  | .account _, v => accountId v = true
  | .text, v => CanonicalText v
  | .boolean, v => v = "true" ∨ v = "false"
  | .reference _, v => ∃ id : Nat, id ≠ 0 ∧ id ≤ i64Max ∧ v = toString id
  | .timestamp, v => ∃ n : Int, 0 ≤ n ∧ n < 2 ^ 63 ∧ v = toString n
  | .duration maxMillis, v =>
      ∃ n : Int, 0 ≤ n ∧ n ≤ maxMillis ∧ n < 2 ^ 63 ∧ v = toString n
  | .integer min max, v =>
      ∃ n : Int, -(2 ^ 63) ≤ n ∧ n < 2 ^ 63 ∧ (∀ m ∈ min, m ≤ n) ∧
        (∀ m ∈ max, n ≤ m) ∧ v = toString n
  | .choice variants, v => v ∈ variants.map ChoiceVariant.key

/-- Text without carriage returns is already normalized. -/
theorem normalizeNewlines_of_no_cr {l : List Char} (h : '\r' ∉ l) :
    normalizeNewlines l = l := by
  fun_induction normalizeNewlines l with
  | case1 => rfl
  | case2 rest ih => simp at h
  | case3 c rest _ ih =>
      have hc : c ≠ '\r' := fun hc => h (by simp [hc])
      have hrest : '\r' ∉ rest := fun hr => h (by simp [hr])
      rw [if_neg hc, ih hrest]

/-- Canonical text holds no carriage return. -/
theorem CanonicalText.no_cr {v : String} (h : CanonicalText v) : '\r' ∉ v.toList := by
  intro hmem
  rcases h.2 '\r' hmem (by decide) with h | h <;> exact absurd h (by decide)

/-- Every output of {lit}`canonicalKind` has the kind's canonical form. -/
theorem canonicalKind_form {kind : FieldKind} {input v : String}
    (h : canonicalKind kind input = .ok v) : CanonicalForm kind v := by
  cases kind with
  | blob n =>
      simp only [canonicalKind, bind_eq_ok, ensure_eq_ok] at h
      obtain ⟨_, hblob, hv⟩ := h
      obtain rfl := Except.ok.inj hv
      exact hblob
  | uploadHandle n =>
      simp only [canonicalKind, bind_eq_ok, ensure_eq_ok] at h
      obtain ⟨_, hblob, hv⟩ := h
      obtain rfl := Except.ok.inj hv
      exact hblob
  | account scope =>
      simp only [canonicalKind, bind_eq_ok, ensure_eq_ok] at h
      obtain ⟨_, haccount, hv⟩ := h
      obtain rfl := Except.ok.inj hv
      exact haccount
  | text =>
      simp only [canonicalKind, bind_eq_ok, ensure_eq_ok] at h
      obtain ⟨_, htext, hv⟩ := h
      obtain rfl := Except.ok.inj hv
      simpa [CanonicalForm, CanonicalText] using htext
  | boolean =>
      simp only [canonicalKind] at h
      split at h
      · exact Or.inl (Except.ok.inj h).symm
      · split at h
        · exact Or.inr (Except.ok.inj h).symm
        · cases h
  | reference r =>
      simp only [canonicalKind, bind_eq_ok, ensure_eq_ok, context_eq_ok] at h
      obtain ⟨id, _, _, ⟨hzero, hmax, _⟩, hv⟩ := h
      exact ⟨id, hzero, hmax, (Except.ok.inj hv).symm⟩
  | timestamp =>
      simp only [canonicalKind, bind_eq_ok, ensure_eq_ok, context_eq_ok] at h
      obtain ⟨n, hparse, _, hlo, hv⟩ := h
      exact ⟨n, hlo, (Decimal.parseI64_range hparse).2, (Except.ok.inj hv).symm⟩
  | duration maxMillis =>
      simp only [canonicalKind, bind_eq_ok, ensure_eq_ok, context_eq_ok] at h
      obtain ⟨n, hparse, _, ⟨hlo, hhi⟩, hv⟩ := h
      exact ⟨n, hlo, hhi, (Decimal.parseI64_range hparse).2, (Except.ok.inj hv).symm⟩
  | integer min max =>
      simp only [canonicalKind, bind_eq_ok, ensure_eq_ok, context_eq_ok] at h
      obtain ⟨n, hparse, _, ⟨hlo, hhi⟩, hv⟩ := h
      obtain ⟨hrange, hrange'⟩ := Decimal.parseI64_range hparse
      exact ⟨n, hrange, hrange', hlo, hhi, (Except.ok.inj hv).symm⟩
  | choice variants =>
      simp only [canonicalKind, bind_eq_ok, ensure_eq_ok] at h
      obtain ⟨_, hchoice, hv⟩ := h
      obtain rfl := Except.ok.inj hv
      exact hchoice

/-- A text of the kind's canonical form is left as it is. -/
theorem canonicalKind_of_form {kind : FieldKind} {v : String}
    (h : CanonicalForm kind v) : canonicalKind kind v = .ok v := by
  cases kind with
  | blob n => simp_all [canonicalKind, CanonicalForm, ensure, pure, Except.pure, bind, Except.bind]
  | uploadHandle n => simp_all [canonicalKind, CanonicalForm, ensure, pure, Except.pure, bind, Except.bind]
  | account scope => simp_all [canonicalKind, CanonicalForm, ensure, pure, Except.pure, bind, Except.bind]
  | text =>
      have hnormal := normalizeNewlines_of_no_cr (CanonicalText.no_cr h)
      obtain ⟨hempty, hcontrol⟩ := h
      simp only [canonicalKind, hnormal]
      rw [ensure_pos ⟨hempty, hcontrol⟩]
      simp [pure, Except.pure, bind, Except.bind]
  | boolean =>
      rcases h with rfl | rfl
      · rfl
      · rfl
  | reference r =>
      obtain ⟨id, hzero, hmax, rfl⟩ := h
      have hparse : Decimal.parseU64 (toString id) = some id :=
        Decimal.parseU64_print (by unfold i64Max at hmax; omega)
      simp only [canonicalKind, hparse, context]
      rw [show (Except.ok id >>= _) = _ from rfl]
      simp only [bind, Except.bind]
      rw [ensure_pos ⟨hzero, hmax, trivial⟩]
      rfl
  | timestamp =>
      obtain ⟨n, hlo, hhi, rfl⟩ := h
      simp only [canonicalKind, Decimal.parseI64_print (by omega) hhi, context, bind, Except.bind]
      rw [ensure_pos hlo]
      rfl
  | duration maxMillis =>
      obtain ⟨n, hlo, hmax, hhi, rfl⟩ := h
      simp only [canonicalKind, Decimal.parseI64_print (by omega) hhi, context, bind, Except.bind]
      rw [ensure_pos ⟨hlo, hmax⟩]
      rfl
  | integer min max =>
      obtain ⟨n, hlo, hhi, hmin, hmax, rfl⟩ := h
      simp only [canonicalKind, Decimal.parseI64_print hlo hhi, context, bind, Except.bind]
      rw [ensure_pos ⟨hmin, hmax⟩]
      rfl
  | choice variants =>
      have hlisted : v ∈ variants.map ChoiceVariant.key := h
      simp only [canonicalKind]
      rw [ensure_pos hlisted]
      rfl

/-- Every accepted value is a permitted absence or a bounded canonical form. -/
theorem canonicalScalar_form {kind : FieldKind} {optional : Bool} {maxBytes : Nat}
    {input v : String} (h : canonicalScalar kind optional maxBytes input = .ok v) :
    (optional = true ∧ v = "") ∨ (CanonicalForm kind v ∧ v.utf8ByteSize ≤ maxBytes) := by
  unfold canonicalScalar at h
  split at h
  · rename_i habsent
    exact Or.inl ⟨habsent.1, (Except.ok.inj h).symm⟩
  · simp only [bind_eq_ok, ensure_eq_ok] at h
    obtain ⟨value, hkind, _, hsize, hv⟩ := h
    obtain rfl := Except.ok.inj hv
    exact Or.inr ⟨canonicalKind_form hkind, hsize⟩

/-- A text is canonical for a schema exactly when it is the permitted absence
or a bounded text of the kind's canonical form. -/
theorem canonicalScalar_self_iff {kind : FieldKind} {optional : Bool} {maxBytes : Nat}
    {v : String} :
    canonicalScalar kind optional maxBytes v = .ok v ↔
      (optional = true ∧ v = "") ∨ (CanonicalForm kind v ∧ v.utf8ByteSize ≤ maxBytes) := by
  constructor
  · exact canonicalScalar_form
  · intro h
    unfold canonicalScalar
    by_cases habsent : optional = true ∧ v = ""
    · rw [if_pos habsent, habsent.2]
    · rw [if_neg habsent]
      rcases h with h | ⟨hform, hsize⟩
      · exact absurd h habsent
      · rw [canonicalKind_of_form hform]
        simp only [bind, Except.bind]
        rw [ensure_pos hsize]
        rfl

/-- Canonicalization is idempotent. -/
theorem canonicalScalar_idem {kind : FieldKind} {optional : Bool} {maxBytes : Nat}
    {input v : String} (h : canonicalScalar kind optional maxBytes input = .ok v) :
    canonicalScalar kind optional maxBytes v = .ok v := by
  rw [canonicalScalar_self_iff]
  exact canonicalScalar_form h

/-- The values a declared field stores. -/
theorem TextField.canonical_self_iff {f : TextField} {v : String} :
    f.canonical v = .ok v ↔ f.kind.isUploadHandle = false ∧
      ((f.optional = true ∧ v = "") ∨
        (CanonicalForm f.kind v ∧ v.utf8ByteSize ≤ f.maxBytes)) := by
  unfold TextField.canonical
  by_cases hupload : f.kind.isUploadHandle = true
  · simp [hupload]
  · rw [if_neg hupload, canonicalScalar_self_iff]
    simp [hupload]

/-- The values an action input takes. -/
theorem Input.canonical_self_iff {i : Input} {v : String} :
    i.canonical v = .ok v ↔ (i.kind.isReference = false ∧ i.kind.isBlob = false) ∧
      ((i.optional = true ∧ v = "") ∨
        (CanonicalForm i.kind v ∧ v.utf8ByteSize ≤ i.maxBytes)) := by
  unfold Input.canonical
  by_cases hkind : i.kind.isReference = true ∨ i.kind.isBlob = true
  · rw [if_pos hkind]
    rcases hkind with hkind | hkind <;> simp [hkind]
  · rw [if_neg hkind, canonicalScalar_self_iff]
    simp only [not_or, Bool.not_eq_true] at hkind
    simp [hkind]

end Noxide
