import Mathlib.Data.List.DropRight
import Noxide.Blobs.State

/-!
# Stored blob rows

The columns of a blob's row, the texts in which a query returns them, and the parser
that accepts only a canonical row of consistent shape.

Main results:

- Theorem {lit}`BlobRow.parse_select`: a row of consistent shape whose owner's field is
  an identifier is read back as it was written.
- Theorem {lit}`BlobRow.parse_unique`: a row that is read back at all has such a field.
- Theorem {lit}`attachment_names_normal`: a normalized name is a label that no row refuses.
-/

namespace Noxide
namespace Blobs

open Checked

/-! ## Display names -/

def isLabelChar (c : Char) : Bool :=
  c.isAlphanum || c == '.' || c == '_' || c == '-'

def isLabelEdge (c : Char) : Bool :=
  c == '.' || c == '_' || c == '-'

/-- A label without the punctuation around it. -/
def trimLabel (label : List Char) : List Char :=
  ((label.dropWhile isLabelEdge).reverse.dropWhile isLabelEdge).reverse

/-- A display label only, never a path. -/
structure AttachmentName where
  value : String
  chars : value.toList.all isLabelChar = true
  trimmed : trimLabel value.toList = value.toList
  bound : value.toList.length ≤ 80
  nonempty : value.toList ≠ []
  deriving DecidableEq

/-- The last component of a path, with other characters replaced, cut and trimmed. -/
def attachmentLabel (input : List Char) : List Char :=
  let basename := (input.reverse.takeWhile fun c => c != '/' && c != '\\').reverse
  trimLabel ((basename.map fun c => if isLabelChar c then c else '_').take 80)

theorem trimLabel_sublist (label : List Char) : trimLabel label <:+: label := by
  have front : (label.dropWhile isLabelEdge).reverse.dropWhile isLabelEdge
      <:+ (label.dropWhile isLabelEdge).reverse := List.dropWhile_suffix _
  have whole : trimLabel label <+: label.dropWhile isLabelEdge := by
    rw [← List.reverse_suffix, trimLabel, List.reverse_reverse]
    exact front
  exact whole.isInfix.trans (List.dropWhile_suffix _).isInfix

/-- A trimmed label has nothing more to trim. -/
theorem trimLabel_idem (label : List Char) : trimLabel (trimLabel label) = trimLabel label := by
  have whole : trimLabel label <+: label.dropWhile isLabelEdge := by
    rw [← List.reverse_suffix, trimLabel, List.reverse_reverse]
    exact List.dropWhile_suffix _
  have front : (trimLabel label).dropWhile isLabelEdge = trimLabel label := by
    cases shape : trimLabel label with
    | nil => rfl
    | cons c rest =>
        have head : (label.dropWhile isLabelEdge).head? = some c := by
          rw [shape] at whole
          rcases whole with ⟨more, same⟩
          rw [← same]
          rfl
        refine List.dropWhile_cons_of_neg ?_
        intro edge
        have none := List.head?_dropWhile_not isLabelEdge label
        rw [head] at none
        simp only [edge] at none
        exact absurd none (by decide)
  have back : (trimLabel label).reverse.dropWhile isLabelEdge = (trimLabel label).reverse := by
    rw [trimLabel, List.reverse_reverse]
    exact List.dropWhile_idempotent _ _
  rw [trimLabel, front, back, List.reverse_reverse]

/-- The label of an upload's file name. -/
theorem attachmentLabel_chars (input : List Char) :
    (attachmentLabel input).all isLabelChar = true := by
  rw [List.all_eq_true]
  intro c hc
  have within := (trimLabel_sublist _).subset hc
  rcases List.mem_map.mp (List.mem_of_mem_take within) with ⟨original, _, rfl⟩
  split
  · assumption
  · decide

theorem attachmentLabel_bound (input : List Char) : (attachmentLabel input).length ≤ 80 :=
  (trimLabel_sublist _).length_le.trans (List.length_take_le _ _)

/-- A trimmed label has no punctuation at its ends. -/
theorem trimLabel_edges {label : List Char} (trimmed : trimLabel label = label) :
    (∀ c, label.head? = some c → isLabelEdge c = false)
      ∧ ∀ c, label.getLast? = some c → isLabelEdge c = false := by
  have front : label.dropWhile isLabelEdge = label := by
    have whole : trimLabel label <:+: label.dropWhile isLabelEdge := by
      have back : (label.dropWhile isLabelEdge).reverse.dropWhile isLabelEdge
          <:+ (label.dropWhile isLabelEdge).reverse := List.dropWhile_suffix _
      have before : trimLabel label <+: label.dropWhile isLabelEdge := by
        rw [← List.reverse_suffix, trimLabel, List.reverse_reverse]
        exact back
      exact before.isInfix
    rw [trimmed] at whole
    exact (List.dropWhile_suffix _).sublist.antisymm whole.sublist
  have back : label.reverse.dropWhile isLabelEdge = label.reverse := by
    rw [trimLabel, front] at trimmed
    have reversed := congrArg List.reverse trimmed
    rw [List.reverse_reverse] at reversed
    exact reversed
  have head : ∀ (text : List Char) (c : Char), text.dropWhile isLabelEdge = text → text.head? = some c →
      isLabelEdge c = false := by
    intro text c same first
    have none := List.head?_dropWhile_not isLabelEdge text
    rw [same, first] at none
    simpa using none
  refine ⟨fun c first => head label c front first, fun c last => head label.reverse c back ?_⟩
  rw [List.head?_reverse]
  exact last

/-- A name is normalized once; an empty label is replaced. -/
def AttachmentName.normalize (input : String) : Result AttachmentName := do
  check "upload filename limit" (input.utf8ByteSize ≤ 255)
  return if h : attachmentLabel input.toList = [] then
    ⟨"download.bin", by decide, by decide, by decide, by decide⟩
  else
    ⟨String.ofList (attachmentLabel input.toList),
      by rw [String.toList_ofList]; exact attachmentLabel_chars _,
      by rw [String.toList_ofList]; exact trimLabel_idem _,
      by rw [String.toList_ofList]; exact attachmentLabel_bound _,
      by rw [String.toList_ofList]; exact h⟩

theorem AttachmentName.normalize_ok {input : String} (short : input.utf8ByteSize ≤ 255) :
    ∃ name, AttachmentName.normalize input = .ok name := by
  unfold AttachmentName.normalize
  rw [check, ensure_pos short]
  exact ⟨_, rfl⟩

theorem utf8Size_of_isLabelChar {c : Char} (h : isLabelChar c = true) : c.utf8Size = 1 := by
  simp only [isLabelChar, Bool.or_eq_true, beq_iff_eq] at h
  rcases h with ((h | rfl) | rfl) | rfl
  · exact Decimal.utf8Size_of_isAlphanum h
  · decide
  · decide
  · decide

theorem AttachmentName.size (name : AttachmentName) : name.value.utf8ByteSize ≤ 80 := by
  rw [Decimal.utf8ByteSize_of_ascii]
  · exact name.bound
  · intro c hc
    exact utf8Size_of_isLabelChar (List.all_eq_true.mp name.chars c hc)

/-- Nothing in a label is a separator or is replaced. -/
theorem attachmentLabel_self {label : List Char} (chars : label.all isLabelChar = true)
    (trimmed : trimLabel label = label) (bound : label.length ≤ 80) :
    attachmentLabel label = label := by
  rw [List.all_eq_true] at chars
  have whole : label.reverse.takeWhile (fun c => c != '/' && c != '\\') = label.reverse := by
    rw [List.takeWhile_eq_self_iff]
    intro c hc
    have valid := chars c (List.mem_reverse.mp hc)
    simp only [Bool.and_eq_true, bne_iff_ne]
    constructor
    · rintro rfl
      exact absurd valid (by decide)
    · rintro rfl
      exact absurd valid (by decide)
  have kept : label.map (fun c => if isLabelChar c then c else '_') = label := by
    conv_rhs => rw [← List.map_id label]
    refine List.map_congr_left fun c hc => ?_
    rw [if_pos (chars c hc), id]
  unfold attachmentLabel
  simp only [whole, List.reverse_reverse, kept, List.take_of_length_le bound, trimmed]

/-- A normalized name is normalized to itself. -/
theorem AttachmentName.normalize_value (name : AttachmentName) :
    AttachmentName.normalize name.value = .ok name := by
  have size := name.size
  have label := attachmentLabel_self name.chars name.trimmed name.bound
  have nonempty : ¬ attachmentLabel name.value.toList = [] := by
    rw [label]
    exact name.nonempty
  unfold AttachmentName.normalize
  rw [check, ensure_pos (by omega), bind_ok, dif_neg nonempty]
  rcases name with ⟨value, _, _, _, _⟩
  simp only [label, String.ofList_toList]
  rfl

/-! ## Columns -/

/-- The columns of {lit}`nx_blobs`, with numbers as stored or as selected. -/
structure BlobColumns (Number : Type) where
  slot : String
  blobRef : String
  uploadHandle : String
  objectKey : String
  subject : String
  context : String
  input : String
  anonymous : Number
  state : String
  generation : Number
  reservedBytes : Number
  actualBytes : Number
  sha256 : String
  filename : String
  createdMs : Number
  expiresMs : Number
  ownerResource : Number
  ownerId : Number
  ownerIncarnation : String
  ownerField : String
  claimedMs : Number
  ownerProcess : String
  deriving DecidableEq

/-- Numbers are cast to texts. -/
def BlobColumns.texts (c : BlobColumns Int) : BlobColumns String where
  slot := c.slot
  blobRef := c.blobRef
  uploadHandle := c.uploadHandle
  objectKey := c.objectKey
  subject := c.subject
  context := c.context
  input := c.input
  anonymous := toString c.anonymous
  state := c.state
  generation := toString c.generation
  reservedBytes := toString c.reservedBytes
  actualBytes := toString c.actualBytes
  sha256 := c.sha256
  filename := c.filename
  createdMs := toString c.createdMs
  expiresMs := toString c.expiresMs
  ownerResource := toString c.ownerResource
  ownerId := toString c.ownerId
  ownerIncarnation := c.ownerIncarnation
  ownerField := c.ownerField
  claimedMs := toString c.claimedMs
  ownerProcess := c.ownerProcess

/-- The length limits of the selected texts. -/
def BlobColumns.Bounded (t : BlobColumns String) : Prop :=
  (∀ token ∈ [t.slot, t.objectKey, t.subject, t.context, t.input, t.sha256, t.ownerIncarnation,
      t.ownerProcess], token.utf8ByteSize ≤ 64)
    ∧ (∀ token ∈ [t.blobRef, t.uploadHandle], token.utf8ByteSize ≤ 67)
    ∧ t.state.utf8ByteSize ≤ 16 ∧ t.filename.utf8ByteSize ≤ 80 ∧ t.ownerField.utf8ByteSize ≤ 32
    ∧ (∀ number ∈ [t.anonymous, t.generation, t.reservedBytes, t.actualBytes, t.createdMs,
      t.expiresMs, t.ownerResource, t.ownerId, t.claimedMs], number.utf8ByteSize ≤ 20)

instance (t : BlobColumns String) : Decidable t.Bounded :=
  inferInstanceAs (Decidable (_ ∧ _))

/-- {lit}`row_columns`: an oversized text is selected as NULL, which no text decodes. -/
def BlobColumns.select (c : BlobColumns Int) : Result (BlobColumns String) := do
  check "unexpected null" c.texts.Bounded
  return c.texts

theorem select_bounded {c : BlobColumns Int} (h : c.texts.Bounded) : c.select = .ok c.texts := by
  unfold BlobColumns.select
  rw [check, ensure_pos h]
  rfl

def State.text : State → String
  | .uploading => "uploading"
  | .staged => "staged"
  | .attached => "attached"
  | .unreferenced => "unreferenced"
  | .deleting => "deleting"
  | .deleted => "deleted"

def State.parse (text : String) : Result State :=
  match text with
  | "uploading" => .ok .uploading
  | "staged" => .ok .staged
  | "attached" => .ok .attached
  | "unreferenced" => .ok .unreferenced
  | "deleting" => .ok .deleting
  | "deleted" => .ok .deleted
  | _ => .error (.message "invalid blob state")

/-! ## Numbers and hashes -/

/-- A canonical nonnegative number. -/
def integer (value : String) : Result I64 :=
  match h : Decimal.parseI64 value with
  | none => .error (.message "invalid blob integer")
  | some number => do
      check "noncanonical blob integer" (0 ≤ number ∧ toString number = value)
      return ⟨number, Decimal.parseI64_range h⟩

def unsigned (value : String) : Result Nat := do
  let number ← integer value
  return number.val.toNat

def readTimestamp (value : String) : Result Timestamp := do
  let number ← integer value
  Timestamp.fromUnixMillis number.val

def readGeneration (value : String) : Result Generation := do
  let number ← integer value
  Generation.parse number.val

def hashDigit (c : Char) : Result Nat :=
  if c.isDigit then .ok (c.toNat - 48)
  else if lowerHex c then .ok (c.toNat - 97 + 10)
  else .error (.message "invalid blob digest")

def hashPairs : List Char → Result (List UInt8)
  | [] => .ok []
  | [_] => .error (.message "invalid blob digest")
  | high :: low :: rest => do
      let h ← hashDigit high
      let l ← hashDigit low
      let bytes ← hashPairs rest
      return (h * 16 + l).toUInt8 :: bytes

def hash (value : String) : Result Digest := do
  check "invalid blob digest" (value.utf8ByteSize = 64)
  let bytes ← hashPairs value.toList
  if h : bytes.length = 32 then .ok ⟨bytes, h⟩ else .error (.message "invalid blob digest")

/-! ## Rows -/

structure BlobRow where
  metadata : Metadata
  anonymous : Bool
  filename : AttachmentName
  created : Timestamp
  claimed : Timestamp
  process : ObjectKey
  deriving DecidableEq

def stageLifetimeMillis : Nat := 15 * 60 * 1000

/-- The owner columns: all empty, or an association. -/
def parseOwner (resource id : I64) (incarnation field : String) : Result (Option Association) :=
  if resource.val = 0 ∧ id.val = 0 ∧ incarnation = "" ∧ field = "" then .ok none
  else do
    check "invalid blob owner" (0 < resource.val ∧ 0 < id.val ∧ incarnation ≠ ""
      ∧ incarnation.utf8ByteSize ≤ 64 ∧ identifier field = true)
    let association : Association := ⟨resource, id, incarnation, field⟩
    association.validate
    return some association

def parseDigest (text : String) : Result (Option Digest) :=
  if text = "" then .ok none
  else do
    let digest ← hash text
    return some digest

def Metadata.Unsized (m : Metadata) : Prop :=
  0 < m.reserved ∧ m.bytes = 0 ∧ m.digest = none ∧ m.association = none

instance (m : Metadata) : Decidable m.Unsized :=
  inferInstanceAs (Decidable (_ ∧ _))

/-- The columns that each state requires. -/
def checkShape (m : Metadata) : Result Unit :=
  match m.state with
  | .uploading => check "invalid Uploading metadata" m.Unsized
  | .staged => check "invalid Staged metadata"
      (m.reserved = 0 ∧ m.digest.isSome = true ∧ m.association = none)
  | .attached | .unreferenced => check "invalid attached metadata"
      (m.reserved = 0 ∧ m.digest.isSome = true ∧ m.association.isSome = true)
  | .deleting => check "invalid deleting metadata"
      (m.Unsized ∨ m.reserved = 0 ∧ m.digest.isSome = true)
  | .deleted => check "invalid deleted charge" (m.reserved = 0 ∧ m.bytes = 0)

def parseAnonymous (text : String) : Result Bool :=
  match text with
  | "0" => .ok false
  | "1" => .ok true
  | _ => .error (.message "invalid anonymous metadata")

section Parse

variable (sha256 : List UInt8 → Digest)

/-- The handle of finalized content is the one its content gives. -/
def checkHandle (m : Metadata) : Result Unit :=
  match m.state, m.digest with
  | .deleted, _ => .ok ()
  | _, none => .ok ()
  | _, some digest => do
      let handle ← m.expectedHandle sha256 m.bytes digest
      check "finalized handle does not match immutable object" (handle = m.handle)

def BlobRow.parse (row : BlobColumns String) : Result BlobRow := do
  let state ← State.parse row.state
  let created ← readTimestamp row.createdMs
  let expires ← readTimestamp row.expiresMs
  check "invalid upload lifetime" ((← created.checkedAdd stageLifetimeMillis) = expires)
  let resource ← integer row.ownerResource
  let id ← integer row.ownerId
  let association ← parseOwner resource id row.ownerIncarnation row.ownerField
  let reserved ← unsigned row.reservedBytes
  let bytes ← unsigned row.actualBytes
  check "invalid stored blob size" (reserved ≤ maxUploadBytes ∧ bytes ≤ maxUploadBytes)
  let digest ← parseDigest row.sha256
  let blob ← BlobRef.parse row.blobRef
  let handle ← UploadHandle.parse row.uploadHandle
  let key ← ObjectKey.parse row.objectKey
  let slot ← Commitment.parse row.slot
  let subject ← Commitment.parse row.subject
  let context ← Commitment.parse row.context
  let input ← Commitment.parse row.input
  let generation ← readGeneration row.generation
  let m : Metadata := ⟨blob, handle, key, ⟨slot, subject, context, input⟩, state, generation,
    expires, reserved, bytes, digest, association⟩
  checkShape m
  checkHandle sha256 m
  let name ← AttachmentName.normalize row.filename
  check "invalid stored filename" (name.value = row.filename)
  let anonymous ← parseAnonymous row.anonymous
  let claimed ← readTimestamp row.claimedMs
  let process ← ObjectKey.parse row.ownerProcess
  return ⟨m, anonymous, name, created, claimed, process⟩

end Parse

/-- A digest column, empty before content is finalized. -/
def digestText : Option Digest → String
  | none => ""
  | some digest => hex digest

/-- The columns that hold a row. -/
def BlobRow.columns (row : BlobRow) : BlobColumns Int where
  slot := row.metadata.binding.slot.value
  blobRef := row.metadata.blob.value
  uploadHandle := row.metadata.handle.value
  objectKey := row.metadata.key.value
  subject := row.metadata.binding.subject.value
  context := row.metadata.binding.context.value
  input := row.metadata.binding.input.value
  anonymous := if row.anonymous then 1 else 0
  state := row.metadata.state.text
  generation := row.metadata.generation.value
  reservedBytes := row.metadata.reserved
  actualBytes := row.metadata.bytes
  sha256 := digestText row.metadata.digest
  filename := row.filename.value
  createdMs := row.created.millis
  expiresMs := row.metadata.expires.millis
  ownerResource := (row.metadata.association.map (·.resource.val)).getD 0
  ownerId := (row.metadata.association.map (·.id.val)).getD 0
  ownerIncarnation := (row.metadata.association.map (·.incarnation)).getD ""
  ownerField := (row.metadata.association.map (·.field)).getD ""
  claimedMs := row.claimed.millis
  ownerProcess := row.process.value

/-! ## Written texts are read back -/

theorem utf8Size_of_lowerHex {c : Char} (h : lowerHex c = true) : c.utf8Size = 1 := by
  have small : c.val ≤ 127 := by
    simp only [lowerHex, Char.isDigit, Bool.or_eq_true, Bool.and_eq_true, decide_eq_true_eq] at h
    rcases h with ⟨_, h⟩ | ⟨_, h⟩
    · exact UInt32.le_trans h (by decide)
    · exact UInt32.le_trans h (by decide)
  simp [Char.utf8Size, small]

theorem hexDigit_lowerHex : ∀ n < 16, lowerHex (hexDigit n) = true := by
  decide

theorem hashDigit_hexDigit : ∀ n < 16, hashDigit (hexDigit n) = .ok n := by
  decide

theorem hexChars_all (bytes : List UInt8) : (hexChars bytes).all lowerHex = true := by
  induction bytes with
  | nil => rfl
  | cons byte rest ih =>
      have range := byte.toNat_lt
      have high := hexDigit_lowerHex (byte.toNat / 16) (by omega)
      have low := hexDigit_lowerHex (byte.toNat % 16) (by omega)
      simp only [hexChars, List.all_cons, high, low, ih, Bool.and_self]

theorem hexChars_length (bytes : List UInt8) : (hexChars bytes).length = 2 * bytes.length := by
  induction bytes with
  | nil => rfl
  | cons byte rest ih =>
      simp only [hexChars, List.length_cons, ih]
      omega

theorem hashPairs_hexChars (bytes : List UInt8) : hashPairs (hexChars bytes) = .ok bytes := by
  induction bytes with
  | nil => rfl
  | cons byte rest ih =>
      have range := byte.toNat_lt
      have high := hashDigit_hexDigit (byte.toNat / 16) (by omega)
      have low := hashDigit_hexDigit (byte.toNat % 16) (by omega)
      have whole : (byte.toNat / 16 * 16 + byte.toNat % 16).toUInt8 = byte := by
        rw [Nat.div_add_mod']
        exact UInt8.ofNat_toNat
      simp only [hexChars, hashPairs, high, low, ih, bind_ok, whole]
      rfl

theorem hex_size (digest : Digest) : (hex digest).utf8ByteSize = 64 := by
  have ascii : ∀ c ∈ (hex digest).toList, c.utf8Size = 1 := by
    intro c hc
    rw [hex, String.toList_ofList] at hc
    exact utf8Size_of_lowerHex (List.all_eq_true.mp (hexChars_all _) c hc)
  rw [Decimal.utf8ByteSize_of_ascii ascii, hex, String.toList_ofList, hexChars_length, digest.sized]

/-- A hash is read back as it was written. -/
theorem hash_hex (digest : Digest) : hash (hex digest) = .ok digest := by
  unfold hash
  rw [check, ensure_pos (hex_size digest), bind_ok, hex, String.toList_ofList, hashPairs_hexChars,
    bind_ok, dif_pos digest.sized]

theorem parseDigest_digestText (digest : Option Digest) : parseDigest (digestText digest) = .ok digest := by
  cases digest with
  | none => rfl
  | some digest =>
      have nonempty : ¬ digestText (some digest) = "" := by
        intro empty
        have size := hex_size digest
        simp only [digestText] at empty
        rw [empty] at size
        exact absurd size (by decide)
      unfold parseDigest
      rw [if_neg nonempty, digestText, hash_hex]
      rfl

/-- A number in the storage range is read back as it was written. -/
theorem integer_print (n : I64) (nonneg : 0 ≤ n.val) : integer (toString n.val) = .ok n := by
  have parsed := Decimal.parseI64_print n.property.1 n.property.2
  unfold integer
  split
  · rename_i none
    rw [parsed] at none
    cases none
  · rename_i number found
    rw [parsed] at found
    cases found
    rw [check, ensure_pos ⟨nonneg, rfl⟩]
    rfl

/-- Only a nonnegative number's own text is read. -/
theorem integer_ok {value : String} {n : I64} (h : integer value = .ok n) :
    0 ≤ n.val ∧ value = toString n.val := by
  unfold integer at h
  split at h
  · cases h
  · simp only [check, bind_eq_ok, ensure_eq_ok] at h
    rcases h with ⟨_, ⟨nonneg, print⟩, h⟩
    cases h
    exact ⟨nonneg, print.symm⟩

theorem integer_printNat {n : Nat} (range : n < 2 ^ 63) :
    integer (toString (n : Int)) = .ok ⟨n, by omega, by omega⟩ :=
  integer_print ⟨n, by omega, by omega⟩ (Int.natCast_nonneg n)

theorem unsigned_printNat {n : Nat} (range : n < 2 ^ 63) : unsigned (toString (n : Int)) = .ok n := by
  unfold unsigned
  rw [integer_printNat range, bind_ok]
  rfl

theorem State.parse_text (state : State) : State.parse state.text = .ok state := by
  cases state <;> rfl

theorem Timestamp.fromUnixMillis_millis (time : Timestamp) :
    Timestamp.fromUnixMillis time.millis = .ok time := by
  have range := time.bound
  unfold Timestamp.fromUnixMillis
  rw [dif_pos (by omega)]
  rfl

theorem readTimestamp_print (time : Timestamp) :
    readTimestamp (toString (time.millis : Int)) = .ok time := by
  unfold readTimestamp
  rw [integer_printNat time.bound, bind_ok]
  exact Timestamp.fromUnixMillis_millis time

theorem Timestamp.checkedAdd_ok {time later : Timestamp} {millis : Nat} :
    time.checkedAdd millis = .ok later ↔ later.millis = time.millis + millis := by
  unfold Timestamp.checkedAdd
  constructor
  · intro h
    split at h
    · cases h
      rfl
    · cases h
  · intro h
    have range := later.bound
    rw [h] at range
    rw [dif_pos range]
    cases later
    cases h
    rfl

theorem Generation.parse_value (generation : Generation) :
    Generation.parse generation.value = .ok generation := by
  have range := generation.bound
  have pos := generation.pos
  unfold Generation.parse
  rw [dif_pos (by omega)]
  rfl

theorem readGeneration_print (generation : Generation) :
    readGeneration (toString (generation.value : Int)) = .ok generation := by
  unfold readGeneration
  rw [integer_printNat generation.bound, bind_ok]
  exact Generation.parse_value generation

theorem Commitment.parse_value (token : Commitment) : Commitment.parse token.value = .ok token :=
  dif_pos token.valid

theorem ObjectKey.parse_value (token : ObjectKey) : ObjectKey.parse token.value = .ok token :=
  dif_pos token.valid

theorem BlobRef.parse_value (token : BlobRef) : BlobRef.parse token.value = .ok token :=
  dif_pos token.valid

theorem UploadHandle.parse_value (token : UploadHandle) :
    UploadHandle.parse token.value = .ok token :=
  dif_pos token.valid

theorem hexToken_size {value : String} (h : hexToken value = true) : value.utf8ByteSize ≤ 64 := by
  simp only [hexToken, Bool.and_eq_true, beq_iff_eq] at h
  exact h.1.le

theorem blobToken_size {tag : List Char} {value : String} (h : blobToken tag value = true)
    (ascii : ∀ c ∈ tag, c.utf8Size = 1) (short : tag.length = 3) : value.utf8ByteSize ≤ 67 := by
  simp only [blobToken, Bool.and_eq_true, beq_iff_eq, List.isPrefixOf_iff_prefix] at h
  rcases h with ⟨⟨rest, split⟩, length, digits⟩
  rw [← split, List.drop_left] at length digits
  rw [Decimal.utf8ByteSize_of_ascii, ← split, List.length_append]
  · omega
  · intro c hc
    rw [← split, List.mem_append] at hc
    rcases hc with hc | hc
    · exact ascii c hc
    · exact utf8Size_of_lowerHex (List.all_eq_true.mp digits c hc)

/-! ## Rows of consistent shape -/

section Consistent

variable {sha256 : List UInt8 → Digest} {row : BlobRow}

/-- The cross-field rules of a row, except for the grammar of its owner's field. -/
structure Consistent (sha256 : List UInt8 → Digest) (row : BlobRow) : Prop where
  lifetime : row.created.millis + stageLifetimeMillis = row.metadata.expires.millis
  owned : ∀ association, row.metadata.association = some association → association.validate = .ok ()
  reserved : row.metadata.reserved ≤ maxUploadBytes
  bytes : row.metadata.bytes ≤ maxUploadBytes
  shape : checkShape row.metadata = .ok ()
  handle : checkHandle sha256 row.metadata = .ok ()

/-- The owner's field is a contract identifier. -/
def NamedField (m : Metadata) : Prop :=
  ∀ association, m.association = some association → identifier association.field = true

theorem validate_ok {association : Association} :
    association.validate = .ok () ↔ 0 < association.resource.val ∧ 0 < association.id.val
      ∧ association.incarnation ≠ "" ∧ association.incarnation.utf8ByteSize ≤ 64
      ∧ association.incarnation.toList.all isIncarnationChar = true
      ∧ association.field ≠ "" ∧ association.field.utf8ByteSize ≤ 64
      ∧ association.field.toList.all isFieldChar = true := by
  simp only [Association.validate, check, ensure_eq_ok]

theorem identifier_size {name : String} (h : identifier name = true) : name.utf8ByteSize ≤ 32 := by
  unfold identifier at h
  split at h
  · exact absurd h (by decide)
  · simp only [Bool.and_eq_true, decide_eq_true_eq] at h
    exact h.1.1

theorem parseOwner_some {association : Association} (valid : association.validate = .ok ())
    (named : identifier association.field = true) :
    parseOwner association.resource association.id association.incarnation association.field
      = .ok (some association) := by
  rcases validate_ok.mp valid with ⟨resource, id, nonempty, size, _⟩
  have present : ¬ (association.resource.val = 0 ∧ association.id.val = 0
      ∧ association.incarnation = "" ∧ association.field = "") := by
    rintro ⟨zero, _⟩
    omega
  unfold parseOwner
  rw [if_neg present, check, ensure_pos ⟨resource, id, nonempty, size, named⟩, bind_ok]
  dsimp only
  rw [valid]
  rfl

/-- The selected texts of a row are within their limits. -/
theorem columns_bounded (consistent : Consistent sha256 row) (named : NamedField row.metadata) :
    row.columns.texts.Bounded := by
  have number : ∀ {n : Nat}, n < 2 ^ 63 → (toString (n : Int)).utf8ByteSize ≤ 20 := by
    intro n range
    exact Decimal.utf8ByteSize_print_le (by omega) (by omega)
  have reserved := consistent.reserved
  have bytes := consistent.bytes
  simp only [maxUploadBytes] at reserved bytes
  have digest : (digestText row.metadata.digest).utf8ByteSize ≤ 64 := by
    cases row.metadata.digest with
    | none => decide
    | some digest => exact (hex_size digest).le
  have owner : (toString ((row.metadata.association.map (·.resource.val)).getD 0)).utf8ByteSize ≤ 20
      ∧ (toString ((row.metadata.association.map (·.id.val)).getD 0)).utf8ByteSize ≤ 20
      ∧ ((row.metadata.association.map (·.incarnation)).getD "").utf8ByteSize ≤ 64
      ∧ ((row.metadata.association.map (·.field)).getD "").utf8ByteSize ≤ 32 := by
    cases shape : row.metadata.association with
    | none => exact ⟨by decide, by decide, by decide, by decide⟩
    | some association =>
        rcases validate_ok.mp (consistent.owned association shape) with ⟨_, _, _, size, _⟩
        have field := identifier_size (named association shape)
        have resource := association.resource.property
        have id := association.id.property
        exact ⟨Decimal.utf8ByteSize_print_le resource.1 resource.2,
          Decimal.utf8ByteSize_print_le id.1 id.2, size, field⟩
  refine ⟨?_, ?_, ?_, row.filename.size, owner.2.2.2, ?_⟩
  · simp only [List.forall_mem_cons, List.not_mem_nil, false_implies, implies_true, and_true]
    exact ⟨hexToken_size row.metadata.binding.slot.valid, hexToken_size row.metadata.key.valid,
      hexToken_size row.metadata.binding.subject.valid,
      hexToken_size row.metadata.binding.context.valid,
      hexToken_size row.metadata.binding.input.valid, digest, owner.2.2.1,
      hexToken_size row.process.valid⟩
  · simp only [List.forall_mem_cons, List.not_mem_nil, false_implies, implies_true, and_true]
    exact ⟨blobToken_size row.metadata.blob.valid (by decide) rfl,
      blobToken_size row.metadata.handle.valid (by decide) rfl⟩
  · simp only [BlobColumns.texts, BlobRow.columns]
    cases row.metadata.state <;> decide
  · simp only [List.forall_mem_cons, List.not_mem_nil, false_implies, implies_true, and_true]
    refine ⟨?_, number row.metadata.generation.bound, number (by omega), number (by omega),
      number row.created.bound, number row.metadata.expires.bound, owner.1, owner.2.1,
      number row.claimed.bound⟩
    simp only [BlobColumns.texts, BlobRow.columns]
    cases row.anonymous <;> decide

/-- The owner columns are read back as the association. -/
theorem parseOwner_columns (consistent : Consistent sha256 row) (named : NamedField row.metadata) :
    ∃ resource id, integer row.columns.texts.ownerResource = .ok resource
      ∧ integer row.columns.texts.ownerId = .ok id
      ∧ parseOwner resource id row.columns.texts.ownerIncarnation row.columns.texts.ownerField
        = .ok row.metadata.association := by
  simp only [BlobColumns.texts, BlobRow.columns]
  cases shape : row.metadata.association with
  | none =>
      have zero := integer_print ⟨0, by decide⟩ le_rfl
      exact ⟨_, _, zero, zero, rfl⟩
  | some association =>
      have valid := consistent.owned association shape
      rcases validate_ok.mp valid with ⟨resource, id, _⟩
      exact ⟨association.resource, association.id, integer_print _ resource.le,
        integer_print _ id.le, parseOwner_some valid (named association shape)⟩

/-- A row of consistent shape is parsed back as it was written. -/
theorem BlobRow.parse_texts (consistent : Consistent sha256 row) (named : NamedField row.metadata) :
    BlobRow.parse sha256 row.columns.texts = .ok row := by
  have reserved := consistent.reserved
  have bytes := consistent.bytes
  have lifetime := Timestamp.checkedAdd_ok.mpr consistent.lifetime.symm
  have sized : row.metadata.reserved < 2 ^ 63 ∧ row.metadata.bytes < 2 ^ 63 := by
    simp only [maxUploadBytes] at reserved bytes
    omega
  have state : State.parse row.columns.texts.state = .ok row.metadata.state := State.parse_text _
  have created : readTimestamp row.columns.texts.createdMs = .ok row.created :=
    readTimestamp_print _
  have expires : readTimestamp row.columns.texts.expiresMs = .ok row.metadata.expires :=
    readTimestamp_print _
  have claimed : readTimestamp row.columns.texts.claimedMs = .ok row.claimed :=
    readTimestamp_print _
  have generation : readGeneration row.columns.texts.generation = .ok row.metadata.generation :=
    readGeneration_print _
  have reserved' : unsigned row.columns.texts.reservedBytes = .ok row.metadata.reserved :=
    unsigned_printNat sized.1
  have bytes' : unsigned row.columns.texts.actualBytes = .ok row.metadata.bytes :=
    unsigned_printNat sized.2
  have digest : parseDigest row.columns.texts.sha256 = .ok row.metadata.digest :=
    parseDigest_digestText _
  have blob : BlobRef.parse row.columns.texts.blobRef = .ok row.metadata.blob :=
    BlobRef.parse_value _
  have handle : UploadHandle.parse row.columns.texts.uploadHandle = .ok row.metadata.handle :=
    UploadHandle.parse_value _
  have key : ObjectKey.parse row.columns.texts.objectKey = .ok row.metadata.key :=
    ObjectKey.parse_value _
  have slot : Commitment.parse row.columns.texts.slot = .ok row.metadata.binding.slot :=
    Commitment.parse_value _
  have subject : Commitment.parse row.columns.texts.subject = .ok row.metadata.binding.subject :=
    Commitment.parse_value _
  have context : Commitment.parse row.columns.texts.context = .ok row.metadata.binding.context :=
    Commitment.parse_value _
  have input : Commitment.parse row.columns.texts.input = .ok row.metadata.binding.input :=
    Commitment.parse_value _
  have name : AttachmentName.normalize row.columns.texts.filename = .ok row.filename :=
    AttachmentName.normalize_value _
  have process : ObjectKey.parse row.columns.texts.ownerProcess = .ok row.process :=
    ObjectKey.parse_value _
  have anonymous : parseAnonymous row.columns.texts.anonymous = .ok row.anonymous := by
    simp only [BlobColumns.texts, BlobRow.columns]
    cases row.anonymous <;> rfl
  have normal : row.filename.value = row.columns.texts.filename := rfl
  have owner := parseOwner_columns consistent named
  rcases owner with ⟨resource, id, hresource, hid, howner⟩
  unfold BlobRow.parse
  rw [state, bind_ok, created, bind_ok, expires, bind_ok, lifetime, bind_ok, check, ensure_pos rfl,
    bind_ok, hresource, bind_ok, hid, bind_ok, howner, bind_ok, reserved', bind_ok, bytes', bind_ok,
    check, ensure_pos ⟨reserved, bytes⟩, bind_ok, digest, bind_ok, blob, bind_ok, handle, bind_ok,
    key, bind_ok, slot, bind_ok, subject, bind_ok, context, bind_ok, input, bind_ok, generation,
    bind_ok]
  dsimp only
  rw [consistent.shape, bind_ok, consistent.handle, bind_ok, name, bind_ok, check,
    ensure_pos normal, bind_ok, anonymous, bind_ok, claimed, bind_ok, process, bind_ok]
  rfl

/-- A row of consistent shape whose owner's field is an identifier is read back as it
was written. -/
theorem BlobRow.parse_select (consistent : Consistent sha256 row)
    (named : NamedField row.metadata) :
    (row.columns.select >>= BlobRow.parse sha256) = .ok row := by
  rw [select_bounded (columns_bounded consistent named), bind_ok]
  exact BlobRow.parse_texts consistent named

/-- A row reads its file name alone: another normalized name is read as well. -/
theorem BlobRow.parse_rename {sha256 : List UInt8 → Digest} {columns : BlobColumns String} {row : BlobRow}
    (name : AttachmentName) (h : BlobRow.parse sha256 columns = .ok row) :
    BlobRow.parse sha256 { columns with filename := name.value } = .ok { row with filename := name } := by
  simp only [BlobRow.parse, bind_eq_ok, ensure_eq_ok] at h ⊢
  rcases h with ⟨state, state', created, created', expires, expires', ends, ends', _, lifetime,
    resource, resource', id, id', association, association', reserved, reserved', bytes, bytes', _, size,
    digest, digest', blob, blob', handle, handle', key, key', slot, slot', subject, subject',
    context, context', binding, binding', generation, generation', _, shape, _, checked, other, other',
    _, same, anonymous, anonymous', claimed, claimed', process, process', result⟩
  cases result
  exact ⟨state, state', created, created', expires, expires', ends, ends', (), lifetime,
    resource, resource', id, id', association, association', reserved, reserved', bytes, bytes', (), size,
    digest, digest', blob, blob', handle, handle', key, key', slot, slot', subject, subject',
    context, context', binding, binding', generation, generation', (), shape, (), checked, name,
    name.normalize_value, (), rfl, anonymous, anonymous', claimed, claimed', process, process', rfl⟩

theorem parseOwner_named {resource id : I64} {incarnation field : String}
    {result : Option Association} (h : parseOwner resource id incarnation field = .ok result)
    (present : incarnation ≠ "") : identifier field = true := by
  unfold parseOwner at h
  rw [if_neg (fun empty => present empty.2.2.1)] at h
  rcases bind_eq_ok.mp h with ⟨_, checked, _⟩
  exact (ensure_eq_ok.mp checked).2.2.2.2

/-- A row that is parsed at all has an identifier as its owner's field. -/
theorem BlobRow.parse_field {texts : BlobColumns String} {result : BlobRow}
    (h : BlobRow.parse sha256 texts = .ok result) (present : texts.ownerIncarnation ≠ "") :
    identifier texts.ownerField = true := by
  unfold BlobRow.parse at h
  rcases bind_eq_ok.mp h with ⟨_, _, h⟩
  rcases bind_eq_ok.mp h with ⟨_, _, h⟩
  rcases bind_eq_ok.mp h with ⟨_, _, h⟩
  rcases bind_eq_ok.mp h with ⟨_, _, h⟩
  rcases bind_eq_ok.mp h with ⟨_, _, h⟩
  rcases bind_eq_ok.mp h with ⟨_, _, h⟩
  rcases bind_eq_ok.mp h with ⟨_, _, h⟩
  rcases bind_eq_ok.mp h with ⟨_, owner, _⟩
  exact parseOwner_named owner present

/-- A row that is read back at all is read back as it was written. -/
theorem BlobRow.parse_unique {result : BlobRow} (consistent : Consistent sha256 row)
    (h : (row.columns.select >>= BlobRow.parse sha256) = .ok result) :
    NamedField row.metadata ∧ result = row := by
  have named : NamedField row.metadata := by
    intro association owner
    rcases validate_ok.mp (consistent.owned association owner) with ⟨_, _, nonempty, _⟩
    rcases bind_eq_ok.mp h with ⟨texts, selected, parsed⟩
    have same : texts = row.columns.texts := by
      unfold BlobColumns.select at selected
      rcases bind_eq_ok.mp selected with ⟨_, _, same⟩
      exact (Except.ok.inj same).symm
    rw [same] at parsed
    have field := BlobRow.parse_field parsed
    simp only [BlobColumns.texts, BlobRow.columns, owner, Option.map_some, Option.getD_some] at field
    exact field nonempty
  refine ⟨named, ?_⟩
  have read := BlobRow.parse_select consistent named
  rw [read] at h
  exact (Except.ok.inj h).symm

end Consistent

/-! ## An example row -/

def sampleToken : String :=
  "1111111111111111111111111111111111111111111111111111111111111111"

def otherToken : String :=
  "2222222222222222222222222222222222222222222222222222222222222222"

def sampleKey : ObjectKey := ⟨sampleToken, by decide +kernel⟩

def otherKey : ObjectKey := ⟨otherToken, by decide +kernel⟩

def sampleCommitment : Commitment := ⟨sampleToken, by decide +kernel⟩

def sampleName : AttachmentName :=
  ⟨"report.html", by decide, by decide, by decide, by decide⟩

/-- An upload of at most ten bytes that another process reserved at the epoch. -/
def sampleUpload : BlobRow where
  metadata := {
    blob := ⟨"b1_" ++ sampleToken, by decide +kernel⟩
    handle := ⟨"u1_" ++ sampleToken, by decide +kernel⟩
    key := sampleKey
    binding := ⟨sampleCommitment, sampleCommitment, sampleCommitment, sampleCommitment⟩
    state := .uploading
    generation := .first
    expires := ⟨900000, by decide⟩
    reserved := 10
    bytes := 0
    digest := none
    association := none }
  anonymous := false
  filename := sampleName
  created := .unixEpoch
  claimed := .unixEpoch
  process := sampleKey

/-! ## Normal names -/

/-- A normalized name is a label that no header and no row refuses. -/
theorem attachment_names_normal (sha256 : List UInt8 → Digest) (input : String) :
    (input.utf8ByteSize ≤ 255 ↔ ∃ name, AttachmentName.normalize input = .ok name)
      ∧ ∀ name, AttachmentName.normalize input = .ok name →
        name.value ≠ ""
          ∧ name.value.toList.length ≤ 80
          ∧ (∀ c ∈ name.value.toList, isLabelChar c = true)
          ∧ (∀ c, name.value.toList.head? = some c → isLabelEdge c = false)
          ∧ (∀ c, name.value.toList.getLast? = some c → isLabelEdge c = false)
          ∧ AttachmentName.normalize name.value = .ok name
          ∧ ∀ columns row, BlobRow.parse sha256 columns = .ok row →
            BlobRow.parse sha256 { columns with filename := name.value } = .ok { row with filename := name } := by
  refine ⟨⟨AttachmentName.normalize_ok, ?_⟩, ?_⟩
  · rintro ⟨name, normal⟩
    simp only [AttachmentName.normalize, bind_eq_ok, ensure_eq_ok] at normal
    rcases normal with ⟨_, short, _⟩
    exact short
  · intro name _
    have edges := trimLabel_edges name.trimmed
    refine ⟨?_, name.bound, List.all_eq_true.mp name.chars, edges.1, edges.2, name.normalize_value, ?_⟩
    · intro empty
      exact name.nonempty (by rw [empty]; rfl)
    · intro columns row read
      exact BlobRow.parse_rename name read

/-- A digest for examples in which no content is finalized. -/
def noDigest : List UInt8 → Digest := fun _ => ⟨List.replicate 32 0, by decide⟩

theorem sample_parse : BlobRow.parse noDigest sampleUpload.columns.texts = .ok sampleUpload := by decide +kernel

/-- A path with other characters leaves its cut and trimmed base name. -/
theorem attachment_names_normal_sample : ∃ name, AttachmentName.normalize "../a b/..x\"é.html_" = .ok name
    ∧ name.value = "x__.html" ∧ AttachmentName.normalize "x__.html" = .ok name
    ∧ BlobRow.parse noDigest { sampleUpload.columns.texts with filename := "x__.html" }
      = .ok { sampleUpload with filename := name } := by
  have normal := attachment_names_normal noDigest "../a b/..x\"é.html_"
  rcases normal.1.mp (by decide) with ⟨name, normalized⟩
  have label : name.value = "x__.html" := by
    have value : (AttachmentName.normalize "../a b/..x\"é.html_").map (·.value) = .ok "x__.html" := by
      decide
    rw [normalized] at value
    exact Except.ok.inj value
  have facts := (normal.2 name normalized).2.2.2.2.2
  rw [label] at facts
  exact ⟨name, normalized, label, facts.1, facts.2 _ _ sample_parse⟩

end Blobs
end Noxide
