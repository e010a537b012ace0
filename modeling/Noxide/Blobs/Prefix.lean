import Noxide.Blobs.Multipart
import Noxide.Blobs.PartHeaders

/-!
# Decoding the prefix of an upload

The scalar parts of a native form, in the order of their schema, up to the header of its file.
The decoder reads byte after byte in whatever chunks arrive, keeps partial headers and partial
delimiters between them, and stops before the first byte of the file.

Main results:

- Theorem {lit}`readFrom_encoded`: an encoded form is read back up to the end of the file's header.
- Theorem {lit}`readFrom_fields`: whatever is read, only fields of the schema are, in its order.
- Theorem {lit}`prefix_decoder_reads`: both for every cut of the input, and a decoder that failed
  once fails for good.
-/

namespace Noxide

/-- The delimiter that opens a form. -/
def Boundary.initial (boundary : Boundary) : List UInt8 :=
  [45, 45] ++ boundary.token ++ [13, 10]

/-- The delimiter between two parts. -/
def Boundary.next (boundary : Boundary) : List UInt8 :=
  [13, 10, 45, 45] ++ boundary.token ++ [13, 10]

namespace Multipart

open Checked
open Form (utf8Bytes fromUTF8_bytes)
open Blobs (AttachmentName)

/-! ## The schema -/

def prefixBytes : Nat := 65536

def headerBytes : Nat := 1024

def fieldBytes : Nat := 32768

def maxFields : Nat := 39

structure ScalarPart where
  name : String
  maxBytes : Nat
  required : Bool
  deriving DecidableEq, Repr

/-- Check scalar parts in order, with the names seen so far. -/
def checkParts (seen : List String) : List ScalarPart → Result (List String)
  | [] => .ok seen
  | part :: parts => do
      check "invalid multipart scalar schema"
        (partName part.name = true ∧ (1 ≤ part.maxBytes ∧ part.maxBytes ≤ fieldBytes) ∧ part.name ∉ seen)
      checkParts (part.name :: seen) parts

def checkSpec (fields : List ScalarPart) (file : String) (limit : Nat) : Result Unit := do
  check "invalid multipart schema"
    ((3 ≤ fields.length ∧ fields.length ≤ maxFields) ∧ 1 ≤ limit ∧ limit ≤ Blobs.maxUploadBytes)
  let seen ← checkParts [] fields
  check "invalid multipart security prefix"
    ((fields.take 3).all ScalarPart.required = true ∧ fields[2]?.any (·.name == "_upload") = true)
  check "invalid multipart file schema" (partName file = true ∧ file ∉ seen)

/-- A schema that passed its checks. -/
structure PrefixSpec where
  fields : List ScalarPart
  file : String
  optional : Bool
  limit : Nat
  admitted : checkSpec fields file limit = .ok ()

def PrefixSpec.new (fields : List ScalarPart) (file : String) (optional : Bool) (limit : Nat) :
    Result PrefixSpec :=
  match admitted : checkSpec fields file limit with
  | .ok () => .ok ⟨fields, file, optional, limit, admitted⟩
  | .error e => .error e

/-! ## The decoder -/

inductive PrefixPhase where
  | initial (cursor : Nat)
  | headers
  | scalar (field : Nat) (value : List UInt8) (matcher : Matcher)
  | ready
  | poisoned

/-- A decoder in this phase takes input. -/
def PrefixPhase.isOpen : PrefixPhase → Bool
  | ready => false
  | poisoned => false
  | _ => true

/-- The values of the fields read so far, in the order in which they were read. -/
abbrev Values := List (String × String)

/-- The source's insertion into a map. -/
def insertValue (values : Values) (name value : String) : Values :=
  values.filter (·.1 ≠ name) ++ [(name, value)]

structure PrefixDecoder where
  boundary : Boundary
  spec : PrefixSpec
  phase : PrefixPhase
  headers : List UInt8
  values : Values
  field : Nat
  total : Nat

structure ReadyPrefix where
  values : Values
  filename : Option AttachmentName
  boundary : Boundary
  limit : Nat

structure PrefixProgress where
  consumed : Nat
  ready : Option ReadyPrefix

namespace PrefixDecoder

def new (boundary : Boundary) (spec : PrefixSpec) : PrefixDecoder where
  boundary := boundary
  spec := spec
  phase := .initial 0
  headers := []
  values := []
  field := 0
  total := 0

/-- The fields that may still come. -/
def remaining (d : PrefixDecoder) : List ScalarPart := d.spec.fields.drop d.field

/-- The name of the file; an empty one means that none was chosen. -/
def uploadName (raw : String) : Result (Option AttachmentName) :=
  if raw = "" then .ok none else some <$> AttachmentName.normalize raw

/-- The header of the file's part ends the prefix. -/
def filePart (d : PrefixDecoder) (headers : PartHeaders) : Result (PrefixDecoder × ReadyPrefix) := do
  check "missing multipart prefix field" (∀ part ∈ d.remaining, part.required = false)
  let raw ← need "file part lacks filename" headers.filename
  check "required upload missing" (raw ≠ "" ∨ d.spec.optional = true)
  let filename ← uploadName raw
  return ({ d with phase := .ready, values := [] },
    { values := d.values
      filename := filename
      boundary := d.boundary
      limit := if filename.isSome = true then d.spec.limit else 0 })

/-- The header of a scalar part names a field that may still come. -/
def scalarPart (d : PrefixDecoder) (headers : PartHeaders) : Result PrefixDecoder := do
  check "file or media header in scalar prefix" (headers.filename = none ∧ headers.contentType = false)
  let offset ← need "unknown, duplicate or reordered multipart field"
    (d.remaining.findIdx? (·.name = headers.name))
  check "missing required multipart prefix" (∀ part ∈ d.remaining.take offset, part.required = false)
  return { d with
    field := d.field + offset + 1
    phase := .scalar (d.field + offset) [] (Matcher.new d.boundary.next) }

/-- The end of a part's header. -/
def headersEnd (d : PrefixDecoder) (header : List UInt8) : Result (PrefixDecoder × Option ReadyPrefix) := do
  let headers ← parseHeaders header
  let d := { d with headers := [] }
  if headers.name = d.spec.file then do
    let (d, ready) ← d.filePart headers
    return (d, some ready)
  else do
    let d ← d.scalarPart headers
    return (d, none)

/-- The end of a scalar part. -/
def scalarEnd (d : PrefixDecoder) (part : ScalarPart) (value : List UInt8) : Result PrefixDecoder := do
  let text ← need "multipart scalar is not UTF-8" (String.fromUTF8? value.toByteArray)
  return { d with values := insertValue d.values part.name text, phase := .headers }

/-- One byte that is within the limit. -/
def readPhase (d : PrefixDecoder) (byte : UInt8) : Result (PrefixDecoder × Option ReadyPrefix) :=
  match d.phase with
  | .initial cursor => do
      check "invalid initial multipart delimiter" (d.boundary.initial[cursor]? = some byte)
      let phase : PrefixPhase :=
        if cursor + 1 = d.boundary.initial.length then .headers else .initial (cursor + 1)
      return ({ d with phase := phase }, none)
  | .headers => do
      check "multipart header limit" (d.headers.length < headerBytes)
      let headers := d.headers ++ [byte]
      if headerEnd <:+ headers then d.headersEnd (headers.take (headers.length - headerEnd.length))
      else return ({ d with headers := headers }, none)
  | .scalar field value matcher => do
      let part ← need "index out of bounds" d.spec.fields[field]?
      let (released, matcher, ended) := matcher.byte byte
      check "multipart scalar limit" (value.length + released.length ≤ part.maxBytes)
      if ended = true then do
        let d ← d.scalarEnd part (value ++ released)
        return (d, none)
      else return ({ d with phase := .scalar field (value ++ released) matcher }, none)
  | .ready => .error (.message "internal error: entered unreachable code")
  | .poisoned => .error (.message "internal error: entered unreachable code")

def readByte (d : PrefixDecoder) (byte : UInt8) : Result (PrefixDecoder × Option ReadyPrefix) := do
  check "multipart prefix overflow" (d.total + 1 < 2 ^ 64)
  check "multipart prefix limit" (d.total + 1 ≤ prefixBytes)
  { d with total := d.total + 1 }.readPhase byte

/-- Read an input from an index on, up to its end or to the end of the prefix. -/
def readFrom (index : Nat) (d : PrefixDecoder) : List UInt8 → Result (PrefixDecoder × PrefixProgress)
  | [] => .ok (d, ⟨index, none⟩)
  | byte :: rest => do
      let (d, ready) ← d.readByte byte
      match ready with
      | some ready => return (d, ⟨index + 1, some ready⟩)
      | none => readFrom (index + 1) d rest

def pushInner (d : PrefixDecoder) (input : List UInt8) : Result (PrefixDecoder × PrefixProgress) := do
  check "multipart input buffer limit" (input.length ≤ transferBufferBytes)
  check "multipart prefix is closed" (d.phase.isOpen = true)
  d.readFrom 0 input

/-- Any failure poisons the decoder. -/
def push (d : PrefixDecoder) (input : List UInt8) : PrefixDecoder × Result PrefixProgress :=
  match d.pushInner input with
  | .ok (d, progress) => (d, .ok progress)
  | .error e => ({ d with phase := .poisoned }, .error e)

/-- Push chunks one after the other, up to the end of the prefix or the first failure, with the
number of bytes consumed so far. -/
def pushAll (d : PrefixDecoder) (consumed : Nat) : List (List UInt8) → PrefixDecoder × Result PrefixProgress
  | [] => (d, .ok ⟨consumed, none⟩)
  | chunk :: rest =>
      match d.push chunk with
      | (d, .error e) => (d, .error e)
      | (d, .ok progress) =>
          if progress.ready.isSome = true then (d, .ok { progress with consumed := consumed + progress.consumed })
          else pushAll d (consumed + progress.consumed) rest

end PrefixDecoder

/-! ## Values of a schema -/

/-- Values of fields in the order of their schema, each within its bound, with none of the
required ones left out. -/
inductive FieldsOf : List ScalarPart → Values → Prop where
  | nil : FieldsOf [] []
  | present {part : ScalarPart} {fields : List ScalarPart} {value : String} {values : Values}
      (bound : value.utf8ByteSize ≤ part.maxBytes) (rest : FieldsOf fields values) :
      FieldsOf (part :: fields) ((part.name, value) :: values)
  | absent {part : ScalarPart} {fields : List ScalarPart} {values : Values}
      (skipped : part.required = false) (rest : FieldsOf fields values) : FieldsOf (part :: fields) values

/-- The names of the values are names of the fields, in order. -/
theorem FieldsOf.names {fields : List ScalarPart} {values : Values} (h : FieldsOf fields values) :
    (values.map Prod.fst).Sublist (fields.map ScalarPart.name) := by
  induction h with
  | nil => exact List.Sublist.refl _
  | present _ _ ih => exact ih.cons_cons _
  | absent _ _ ih => exact ih.cons _

/-- Fields that may be left out are. -/
theorem FieldsOf.skip {skipped : List ScalarPart} (h : ∀ part ∈ skipped, part.required = false) :
    FieldsOf skipped [] := by
  induction skipped with
  | nil => exact .nil
  | cons part skipped ih =>
      exact .absent (h part List.mem_cons_self) (ih fun other member => h other (List.mem_cons_of_mem _ member))

theorem FieldsOf.append {fields more : List ScalarPart} {values later : Values} (h : FieldsOf fields values)
    (h' : FieldsOf more later) : FieldsOf (fields ++ more) (values ++ later) := by
  induction h with
  | nil => exact h'
  | present bound _ ih => exact .present bound ih
  | absent skipped _ ih => exact .absent skipped ih

/-- Without values, every field was one that may be left out. -/
theorem FieldsOf.none {fields : List ScalarPart} (h : FieldsOf fields []) :
    ∀ part ∈ fields, part.required = false := by
  generalize empty : ([] : Values) = values at h
  induction h with
  | nil => exact fun part member => absurd member List.not_mem_nil
  | present => cases empty
  | absent skipped _ ih => exact List.forall_mem_cons.mpr ⟨skipped, ih empty⟩

/-- The first value is that of the first field that was not left out. -/
theorem FieldsOf.first {fields : List ScalarPart} {name value : String} {values : Values}
    (h : FieldsOf fields ((name, value) :: values)) :
    ∃ skipped part rest, fields = skipped ++ part :: rest ∧ (∀ other ∈ skipped, other.required = false)
      ∧ part.name = name ∧ value.utf8ByteSize ≤ part.maxBytes ∧ FieldsOf rest values := by
  generalize same : (name, value) :: values = all at h
  induction h with
  | nil => cases same
  | present bound rest =>
      cases same
      exact ⟨[], _, _, rfl, fun other member => absurd member List.not_mem_nil, rfl, bound, rest⟩
  | @absent part fields _ skipped _ ih =>
      rcases ih same with ⟨before, first, rest, rfl, optional, named, bound, later⟩
      exact ⟨part :: before, first, rest, rfl, List.forall_mem_cons.mpr ⟨skipped, optional⟩, named, bound, later⟩

theorem checkParts_ok {seen all : List String} {parts : List ScalarPart} (h : checkParts seen parts = .ok all) :
    (parts.map ScalarPart.name).Nodup ∧ (∀ part ∈ parts, partName part.name = true ∧ part.name ∉ seen)
      ∧ ∀ name, name ∈ all ↔ name ∈ seen ∨ name ∈ parts.map ScalarPart.name := by
  induction parts generalizing seen with
  | nil =>
      cases h
      exact ⟨List.nodup_nil, fun part member => absurd member List.not_mem_nil, fun name => by simp⟩
  | cons part parts ih =>
      rcases bind_eq_ok.mp h with ⟨_, valid, rest⟩
      rcases ensure_eq_ok.mp valid with ⟨named, _, fresh⟩
      rcases ih rest with ⟨distinct, others, members⟩
      refine ⟨?_, ?_, fun name => ?_⟩
      · rw [List.map_cons, List.nodup_cons]
        refine ⟨fun member => ?_, distinct⟩
        rcases List.mem_map.mp member with ⟨other, inside, same⟩
        exact (others other inside).2 (by rw [same]; exact List.mem_cons_self)
      · refine List.forall_mem_cons.mpr ⟨⟨named, fresh⟩, fun other inside => ?_⟩
        exact ⟨(others other inside).1, fun member => (others other inside).2 (List.mem_cons_of_mem _ member)⟩
      · rw [members, List.map_cons, List.mem_cons, List.mem_cons]
        tauto

/-- What the checks say of a schema. -/
theorem PrefixSpec.valid (spec : PrefixSpec) :
    (spec.fields.map ScalarPart.name).Nodup ∧ (∀ part ∈ spec.fields, partName part.name = true)
      ∧ partName spec.file = true ∧ spec.file ∉ spec.fields.map ScalarPart.name := by
  have admitted := spec.admitted
  unfold checkSpec at admitted
  rcases bind_eq_ok.mp admitted with ⟨_, _, h⟩
  rcases bind_eq_ok.mp h with ⟨seen, parts, h⟩
  rcases bind_eq_ok.mp h with ⟨_, _, h⟩
  rcases ensure_eq_ok.mp h with ⟨named, fresh⟩
  rcases checkParts_ok parts with ⟨distinct, valid, members⟩
  refine ⟨distinct, fun part member => (valid part member).1, named, fun inside => ?_⟩
  exact fresh ((members spec.file).mpr (.inr inside))

theorem insertValue_fresh {values : Values} {name : String} (fresh : name ∉ values.map Prod.fst) (value : String) :
    insertValue values name value = values ++ [(name, value)] := by
  have kept : values.filter (·.1 ≠ name) = values := by
    rw [List.filter_eq_self]
    intro pair member
    rw [decide_eq_true_eq]
    rintro rfl
    exact fresh (List.mem_map_of_mem member)
  rw [insertValue, kept]

/-! ## What is read -/

namespace PrefixDecoder

/-- The values read so far are those of the first fields. -/
structure Collected (d : PrefixDecoder) (fields : Nat) : Prop where
  values : FieldsOf (d.spec.fields.take fields) d.values
  inside : fields ≤ d.spec.fields.length

/-- A decoder between two bytes. -/
def Sound (d : PrefixDecoder) : Prop :=
  match d.phase with
  | .initial _ => d.values = [] ∧ d.field = 0
  | .headers => d.Collected d.field
  | .scalar field value _ => d.field = field + 1 ∧ d.Collected field
      ∧ ∃ part, d.spec.fields[field]? = some part ∧ value.length ≤ part.maxBytes
  | .ready => True
  | .poisoned => True

/-- One byte keeps a decoder sound and open, or ends the prefix with values of the schema. -/
def Keeps (d : PrefixDecoder) (result : Result (PrefixDecoder × Option ReadyPrefix)) : Prop :=
  ∀ after ready, result = .ok (after, ready) → after.spec = d.spec ∧
    match ready with
    | none => after.Sound ∧ after.phase.isOpen = true
    | some ready => FieldsOf d.spec.fields ready.values

theorem filePart_keeps {d after : PrefixDecoder} {headers : PartHeaders} {ready : ReadyPrefix}
    (collected : d.Collected d.field) (h : d.filePart headers = .ok (after, ready)) :
    after.spec = d.spec ∧ FieldsOf d.spec.fields ready.values := by
  unfold filePart at h
  rcases bind_eq_ok.mp h with ⟨_, optional, h⟩
  rcases bind_eq_ok.mp h with ⟨raw, _, h⟩
  rcases bind_eq_ok.mp h with ⟨_, _, h⟩
  rcases bind_eq_ok.mp h with ⟨filename, _, h⟩
  cases h
  refine ⟨rfl, ?_⟩
  have all := collected.values.append (FieldsOf.skip (ensure_eq_ok.mp optional))
  rw [remaining, List.take_append_drop, List.append_nil] at all
  exact all

theorem scalarPart_keeps {d after : PrefixDecoder} {headers : PartHeaders} (collected : d.Collected d.field)
    (h : d.scalarPart headers = .ok after) : after.spec = d.spec ∧ after.Sound ∧ after.phase.isOpen = true := by
  unfold scalarPart at h
  rcases bind_eq_ok.mp h with ⟨_, _, h⟩
  rcases bind_eq_ok.mp h with ⟨offset, found, h⟩
  rcases bind_eq_ok.mp h with ⟨_, optional, h⟩
  cases h
  have bound := (List.findIdx?_eq_some_iff_getElem.mp (context_eq_ok.mp found)).1
  rw [remaining, List.length_drop] at bound
  have within : d.field + offset < d.spec.fields.length := by omega
  have values := collected.values.append (FieldsOf.skip (ensure_eq_ok.mp optional))
  rw [remaining, ← List.take_add, List.append_nil] at values
  refine ⟨rfl, ⟨rfl, ⟨values, within.le⟩, d.spec.fields[d.field + offset], List.getElem?_eq_getElem within, ?_⟩, rfl⟩
  exact Nat.zero_le _

theorem headersEnd_keeps {d : PrefixDecoder} (header : List UInt8) (collected : d.Collected d.field) :
    d.Keeps (d.headersEnd header) := by
  intro after ready h
  have cleared : ({ d with headers := [] } : PrefixDecoder).Collected d.field := ⟨collected.values, collected.inside⟩
  unfold headersEnd at h
  rcases bind_eq_ok.mp h with ⟨headers, _, h⟩
  simp only at h
  split at h
  · rcases bind_eq_ok.mp h with ⟨⟨d', ready'⟩, ended, h⟩
    cases h
    exact filePart_keeps (d := { d with headers := [] }) cleared ended
  · rcases bind_eq_ok.mp h with ⟨d', begun, h⟩
    cases h
    exact scalarPart_keeps (d := { d with headers := [] }) cleared begun

theorem scalarEnd_keeps {d after : PrefixDecoder} {field : Nat} {part : ScalarPart} {value : List UInt8}
    (position : d.field = field + 1) (collected : d.Collected field) (here : d.spec.fields[field]? = some part)
    (bound : value.length ≤ part.maxBytes) (h : d.scalarEnd part value = .ok after) :
    after.spec = d.spec ∧ after.Sound ∧ after.phase.isOpen = true := by
  unfold scalarEnd at h
  rcases bind_eq_ok.mp h with ⟨text, decoded, h⟩
  cases h
  have bytes : utf8Bytes text = value := fromUTF8_bytes.mp (context_eq_ok.mp decoded)
  rcases List.getElem?_eq_some_iff.mp here with ⟨inside, same⟩
  have taken : d.spec.fields.take (field + 1) = d.spec.fields.take field ++ [part] := by
    rw [List.take_succ_eq_append_getElem inside, same]
  have fresh : part.name ∉ d.values.map Prod.fst := by
    intro member
    have distinct := (d.spec.valid.1).sublist ((List.take_sublist (field + 1) d.spec.fields).map ScalarPart.name)
    rw [taken, List.map_append, List.nodup_append] at distinct
    exact distinct.2.2 _ (collected.values.names.subset member) _ (List.mem_singleton.mpr rfl) rfl
  refine ⟨rfl, ⟨?_, ?_⟩, rfl⟩
  · have size : text.utf8ByteSize ≤ part.maxBytes := by
      rw [← bytes] at bound
      exact bound
    have values := collected.values.append (FieldsOf.present size FieldsOf.nil)
    simp only [position, taken, insertValue_fresh fresh]
    exact values
  · simp only [position]
    omega

theorem readPhase_keeps {d : PrefixDecoder} (byte : UInt8) (sound : d.Sound) : d.Keeps (d.readPhase byte) := by
  intro after ready h
  unfold readPhase at h
  unfold Sound at sound
  cases phase : d.phase with
  | initial cursor =>
      rw [phase] at h sound
      rcases bind_eq_ok.mp h with ⟨_, _, h⟩
      cases h
      rcases sound with ⟨empty, first⟩
      by_cases whole : cursor + 1 = d.boundary.initial.length
      · refine ⟨rfl, ?_⟩
        simp only [if_pos whole]
        refine ⟨⟨?_, ?_⟩, rfl⟩
        · simp only [first, empty, List.take_zero]
          exact .nil
        · simp only [first]
          exact Nat.zero_le _
      · refine ⟨rfl, ?_⟩
        simp only [if_neg whole]
        exact ⟨⟨empty, first⟩, rfl⟩
  | headers =>
      rw [phase] at h sound
      rcases bind_eq_ok.mp h with ⟨_, _, h⟩
      simp only at h
      split at h
      · exact headersEnd_keeps _ sound after ready h
      · cases h
        refine ⟨rfl, ?_, ?_⟩
        · unfold Sound
          simp only
          exact ⟨sound.values, sound.inside⟩
        · rfl
  | scalar field value matcher =>
      rw [phase] at h sound
      rcases sound with ⟨position, collected, part, here, bound⟩
      rcases bind_eq_ok.mp h with ⟨part', found, h⟩
      have same : part = part' := by
        rw [here] at found
        exact Option.some.inj (context_eq_ok.mp found)
      subst same
      simp only at h
      rcases bind_eq_ok.mp h with ⟨_, within, h⟩
      have fits : (value ++ (matcher.byte byte).1).length ≤ part.maxBytes := by
        rw [List.length_append]
        exact ensure_eq_ok.mp within
      split at h
      · rcases bind_eq_ok.mp h with ⟨d', ended, h⟩
        cases h
        exact scalarEnd_keeps position collected here fits ended
      · cases h
        exact ⟨rfl, ⟨position, ⟨collected.values, collected.inside⟩, part, here, fits⟩, rfl⟩
  | ready =>
      rw [phase] at h
      cases h
  | poisoned =>
      rw [phase] at h
      cases h

theorem readByte_keeps {d : PrefixDecoder} (byte : UInt8) (sound : d.Sound) : d.Keeps (d.readByte byte) := by
  intro after ready h
  unfold readByte at h
  rcases bind_eq_ok.mp h with ⟨_, _, h⟩
  rcases bind_eq_ok.mp h with ⟨_, _, h⟩
  have counted : ({ d with total := d.total + 1 } : PrefixDecoder).Sound := by
    unfold Sound at sound ⊢
    cases phase : d.phase with
    | initial =>
        rw [phase] at sound
        exact sound
    | headers =>
        rw [phase] at sound
        exact ⟨sound.values, sound.inside⟩
    | scalar =>
        rw [phase] at sound
        exact ⟨sound.1, ⟨sound.2.1.values, sound.2.1.inside⟩, sound.2.2⟩
    | ready => exact trivial
    | poisoned => exact trivial
  exact readPhase_keeps byte counted after ready h

/-- Whatever is read, only fields of the schema are, in its order. -/
theorem readFrom_fields {d after : PrefixDecoder} {input : List UInt8} {index : Nat} {progress : PrefixProgress}
    (sound : d.Sound) (isOpen : d.phase.isOpen = true) (h : d.readFrom index input = .ok (after, progress)) :
    after.spec = d.spec ∧ (∀ ready, progress.ready = some ready → FieldsOf d.spec.fields ready.values)
      ∧ (progress.ready = none → after.Sound ∧ after.phase.isOpen = true ∧ progress.consumed = index + input.length) := by
  induction input generalizing d index with
  | nil =>
      cases h
      refine ⟨rfl, ?_, fun _ => ⟨sound, isOpen, rfl⟩⟩
      intro ready absurd
      cases absurd
  | cons byte rest ih =>
      rw [readFrom] at h
      rcases bind_eq_ok.mp h with ⟨⟨d', ready⟩, step, h⟩
      rcases readByte_keeps byte sound d' ready step with ⟨same, kept⟩
      cases ready with
      | some ready =>
          cases h
          refine ⟨same, ?_, fun absurd => by cases absurd⟩
          intro ready' here
          cases here
          exact kept
      | none =>
          rcases ih kept.1 kept.2 h with ⟨same', fields, consumed⟩
          rw [same] at same' fields
          refine ⟨same', fields, fun none => ?_⟩
          rcases consumed none with ⟨sound', open', length⟩
          refine ⟨sound', open', ?_⟩
          rw [length, List.length_cons]
          omega

theorem new_sound (boundary : Boundary) (spec : PrefixSpec) : (new boundary spec).Sound := ⟨rfl, rfl⟩

/-- Whatever is pushed, the values of a finished prefix are those of its schema. -/
theorem pushAll_fields {d after : PrefixDecoder} {consumed : Nat} {chunks : List (List UInt8)}
    {progress : PrefixProgress} {ready : ReadyPrefix} (sound : d.Sound)
    (h : d.pushAll consumed chunks = (after, .ok progress)) (finished : progress.ready = some ready) :
    FieldsOf d.spec.fields ready.values := by
  induction chunks generalizing d consumed with
  | nil =>
      cases h
      cases finished
  | cons chunk rest ih =>
      rw [pushAll] at h
      split at h
      · cases h
      · rename_i d' progress' pushed
        unfold push at pushed
        split at pushed
        · rename_i result inner
          cases pushed
          unfold pushInner at inner
          rcases bind_eq_ok.mp inner with ⟨_, _, inner⟩
          rcases bind_eq_ok.mp inner with ⟨_, isOpen, inner⟩
          rcases readFrom_fields sound (ensure_eq_ok.mp isOpen) inner with ⟨same, fields, goesOn⟩
          split at h
          · cases h
            exact fields ready finished
          · rename_i unfinished
            have none : progress'.ready = none := Option.not_isSome_iff_eq_none.mp unfinished
            have values := ih (goesOn none).1 h
            rw [same] at values
            exact values
        · cases pushed

/-! ## Failures -/

/-- A poisoned decoder refuses every input and stays poisoned. -/
theorem push_poisoned {d : PrefixDecoder} (poisoned : d.phase = .poisoned) (input : List UInt8) :
    (d.push input).1.phase = .poisoned ∧ ∃ e, (d.push input).2 = .error e := by
  have refused : ∃ e, d.pushInner input = .error e := by
    unfold pushInner
    by_cases sized : input.length ≤ transferBufferBytes
    · rw [check, ensure_pos sized, bind_ok, check, ensure_neg]
      · exact ⟨_, rfl⟩
      · rw [poisoned]
        exact Bool.false_ne_true
    · rw [check, ensure_neg sized]
      exact ⟨_, rfl⟩
  rcases refused with ⟨e, refused⟩
  rw [push, refused]
  exact ⟨rfl, e, rfl⟩

/-- The results of pushes one after the other. -/
def pushEach (d : PrefixDecoder) : List (List UInt8) → List (Result PrefixProgress)
  | [] => []
  | input :: rest => (d.push input).2 :: pushEach (d.push input).1 rest

theorem pushEach_poisoned {d : PrefixDecoder} (poisoned : d.phase = .poisoned) (inputs : List (List UInt8)) :
    ∀ result ∈ d.pushEach inputs, ∃ e, result = .error e := by
  induction inputs generalizing d with
  | nil => exact fun result member => absurd member List.not_mem_nil
  | cons input rest ih =>
      rcases push_poisoned poisoned input with ⟨still, refused⟩
      exact List.forall_mem_cons.mpr ⟨refused, ih still⟩

/-- A push that fails poisons the decoder. -/
theorem push_error {d : PrefixDecoder} {input : List UInt8} {e : Failure} (h : (d.push input).2 = .error e) :
    (d.push input).1.phase = .poisoned := by
  unfold push at h ⊢
  cases result : d.pushInner input with
  | ok value =>
      rw [result] at h
      cases h
  | error e => rfl

/-! ## Consumed bytes -/

/-- From one decoder to another: the bytes between them are read wherever they stand. -/
def Consumes (d : PrefixDecoder) (bytes : List UInt8) (after : PrefixDecoder) : Prop :=
  ∀ index rest, d.readFrom index (bytes ++ rest) = after.readFrom (index + bytes.length) rest

theorem consumes_nil (d : PrefixDecoder) : d.Consumes [] d := fun _ _ => rfl

theorem Consumes.cons {d d' after : PrefixDecoder} {byte : UInt8} {bytes : List UInt8}
    (first : d.readByte byte = .ok (d', none)) (rest : d'.Consumes bytes after) :
    d.Consumes (byte :: bytes) after := by
  intro index more
  rw [List.cons_append, readFrom, first, bind_ok]
  simp only
  rw [rest (index + 1) more, List.length_cons, Nat.add_right_comm, Nat.add_assoc]

theorem Consumes.trans {d d' after : PrefixDecoder} {bytes more : List UInt8} (first : d.Consumes bytes d')
    (second : d'.Consumes more after) : d.Consumes (bytes ++ more) after := by
  intro index rest
  rw [List.append_assoc, first, second, List.length_append, Nat.add_assoc]

/-- The byte that ends the prefix. -/
theorem Consumes.finish {d d' after : PrefixDecoder} {bytes : List UInt8} {byte : UInt8} {ready : ReadyPrefix}
    (consumed : d.Consumes bytes d') (last : d'.readByte byte = .ok (after, some ready)) (index : Nat)
    (more : List UInt8) :
    d.readFrom index (bytes ++ byte :: more) = .ok (after, ⟨index + bytes.length + 1, some ready⟩) := by
  rw [consumed index (byte :: more), readFrom, last]
  rfl

/-- A byte within the limit is read by its phase. -/
theorem readByte_room {d : PrefixDecoder} (byte : UInt8) (room : d.total < prefixBytes) :
    d.readByte byte = { d with total := d.total + 1 }.readPhase byte := by
  have small : d.total + 1 < 2 ^ 64 := by
    unfold prefixBytes at room
    omega
  rw [readByte, check, ensure_pos small, bind_ok, check, ensure_pos (by omega), bind_ok]

/-- The decoder in another phase, some bytes later. -/
def moved (d : PrefixDecoder) (phase : PrefixPhase) (bytes : Nat) : PrefixDecoder :=
  { d with phase := phase, total := d.total + bytes }

theorem moved_moved (d : PrefixDecoder) (first second : PrefixPhase) (bytes more : Nat) :
    (d.moved first bytes).moved second more = d.moved second (bytes + more) := by
  simp only [moved, Nat.add_assoc]

/-- The opening delimiter is read byte for byte. -/
theorem consumes_initial {d : PrefixDecoder} (front : List UInt8) {back : List UInt8} (phase : d.phase = .initial front.length)
    (split : d.boundary.initial = front ++ back) (some : back ≠ []) (room : d.total + back.length ≤ prefixBytes) :
    d.Consumes back (d.moved .headers back.length) := by
  induction back generalizing d front with
  | nil => exact absurd rfl some
  | cons byte back ih =>
      rw [List.length_cons] at room
      have here : d.boundary.initial[front.length]? = Option.some byte := by
        rw [split, List.getElem?_append_right le_rfl, Nat.sub_self]
        rfl
      have length : d.boundary.initial.length = front.length + 1 + back.length := by
        rw [split, List.length_append, List.length_cons]
        omega
      have step : d.readByte byte = .ok (d.moved (if front.length + 1 = d.boundary.initial.length then .headers
          else .initial (front.length + 1)) 1, none) := by
        rw [readByte_room byte (by omega), readPhase]
        simp only [phase]
        rw [check, ensure_pos here]
        rfl
      cases back with
      | nil =>
          rw [if_pos (by rw [length, List.length_nil])] at step
          exact Consumes.cons step (consumes_nil _)
      | cons next back =>
          rw [if_neg (by rw [length, List.length_cons]; omega)] at step
          have rest := ih (d := d.moved (.initial (front.length + 1)) 1) (front ++ [byte])
            (by rw [List.length_append]; rfl) (by rw [List.append_assoc]; exact split) (List.cons_ne_nil _ _)
            (by simp only [moved]; omega)
          rw [moved_moved, Nat.add_comm 1] at rest
          exact Consumes.cons step rest

/-! ### Headers -/

/-- Before its last byte, a header's text does not end with a blank line. -/
theorem not_suffix_before {read header : List UInt8} (tail : List UInt8) (split : read ++ tail = header ++ headerEnd)
    (more : tail ≠ []) (ends : Ends header) : ¬ headerEnd <:+ read := by
  rintro ⟨before, rfl⟩
  have length := congrArg List.length split
  have pos := List.length_pos_iff.mpr more
  rw [List.length_append, List.length_append, List.length_append] at length
  refine ends.first before.length (by omega) ?_
  rw [← split, List.append_assoc, Matching.Occurs, List.drop_left]
  exact List.prefix_append _ _

theorem consumes_headers {d : PrefixDecoder} {bytes header : List UInt8} (tail : List UInt8) (phase : d.phase = .headers)
    (split : d.headers ++ bytes ++ tail = header ++ headerEnd) (more : tail ≠ []) (ends : Ends header)
    (short : header.length + headerEnd.length ≤ headerBytes) (room : d.total + bytes.length ≤ prefixBytes) :
    d.Consumes bytes { d with headers := d.headers ++ bytes, total := d.total + bytes.length } := by
  induction bytes generalizing d with
  | nil =>
      rw [List.append_nil]
      exact consumes_nil d
  | cons byte bytes ih =>
      have length := congrArg List.length split
      simp only [List.length_append, List.length_cons] at length
      rw [List.length_cons] at room
      have split' : d.headers ++ [byte] ++ bytes ++ tail = header ++ headerEnd := by
        rw [← split, List.append_assoc d.headers, List.singleton_append]
      have unfinished : ¬ headerEnd <:+ d.headers ++ [byte] := by
        refine not_suffix_before (bytes ++ tail) ?_ ?_ ends
        · rw [← List.append_assoc]
          exact split'
        · intro nothing
          exact more (List.append_eq_nil_iff.mp nothing).2
      have step : d.readByte byte
          = .ok ({ d with headers := d.headers ++ [byte], total := d.total + 1 }, none) := by
        rw [readByte_room byte (by omega), readPhase]
        simp only [phase]
        rw [check, ensure_pos (by omega), bind_ok, if_neg unfinished]
        rfl
      have rest := ih (d := { d with headers := d.headers ++ [byte], total := d.total + 1 }) phase split'
        (by simp only; omega)
      simp only [List.append_assoc, List.singleton_append] at rest
      rw [Nat.add_assoc, Nat.add_comm 1] at rest
      exact Consumes.cons step rest

/-- The last byte of a header's blank line. -/
theorem readByte_headersEnd {d : PrefixDecoder} (header : List UInt8) (phase : d.phase = .headers)
    (held : d.headers = header ++ [13, 10, 13]) (short : header.length + headerEnd.length ≤ headerBytes)
    (room : d.total < prefixBytes) :
    d.readByte 10 = { d with total := d.total + 1 }.headersEnd header := by
  have whole : d.headers ++ [10] = header ++ headerEnd := by
    rw [held, List.append_assoc]
    rfl
  have length : headerEnd.length = 4 := rfl
  have inside : d.headers.length < headerBytes := by
    rw [held, List.length_append]
    simp only [List.length_cons, List.length_nil]
    omega
  rw [readByte_room 10 room, readPhase]
  simp only [phase]
  rw [check, ensure_pos inside, bind_ok, whole, if_pos (List.suffix_append _ _), List.length_append,
    Nat.add_sub_cancel, List.take_left]

/-! ### Values -/

/-- A value whose first delimiter is the one behind it. -/
def Delimited (boundary : Boundary) (value : List UInt8) : Prop :=
  Matching.FirstOccurrence boundary.next (value ++ boundary.next) value.length

theorem next_ne_nil (boundary : Boundary) : boundary.next ≠ [] := List.cons_ne_nil _ _

/-- Inside a delimited value, no more is handed on than the value; the delimiter ends with the
text and not before it. -/
theorem reads_value {boundary : Boundary} {value text out more : List UInt8} {m : Matcher} {ended : Bool}
    (delimited : Delimited boundary value) (split : text ++ more = value ++ boundary.next)
    (reads : Reads boundary.next (if ended = true then .closing 0 else .data) m out text) :
    out.length ≤ value.length ∧ (ended = true ↔ more = []) ∧ (ended = true → out = value) := by
  have nonempty := next_ne_nil boundary
  have body : FileBody boundary.next value.length (text ++ (more ++ closingSuffix)) value := by
    refine ⟨?_, ?_, le_rfl⟩
    · rw [← List.append_assoc, split]
    · rw [← List.append_assoc, split]
      exact delimited.append nonempty closingSuffix
  refine ⟨reads.out_le nonempty body, ?_⟩
  cases ended with
  | false =>
      rw [if_neg Bool.false_ne_true] at reads
      refine ⟨⟨fun absurd => (Bool.false_ne_true absurd).elim, ?_⟩, fun absurd => (Bool.false_ne_true absurd).elim⟩
      rintro rfl
      rw [List.append_nil] at split
      cases reads with
      | data _ _ _ _ _ none => exact absurd (split ▸ delimited.occurs) (none value.length)
  | true =>
      rw [if_pos rfl] at reads
      cases reads with
      | closing inside read first =>
          rw [List.take_zero, List.append_nil] at read
          have length : out.length = value.length := by
            have here := first.append nonempty more
            rw [split] at here
            exact here.unique delimited
          rw [read, List.append_assoc] at split
          rcases List.append_inj split length with ⟨same, rest⟩
          have nothing : more = [] := by
            have lengths := congrArg List.length rest
            rw [List.length_append] at lengths
            exact List.length_eq_zero_iff.mp (by omega)
          exact ⟨⟨fun _ => nothing, fun _ => rfl⟩, fun _ => same⟩

/-- A scalar's value and the delimiter behind it are read as its text. -/
theorem consumes_scalar {d : PrefixDecoder} {field : Nat} {part : ScalarPart} {value : String}
    {out text bytes : List UInt8} {m : Matcher} (phase : d.phase = .scalar field out m)
    (here : d.spec.fields[field]? = some part) (bound : value.utf8ByteSize ≤ part.maxBytes)
    (delimited : Delimited d.boundary (utf8Bytes value)) (reads : Reads d.boundary.next .data m out text)
    (split : text ++ bytes = utf8Bytes value ++ d.boundary.next) (more : bytes ≠ [])
    (room : d.total + bytes.length ≤ prefixBytes) :
    d.Consumes bytes { d with
      values := insertValue d.values part.name value, phase := .headers, total := d.total + bytes.length } := by
  induction bytes generalizing d out text m with
  | nil => exact absurd rfl more
  | cons byte bytes ih =>
      rw [List.length_cons] at room
      have next := reads_byte byte reads
      have split' : text ++ [byte] ++ bytes = utf8Bytes value ++ d.boundary.next := by
        rw [List.append_assoc]
        exact split
      rcases reads_value delimited split' next with ⟨short, ends, read⟩
      rw [List.length_append] at short
      have size : (utf8Bytes value).length ≤ part.maxBytes := bound
      have step : d.readByte byte = (if (m.byte byte).2.2 = true then do
            let d ← ({ d with total := d.total + 1 } : PrefixDecoder).scalarEnd part (out ++ (m.byte byte).1)
            return (d, none)
          else return ({ d with phase := .scalar field (out ++ (m.byte byte).1) (m.byte byte).2.1,
                                total := d.total + 1 }, none)) := by
        rw [readByte_room byte (by omega), readPhase]
        simp only [phase, here, need, context, bind_ok]
        rw [check, ensure_pos (by omega), bind_ok]
      cases ended : (m.byte byte).2.2 with
      | true =>
          rw [ended] at step ends read
          rw [if_pos rfl, read rfl, scalarEnd, fromUTF8_bytes.mpr rfl] at step
          rw [ends.mp rfl]
          exact Consumes.cons step (consumes_nil _)
      | false =>
          rw [ended] at step ends next
          rw [if_neg Bool.false_ne_true] at step next
          have some : bytes ≠ [] := fun nothing => absurd (ends.mpr nothing) Bool.false_ne_true
          have rest := ih (d := { d with
              phase := .scalar field (out ++ (m.byte byte).1) (m.byte byte).2.1, total := d.total + 1 })
            rfl here delimited next split' some (by simp only; omega)
          simp only at rest
          rw [Nat.add_assoc, Nat.add_comm 1] at rest
          exact Consumes.cons step rest

/-! ### Parts -/

/-- A part of a form as it is sent, up to the next delimiter. -/
def encodePart (boundary : Boundary) (pair : String × String) : List UInt8 :=
  utf8Bytes (scalarHeader pair.1) ++ headerEnd ++ (utf8Bytes pair.2 ++ boundary.next)

/-- The decoder between two parts, when some fields may still come. -/
structure Between (d : PrefixDecoder) (fields : List ScalarPart) : Prop where
  phase : d.phase = .headers
  headers : d.headers = []
  remaining : d.remaining = fields
  fresh : ∀ name ∈ d.values.map Prod.fst, name ∉ fields.map ScalarPart.name

/-- The header of a field that may still come. -/
theorem scalarPart_field {d : PrefixDecoder} (skipped rest : List ScalarPart) {part : ScalarPart}
    (remaining : d.remaining = skipped ++ part :: rest) (optional : ∀ other ∈ skipped, other.required = false) :
    d.scalarPart ⟨part.name, none, false⟩ = .ok { d with
      field := d.field + skipped.length + 1
      phase := .scalar (d.field + skipped.length) [] (Matcher.new d.boundary.next) } := by
  have distinct := d.spec.valid.1
  have sub : (d.remaining.map ScalarPart.name).Nodup :=
    distinct.sublist ((List.drop_sublist _ _).map ScalarPart.name)
  have found : d.remaining.findIdx? (·.name = part.name) = some skipped.length := by
    rw [remaining, List.map_append, List.nodup_append] at sub
    rw [remaining, List.findIdx?_append]
    have before : skipped.findIdx? (·.name = part.name) = none := by
      rw [List.findIdx?_eq_none_iff]
      intro other member
      rw [decide_eq_false_iff_not]
      intro same
      exact sub.2.2 _ (List.mem_map_of_mem member) _ (List.mem_cons_self) same
    rw [before, List.findIdx?_cons, if_pos (by rw [decide_eq_true_eq])]
    simp
  unfold scalarPart
  rw [check, ensure_pos ⟨rfl, rfl⟩, bind_ok, found]
  simp only [need, context, bind_ok, check]
  rw [ensure_pos]
  · rfl
  · rw [remaining, List.take_left]
    exact optional

/-- A whole header is read up to the last byte of its blank line. -/
theorem consumes_header {d : PrefixDecoder} {header : List UInt8} (phase : d.phase = .headers)
    (empty : d.headers = []) (ends : Ends header) (short : header.length + headerEnd.length ≤ headerBytes)
    (room : d.total + (header.length + headerEnd.length) ≤ prefixBytes) :
    ∃ d', d.Consumes (header ++ [13, 10, 13]) d'
      ∧ d'.readByte 10 = { d with headers := header ++ [13, 10, 13],
                                  total := d.total + (header.length + headerEnd.length) }.headersEnd header := by
  have length : headerEnd.length = 4 := rfl
  have three : (header ++ [13, 10, 13]).length = header.length + 3 := by
    rw [List.length_append]
    rfl
  refine ⟨{ d with headers := d.headers ++ (header ++ [13, 10, 13]),
                   total := d.total + (header ++ [13, 10, 13]).length }, ?_, ?_⟩
  · refine consumes_headers [10] phase ?_ (List.cons_ne_nil _ _) ends short (by omega)
    rw [empty, List.nil_append, List.append_assoc]
    rfl
  · have last := readByte_headersEnd (d := { d with
        headers := d.headers ++ (header ++ [13, 10, 13])
        total := d.total + (header ++ [13, 10, 13]).length }) header phase
      (by rw [empty, List.nil_append]) short (by simp only [three]; omega)
    simp only [empty, List.nil_append, three] at last ⊢
    exact last

/-- The header of a scalar part. -/
theorem consumes_scalarHeader {d : PrefixDecoder} {skipped rest : List ScalarPart} {part : ScalarPart}
    (between : d.Between (skipped ++ part :: rest)) (optional : ∀ other ∈ skipped, other.required = false)
    (room : d.total + ((utf8Bytes (scalarHeader part.name)).length + headerEnd.length) ≤ prefixBytes) :
    d.Consumes (utf8Bytes (scalarHeader part.name) ++ headerEnd) { d with
      field := d.field + skipped.length + 1
      phase := .scalar (d.field + skipped.length) [] (Matcher.new d.boundary.next)
      total := d.total + ((utf8Bytes (scalarHeader part.name)).length + headerEnd.length) } := by
  have member : part ∈ d.spec.fields := by
    have inside : part ∈ d.remaining := by
      rw [between.remaining]
      exact List.mem_append_right _ List.mem_cons_self
    exact List.mem_of_mem_drop inside
  have named := d.spec.valid.2.1 part member
  have other : part.name ≠ d.spec.file := by
    intro same
    exact d.spec.valid.2.2.2 (same ▸ List.mem_map_of_mem member)
  have short : (utf8Bytes part.name).length ≤ 64 := (partName_bound named).2
  have length := scalarHeader_length part.name
  rcases consumes_header between.phase between.headers (scalarHeader_ends named)
    (by rw [length]; unfold headerBytes headerEnd; simp only [List.length_cons, List.length_nil]; omega) room
    with ⟨d', consumed, last⟩
  have step : d'.readByte 10 = .ok ({ d with
      field := d.field + skipped.length + 1
      phase := .scalar (d.field + skipped.length) [] (Matcher.new d.boundary.next)
      total := d.total + ((utf8Bytes (scalarHeader part.name)).length + headerEnd.length) }, none) := by
    have field := scalarPart_field (d := { d with
        headers := []
        total := d.total + ((utf8Bytes (scalarHeader part.name)).length + headerEnd.length) }) skipped rest
      between.remaining optional
    rw [last, headersEnd, parseHeaders_scalar named, bind_ok]
    simp only at field ⊢
    rw [if_neg other, field, bind_ok, between.headers]
    rfl
  have whole : utf8Bytes (scalarHeader part.name) ++ headerEnd
      = utf8Bytes (scalarHeader part.name) ++ [13, 10, 13] ++ [10] := by
    rw [List.append_assoc]
    rfl
  rw [whole]
  exact consumed.trans (Consumes.cons step (consumes_nil _))

/-- A part of a field that may come next is read as the field's value. -/
theorem consumes_part {d : PrefixDecoder} {skipped rest : List ScalarPart} {part : ScalarPart} {value : String}
    (between : d.Between (skipped ++ part :: rest)) (optional : ∀ other ∈ skipped, other.required = false)
    (bound : value.utf8ByteSize ≤ part.maxBytes) (delimited : Delimited d.boundary (utf8Bytes value))
    (room : d.total + (encodePart d.boundary (part.name, value)).length ≤ prefixBytes) :
    ∃ d', d.Consumes (encodePart d.boundary (part.name, value)) d' ∧ d'.Between rest ∧ d'.spec = d.spec
      ∧ d'.boundary = d.boundary ∧ d'.values = d.values ++ [(part.name, value)]
      ∧ d'.total = d.total + (encodePart d.boundary (part.name, value)).length := by
  have fresh : part.name ∉ d.values.map Prod.fst := by
    intro member
    refine between.fresh _ member (List.mem_map_of_mem ?_)
    exact List.mem_append_right _ List.mem_cons_self
  have position : d.spec.fields.drop d.field = skipped ++ part :: rest := between.remaining
  have here : d.spec.fields[d.field + skipped.length]? = some part := by
    rw [← List.getElem?_drop, position, List.getElem?_append_right le_rfl, Nat.sub_self]
    rfl
  have later : d.spec.fields.drop (d.field + skipped.length + 1) = rest := by
    rw [Nat.add_assoc, ← List.drop_drop, position, List.drop_append, List.drop_eq_nil_of_le (by omega),
      List.nil_append, Nat.add_sub_cancel_left]
    rfl
  have lengths : (encodePart d.boundary (part.name, value)).length
      = (utf8Bytes (scalarHeader part.name)).length + headerEnd.length
        + (utf8Bytes value ++ d.boundary.next).length := by
    rw [encodePart, List.length_append, List.length_append]
  rw [lengths] at room
  have header := consumes_scalarHeader between optional (by omega)
  have scalar := consumes_scalar (d := { d with
      field := d.field + skipped.length + 1
      phase := .scalar (d.field + skipped.length) [] (Matcher.new d.boundary.next)
      total := d.total + ((utf8Bytes (scalarHeader part.name)).length + headerEnd.length) })
    rfl here bound delimited (reads_nil (next_ne_nil d.boundary)) (List.nil_append _)
    (List.append_ne_nil_of_right_ne_nil _ (next_ne_nil d.boundary)) (by simp only; omega)
  refine ⟨_, header.trans scalar, ⟨rfl, between.headers, later, ?_⟩, rfl, rfl, insertValue_fresh fresh value, ?_⟩
  · intro name member
    simp only [insertValue_fresh fresh, List.map_append, List.mem_append, List.map_cons, List.map_nil,
      List.mem_singleton] at member
    rcases member with member | rfl
    · intro inside
      refine between.fresh name member ?_
      rw [List.map_append, List.map_cons]
      exact List.mem_append_right _ (List.mem_cons_of_mem _ inside)
    · have distinct := (d.spec.valid.1).sublist ((List.drop_sublist d.field d.spec.fields).map ScalarPart.name)
      rw [position, List.map_append, List.map_cons, List.nodup_append, List.nodup_cons] at distinct
      exact distinct.2.1.1
  · simp only
    rw [lengths]
    omega

/-- The parts of a form are read one after the other. -/
theorem consumes_parts {d : PrefixDecoder} {fields : List ScalarPart} {values : Values} (between : d.Between fields)
    (valid : FieldsOf fields values) (delimited : ∀ pair ∈ values, Delimited d.boundary (utf8Bytes pair.2))
    (room : d.total + (values.flatMap (encodePart d.boundary)).length ≤ prefixBytes) :
    ∃ d' rest, d.Consumes (values.flatMap (encodePart d.boundary)) d' ∧ d'.Between rest
      ∧ (∀ part ∈ rest, part.required = false) ∧ d'.spec = d.spec ∧ d'.boundary = d.boundary
      ∧ d'.values = d.values ++ values
      ∧ d'.total = d.total + (values.flatMap (encodePart d.boundary)).length := by
  induction values generalizing d fields with
  | nil =>
      refine ⟨d, fields, consumes_nil d, between, valid.none, rfl, rfl, ?_, rfl⟩
      rw [List.append_nil]
  | cons pair values ih =>
      rcases pair with ⟨name, value⟩
      rcases valid.first with ⟨skipped, part, rest, rfl, optional, rfl, bound, later⟩
      rw [List.flatMap_cons, List.length_append] at room
      rcases consumes_part between optional bound (delimited _ List.mem_cons_self) (by omega)
        with ⟨d', consumed, between', spec, boundary, read, total⟩
      rw [← boundary] at room
      rcases ih between' later
        (fun pair member => by rw [boundary]; exact delimited pair (List.mem_cons_of_mem _ member))
        (by rw [total, ← boundary]; omega)
        with ⟨d'', rest', consumed', between'', optional', spec', boundary', read', total'⟩
      rw [boundary] at consumed' boundary' total'
      refine ⟨d'', rest', ?_, between'', optional', spec'.trans spec, boundary', ?_, ?_⟩
      · rw [List.flatMap_cons]
        exact consumed.trans consumed'
      · rw [read', read, List.append_assoc]
        rfl
      · rw [total', total, List.flatMap_cons, List.length_append, Nat.add_assoc]

/-! ### The file's header -/

/-- What is known of a finished prefix: its values, and the file's name as it was normalized. -/
structure Finished (ready : ReadyPrefix) (values : Values) (filename : String) : Prop where
  values : ready.values = values
  missing : filename = "" → ready.filename = none
  normalized : filename ≠ "" → ∃ name, AttachmentName.normalize filename = .ok name ∧ ready.filename = some name

theorem uploadName_ok {filename : String} (short : filename.utf8ByteSize ≤ 255) :
    ∃ name, uploadName filename = .ok name ∧ (filename = "" → name = none)
      ∧ (filename ≠ "" → ∃ label, AttachmentName.normalize filename = .ok label ∧ name = some label) := by
  by_cases missing : filename = ""
  · exact ⟨none, if_pos missing, fun _ => rfl, fun other => absurd missing other⟩
  · rcases AttachmentName.normalize_ok short with ⟨label, normalized⟩
    refine ⟨some label, ?_, fun absurd => (missing absurd).elim, fun _ => ⟨label, normalized, rfl⟩⟩
    rw [uploadName, if_neg missing, normalized]
    rfl

/-- The header of the file, when no required field is left. -/
theorem filePart_field {d : PrefixDecoder} (field : String) {filename : String} (contentType : Bool)
    {name : Option AttachmentName} (optional : ∀ part ∈ d.remaining, part.required = false)
    (chosen : filename ≠ "" ∨ d.spec.optional = true) (upload : uploadName filename = .ok name) :
    d.filePart ⟨field, some filename, contentType⟩ = .ok ({ d with phase := .ready, values := [] },
      { values := d.values
        filename := name
        boundary := d.boundary
        limit := if name.isSome = true then d.spec.limit else 0 }) := by
  unfold filePart
  rw [check, ensure_pos optional, bind_ok]
  simp only [need, context, bind_ok]
  rw [check, ensure_pos chosen, bind_ok, upload]
  rfl

/-- The file's header ends the prefix. -/
theorem readFrom_file {d : PrefixDecoder} {fields : List ScalarPart} {filename : String} {media : Option String}
    (between : d.Between fields) (optional : ∀ part ∈ fields, part.required = false)
    (writable : WritableName filename) (hint : ∀ text, media = some text → WritableHint text)
    (chosen : filename ≠ "" ∨ d.spec.optional = true)
    (room : d.total + ((utf8Bytes (fileHeader d.spec.file filename media)).length + headerEnd.length) ≤ prefixBytes)
    (index : Nat) (more : List UInt8) :
    ∃ after ready, d.readFrom index (utf8Bytes (fileHeader d.spec.file filename media) ++ headerEnd ++ more)
        = .ok (after, ⟨index + (utf8Bytes (fileHeader d.spec.file filename media) ++ headerEnd).length, some ready⟩)
      ∧ Finished ready d.values filename := by
  have named := d.spec.valid.2.2.1
  have length := fileHeader_length named writable hint
  rcases uploadName_ok writable.bound with ⟨name, upload, missing, normalized⟩
  rcases consumes_header between.phase between.headers (fileHeader_ends named writable hint)
    (by unfold headerBytes headerEnd; simp only [List.length_cons, List.length_nil]; omega) room
    with ⟨d', consumed, last⟩
  have whole : utf8Bytes (fileHeader d.spec.file filename media) ++ headerEnd ++ more
      = utf8Bytes (fileHeader d.spec.file filename media) ++ [13, 10, 13] ++ 10 :: more := by
    simp only [headerEnd, List.append_assoc, List.cons_append, List.nil_append]
  have step : d'.readByte 10 = .ok ({ d with
      headers := [], phase := .ready, values := []
      total := d.total + ((utf8Bytes (fileHeader d.spec.file filename media)).length + headerEnd.length) },
      some { values := d.values, filename := name, boundary := d.boundary
             limit := if name.isSome = true then d.spec.limit else 0 }) := by
    have none : ∀ part ∈ d.remaining, part.required = false := by
      rw [between.remaining]
      exact optional
    have file := filePart_field (d := { d with
        headers := []
        total := d.total + ((utf8Bytes (fileHeader d.spec.file filename media)).length + headerEnd.length) })
      d.spec.file media.isSome none chosen upload
    rw [last, headersEnd, parseHeaders_file named writable hint, bind_ok]
    simp only
    rw [if_pos trivial, file]
    rfl
  have finish := consumed.finish step index more
  have count : index + (utf8Bytes (fileHeader d.spec.file filename media) ++ [13, 10, 13]).length + 1
      = index + (utf8Bytes (fileHeader d.spec.file filename media) ++ headerEnd).length := by
    simp only [List.length_append, List.length_cons, List.length_nil, headerEnd, Nat.add_assoc]
  rw [← whole, count] at finish
  exact ⟨_, _, finish, rfl, missing, normalized⟩

/-! ## Forms -/

/-- A form as it is sent, up to the first byte of its file. -/
def encodeForm (boundary : Boundary) (values : Values) (file filename : String) (media : Option String) :
    List UInt8 :=
  boundary.initial ++ (values.flatMap (encodePart boundary)
    ++ (utf8Bytes (fileHeader file filename media) ++ headerEnd))

/-- An encoded form is read back up to the end of the file's header. -/
theorem readFrom_encoded {boundary : Boundary} {spec : PrefixSpec} {values : Values} {filename : String}
    {media : Option String} (valid : FieldsOf spec.fields values)
    (delimited : ∀ pair ∈ values, Delimited boundary (utf8Bytes pair.2)) (writable : WritableName filename)
    (hint : ∀ text, media = some text → WritableHint text) (chosen : filename ≠ "" ∨ spec.optional = true)
    (room : (encodeForm boundary values spec.file filename media).length ≤ prefixBytes) (more : List UInt8) :
    ∃ after ready, (new boundary spec).readFrom 0 (encodeForm boundary values spec.file filename media ++ more)
        = .ok (after, ⟨(encodeForm boundary values spec.file filename media).length, some ready⟩)
      ∧ Finished ready values filename := by
  unfold encodeForm at room ⊢
  rw [List.length_append, List.length_append, List.length_append] at room
  have opens : boundary.initial ≠ [] := List.cons_ne_nil _ _
  have opened : (new boundary spec).Consumes boundary.initial
      ((new boundary spec).moved .headers boundary.initial.length) :=
    consumes_initial [] rfl rfl opens (by simp only [new]; omega)
  have between : ((new boundary spec).moved .headers boundary.initial.length).Between spec.fields := by
    refine ⟨rfl, rfl, List.drop_zero, fun name member => absurd member List.not_mem_nil⟩
  rcases consumes_parts between valid delimited (by simp only [moved, new]; omega)
    with ⟨d', rest, consumed, between', optional, spec', boundary', read, total⟩
  have count : d'.total = boundary.initial.length + (values.flatMap (encodePart boundary)).length := by
    rw [total]
    simp only [moved, new, Nat.zero_add]
  have same : d'.spec = spec := spec'
  have values' : d'.values = values := read
  rcases readFrom_file between' optional writable hint (by rw [same]; exact chosen)
    (by rw [same, count]; omega) (boundary.initial.length + (values.flatMap (encodePart boundary)).length) more
    with ⟨after, ready, finished, known⟩
  rw [same] at finished
  rw [values'] at known
  refine ⟨after, ready, ?_, known⟩
  have all : (new boundary spec).Consumes (boundary.initial ++ values.flatMap (encodePart boundary)) d' :=
    opened.trans consumed
  rw [← List.append_assoc, List.append_assoc (boundary.initial ++ _), all]
  rw [Nat.zero_add, List.length_append, finished]
  simp only [List.length_append, Nat.add_assoc]

/-! ## Chunks -/

/-- Where an input begins changes the position alone. -/
theorem readFrom_shift (d : PrefixDecoder) (start index : Nat) (input : List UInt8) :
    d.readFrom (start + index) input
      = (fun result => (result.1, { result.2 with consumed := start + result.2.consumed })) <$> d.readFrom index input := by
  induction input generalizing d index with
  | nil => rfl
  | cons byte rest ih =>
      simp only [readFrom]
      cases d.readByte byte with
      | error e => rfl
      | ok result =>
          rcases result with ⟨d', ready⟩
          cases ready with
          | some ready => rfl
          | none =>
              simp only [bind_ok, Nat.add_assoc]
              exact ih d' (index + 1)

/-- An input is read up to a cut, and then from there on. -/
theorem readFrom_append (d : PrefixDecoder) (index : Nat) (input more : List UInt8) :
    d.readFrom index (input ++ more) = d.readFrom index input >>= fun result =>
      if result.2.ready.isSome = true then .ok result else result.1.readFrom result.2.consumed more := by
  induction input generalizing d index with
  | nil => rfl
  | cons byte rest ih =>
      simp only [List.cons_append, readFrom]
      cases d.readByte byte with
      | error e => rfl
      | ok result =>
          rcases result with ⟨d', ready⟩
          cases ready with
          | some ready => rfl
          | none =>
              simp only [bind_ok]
              exact ih d' (index + 1)

/-- However an input is cut, it is read as a whole. -/
theorem pushAll_readFrom {d after : PrefixDecoder} {chunks : List (List UInt8)} {position : Nat} {ready : ReadyPrefix}
    (sound : d.Sound) (isOpen : d.phase.isOpen = true) (start : Nat)
    (sized : ∀ chunk ∈ chunks, chunk.length ≤ transferBufferBytes)
    (h : d.readFrom start chunks.flatten = .ok (after, ⟨position, some ready⟩)) :
    (d.pushAll start chunks).2 = .ok ⟨position, some ready⟩ := by
  induction chunks generalizing d start with
  | nil => cases h
  | cons chunk rest ih =>
      rw [List.flatten_cons, readFrom_append] at h
      rcases bind_eq_ok.mp h with ⟨⟨d', progress⟩, read, h⟩
      have shifted := readFrom_shift d start 0 chunk
      rw [Nat.add_zero, read] at shifted
      rcases map_eq_ok.mp shifted.symm with ⟨⟨d'', own⟩, inner, same⟩
      rw [← same] at h
      have pushed : d.push chunk = (d'', .ok own) := by
        rw [push, pushInner, check, ensure_pos (sized chunk List.mem_cons_self), bind_ok, check,
          ensure_pos isOpen, bind_ok, inner]
      rw [pushAll, pushed]
      simp only at h ⊢
      by_cases finished : own.ready.isSome = true
      · rw [if_pos finished] at h ⊢
        exact congrArg Except.ok (Prod.mk.inj (Except.ok.inj h)).2
      · rw [if_neg finished] at h ⊢
        have none : own.ready = none := Option.not_isSome_iff_eq_none.mp finished
        rcases (readFrom_fields sound isOpen inner).2.2 none with ⟨sound', open', _⟩
        exact ih sound' open' _ (fun c member => sized c (List.mem_cons_of_mem _ member)) h

/-! ## Delimiters -/

/-- A token without a carriage return: a value that holds no line break, two dashes and the token
is delimited. -/
theorem delimited_of_absent {boundary : Boundary} {value : List UInt8} (token : (13 : UInt8) ∉ boundary.token)
    (absent : ∀ index, ¬ Matching.Occurs boundary.fileEnd value index) : Delimited boundary value := by
  have next : boundary.next = boundary.fileEnd ++ [13, 10] := rfl
  constructor
  · rw [Matching.Occurs, List.drop_left]
  · intro index before occurs
    have started : Matching.Occurs boundary.fileEnd (value ++ boundary.next) index := by
      refine List.IsPrefix.trans ?_ occurs
      rw [next]
      exact List.prefix_append _ _
    by_cases inside : index + boundary.fileEnd.length ≤ value.length
    · exact absent index ((Matching.occurs_append inside).mp started)
    -- the delimiter would have to begin again inside itself
    rcases started with ⟨more, spelled⟩
    have again : boundary.fileEnd[value.length - index]? = some 13 := by
      have here : ((value ++ boundary.next).drop index)[value.length - index]? = some 13 := by
        rw [List.getElem?_drop, Nat.add_sub_cancel' before.le, List.getElem?_append_right le_rfl, Nat.sub_self]
        rfl
      rw [← spelled, List.getElem?_append_left (by omega)] at here
      exact here
    rw [Boundary.fileEnd] at again
    have first : ∀ offset < 4, 0 < offset → ([13, 10, 45, 45] : List UInt8)[offset]? ≠ some 13 := by decide
    by_cases early : value.length - index < 4
    · rw [List.getElem?_append_left early] at again
      exact first _ early (by omega) again
    · rw [List.getElem?_append_right (Nat.le_of_not_lt early)] at again
      exact token (List.mem_of_getElem? again)

/-! ## The decoder -/

/-- The prefix of an upload is decoded exactly.  An encoded form whose values are those of the
schema is read back, in whatever chunks it arrives, with the normalized name of its file and up
to the first byte of the file; whatever is pushed, only values of the schema are read; and a
decoder that failed once fails for good. -/
theorem prefix_decoder_reads (boundary : Boundary) (spec : PrefixSpec) :
    (∀ values filename media chunks rest, FieldsOf spec.fields values →
      (∀ pair ∈ values, Delimited boundary (utf8Bytes pair.2)) → WritableName filename →
      (∀ text, media = some text → WritableHint text) → (filename ≠ "" ∨ spec.optional = true) →
      (encodeForm boundary values spec.file filename media).length ≤ prefixBytes →
      chunks.flatten = encodeForm boundary values spec.file filename media ++ rest →
      (∀ chunk ∈ chunks, chunk.length ≤ transferBufferBytes) →
        ∃ ready, ((new boundary spec).pushAll 0 chunks).2
            = .ok ⟨(encodeForm boundary values spec.file filename media).length, some ready⟩
          ∧ Finished ready values filename)
    ∧ (∀ chunks progress ready, ((new boundary spec).pushAll 0 chunks).2 = .ok progress →
      progress.ready = some ready → FieldsOf spec.fields ready.values
        ∧ (ready.values.map Prod.fst).Sublist (spec.fields.map ScalarPart.name)
        ∧ (ready.values.map Prod.fst).Nodup)
    ∧ ∀ (d : PrefixDecoder) (input : List UInt8) (e : Failure), (d.push input).2 = .error e →
      ∀ inputs, ∀ result ∈ (d.push input).1.pushEach inputs, ∃ e, result = .error e := by
  refine ⟨?_, ?_, ?_⟩
  · intro values filename media chunks rest valid delimited writable hint chosen room cut sized
    rcases readFrom_encoded valid delimited writable hint chosen room rest with ⟨after, ready, read, finished⟩
    rw [← cut] at read
    exact ⟨ready, pushAll_readFrom (new_sound boundary spec) rfl 0 sized read, finished⟩
  · intro chunks progress ready h finished
    have valid := pushAll_fields (new_sound boundary spec) (Prod.ext rfl h) finished
    have names : (ready.values.map Prod.fst).Sublist (spec.fields.map ScalarPart.name) := valid.names
    exact ⟨valid, names, spec.valid.1.sublist names⟩
  · intro d input e failed inputs
    exact pushEach_poisoned (push_error failed) inputs

/-- The schema of three controls and a title. -/
def sampleSpec : PrefixSpec where
  fields := [⟨"_csrf", 64, true⟩, ⟨"_submission", 64, true⟩, ⟨"_upload", 64, true⟩, ⟨"title", 100, false⟩]
  file := "_file"
  optional := false
  limit := 100
  admitted := by decide

def sampleValues : Values := [("_csrf", "p"), ("_submission", "s"), ("_upload", "t"), ("title", "a\r\n--x")]

/-- A title with a near delimiter in it, in one chunk with the first bytes of the file. -/
theorem prefix_decoder_reads_sample :
    ∃ ready, ((new ⟨[98]⟩ sampleSpec).pushAll 0
        [encodeForm ⟨[98]⟩ sampleValues "_file" "page.html" none ++ [60, 115]]).2
        = .ok ⟨(encodeForm ⟨[98]⟩ sampleValues "_file" "page.html" none).length, some ready⟩
      ∧ ready.values = sampleValues := by
  have valid : FieldsOf sampleSpec.fields sampleValues :=
    .present (by decide) (.present (by decide) (.present (by decide)
      (.present (by decide) .nil)))
  have delimited : ∀ pair ∈ sampleValues, Delimited ⟨[98]⟩ (utf8Bytes pair.2) := by
    intro pair member
    refine delimited_of_absent (by decide) fun index occurs => ?_
    have bound := occurs.bound (fileEnd_ne_nil _)
    have none : ∀ pair ∈ sampleValues, ∀ index < 8,
        ¬ Boundary.fileEnd ⟨[98]⟩ <+: (utf8Bytes pair.2).drop index := by decide
    have short : ∀ pair ∈ sampleValues, (utf8Bytes pair.2).length < 8 := by decide
    have small := short pair member
    exact none pair member index (by omega) occurs
  have writable : WritableName "page.html" := ⟨by unfold Printable; decide, by decide⟩
  rcases (prefix_decoder_reads ⟨[98]⟩ sampleSpec).1 sampleValues "page.html" none
    [encodeForm ⟨[98]⟩ sampleValues "_file" "page.html" none ++ [60, 115]] [60, 115] valid delimited writable
    (fun text absurd => by cases absurd) (.inl (by decide)) (by decide +kernel) (by rw [List.flatten_singleton]; rfl)
    (by decide +kernel) with ⟨ready, read, finished⟩
  exact ⟨ready, read, finished.values⟩

end PrefixDecoder

end Multipart
end Noxide
