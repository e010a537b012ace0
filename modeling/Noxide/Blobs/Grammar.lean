import Noxide.Blobs.Prefix

/-!
# The grammar of an upload's prefix

Every byte that the decoder consumes has its place: the opening delimiter, parts of a header, a
value and a delimiter, and the header of the file.  Nothing else is consumed, and nothing of it
is left out of the values.

Main results:

- Theorem {lit}`readByte_reads`: one byte extends the text that was read, or completes it.
- Theorem {lit}`prefix_decoder_sound`: a prefix that is ready was such a text, however it was cut.
-/

namespace Noxide
namespace Multipart

open Checked
open Form (utf8Bytes fromUTF8_bytes)

/-! ## The texts -/

/-- A part as it was sent: its header, and the field and the value that it stands for. -/
structure SentPart where
  header : List UInt8
  name : String
  value : String

/-- The text of a part, up to the next delimiter. -/
def SentPart.text (boundary : Boundary) (part : SentPart) : List UInt8 :=
  part.header ++ headerEnd ++ (utf8Bytes part.value ++ boundary.next)

def SentPart.pair (part : SentPart) : String × String := (part.name, part.value)

/-- The header of a part holds no blank line and says what was read from it. -/
structure SentHeader (header : List UInt8) (parsed : PartHeaders) : Prop where
  parsed : parseHeaders header = .ok parsed
  ends : Ends header
  short : header.length + headerEnd.length ≤ headerBytes

structure SentPart.Valid (boundary : Boundary) (part : SentPart) : Prop where
  header : SentHeader part.header ⟨part.name, none, false⟩
  delimited : PrefixDecoder.Delimited boundary (utf8Bytes part.value)

/-- The text of some parts behind the opening delimiter. -/
def partsText (boundary : Boundary) (parts : List SentPart) : List UInt8 :=
  boundary.initial ++ parts.flatMap (SentPart.text boundary)

/-- The text of a prefix, and what is known once it was read. -/
structure PrefixText (boundary : Boundary) (spec : PrefixSpec) (text : List UInt8) (ready : ReadyPrefix)
    (parts : List SentPart) (header : List UInt8) (raw : String) (media : Bool) : Prop where
  split : text = partsText boundary parts ++ header ++ headerEnd
  valid : ∀ part ∈ parts, part.Valid boundary
  file : SentHeader header ⟨spec.file, some raw, media⟩
  bounded : text.length ≤ prefixBytes
  values : ready.values = parts.map SentPart.pair
  filename : PrefixDecoder.uploadName raw = .ok ready.filename
  boundary : ready.boundary = boundary
  limit : ready.limit = if ready.filename.isSome = true then spec.limit else 0

namespace PrefixDecoder

/-! ## What was read -/

/-- A text without a blank line. -/
def NoBlank (text : List UInt8) : Prop := ∀ index, ¬ Matching.Occurs headerEnd text index

/-- Where the decoder stands in the text that it read. -/
inductive Place (boundary : Boundary) (fields : List ScalarPart) (values : Values) (headers : List UInt8) :
    PrefixPhase → List UInt8 → Prop where
  | initial {front back : List UInt8} (split : boundary.initial = front ++ back) (empty : values = [])
      (none : headers = []) : Place boundary fields values headers (.initial front.length) front
  | headers {parts : List SentPart} (valid : ∀ part ∈ parts, part.Valid boundary)
      (read : values = parts.map SentPart.pair) (blank : NoBlank headers) (short : headers.length ≤ headerBytes) :
      Place boundary fields values headers .headers (partsText boundary parts ++ headers)
  | scalar {parts : List SentPart} {header text out : List UInt8} {field : Nat} {part : ScalarPart} {m : Matcher}
      (valid : ∀ part ∈ parts, part.Valid boundary) (read : values = parts.map SentPart.pair)
      (none : headers = []) (here : fields[field]? = some part)
      (sent : SentHeader header ⟨part.name, Option.none, false⟩) (reads : Reads boundary.next .data m out text) :
      Place boundary fields values headers (.scalar field out m)
        (partsText boundary parts ++ (header ++ headerEnd ++ text))

/-- The decoder has read a text. -/
structure HasRead (d : PrefixDecoder) (text : List UInt8) : Prop where
  total : d.total = text.length
  bounded : text.length ≤ prefixBytes
  place : Place d.boundary d.spec.fields d.values d.headers d.phase text

/-- What one byte does to the text that was read. -/
def Extends (d : PrefixDecoder) (text : List UInt8) (result : Result (PrefixDecoder × Option ReadyPrefix)) : Prop :=
  ∀ after ready, result = .ok (after, ready) → after.boundary = d.boundary ∧ after.spec = d.spec ∧
    match ready with
    | none => after.HasRead text
    | some ready => ∃ parts header raw media, PrefixText d.boundary d.spec text ready parts header raw media

theorem noBlank_nil : NoBlank [] := by
  intro index occurs
  have bound := occurs.bound (List.cons_ne_nil _ _)
  rw [List.length_nil] at bound
  unfold headerEnd at bound
  rw [List.length_cons] at bound
  omega

/-- Without a blank line at its end, a text gains none. -/
theorem noBlank_snoc {text : List UInt8} {byte : UInt8} (blank : NoBlank text)
    (unfinished : ¬ headerEnd <:+ text ++ [byte]) : NoBlank (text ++ [byte]) := by
  intro index occurs
  have bound := occurs.bound (List.cons_ne_nil _ _)
  rw [List.length_append, List.length_singleton] at bound
  by_cases inside : index + headerEnd.length ≤ text.length
  · exact blank index ((Matching.occurs_append inside).mp occurs)
  · refine unfinished ?_
    have whole : headerEnd = (text ++ [byte]).drop index := by
      refine List.IsPrefix.eq_of_length occurs ?_
      rw [List.length_drop, List.length_append, List.length_singleton]
      omega
    rw [whole]
    exact List.drop_suffix _ _

/-- A header ends at its first blank line. -/
theorem ends_of_blank {header text : List UInt8} {byte : UInt8} (blank : NoBlank text)
    (split : header ++ headerEnd = text ++ [byte]) : Ends header := by
  have first := Matching.first_at_end blank split
  rw [← split] at first
  exact first

/-- The field of a part was not read before. -/
theorem Collected.fresh {d : PrefixDecoder} {field : Nat} {part : ScalarPart} (collected : d.Collected field)
    (here : d.spec.fields[field]? = some part) : part.name ∉ d.values.map Prod.fst := by
  rcases List.getElem?_eq_some_iff.mp here with ⟨inside, same⟩
  have taken : d.spec.fields.take (field + 1) = d.spec.fields.take field ++ [part] := by
    rw [List.take_succ_eq_append_getElem inside, same]
  have distinct := (d.spec.valid.1).sublist ((List.take_sublist (field + 1) d.spec.fields).map ScalarPart.name)
  rw [taken, List.map_append, List.nodup_append] at distinct
  intro member
  exact distinct.2.2 _ (collected.values.names.subset member) _ (List.mem_singleton.mpr rfl) rfl

/-! ## One byte -/

section Step

variable {d : PrefixDecoder} {text : List UInt8}

theorem partsText_snoc (boundary : Boundary) (parts : List SentPart) (part : SentPart) :
    partsText boundary (parts ++ [part]) = partsText boundary parts ++ part.text boundary := by
  rw [partsText, partsText, List.flatMap_append, List.flatMap_singleton, List.append_assoc]

theorem initial_extends {front back : List UInt8} (byte : UInt8) (split : d.boundary.initial = front ++ back)
    (empty : d.values = []) (none : d.headers = []) (phase : d.phase = .initial front.length)
    (total : d.total = front.length + 1) (bounded : (front ++ [byte]).length ≤ prefixBytes) :
    d.Extends (front ++ [byte]) (d.readPhase byte) := by
  intro after ready h
  unfold readPhase at h
  simp only [phase] at h
  rcases bind_eq_ok.mp h with ⟨_, found, h⟩
  cases h
  have here := ensure_eq_ok.mp found
  rw [split, List.getElem?_append_right le_rfl, Nat.sub_self] at here
  have count : d.total = (front ++ [byte]).length := by
    rw [total, List.length_append, List.length_singleton]
  cases back with
  | nil => cases here
  | cons next back =>
      cases here
      have split' : d.boundary.initial = front ++ [byte] ++ back := by
        rw [split, List.append_assoc]
        rfl
      refine ⟨rfl, rfl, count, bounded, ?_⟩
      simp only
      by_cases whole : front.length + 1 = d.boundary.initial.length
      · rw [if_pos whole]
        have last : back = [] := by
          rw [split, List.length_append, List.length_cons] at whole
          exact List.length_eq_zero_iff.mp (by omega)
        have start : front ++ [byte] = partsText d.boundary [] ++ d.headers := by
          rw [partsText, List.flatMap_nil, none, split', last]
          simp only [List.append_nil]
        rw [start]
        refine .headers (fun part member => absurd member List.not_mem_nil) empty ?_ ?_
        · rw [none]
          exact noBlank_nil
        · rw [none]
          exact Nat.zero_le _
      · rw [if_neg whole]
        have position : front.length + 1 = (front ++ [byte]).length := by
          rw [List.length_append, List.length_singleton]
        rw [position]
        exact .initial split' empty none

theorem headersEnd_extends {parts : List SentPart} {header : List UInt8} {byte : UInt8}
    (valid : ∀ part ∈ parts, part.Valid d.boundary) (read : d.values = parts.map SentPart.pair)
    (blank : NoBlank d.headers) (short : d.headers.length < headerBytes)
    (split : header ++ headerEnd = d.headers ++ [byte])
    (total : d.total = (partsText d.boundary parts ++ (d.headers ++ [byte])).length)
    (bounded : (partsText d.boundary parts ++ (d.headers ++ [byte])).length ≤ prefixBytes) :
    d.Extends (partsText d.boundary parts ++ (d.headers ++ [byte])) (d.headersEnd header) := by
  intro after ready h
  have ends := ends_of_blank blank split
  have small : header.length + headerEnd.length ≤ headerBytes := by
    have length := congrArg List.length split
    rw [List.length_append, List.length_append, List.length_singleton] at length
    omega
  unfold headersEnd at h
  rcases bind_eq_ok.mp h with ⟨⟨name, filename, media⟩, parsed, h⟩
  simp only at h
  split at h
  · rename_i file
    subst file
    rcases bind_eq_ok.mp h with ⟨⟨d', ready'⟩, ended, h⟩
    cases h
    unfold filePart at ended
    rcases bind_eq_ok.mp ended with ⟨_, _, ended⟩
    rcases bind_eq_ok.mp ended with ⟨raw, named, ended⟩
    rcases bind_eq_ok.mp ended with ⟨_, _, ended⟩
    rcases bind_eq_ok.mp ended with ⟨label, upload, ended⟩
    cases ended
    have same : filename = some raw := context_eq_ok.mp named
    subst same
    refine ⟨rfl, rfl, parts, header, raw, media, ⟨?_, valid, ⟨parsed, ends, small⟩, bounded, read, upload, rfl, rfl⟩⟩
    rw [List.append_assoc, split]
  · rename_i other
    rcases bind_eq_ok.mp h with ⟨d', begun, h⟩
    cases h
    unfold scalarPart at begun
    rcases bind_eq_ok.mp begun with ⟨_, scalar, begun⟩
    rcases bind_eq_ok.mp begun with ⟨offset, found, begun⟩
    rcases bind_eq_ok.mp begun with ⟨_, _, begun⟩
    cases begun
    rcases ensure_eq_ok.mp scalar with ⟨noFile, noMedia⟩
    simp only at noFile noMedia
    subst noFile
    subst noMedia
    rcases List.findIdx?_eq_some_iff_getElem.mp (context_eq_ok.mp found) with ⟨inside, named, _⟩
    have here : d.spec.fields[d.field + offset]? = some d.remaining[offset] := by
      rw [← List.getElem?_drop]
      exact List.getElem?_eq_getElem inside
    have name' : d.remaining[offset].name = name := of_decide_eq_true named
    refine ⟨rfl, rfl, total, bounded, ?_⟩
    have text : partsText d.boundary parts ++ (d.headers ++ [byte])
        = partsText d.boundary parts ++ (header ++ headerEnd ++ []) := by
      rw [split, List.append_nil]
    rw [text]
    refine .scalar valid read rfl here ⟨?_, ends, small⟩ (reads_nil (next_ne_nil d.boundary))
    rw [name']
    exact parsed

theorem headers_extends {parts : List SentPart} (byte : UInt8) (phase : d.phase = .headers)
    (valid : ∀ part ∈ parts, part.Valid d.boundary) (read : d.values = parts.map SentPart.pair)
    (blank : NoBlank d.headers) (total : d.total = (partsText d.boundary parts ++ (d.headers ++ [byte])).length)
    (bounded : (partsText d.boundary parts ++ (d.headers ++ [byte])).length ≤ prefixBytes) :
    d.Extends (partsText d.boundary parts ++ (d.headers ++ [byte])) (d.readPhase byte) := by
  intro after ready h
  unfold readPhase at h
  simp only [phase] at h
  rcases bind_eq_ok.mp h with ⟨_, room, h⟩
  have short := ensure_eq_ok.mp room
  split at h
  · rename_i ended
    have split : (d.headers ++ [byte]).take ((d.headers ++ [byte]).length - headerEnd.length) ++ headerEnd
        = d.headers ++ [byte] := by
      rcases ended with ⟨header, whole⟩
      rw [← whole, List.length_append, Nat.add_sub_cancel, List.take_left]
    exact headersEnd_extends valid read blank short split total bounded after ready h
  · rename_i unfinished
    cases h
    refine ⟨rfl, rfl, total, bounded, ?_⟩
    refine .headers valid read (noBlank_snoc blank unfinished) ?_
    rw [List.length_append, List.length_singleton]
    omega

theorem scalar_extends {parts : List SentPart} {header value out : List UInt8} {field : Nat} {part : ScalarPart}
    {m : Matcher} (byte : UInt8) (phase : d.phase = .scalar field out m) (collected : d.Collected field)
    (valid : ∀ part ∈ parts, part.Valid d.boundary) (read : d.values = parts.map SentPart.pair)
    (none : d.headers = []) (here : d.spec.fields[field]? = some part)
    (sent : SentHeader header ⟨part.name, Option.none, false⟩) (reads : Reads d.boundary.next .data m out value)
    (total : d.total = (partsText d.boundary parts ++ (header ++ headerEnd ++ (value ++ [byte]))).length)
    (bounded : (partsText d.boundary parts ++ (header ++ headerEnd ++ (value ++ [byte]))).length ≤ prefixBytes) :
    d.Extends (partsText d.boundary parts ++ (header ++ headerEnd ++ (value ++ [byte]))) (d.readPhase byte) := by
  intro after ready h
  have next := reads_byte byte reads
  unfold readPhase at h
  simp only [phase] at h
  rcases bind_eq_ok.mp h with ⟨part', found, h⟩
  have same : part = part' := by
    have held := context_eq_ok.mp found
    rw [here] at held
    exact Option.some.inj held
  subst same
  rcases bind_eq_ok.mp h with ⟨_, _, h⟩
  cases ended : (m.byte byte).2.2 with
  | false =>
      rw [ended] at h next
      rw [if_neg Bool.false_ne_true] at h next
      cases h
      exact ⟨rfl, rfl, total, bounded, .scalar valid read none here sent next⟩
  | true =>
      rw [ended] at h next
      rw [if_pos rfl] at h next
      rcases bind_eq_ok.mp h with ⟨d', finished, h⟩
      cases h
      unfold scalarEnd at finished
      rcases bind_eq_ok.mp finished with ⟨content, decoded, finished⟩
      cases finished
      have bytes : utf8Bytes content = out ++ (m.byte byte).1 := fromUTF8_bytes.mp (context_eq_ok.mp decoded)
      cases next with
      | closing _ whole first =>
          rw [List.take_zero, List.append_nil] at whole
          rw [whole, ← bytes] at first
          have part' : SentPart.Valid d.boundary ⟨header, part.name, content⟩ := ⟨sent, first⟩
          have text : partsText d.boundary parts ++ (header ++ headerEnd ++ (value ++ [byte]))
              = partsText d.boundary (parts ++ [⟨header, part.name, content⟩]) ++ d.headers := by
            rw [partsText_snoc, SentPart.text, whole, bytes, none, List.append_nil]
          refine ⟨rfl, rfl, total, bounded, ?_⟩
          simp only
          rw [text, insertValue_fresh (collected.fresh here)]
          refine .headers ?_ ?_ (by rw [none]; exact noBlank_nil) (by rw [none]; exact Nat.zero_le _)
          · intro other member
            rcases List.mem_append.mp member with member | member
            · exact valid other member
            · rw [List.mem_singleton.mp member]
              exact part'
          · rw [read, List.map_append]
            rfl

end Step

/-- One byte extends the text that was read, or completes it. -/
theorem readByte_reads {d : PrefixDecoder} {text : List UInt8} (byte : UInt8) (sound : d.Sound)
    (read : d.HasRead text) : d.Extends (text ++ [byte]) (d.readByte byte) := by
  intro after ready h
  unfold readByte at h
  rcases bind_eq_ok.mp h with ⟨_, _, h⟩
  rcases bind_eq_ok.mp h with ⟨_, limit, h⟩
  have total := read.total
  have bounded : (text ++ [byte]).length ≤ prefixBytes := by
    rw [List.length_append, List.length_singleton, ← total]
    exact ensure_eq_ok.mp limit
  have count : d.total + 1 = (text ++ [byte]).length := by
    rw [total, List.length_append, List.length_singleton]
  have place := read.place
  unfold Sound at sound
  cases phase : d.phase with
  | initial cursor =>
      rw [phase] at place
      cases place with
      | initial split empty none =>
          exact initial_extends (d := { d with total := d.total + 1 }) byte split empty none phase
            (by rw [total]) bounded after ready h
  | headers =>
      rw [phase] at place
      cases place with
      | headers valid values blank short =>
          rw [List.append_assoc] at bounded count ⊢
          exact headers_extends (d := { d with total := d.total + 1 }) byte phase valid values blank count bounded
            after ready h
  | scalar field out m =>
      rw [phase] at place sound
      cases place with
      | scalar valid values none here sent reads =>
          rw [List.append_assoc, List.append_assoc (_ ++ headerEnd)] at bounded count ⊢
          exact scalar_extends (d := { d with total := d.total + 1 }) byte phase
            ⟨sound.2.1.values, sound.2.1.inside⟩ valid values none here sent reads count bounded after ready h
  | ready =>
      unfold readPhase at h
      simp only [phase] at h
      cases h
  | poisoned =>
      unfold readPhase at h
      simp only [phase] at h
      cases h

/-! ## Whole inputs -/

/-- What an input does to the text that was read. -/
theorem readFrom_reads {d after : PrefixDecoder} {text input : List UInt8} {progress : PrefixProgress}
    (sound : d.Sound) (isOpen : d.phase.isOpen = true) (read : d.HasRead text)
    (h : d.readFrom text.length input = .ok (after, progress)) :
    after.boundary = d.boundary ∧ after.spec = d.spec
      ∧ (progress.ready = none → after.HasRead (text ++ input))
      ∧ ∀ ready, progress.ready = some ready → progress.consumed ≤ (text ++ input).length
        ∧ ∃ parts header raw media, PrefixText d.boundary d.spec ((text ++ input).take progress.consumed) ready
          parts header raw media := by
  induction input generalizing d text with
  | nil =>
      cases h
      refine ⟨rfl, rfl, fun _ => ?_, (fun ready absurd => by cases absurd)⟩
      rw [List.append_nil]
      exact read
  | cons byte rest ih =>
      rw [readFrom] at h
      rcases bind_eq_ok.mp h with ⟨⟨d', ready⟩, step, h⟩
      rcases readByte_keeps byte sound d' ready step with ⟨_, kept⟩
      rcases readByte_reads byte sound read d' ready step with ⟨boundary, spec, extended⟩
      have count : text.length + 1 = (text ++ [byte]).length := by
        rw [List.length_append, List.length_singleton]
      have whole : text ++ byte :: rest = text ++ [byte] ++ rest := by
        rw [List.append_assoc]
        rfl
      cases ready with
      | some ready =>
          cases h
          refine ⟨boundary, spec, (fun absurd => by cases absurd), ?_⟩
          intro ready' here
          cases here
          refine ⟨?_, ?_⟩
          · have inside : text.length + 1 ≤ (text ++ byte :: rest).length := by
              rw [List.length_append, List.length_cons]
              omega
            exact inside
          · rw [whole, count, List.take_left]
            exact extended
      | none =>
          rw [count] at h
          rcases ih kept.1 kept.2 extended h with ⟨boundary', spec', unfinished, finished⟩
          rw [boundary, spec] at finished
          rw [whole]
          exact ⟨boundary'.trans boundary, spec'.trans spec, unfinished, finished⟩

theorem hasRead_new (boundary : Boundary) (spec : PrefixSpec) : (new boundary spec).HasRead [] :=
  ⟨rfl, Nat.zero_le _, .initial (List.nil_append _).symm rfl rfl⟩

/-- What chunks do to the text that was read. -/
theorem pushAll_reads {d : PrefixDecoder} {text : List UInt8} {chunks : List (List UInt8)} {progress : PrefixProgress}
    {ready : ReadyPrefix} (sound : d.Sound) (read : d.HasRead text)
    (h : (d.pushAll text.length chunks).2 = .ok progress) (finished : progress.ready = some ready) :
    ∃ parts header raw media, PrefixText d.boundary d.spec ((text ++ chunks.flatten).take progress.consumed) ready
      parts header raw media := by
  induction chunks generalizing d text with
  | nil =>
      cases h
      cases finished
  | cons chunk rest ih =>
      have shifted := readFrom_shift d text.length 0 chunk
      rw [Nat.add_zero] at shifted
      cases inner : d.pushInner chunk with
      | error e =>
          rw [pushAll, push, inner] at h
          cases h
      | ok result =>
          rcases result with ⟨d', own⟩
          rw [pushAll, push, inner] at h
          simp only at h
          unfold pushInner at inner
          rcases bind_eq_ok.mp inner with ⟨_, _, inner⟩
          rcases bind_eq_ok.mp inner with ⟨_, isOpen, inner⟩
          rw [inner] at shifted
          have open_ := ensure_eq_ok.mp isOpen
          rcases readFrom_reads sound open_ read shifted with ⟨boundary, spec, unfinished, done⟩
          split at h
          · have same := Except.ok.inj h
            subst same
            rcases done ready finished with ⟨inside, known⟩
            rw [List.flatten_cons, ← List.append_assoc, List.take_append_of_le_length inside]
            exact known
          · rename_i notReady
            have none : own.ready = none := Option.not_isSome_iff_eq_none.mp notReady
            rcases (readFrom_fields sound open_ inner).2.2 none with ⟨sound', _, consumed⟩
            have position : text.length + own.consumed = (text ++ chunk).length := by
              rw [consumed, Nat.zero_add, List.length_append]
            rw [position] at h
            have rest := ih sound' (unfinished none) h
            rw [boundary, spec] at rest
            rw [List.flatten_cons, ← List.append_assoc]
            exact rest

/-- A prefix that is ready was read off the front of the input: the opening delimiter, parts in
the order of their values and the header of the file, to the last byte. -/
theorem prefix_decoder_sound (boundary : Boundary) (spec : PrefixSpec) (chunks : List (List UInt8))
    (progress : PrefixProgress) (ready : ReadyPrefix) (h : ((new boundary spec).pushAll 0 chunks).2 = .ok progress)
    (finished : progress.ready = some ready) :
    FieldsOf spec.fields ready.values
      ∧ ∃ parts header raw media, PrefixText boundary spec (chunks.flatten.take progress.consumed) ready
        parts header raw media :=
  ⟨pushAll_fields (new_sound boundary spec) (Prod.ext rfl h) finished,
    pushAll_reads (new_sound boundary spec) (hasRead_new boundary spec) h finished⟩

/-- The form of three controls and a title, in two chunks. -/
theorem prefix_decoder_sound_sample : ∃ progress ready parts header raw media,
    PrefixText ⟨[98]⟩ sampleSpec
      ((encodeForm ⟨[98]⟩ sampleValues "_file" "page.html" none).take progress) ready parts header raw media := by
  let form := encodeForm ⟨[98]⟩ sampleValues "_file" "page.html" none
  have accepted : ((((new ⟨[98]⟩ sampleSpec).pushAll 0 [form.take 50, form.drop 50]).2.toOption).bind
      PrefixProgress.ready).isSome = true := by decide +kernel
  rcases Option.isSome_iff_exists.mp accepted with ⟨ready, found⟩
  rcases Option.bind_eq_some_iff.mp found with ⟨progress, read, finished⟩
  cases result : ((new ⟨[98]⟩ sampleSpec).pushAll 0 [form.take 50, form.drop 50]).2 with
  | error e =>
      rw [result] at read
      cases read
  | ok progress' =>
      rw [result] at read
      cases read
      have sound := (prefix_decoder_sound ⟨[98]⟩ sampleSpec _ _ ready result finished).2
      rw [List.flatten_cons, List.flatten_singleton, List.take_append_drop] at sound
      exact ⟨_, ready, sound⟩

end PrefixDecoder

end Multipart
end Noxide
