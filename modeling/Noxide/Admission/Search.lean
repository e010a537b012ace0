import Noxide.Library.JsonText
import Noxide.Library.Runs
import Noxide.Protocol.Scalar
import Mathlib.Data.String.Basic
import Mathlib.Tactic.Linarith

/-!
# Search text

The tokens of indexed fields and of queries.  Text is normalized under byte budgets and cut into
tokens; a record stores for every field which tokens it contains, and carries them in one JSON
payload.

Main results:

- Theorem {lit}`split_exact`: the tokens are the maximal runs, none longer than the limit.
- Theorem {lit}`indexedRecord_exact`: the postings are the distinct tokens of every field in order.
- Theorem {lit}`preparePostings_exact`: what was indexed fits its payload and reads as stored.
- Theorem {lit}`search_exact`: all of it for every record, and what a query matches.
-/

namespace Noxide.Search

open Checked

/-! ## Limits -/

def maxQueryBytes : Nat := 4096
def maxQueryTokens : Nat := 8
def maxTokenScalars : Nat := 64
def maxQueryStageBytes : Nat := 8192
def maxNonstarters : Nat := 63
def maxIndexedFields : Nat := 4
def maxIndexedBytes : Nat := 16384
def maxRecordTokens : Nat := 512
def maxPostings : Nat := maxIndexedFields * maxRecordTokens
def maxPostingBytes : Nat := 32768
def maxRecordStageBytes : Nat := 65536

/-- Each pair has six framing bytes and a separator, and the array one more. -/
def maxPayloadBytes : Nat := maxPostings * 7 + maxPostingBytes + 1

/-! ## Tables -/

inductive CategoryGroup where
  | letter
  | mark
  | number
  | punctuation
  | symbol
  | separator
  | other
  deriving DecidableEq, Repr

/-- The Unicode tables of the tokenizer. -/
structure Tables where
  decomposeCompatible : Char → List Char
  combiningClass : Char → Nat
  nfkc : List Char → List Char
  lowercase : List Char → List Char
  category : Char → CategoryGroup

section Tokenizer

variable (tables : Tables)

/-! ## Normalization -/

/-- Each stage has its own aggregate budget, shared across all indexed fields. -/
structure Stages where
  decomposed : Nat
  first : Nat
  lowercase : Nat
  finalDecomposed : Nat
  finalNormalized : Nat
  deriving DecidableEq, Repr

def Stages.new (bytes : Nat) : Stages := ⟨bytes, bytes, bytes, bytes, bytes⟩

def spend (remaining bytes : Nat) : Result Nat := do
  check "search normalization byte limit" (bytes ≤ remaining)
  return remaining - bytes

/-- One decomposed scalar: the budget that is left, and the run of nonstarters that it ends or
continues. -/
def preflightPart (state : Nat × Nat) (part : Char) : Result (Nat × Nat) := do
  let remaining ← spend state.1 part.utf8Size
  if tables.combiningClass part = 0 then return (remaining, 0)
  else do
    check "search combining sequence limit" (state.2 + 1 ≤ maxNonstarters)
    return (remaining, state.2 + 1)

def preflight (text : List Char) (remaining : Nat) : Result Nat := do
  let (remaining, _) ← (text.flatMap tables.decomposeCompatible).foldlM (preflightPart tables) (remaining, 0)
  return remaining

def collectBounded (scalars : List Char) (remaining : Nat) : Result (List Char × Nat) := do
  let remaining ← scalars.foldlM (fun remaining scalar => spend remaining scalar.utf8Size) remaining
  return (scalars, remaining)

def normalize (text : List Char) (stages : Stages) : Result (List Char × Stages) := do
  let decomposed ← preflight tables text stages.decomposed
  let (first, firstLeft) ← collectBounded (tables.nfkc text) stages.first
  let lowered := tables.lowercase first
  let lowercase ← spend stages.lowercase (lowered.map Char.utf8Size).sum
  let finalDecomposed ← preflight tables lowered stages.finalDecomposed
  let (canonical, finalNormalized) ← collectBounded (tables.nfkc lowered) stages.finalNormalized
  return (canonical, ⟨decomposed, firstLeft, lowercase, finalDecomposed, finalNormalized⟩)

/-! ## Tokens -/

/-- The text of a token. -/
def slice (text : List Char) (start stop : Nat) : String := String.ofList (Runs.slice text (start, stop))

/-- Whether a scalar belongs to a token, and where that began. -/
def carries (offset : Nat) (start : Option Nat) (scalar : Char) : Option Nat × Bool :=
  match tables.category scalar with
  | .letter | .number => (some (start.getD offset), true)
  | .mark => (start, start.isSome)
  | _ => (start, false)

/-- The loop of {lit}`split` over the rest of a text. -/
def splitLoop {σ : Type} (emit : σ → String → Result σ) (text : List Char) :
    Nat → Option Nat → Nat → σ → List Char → Result σ
  | offset, start, _, state, [] =>
      match start with
      | none => .ok state
      | some begin => emit state (slice text begin offset)
  | offset, start, scalars, state, scalar :: rest =>
      match carries tables offset start scalar with
      | (start, true) => do
          check "search token scalar limit" (scalars + 1 ≤ maxTokenScalars)
          splitLoop emit text (offset + 1) start (scalars + 1) state rest
      | (none, false) => splitLoop emit text (offset + 1) none 0 state rest
      | (some begin, false) => do
          let state ← emit state (slice text begin offset)
          splitLoop emit text (offset + 1) none 0 state rest

def split {σ : Type} (emit : σ → String → Result σ) (text : List Char) (state : σ) : Result σ :=
  splitLoop tables emit text 0 none 0 state text

/-- One occurrence of a token in a query. -/
def queryToken (state : Nat × Std.TreeSet String) (token : String) : Result (Nat × Std.TreeSet String) := do
  check "search query token limit" (state.1 + 1 ≤ maxQueryTokens)
  return (state.1 + 1, state.2.insert token)

/-- The source's {lit}`canonical_query`: its tokens in order, each once. -/
def canonicalQuery (text : String) : Result (List String) := do
  check "search input byte limit" (text.utf8ByteSize ≤ maxQueryBytes)
  let (canonical, _) ← normalize tables text.toList (Stages.new maxQueryStageBytes)
  let (_, tokens) ← split tables queryToken canonical (0, ∅)
  check "search requires a token" (tokens.isEmpty = false)
  return tokens.toList

/-! ## Records -/

/-- A field and the position of its token in the dictionary. -/
structure FieldToken where
  field : Nat
  token : Nat
  deriving DecidableEq, Repr

structure IndexedRecord where
  tokens : List String
  postings : List FieldToken
  indexedBytes : Nat
  postingBytes : Nat
  deriving DecidableEq, Repr

/-- The tokens of a record, those of the field at hand, and the bytes of all postings. -/
structure Indexing where
  dictionary : Std.TreeSet String
  unique : Std.TreeSet String
  postingBytes : Nat

def addDistinct (dictionary : Std.TreeSet String) (token : String) : Result (Std.TreeSet String) :=
  if dictionary.contains token then .ok dictionary
  else do
    check "search record distinct token limit" (dictionary.size ≠ maxRecordTokens)
    return dictionary.insert token

def addToken (state : Indexing) (token : String) : Result Indexing := do
  let dictionary ← addDistinct state.dictionary token
  if state.unique.contains token then return { state with dictionary := dictionary }
  else do
    check "search posting token byte limit" (state.postingBytes + token.utf8ByteSize < 2 ^ 64)
    check "search posting token byte limit" (state.postingBytes + token.utf8ByteSize ≤ maxPostingBytes)
    return ⟨dictionary, state.unique.insert token, state.postingBytes + token.utf8ByteSize⟩

/-- The distinct tokens of the remaining fields. -/
def indexFields : List (Option String) → Stages → Std.TreeSet String → Nat →
    Result (Std.TreeSet String × Nat × List (Std.TreeSet String))
  | [], _, dictionary, postingBytes => .ok (dictionary, postingBytes, [])
  | value :: rest, stages, dictionary, postingBytes => do
      let (canonical, stages) ← normalize tables (value.getD "").toList stages
      let state ← split tables addToken canonical ⟨dictionary, ∅, postingBytes⟩
      let (dictionary, postingBytes, others) ← indexFields rest stages state.dictionary state.postingBytes
      return (dictionary, postingBytes, state.unique :: others)

/-- The postings of one field. -/
def fieldPostings (tokens : List String) (entry : Std.TreeSet String × Nat) : Result (List FieldToken) :=
  entry.1.toList.mapM fun token => do
    let index ← need "missing token ordinal" (tokens.idxOf? token)
    return ⟨entry.2 % 256, index % 65536⟩

def indexedRecord (values : List (Option String)) (admittedBytes : Nat) : Result IndexedRecord := do
  check "search indexed field limit" (values ≠ [] ∧ values.length ≤ maxIndexedFields)
  check "invalid search indexed byte declaration" (admittedBytes ≠ 0 ∧ admittedBytes ≤ maxIndexedBytes)
  let indexedBytes := (values.map fun value => (value.getD "").utf8ByteSize).sum
  check "search input byte limit" (indexedBytes < 2 ^ 64)
  check "search input byte limit" (indexedBytes ≤ admittedBytes)
  let (dictionary, postingBytes, fieldTokens) ← indexFields tables values (Stages.new maxRecordStageBytes) ∅ 0
  let tokens := dictionary.toList
  let postings ← fieldTokens.zipIdx.mapM (fieldPostings tokens)
  return ⟨tokens, postings.flatten, indexedBytes, postingBytes⟩

/-! ## Payloads -/

structure PreparedPostings where
  payload : String
  count : Nat
  deriving DecidableEq, Repr

/-- The loop of {lit}`PreparedPostings::new` over the remaining postings. -/
def writePostings (tokens : List String) : Nat → String → List FieldToken → Result String
  | _, bytes, [] => .ok bytes
  | index, bytes, posting :: rest => do
      let token ← need "posting dictionary" tokens[posting.token]?
      let bytes := if index ≠ 0 then bytes ++ "," else bytes
      let bytes := bytes ++ String.ofList (JsonText.writePair (posting.field, token.toList))
      check "posting payload bytes" (bytes.utf8ByteSize < maxPayloadBytes)
      writePostings tokens (index + 1) bytes rest

/-- The source's {lit}`PreparedPostings::new`. -/
def preparePostings (record : IndexedRecord) : Result PreparedPostings := do
  check "posting source bounds"
    (record.indexedBytes ≤ maxIndexedBytes ∧ record.postingBytes ≤ maxPostingBytes)
  check "posting count" (record.postings.length ≤ maxPostings)
  let bytes ← writePostings record.tokens 0 "[" record.postings
  let bytes := bytes ++ "]"
  check "posting payload bytes" (bytes.utf8ByteSize ≤ maxPayloadBytes)
  return ⟨bytes, record.postings.length⟩

/-! ## Normal text -/

/-- The normalization of a text that is within every budget. -/
def normal (text : List Char) : List Char := tables.nfkc (tables.lowercase (tables.nfkc text))

theorem collectBounded_ok {scalars collected : List Char} {remaining left : Nat}
    (h : collectBounded scalars remaining = .ok (collected, left)) : collected = scalars := by
  simp only [collectBounded, bind_eq_ok] at h
  rcases h with ⟨_, _, h⟩
  cases h
  rfl

/-- Every budget that suffices gives the same text. -/
theorem normalize_ok {text canonical : List Char} {stages left : Stages}
    (h : normalize tables text stages = .ok (canonical, left)) : canonical = normal tables text := by
  simp only [normalize, bind_eq_ok] at h
  rcases h with ⟨_, _, ⟨first, _⟩, collected, _, _, _, _, ⟨last, _⟩, collected', h⟩
  cases h
  rw [collectBounded_ok collected', collectBounded_ok collected]
  rfl

/-! ## Splitting -/

/-- Letters and numbers start a token. -/
def starts (scalar : Char) : Bool := tables.category scalar = .letter ∨ tables.category scalar = .number

/-- Marks continue one. -/
def continues (scalar : Char) : Bool := starts tables scalar || tables.category scalar = .mark

/-- The tokens of a normalized text: its maximal runs. -/
def tokensOf (text : List Char) : List String :=
  (Runs.spans (starts tables) (continues tables) text).map fun span => slice text span.1 span.2

variable {tables}

theorem starts_continues (scalar : Char) (h : starts tables scalar = true) : continues tables scalar = true := by
  rw [continues, h, Bool.true_or]

theorem carries_exact (offset : Nat) (start : Option Nat) (scalar : Char) :
    carries tables offset start scalar
      = match Runs.goOn (starts tables) (continues tables) offset start scalar with
        | some begin => (some begin, true)
        | none => (start, false) := by
  unfold carries Runs.goOn continues starts
  cases group : tables.category scalar <;> cases start <;> simp

/-- The loop emits the runs of the rest, where none is longer than the limit. -/
theorem splitLoop_exact {σ : Type} {emit : σ → String → Result σ} {text rest : List Char} {offset scalars : Nat}
    {start : Option Nat} {state state' : σ} (count : ∀ begin, start = some begin → begin + scalars = offset)
    (fresh : start = none → scalars = 0) (short : scalars ≤ maxTokenScalars) :
    splitLoop tables emit text offset start scalars state rest = .ok state'
      ↔ (∀ span ∈ Runs.spansFrom (starts tables) (continues tables) offset start rest,
          span.2 - span.1 ≤ maxTokenScalars)
        ∧ ((Runs.spansFrom (starts tables) (continues tables) offset start rest).map
          fun span => slice text span.1 span.2).foldlM emit state = .ok state' := by
  induction rest generalizing offset start scalars state with
  | nil =>
      cases start with
      | none =>
          rw [splitLoop, Runs.spansFrom]
          simp [pure, Except.pure]
      | some begin =>
          have length := count begin rfl
          rw [splitLoop, Runs.spansFrom]
          simp only [Option.toList_some, List.map_cons, List.map_nil, List.mem_singleton, forall_eq,
            List.foldlM_cons, List.foldlM_nil, bind_pure]
          exact (and_iff_right (by omega)).symm
  | cons scalar rest ih =>
      rw [splitLoop, Runs.spansFrom, carries_exact]
      cases step : Runs.goOn (starts tables) (continues tables) offset start scalar with
      | some begin =>
          have same := Runs.goOn_some step
          have length : begin + (scalars + 1) = offset + 1 := by
            cases start with
            | none =>
                rw [same, fresh rfl]
                rfl
            | some other =>
                rw [same, Option.getD_some, ← Nat.add_assoc, count other rfl]
          simp only [check, bind_eq_ok, ensure_eq_ok]
          by_cases fits : scalars + 1 ≤ maxTokenScalars
          · rw [← ih (fun other began => Option.some.inj began ▸ length) (fun absent => by cases absent) fits]
            exact ⟨fun h => by rcases h with ⟨_, _, h⟩; exact h, fun h => ⟨(), fits, h⟩⟩
          · constructor
            · rintro ⟨_, fits', _⟩
              exact absurd fits' fits
            · rintro ⟨bounded, _⟩
              have began : ∃ stop tail, offset + 1 ≤ stop
                  ∧ Runs.spansFrom (starts tables) (continues tables) (offset + 1) (some begin) rest
                    = (begin, stop) :: tail := Runs.spansFrom_began
              rcases began with ⟨stop, tail, later, spans⟩
              rw [spans] at bounded
              have first := bounded (begin, stop) List.mem_cons_self
              simp only at first
              omega
      | none =>
          cases start with
          | none =>
              simp only [Option.toList_none, List.map_nil, List.nil_append]
              exact ih (fun begin absent => by cases absent) (fun _ => rfl) (Nat.zero_le _)
          | some begin =>
              have length := count begin rfl
              simp only [Option.toList_some, List.map_cons, List.map_nil, List.singleton_append, List.mem_cons,
                forall_eq_or_imp, List.foldlM_cons, bind_eq_ok]
              constructor
              · rintro ⟨emitted, first, others⟩
                rcases (ih (fun begin absent => by cases absent) (fun _ => rfl) (Nat.zero_le _)).mp others with
                  ⟨bounded, folded⟩
                exact ⟨⟨by omega, bounded⟩, emitted, first, folded⟩
              · rintro ⟨⟨_, bounded⟩, emitted, first, folded⟩
                exact ⟨emitted, first,
                  (ih (fun begin absent => by cases absent) (fun _ => rfl) (Nat.zero_le _)).mpr ⟨bounded, folded⟩⟩

/-- The tokens are the maximal runs, and none is longer than the limit. -/
theorem split_exact {σ : Type} {emit : σ → String → Result σ} {text : List Char} {state state' : σ} :
    split tables emit text state = .ok state'
      ↔ (∀ span ∈ Runs.spans (starts tables) (continues tables) text, span.2 - span.1 ≤ maxTokenScalars)
        ∧ (tokensOf tables text).foldlM emit state = .ok state' :=
  splitLoop_exact (fun begin absent => by cases absent) (fun _ => rfl) (Nat.zero_le _)

/-! ## Indexing -/

/-- The bytes of the tokens of one field. -/
def bytesOf (tokens : Std.TreeSet String) : Nat := (tokens.toList.map String.utf8ByteSize).sum

theorem toList_nodup (tokens : Std.TreeSet String) : tokens.toList.Nodup :=
  Std.TreeSet.distinct_toList.imp fun different same => different (compare_eq_iff_eq.mpr same)

theorem toList_sorted (tokens : Std.TreeSet String) : tokens.toList.Pairwise (· < ·) :=
  Std.TreeSet.ordered_toList.imp fun order => compare_lt_iff_lt.mp order

/-- A new token beside the others. -/
theorem bytesOf_insert {tokens : Std.TreeSet String} {token : String} (fresh : token ∉ tokens) :
    bytesOf (tokens.insert token) = token.utf8ByteSize + bytesOf tokens := by
  have perm : (tokens.insert token).toList.Perm (token :: tokens.toList) := by
    refine (List.perm_ext_iff_of_nodup (toList_nodup _) (List.nodup_cons.mpr ⟨?_, toList_nodup _⟩)).mpr fun other => ?_
    · rw [Std.TreeSet.mem_toList]
      exact fresh
    · rw [Std.TreeSet.mem_toList, Std.TreeSet.mem_insert, List.mem_cons, Std.TreeSet.mem_toList, compare_eq_iff_eq,
        eq_comm]
  rw [bytesOf, (perm.map _).sum_eq, List.map_cons, List.sum_cons, bytesOf]

/-- What is known of a state of the index: its tokens are in the dictionary, which is not over
its limit. -/
structure Indexing.Within (state : Indexing) : Prop where
  known : ∀ token, token ∈ state.unique → token ∈ state.dictionary
  few : state.dictionary.size ≤ maxRecordTokens
  small : state.postingBytes ≤ maxPostingBytes

theorem addDistinct_ok {dictionary dictionary' : Std.TreeSet String} {token : String}
    (h : addDistinct dictionary token = .ok dictionary') (few : dictionary.size ≤ maxRecordTokens) :
    (∀ other, other ∈ dictionary' ↔ other = token ∨ other ∈ dictionary) ∧ dictionary'.size ≤ maxRecordTokens := by
  unfold addDistinct at h
  split at h
  · rename_i known
    cases h
    refine ⟨fun other => ⟨Or.inr, fun member => ?_⟩, few⟩
    rcases member with rfl | member
    · exact Std.TreeSet.mem_iff_contains.mpr known
    · exact member
  · rename_i fresh
    simp only [check, bind_eq_ok, ensure_eq_ok] at h
    rcases h with ⟨_, room, h⟩
    cases h
    refine ⟨fun other => ?_, ?_⟩
    · rw [Std.TreeSet.mem_insert, compare_eq_iff_eq, eq_comm]
    · rw [Std.TreeSet.size_insert, if_neg fresh]
      omega

/-- One token of a field. -/
theorem addToken_ok {state state' : Indexing} {token : String} (h : addToken state token = .ok state')
    (within : state.Within) :
    state'.Within ∧ (∀ other, other ∈ state'.dictionary ↔ other = token ∨ other ∈ state.dictionary)
      ∧ (∀ other, other ∈ state'.unique ↔ other = token ∨ other ∈ state.unique)
      ∧ state'.postingBytes + bytesOf state.unique = state.postingBytes + bytesOf state'.unique := by
  simp only [addToken, bind_eq_ok] at h
  rcases h with ⟨dictionary, added, h⟩
  rcases addDistinct_ok added within.few with ⟨members, few⟩
  split at h
  · rename_i known
    cases h
    have here : token ∈ state.unique := Std.TreeSet.mem_iff_contains.mpr known
    refine ⟨⟨fun other member => (members other).mpr (.inr (within.known other member)), few, within.small⟩, members,
      fun other => ⟨Or.inr, fun member => ?_⟩, rfl⟩
    rcases member with rfl | member
    · exact here
    · exact member
  · rename_i missing
    have fresh : token ∉ state.unique := fun member => missing (Std.TreeSet.mem_iff_contains.mp member)
    simp only [check, bind_eq_ok, ensure_eq_ok] at h
    rcases h with ⟨_, _, _, small, h⟩
    cases h
    have inserted : ∀ other, other ∈ state.unique.insert token ↔ other = token ∨ other ∈ state.unique := by
      intro other
      rw [Std.TreeSet.mem_insert, compare_eq_iff_eq, eq_comm]
    refine ⟨⟨fun other member => ?_, few, small⟩, members, inserted, ?_⟩
    · rcases (inserted other).mp member with rfl | member
      · exact (members other).mpr (.inl rfl)
      · exact (members other).mpr (.inr (within.known other member))
    · change state.postingBytes + token.utf8ByteSize + bytesOf state.unique
        = state.postingBytes + bytesOf (state.unique.insert token)
      rw [bytesOf_insert fresh, Nat.add_assoc]

/-- All tokens of a field. -/
theorem addTokens_ok {state state' : Indexing} {tokens : List String} (h : tokens.foldlM addToken state = .ok state')
    (within : state.Within) :
    state'.Within ∧ (∀ other, other ∈ state'.dictionary ↔ other ∈ tokens ∨ other ∈ state.dictionary)
      ∧ (∀ other, other ∈ state'.unique ↔ other ∈ tokens ∨ other ∈ state.unique)
      ∧ state'.postingBytes + bytesOf state.unique = state.postingBytes + bytesOf state'.unique := by
  induction tokens generalizing state with
  | nil =>
      cases h
      exact ⟨within, fun other => by simp, fun other => by simp, rfl⟩
  | cons token rest ih =>
      rw [List.foldlM_cons, bind_eq_ok] at h
      rcases h with ⟨between, added, others⟩
      rcases addToken_ok added within with ⟨within₁, dictionary₁, unique₁, bytes₁⟩
      rcases ih others within₁ with ⟨within₂, dictionary₂, unique₂, bytes₂⟩
      refine ⟨within₂, fun other => ?_, fun other => ?_, by omega⟩
      · rw [dictionary₂, dictionary₁, List.mem_cons, or_left_comm, or_assoc]
      · rw [unique₂, unique₁, List.mem_cons, or_left_comm, or_assoc]

/-- The distinct tokens of a field are those of its normalized value. -/
def FieldIndexed (tables : Tables) (value : Option String) (unique : Std.TreeSet String) : Prop :=
  ∀ token, token ∈ unique ↔ token ∈ tokensOf tables (normal tables (value.getD "").toList)

/-- The distinct tokens of all fields. -/
theorem indexFields_ok {values : List (Option String)} {stages : Stages} {dictionary dictionary' : Std.TreeSet String}
    {postingBytes postingBytes' : Nat} {fieldTokens : List (Std.TreeSet String)}
    (h : indexFields tables values stages dictionary postingBytes = .ok (dictionary', postingBytes', fieldTokens))
    (few : dictionary.size ≤ maxRecordTokens) (small : postingBytes ≤ maxPostingBytes) :
    List.Forall₂ (FieldIndexed tables) values fieldTokens
      ∧ (∀ token, token ∈ dictionary' ↔ token ∈ dictionary ∨ ∃ unique ∈ fieldTokens, token ∈ unique)
      ∧ dictionary'.size ≤ maxRecordTokens ∧ postingBytes' ≤ maxPostingBytes
      ∧ postingBytes' = postingBytes + (fieldTokens.map bytesOf).sum := by
  induction values generalizing stages dictionary postingBytes fieldTokens with
  | nil =>
      cases h
      exact ⟨.nil, fun token => by simp, few, small, rfl⟩
  | cons value rest ih =>
      simp only [indexFields, bind_eq_ok] at h
      rcases h with ⟨⟨canonical, left⟩, normalized, state, splits, ⟨dictionary₁, bytes₁, others⟩, indexed, h⟩
      cases h
      have text := normalize_ok tables normalized
      subst text
      have empty : Indexing.Within ⟨dictionary, ∅, postingBytes⟩ :=
        ⟨fun token member => absurd member Std.TreeSet.not_mem_emptyc, few, small⟩
      rcases addTokens_ok (split_exact.mp splits).2 empty with ⟨within, known, unique, bytes⟩
      rcases ih indexed within.few within.small with ⟨fields, members, few', small', total⟩
      have own : FieldIndexed tables value state.unique := fun token =>
        (unique token).trans (or_iff_left Std.TreeSet.not_mem_emptyc)
      refine ⟨.cons own fields, fun token => ?_, few', small', ?_⟩
      · simp only [members, known, List.mem_cons, exists_eq_or_imp, own token]
        rw [or_assoc]
        exact or_left_comm
      · have grown : state.postingBytes = postingBytes + bytesOf state.unique := bytes
        simp only [List.map_cons, List.sum_cons] at total ⊢
        omega

/-! ## Postings -/

/-- A posting with the text of its token. -/
def FieldToken.pair (tokens : List String) (posting : FieldToken) : Nat × String :=
  (posting.field, tokens[posting.token]?.getD "")

/-- The field and token pairs of a record. -/
def IndexedRecord.pairs (record : IndexedRecord) : List (Nat × String) :=
  record.postings.map (FieldToken.pair record.tokens)

/-- The pairs of fields with these tokens. -/
def pairsOf (fields : List (List String)) : List (Nat × String) :=
  fields.zipIdx.flatMap fun entry => entry.1.map fun token => (entry.2, token)

/-- A posting names a field and a token. -/
def Names (tokens : List String) (posting : FieldToken) (pair : Nat × String) : Prop :=
  posting.field = pair.1 ∧ tokens[posting.token]? = some pair.2

theorem names_pairs {tokens : List String} {postings : List FieldToken} {pairs : List (Nat × String)}
    (h : List.Forall₂ (Names tokens) postings pairs) : postings.map (FieldToken.pair tokens) = pairs := by
  induction h with
  | nil => rfl
  | cons first _ ih =>
      rw [List.map_cons, ih, FieldToken.pair, first.1, first.2]
      rfl

/-- The postings of one field name its tokens. -/
theorem fieldPostings_ok {tokens : List String} {unique : Std.TreeSet String} {field : Nat}
    {postings : List FieldToken} (h : fieldPostings tokens (unique, field) = .ok postings)
    (few : tokens.length ≤ maxRecordTokens) (small : field < 256) :
    List.Forall₂ (Names tokens) postings (unique.toList.map fun token => (field, token)) := by
  rw [fieldPostings, mapM_eq_ok] at h
  simp only at h
  rw [List.forall₂_map_right_iff]
  refine h.flip.imp fun posting token named => ?_
  simp only [need, bind_eq_ok, context_eq_ok] at named
  rcases named with ⟨index, found, named⟩
  cases named
  rcases List.idxOf?_eq_some_iff.mp found with ⟨bound, here, _⟩
  have within : index < 65536 := by
    unfold maxRecordTokens at few
    omega
  refine ⟨Nat.mod_eq_of_lt small, ?_⟩
  rw [Nat.mod_eq_of_lt within]
  exact List.getElem?_eq_some_iff.mpr ⟨bound, here⟩

/-- The postings of all fields. -/
theorem postings_ok {tokens : List String} {fieldTokens : List (Std.TreeSet String)}
    {postings : List (List FieldToken)} (h : fieldTokens.zipIdx.mapM (fieldPostings tokens) = .ok postings)
    (few : tokens.length ≤ maxRecordTokens) (small : fieldTokens.length ≤ maxIndexedFields) :
    List.Forall₂ (Names tokens) postings.flatten (pairsOf (fieldTokens.map (·.toList))) := by
  rw [mapM_eq_ok] at h
  have named : List.Forall₂ (List.Forall₂ (Names tokens)) postings
      (fieldTokens.zipIdx.map fun entry => entry.1.toList.map fun token => (entry.2, token)) := by
    rw [List.forall₂_map_right_iff]
    have bounded : ∀ entry ∈ fieldTokens.zipIdx, entry.2 < 256 := by
      rintro ⟨unique, field⟩ member
      have inside := (List.mem_zipIdx member).2.1
      unfold maxIndexedFields at small
      simp only
      omega
    generalize fieldTokens.zipIdx = entries at h bounded
    induction h with
    | nil => exact .nil
    | cons first _ ih =>
        exact .cons (fieldPostings_ok first few (bounded _ List.mem_cons_self))
          (ih fun entry member => bounded entry (List.mem_cons_of_mem _ member))
  have joined := List.rel_flatten named
  rw [pairsOf, List.zipIdx_map, List.flatMap_map]
  rw [← List.flatMap_def] at joined
  exact joined

/-- The tokens of a field, in order and each once. -/
structure FieldTokens (tables : Tables) (value : Option String) (tokens : List String) : Prop where
  sorted : tokens.Pairwise (· < ·)
  exact : ∀ token, token ∈ tokens ↔ token ∈ tokensOf tables (normal tables (value.getD "").toList)

/-- What is known of an indexed record. -/
structure IndexedRecord.Indexes (tables : Tables) (record : IndexedRecord) (values : List (Option String))
    (fields : List (List String)) : Prop where
  tokens : List.Forall₂ (FieldTokens tables) values fields
  few : fields.length ≤ maxIndexedFields
  named : List.Forall₂ (Names record.tokens) record.postings (pairsOf fields)
  postings : record.postings.length ≤ maxPostings
  bytes : record.postingBytes = ((pairsOf fields).map fun pair => pair.2.utf8ByteSize).sum
  bounded : record.indexedBytes ≤ maxIndexedBytes ∧ record.postingBytes ≤ maxPostingBytes

/-- The tokens of the pairs are those of the fields. -/
theorem pairsOf_tokens (fields : List (List String)) : (pairsOf fields).map Prod.snd = fields.flatten := by
  have named : ∀ start, ((fields.zipIdx start).flatMap fun entry => entry.1.map fun token => (entry.2, token)).map
      Prod.snd = fields.flatten := by
    induction fields with
    | nil => exact fun _ => rfl
    | cons tokens rest ih =>
        intro start
        rw [List.zipIdx_cons, List.flatMap_cons, List.map_append, ih, List.map_map, List.flatten_cons]
        congr 1
        exact List.map_id tokens
  exact named 0

theorem bytesOf_fields (fieldTokens : List (Std.TreeSet String)) :
    ((pairsOf (fieldTokens.map (·.toList))).map fun pair => pair.2.utf8ByteSize).sum
      = (fieldTokens.map bytesOf).sum := by
  have split : (fun pair : Nat × String => pair.2.utf8ByteSize) = String.utf8ByteSize ∘ Prod.snd := rfl
  rw [split, ← List.map_map, pairsOf_tokens, List.map_flatten, List.sum_flatten, List.map_map, List.map_map]
  rfl

/-- The postings are the distinct tokens of every field, in order. -/
theorem indexedRecord_exact {values : List (Option String)} {admittedBytes : Nat} {record : IndexedRecord}
    (h : indexedRecord tables values admittedBytes = .ok record) :
    ∃ fields, record.Indexes tables values fields := by
  simp only [indexedRecord, check, bind_eq_ok, ensure_eq_ok] at h
  rcases h with ⟨_, ⟨_, count⟩, _, ⟨_, admitted⟩, _, _, _, indexed, ⟨dictionary, bytes, fieldTokens⟩, fields,
    postings, named, h⟩
  cases h
  rcases indexFields_ok fields (Nat.zero_le _) (Nat.zero_le _) with ⟨tokens, members, few, small, total⟩
  have same_length := tokens.length_eq
  have short : dictionary.toList.length ≤ maxRecordTokens := by
    rw [Std.TreeSet.length_toList]
    exact few
  have all := postings_ok named short (same_length ▸ count)
  have sizes : ∀ unique ∈ fieldTokens, unique.toList.length ≤ maxRecordTokens := by
    intro unique member
    refine le_trans (List.Subperm.length_le ?_) short
    refine List.subperm_of_subset (toList_nodup unique) fun token here => ?_
    rw [Std.TreeSet.mem_toList] at here ⊢
    exact (members token).mpr (.inr ⟨unique, member, here⟩)
  have pairs_count : (pairsOf (fieldTokens.map (·.toList))).length ≤ maxPostings := by
    have each : ∀ size ∈ fieldTokens.map (fun unique => unique.toList.length), size ≤ maxRecordTokens := by
      intro size member
      rcases List.mem_map.mp member with ⟨unique, here, rfl⟩
      exact sizes unique here
    have sum := List.sum_le_card_nsmul _ maxRecordTokens each
    rw [List.length_map] at sum
    have lengths : (pairsOf (fieldTokens.map (·.toList))).length
        = (fieldTokens.map fun unique => unique.toList.length).sum := by
      rw [← List.length_map Prod.snd, pairsOf_tokens, List.length_flatten, List.map_map]
      rfl
    rw [lengths]
    exact sum.trans (Nat.mul_le_mul_right _ (same_length ▸ count))
  refine ⟨fieldTokens.map (·.toList), ?_, ?_, all, ?_, ?_, ⟨indexed.trans admitted, small⟩⟩
  · rw [List.forall₂_map_right_iff]
    refine tokens.imp fun value unique exact_tokens => ⟨toList_sorted unique, fun token => ?_⟩
    rw [Std.TreeSet.mem_toList]
    exact exact_tokens token
  · rw [List.length_map]
    exact same_length ▸ count
  · rw [all.length_eq]
    exact pairs_count
  · rw [bytesOf_fields]
    exact total.trans (Nat.zero_add _)

theorem mem_pairsOf {fields : List (List String)} {field : Nat} {token : String} :
    (field, token) ∈ pairsOf fields ↔ ∃ tokens, fields[field]? = some tokens ∧ token ∈ tokens := by
  rw [pairsOf, List.mem_flatMap]
  constructor
  · rintro ⟨⟨tokens, position⟩, member, here⟩
    rcases List.mem_map.mp here with ⟨other, listed, same⟩
    cases same
    exact ⟨tokens, List.mem_zipIdx_iff_getElem?.mp member, listed⟩
  · rintro ⟨tokens, found, listed⟩
    exact ⟨(tokens, field), List.mem_zipIdx_iff_getElem?.mpr found, List.mem_map_of_mem listed⟩

/-- A field and a token are a pair where the value of the field has the token. -/
theorem IndexedRecord.Indexes.mem_pairs {record : IndexedRecord} {values : List (Option String)}
    {fields : List (List String)} (h : record.Indexes tables values fields) {field : Nat} {token : String} :
    (field, token) ∈ record.pairs ↔ ∃ value, values[field]? = some value
      ∧ token ∈ tokensOf tables (normal tables (value.getD "").toList) := by
  rw [IndexedRecord.pairs, names_pairs h.named, mem_pairsOf]
  have lengths := h.tokens.length_eq
  constructor
  · rintro ⟨tokens, found, member⟩
    have bound : field < values.length := lengths ▸ (List.getElem?_eq_some_iff.mp found).1
    have here := List.forall₂_iff_get.mp h.tokens |>.2 field bound (lengths ▸ bound)
    refine ⟨values[field], List.getElem?_eq_getElem bound, ?_⟩
    rw [← (List.getElem?_eq_some_iff.mp found).2] at member
    exact (here.exact token).mp member
  · rintro ⟨value, found, member⟩
    have bound : field < values.length := (List.getElem?_eq_some_iff.mp found).1
    have here := List.forall₂_iff_get.mp h.tokens |>.2 field bound (lengths ▸ bound)
    refine ⟨fields[field], List.getElem?_eq_getElem (lengths ▸ bound), (here.exact token).mpr ?_⟩
    rw [← (List.getElem?_eq_some_iff.mp found).2] at member
    exact member

/-! ## Prepared postings -/

/-- Control characters are other characters, quotes and backslashes are punctuation. -/
structure Tables.Documented (tables : Tables) : Prop where
  control : ∀ scalar : Char, scalar.toNat < 32 → tables.category scalar = .other
  quotes : tables.category '"' = .punctuation
  backslash : tables.category '\\' = .punctuation

theorem Tables.Documented.plain (documented : tables.Documented) {scalar : Char}
    (h : continues tables scalar = true) : JsonText.Plain scalar := by
  have group : tables.category scalar = .letter ∨ tables.category scalar = .number
      ∨ tables.category scalar = .mark := by
    simpa [continues, starts, or_assoc] using h
  refine ⟨Nat.not_lt.mp fun small => ?_, ?_, ?_⟩
  · rw [documented.control scalar small] at group
    simp at group
  · rintro rfl
    rw [documented.quotes] at group
    simp at group
  · rintro rfl
    rw [documented.backslash] at group
    simp at group

/-- A token needs no escape. -/
theorem Tables.Documented.token (documented : tables.Documented) {text : List Char} {token : String}
    (h : token ∈ tokensOf tables text) : ∀ scalar ∈ token.toList, JsonText.Plain scalar := by
  rcases List.mem_map.mp h with ⟨⟨start, stop⟩, listed, rfl⟩
  intro scalar member
  rw [slice, String.toList_ofList] at member
  have run := ((Runs.mem_spans starts_continues).mp listed).run
  exact documented.plain (Runs.slice_continues run member)

/-- The text of a pair. -/
def jsonPair (pair : Nat × String) : Nat × List Char := (pair.1, pair.2.toList)

theorem utf8ByteSize_ofList (text : List Char) : (String.ofList text).utf8ByteSize = (text.map Char.utf8Size).sum := by
  rw [Decimal.utf8ByteSize_eq_sum, String.toList_ofList]

/-- The rest of an array, with a comma before every pair but the first of all. -/
def restOf (index : Nat) (pairs : List (Nat × String)) : List Char :=
  if index = 0 then JsonText.writeItems (pairs.map jsonPair)
  else (pairs.map jsonPair).flatMap fun pair => ',' :: JsonText.writePair pair

/-- The loop writes every pair, where there is room for all of them. -/
theorem writePostings_ok {tokens : List String} {postings : List FieldToken} {pairs : List (Nat × String)}
    (named : List.Forall₂ (Names tokens) postings pairs) (index : Nat) (bytes : String)
    (plain : ∀ pair ∈ pairs, pair.1 < 10 ∧ ∀ scalar ∈ pair.2.toList, JsonText.Plain scalar)
    (room : bytes.utf8ByteSize + (pairs.map fun pair => 7 + pair.2.utf8ByteSize).sum
      < maxPayloadBytes + if index = 0 then 1 else 0) :
    ∃ text, writePostings tokens index bytes postings = .ok text
      ∧ text.toList = bytes.toList ++ restOf index pairs
      ∧ text.utf8ByteSize ≤ bytes.utf8ByteSize + (pairs.map fun pair => 7 + pair.2.utf8ByteSize).sum
      ∧ (index = 0 → pairs ≠ [] →
        text.utf8ByteSize < bytes.utf8ByteSize + (pairs.map fun pair => 7 + pair.2.utf8ByteSize).sum) := by
  induction named generalizing index bytes with
  | nil =>
      refine ⟨bytes, rfl, ?_, Nat.le_add_right _ _, fun _ some_pair => absurd rfl some_pair⟩
      unfold restOf
      split
      · rw [List.map_nil, JsonText.writeItems, List.append_nil]
      · rw [List.map_nil, List.flatMap_nil, List.append_nil]
  | @cons posting pair postings pairs first _ ih =>
      rcases plain pair List.mem_cons_self with ⟨digit, escapes⟩
      rw [List.map_cons, List.sum_cons] at room ⊢
      let separated := if index ≠ 0 then bytes ++ "," else bytes
      let written := separated ++ String.ofList (JsonText.writePair (jsonPair pair))
      have size : written.utf8ByteSize = separated.utf8ByteSize + (6 + pair.2.utf8ByteSize) := by
        rw [String.utf8ByteSize_append, utf8ByteSize_ofList, JsonText.utf8Size_writePair digit escapes, jsonPair,
          ← Decimal.utf8ByteSize_eq_sum]
      have comma : separated.utf8ByteSize = bytes.utf8ByteSize + if index = 0 then 0 else 1 := by
        by_cases start : index = 0
        · simp only [separated]
          rw [if_neg (not_not.mpr start), if_pos start, Nat.add_zero]
        · simp only [separated]
          rw [if_pos start, if_neg start, String.utf8ByteSize_append]
          rfl
      have fits : written.utf8ByteSize + (pairs.map fun pair => 7 + pair.2.utf8ByteSize).sum < maxPayloadBytes := by
        rw [size, comma]
        split at room
        · rename_i start
          rw [if_pos start]
          omega
        · rename_i later
          rw [if_neg later]
          omega
      rcases ih (index + 1) written (fun other member => plain other (List.mem_cons_of_mem _ member))
        (by rw [if_neg (Nat.succ_ne_zero index), Nat.add_zero]; exact fits) with ⟨text, wrote, shown, small, _⟩
      refine ⟨text, ?_, ?_, ?_, fun start _ => ?_⟩
      · simp only [writePostings, need, check, bind_eq_ok, context_eq_ok, ensure_eq_ok]
        refine ⟨pair.2, first.2, (), ?_, ?_⟩
        · rw [first.1]
          change written.utf8ByteSize < maxPayloadBytes
          omega
        · rw [first.1]
          exact wrote
      · rw [shown, String.toList_append, String.toList_ofList, restOf, if_neg (Nat.succ_ne_zero index), restOf,
          List.map_cons]
        by_cases start : index = 0
        · simp only [separated]
          rw [if_neg (not_not.mpr start), if_pos start, JsonText.writeItems_cons, List.append_assoc]
        · simp only [separated]
          rw [if_pos start, if_neg start, String.toList_append, List.flatMap_cons, List.append_assoc,
            List.append_assoc]
          rfl
      · rw [size, comma] at small
        split at small <;> omega
      · rw [size, comma, if_pos start] at small
        omega

/-- What was indexed fits its payload, and the payload reads as what was stored. -/
theorem preparePostings_exact (documented : tables.Documented) {record : IndexedRecord}
    {values : List (Option String)} {fields : List (List String)} (h : record.Indexes tables values fields) :
    ∃ prepared, preparePostings record = .ok prepared ∧ prepared.payload.utf8ByteSize ≤ maxPayloadBytes
      ∧ JsonText.readPairs prepared.payload.toList = some (record.pairs.map jsonPair)
      ∧ prepared.count = record.pairs.length := by
  have pairs : record.pairs = pairsOf fields := names_pairs h.named
  have plain : ∀ pair ∈ pairsOf fields, pair.1 < 10 ∧ ∀ scalar ∈ pair.2.toList, JsonText.Plain scalar := by
    rintro ⟨field, token⟩ member
    have bound : field < fields.length := by
      rcases mem_pairsOf.mp member with ⟨tokens, found, _⟩
      exact (List.getElem?_eq_some_iff.mp found).1
    rcases h.mem_pairs.mp (pairs ▸ member) with ⟨value, _, here⟩
    have few := h.few
    unfold maxIndexedFields at few
    exact ⟨by simp only; omega, documented.token here⟩
  have count := h.named.length_eq
  have total : ((pairsOf fields).map fun pair => 7 + pair.2.utf8ByteSize).sum
      = 7 * record.postings.length + record.postingBytes := by
    rw [List.sum_map_add, List.map_const', List.sum_replicate_nat, h.bytes, count, Nat.mul_comm]
  have postings := h.postings
  have bytes := h.bounded.2
  have opening : ("[" : String).utf8ByteSize = 1 := rfl
  have most : maxPayloadBytes = maxPostings * 7 + maxPostingBytes + 1 := rfl
  rcases writePostings_ok h.named 0 "[" plain (by rw [total, opening, if_pos rfl]; omega) with
    ⟨text, wrote, shown, small, smaller⟩
  have closing : (text ++ "]").utf8ByteSize = text.utf8ByteSize + 1 := by
    rw [String.utf8ByteSize_append]
    rfl
  have size : (text ++ "]").utf8ByteSize ≤ maxPayloadBytes := by
    rw [closing]
    by_cases empty : pairsOf fields = []
    · have none_left : record.postings.length = 0 := by
        rw [count, empty]
        rfl
      have weightless : record.postingBytes = 0 := by
        rw [h.bytes, empty]
        rfl
      rw [total, none_left, weightless, opening] at small
      unfold maxPayloadBytes maxPostings maxIndexedFields maxRecordTokens maxPostingBytes
      omega
    · have strict := smaller rfl empty
      rw [total, opening] at strict
      omega
  refine ⟨⟨text ++ "]", record.postings.length⟩, ?_, size, ?_, ?_⟩
  · simp only [preparePostings, check, bind_eq_ok, ensure_eq_ok]
    exact ⟨(), h.bounded, (), postings, text, wrote, (), size, rfl⟩
  · have written : (text ++ "]").toList = JsonText.writePairs ((pairsOf fields).map jsonPair) := by
      rw [String.toList_append, shown, restOf, if_pos rfl]
      rfl
    rw [written, JsonText.readPairs_write, pairs]
  · rw [IndexedRecord.pairs, List.length_map]

/-! ## Queries -/

/-- The loop of a query counts the occurrences and collects the tokens. -/
theorem queryTokens_ok {tokens : List String} {state state' : Nat × Std.TreeSet String}
    (h : tokens.foldlM queryToken state = .ok state') :
    ∀ token, token ∈ state'.2 ↔ token ∈ tokens ∨ token ∈ state.2 := by
  induction tokens generalizing state with
  | nil =>
      cases h
      exact fun token => by simp
  | cons first rest ih =>
      rw [List.foldlM_cons, bind_eq_ok] at h
      rcases h with ⟨between, added, others⟩
      simp only [queryToken, check, bind_eq_ok, ensure_eq_ok] at added
      rcases added with ⟨_, _, added⟩
      cases added
      intro token
      rw [ih others token, Std.TreeSet.mem_insert, compare_eq_iff_eq, List.mem_cons, or_left_comm, or_assoc, eq_comm]

/-- The tokens of a query are those of its normalized text, in order and each once. -/
theorem canonicalQuery_exact {text : String} {query : List String} (h : canonicalQuery tables text = .ok query) :
    query.Pairwise (· < ·) ∧ query ≠ []
      ∧ ∀ token, token ∈ query ↔ token ∈ tokensOf tables (normal tables text.toList) := by
  simp only [canonicalQuery, check, bind_eq_ok, ensure_eq_ok] at h
  rcases h with ⟨_, _, ⟨canonical, left⟩, normalized, ⟨occurrences, tokens⟩, splits, _, some_token, h⟩
  cases h
  have same := normalize_ok tables normalized
  subst same
  have collected := queryTokens_ok (split_exact.mp splits).2
  refine ⟨toList_sorted tokens, fun empty => ?_, fun token => ?_⟩
  · have none_left : tokens.isEmpty = true := by
      rw [Std.TreeSet.isEmpty_eq_size_eq_zero, ← Std.TreeSet.length_toList, empty]
      rfl
    rw [none_left] at some_token
    cases some_token
  · rw [Std.TreeSet.mem_toList, collected token]
    exact or_iff_left Std.TreeSet.not_mem_emptyc

end Tokenizer

/-! ## The index and its queries -/

/-- Splitting finds exactly the maximal runs of letters, numbers and marks.  A record that is
indexed stores the distinct tokens of each of its fields in order; they fit their payload, and it
reads as them; and a token of a query is posted exactly for the fields that have it after the
same normalization. -/
theorem search_exact (tables : Tables) (documented : tables.Documented) :
    (∀ text : List Char,
      (∀ i j, (i, j) ∈ Runs.spans (starts tables) (continues tables) text
        ↔ Runs.Maximal (starts tables) (continues tables) text i j)
      ∧ ((Runs.spans (starts tables) (continues tables) text).Pairwise fun p q => p.2 < q.1)
      ∧ ∀ (σ : Type) (emit : σ → String → Result σ) (state state' : σ),
        split tables emit text state = .ok state'
          ↔ (∀ span ∈ Runs.spans (starts tables) (continues tables) text, span.2 - span.1 ≤ maxTokenScalars)
            ∧ ((Runs.spans (starts tables) (continues tables) text).map
              fun span => slice text span.1 span.2).foldlM emit state = .ok state')
    ∧ ∀ values admittedBytes record, indexedRecord tables values admittedBytes = .ok record →
      (∃ fields, List.Forall₂ (FieldTokens tables) values fields ∧ record.pairs = pairsOf fields)
      ∧ (∃ prepared, preparePostings record = .ok prepared ∧ prepared.payload.utf8ByteSize ≤ maxPayloadBytes
        ∧ JsonText.readPairs prepared.payload.toList = some (record.pairs.map jsonPair)
        ∧ prepared.count = record.pairs.length)
      ∧ ∀ text query, canonicalQuery tables text = .ok query → ∀ token ∈ query,
        token ∈ tokensOf tables (normal tables text.toList)
        ∧ ∀ field, (field, token) ∈ record.pairs ↔ ∃ value, values[field]? = some value
          ∧ token ∈ tokensOf tables (normal tables (value.getD "").toList) := by
  refine ⟨fun text => ⟨fun i j => Runs.mem_spans starts_continues, Runs.spans_ordered,
    fun σ emit state state' => split_exact⟩, fun values admittedBytes record indexed => ?_⟩
  rcases indexedRecord_exact indexed with ⟨fields, here⟩
  refine ⟨⟨fields, here.tokens, names_pairs here.named⟩, preparePostings_exact documented here,
    fun text query canonical token member => ?_⟩
  exact ⟨((canonicalQuery_exact canonical).2.2 token).mp member, fun field => here.mem_pairs⟩

/-- The tables on basic Latin text without case mappings beyond it. -/
def asciiTables : Tables where
  decomposeCompatible scalar := [scalar]
  combiningClass _ := 0
  nfkc text := text
  lowercase text := text.map Char.toLower
  category scalar :=
    if scalar.toNat < 32 then .other
    else if scalar.isAlpha then .letter
    else if scalar.isDigit then .number
    else if scalar = ' ' then .separator
    else .punctuation

theorem asciiTables_documented : asciiTables.Documented :=
  ⟨fun scalar small => if_pos small, by decide, by decide⟩

/-- One word in two fields, in two spellings, and a query for it. -/
theorem search_exact_sample :
    ∃ record, indexedRecord asciiTables [some "Rust a1", some "rust! RUST"] 100 = .ok record
      ∧ record.pairs = [(0, "a1"), (0, "rust"), (1, "rust")]
      ∧ ∀ field, (field, "rust") ∈ record.pairs ↔ ∃ value,
        [some "Rust a1", some "rust! RUST"][field]? = some value
          ∧ "rust" ∈ tokensOf asciiTables (normal asciiTables (value.getD "").toList) := by
  have accepted : ((indexedRecord asciiTables [some "Rust a1", some "rust! RUST"] 100).toOption.map (·.pairs))
      = some [(0, "a1"), (0, "rust"), (1, "rust")] := by decide
  have query : canonicalQuery asciiTables "Rust" = .ok ["rust"] := by decide
  cases indexed : indexedRecord asciiTables [some "Rust a1", some "rust! RUST"] 100 with
  | error failure =>
      rw [indexed] at accepted
      cases accepted
  | ok record =>
      rw [indexed] at accepted
      have all := ((search_exact asciiTables asciiTables_documented).2 _ _ record indexed).2.2 "Rust" ["rust"] query
        "rust" (List.mem_singleton.mpr rfl)
      exact ⟨record, rfl, Option.some.inj accepted, all.2⟩

end Noxide.Search
