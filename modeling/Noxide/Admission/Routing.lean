import Noxide.Protocol.Manifest

/-!
# Route paths

The finite path grammar of admitted routes, the resolution of a route reference
to a concrete path, and the matching of request paths.

Main results:

- Theorem {lit}`resolvePath_matches`: a resolved path is matched by its own
  route, with the same target.
- Theorem {lit}`pathsOverlap_of_matches`: two routes that match one path
  overlap, so admission keeps at most one of them.
-/

namespace Noxide

open Checked

/-! ## The path grammar -/

inductive PathSegment where
  | static (value : String)
  | target
  deriving DecidableEq, Repr

/-- A canonical decimal record identifier: no sign, no leading zero. -/
def canonicalId (value : String) : Option Nat :=
  if value = "" ∨ value.toList.head? = some '0' ∨ value.toList.all Char.isDigit = false then none
  else (Decimal.parseU64 value).filter fun id => id ≤ i64Max

/-- The name between the braces of a parameter part. -/
def braced : List Char → Option (List Char)
  | '{' :: rest => if rest.getLast? = some '}' then some rest.dropLast else none
  | _ => none

def pathSegment (part : List Char) : Result PathSegment :=
  match braced part with
  | some name => do
      check "invalid route parameter" (identifier (String.ofList name) = true)
      return .target
  | none => do
      check "invalid route segment" (identifier (String.ofList part) = true)
      return .static (String.ofList part)

/-- The parts of a path after its leading slash; the root has none. -/
def pathParts (path : String) : List (List Char) :=
  if path = "/" then [] else path.toList.tail.splitOn '/'

def pathSegments (route : Route) : Result (List PathSegment) := do
  check "invalid route path"
    (route.path.toList.head? = some '/' ∧ route.path.utf8ByteSize ≤ 128)
  let segments ← (pathParts route.path).mapM pathSegment
  check "route parameter mismatch"
    (segments.count .target = if route.resource.isSome then 1 else 0)
  check "route segment limit" (segments.length ≤ 8)
  return segments

/-- Check the finite route grammar independently of guest-generated handles. -/
def validatePath (route : Route) : Result Unit := do
  let _ ← pathSegments route
  return ()

def PathSegment.overlaps : PathSegment → PathSegment → Bool
  | .static left, .static right => left == right
  | .target, .target => true
  | .static value, .target => (canonicalId value).isSome
  | .target, .static value => (canonicalId value).isSome

/-- Whether two admitted patterns can name the same concrete request path. -/
def pathsOverlap (left right : Route) : Bool :=
  match pathSegments left, pathSegments right with
  | .ok left, .ok right =>
      left.length == right.length &&
        (left.zip right).all fun pair => pair.1.overlaps pair.2
  | _, _ => true

/-! ## Matching and resolving -/

/-- Match the parts of a path in order; the last target part wins. -/
def matchSegments : List PathSegment → List (List Char) → Option Nat → Option (Option Nat)
  | [], [], target => some target
  | .static expected :: segments, part :: parts, target =>
      if expected.toList = part then matchSegments segments parts target else none
  | .target :: segments, part :: parts, _ =>
      match canonicalId (String.ofList part) with
      | some id => matchSegments segments parts (some id)
      | none => none
  | _, _, _ => none

/-- Match only canonical decimal record identifiers, with no alternate path
encodings. -/
def matchPath (route : Route) (path : String) : Option (Option Nat) :=
  match pathSegments route with
  | .error _ => none
  | .ok segments =>
      if path.toList.head? = some '/' then matchSegments segments (pathParts path) none
      else none

/-- A reference to a page: a route, its record and its query parameters. -/
structure RouteRef where
  params : Fields
  route : Nat
  target : Option Nat
  deriving DecidableEq

def segmentText (target : Option Nat) : PathSegment → Result (List Char)
  | .static value => .ok value.toList
  | .target => do
      let id ← need "missing route target" target
      return (toString id).toList

/-- Resolve the host-owned route grammar without query parameters. -/
def resolvePath (m : Manifest) (reference : RouteRef) : Result String := do
  let route ← m.route reference.route
  let segments ← pathSegments route
  check "invalid route target" (route.resource.isSome = reference.target.isSome)
  check "invalid route target" (∀ id ∈ reference.target, 0 < id ∧ id ≤ i64Max)
  let texts ← segments.mapM (segmentText reference.target)
  let path := texts.flatMap fun text => '/' :: text
  return if path = [] then "/" else String.ofList path

/-! ## Identifiers in paths -/

/-- A printed record identifier is canonical. -/
theorem canonicalId_print {id : Nat} (pos : 0 < id) (bound : id ≤ i64Max) :
    canonicalId (toString id) = some id := by
  have digits : (toString id).toList = Nat.toDigits 10 id := Nat.toList_repr
  have allDigits : (toString id).toList.all Char.isDigit = true := by
    rw [digits, List.all_eq_true]
    exact fun c mem => Nat.isDigit_of_mem_toDigits (by decide) (by decide) mem
  have nonempty : toString id ≠ "" := by
    intro empty
    have : Nat.toDigits 10 id = [] := by rw [← digits, empty]; rfl
    exact Nat.toDigits_ne_nil this
  have noZero : (toString id).toList.head? ≠ some '0' := by
    rw [digits]
    exact Decimal.toDigits_head_ne_zero pos
  have small : id < 2 ^ 64 := by
    unfold i64Max at bound
    omega
  have canonical : ¬ (toString id = "" ∨ (toString id).toList.head? = some '0' ∨
      (toString id).toList.all Char.isDigit = false) := by
    rintro (h | h | h)
    · exact nonempty h
    · exact noZero h
    · rw [allDigits] at h
      cases h
  unfold canonicalId
  rw [if_neg canonical, Decimal.parseU64_print small]
  simp [bound]

/-- Characters of an identifier separate nothing in a path or a link. -/
theorem identifier_chars {name : String} (h : identifier name = true) :
    name.toList ≠ [] ∧ ∀ c ∈ name.toList, c.isLower = true ∨ c.isDigit = true ∨ c = '_' := by
  unfold identifier at h
  split at h
  · cases h
  · next first rest shape =>
    rw [shape]
    refine ⟨List.cons_ne_nil first rest, fun c mem => ?_⟩
    simp only [Bool.and_eq_true, List.all_eq_true, Bool.or_eq_true, beq_iff_eq] at h
    rcases h.2 c mem with (lower | digit) | underscore
    · exact .inl lower
    · exact .inr (.inl digit)
    · exact .inr (.inr underscore)

/-- Path text that splitting keeps together. -/
def PathText (text : List Char) : Prop :=
  text ≠ [] ∧ '/' ∉ text ∧ '?' ∉ text

theorem pathText_of_identifier {name : String} (h : identifier name = true) :
    PathText name.toList := by
  have chars := identifier_chars h
  refine ⟨chars.1, fun slash => ?_, fun question => ?_⟩
  · have := chars.2 '/' slash
    simp at this
  · have := chars.2 '?' question
    simp at this

theorem pathText_print (id : Nat) : PathText (toString id).toList := by
  have digits : (toString id).toList = Nat.toDigits 10 id := Nat.toList_repr
  have isDigit : ∀ c ∈ (toString id).toList, c.isDigit = true := by
    rw [digits]
    exact fun c mem => Nat.isDigit_of_mem_toDigits (by decide) (by decide) mem
  refine ⟨by rw [digits]; exact Nat.toDigits_ne_nil, fun slash => ?_, fun question => ?_⟩
  · have := isDigit '/' slash
    simp at this
  · have := isDigit '?' question
    simp at this

/-! ## A resolved path matches its route -/

theorem pathSegment_static {part : List Char} {value : String}
    (h : pathSegment part = .ok (.static value)) : identifier value = true := by
  unfold pathSegment at h
  split at h
  · simp only [check, bind_eq_ok, ensure_eq_ok] at h
    rcases h with ⟨_, _, result⟩
    cases result
  · simp only [check, bind_eq_ok, ensure_eq_ok] at h
    rcases h with ⟨_, named, result⟩
    cases result
    exact named

/-- What the grammar guarantees of an admitted path. -/
structure PathSegments (route : Route) (segments : List PathSegment) : Prop where
  targets : segments.count .target = if route.resource.isSome then 1 else 0
  static : ∀ value, .static value ∈ segments → identifier value = true

theorem pathSegments_spec {route : Route} {segments : List PathSegment}
    (h : pathSegments route = .ok segments) : PathSegments route segments := by
  simp only [pathSegments, check, bind_eq_ok, ensure_eq_ok] at h
  rcases h with ⟨_, _, parsed, hparsed, _, targets, _, _, result⟩
  cases result
  refine ⟨targets, fun value mem => ?_⟩
  rcases mapM_mem hparsed mem with ⟨part, _, hpart⟩
  exact pathSegment_static hpart

theorem segmentText_pathText {target : Option Nat} {segment : PathSegment} {text : List Char}
    (static : ∀ value, segment = .static value → identifier value = true)
    (h : segmentText target segment = .ok text) : PathText text := by
  cases segment with
  | static value =>
      cases h
      exact pathText_of_identifier (static value rfl)
  | target =>
      simp only [segmentText, need, bind_eq_ok, context_eq_ok] at h
      rcases h with ⟨id, _, result⟩
      cases result
      exact pathText_print id

/-- Splitting a built path gives its texts back. -/
theorem splitOn_path {first : List Char} {rest : List (List Char)}
    (hfirst : '/' ∉ first) (hrest : ∀ text ∈ rest, '/' ∉ text) :
    (first ++ rest.flatMap fun text => '/' :: text).splitOn '/' = first :: rest := by
  have noSlash : ∀ text : List Char, '/' ∉ text → ∀ c ∈ text, (c == '/') = false := by
    intro text free c mem
    rw [beq_eq_false_iff_ne]
    rintro rfl
    exact free mem
  rw [List.splitOn_eq_splitOnP]
  induction rest generalizing first with
  | nil =>
      rw [List.flatMap_nil, List.append_nil]
      exact List.splitOnP_eq_singleton (noSlash first hfirst)
  | cons second rest ih =>
      rw [List.flatMap_cons, List.cons_append]
      rw [List.splitOnP_append_cons_of_forall_mem (noSlash first hfirst) '/' (by simp)]
      rw [ih (hrest second List.mem_cons_self) fun text mem =>
        hrest text (List.mem_cons_of_mem _ mem)]

/-- The concrete path of the given texts. -/
def builtPath (texts : List (List Char)) : String :=
  if texts.flatMap (fun text => '/' :: text) = [] then "/"
  else String.ofList (texts.flatMap fun text => '/' :: text)

theorem builtPath_parts {texts : List (List Char)} (h : ∀ text ∈ texts, PathText text) :
    pathParts (builtPath texts) = texts ∧ (builtPath texts).toList.head? = some '/' := by
  cases texts with
  | nil => exact ⟨rfl, rfl⟩
  | cons first rest =>
      have hfirst := h first List.mem_cons_self
      have shape : (builtPath (first :: rest)).toList =
          '/' :: (first ++ rest.flatMap fun text => '/' :: text) := by
        simp [builtPath]
      have notRoot : builtPath (first :: rest) ≠ "/" := by
        intro root
        rw [root] at shape
        have empty := (List.cons.inj shape).2
        exact hfirst.1 (List.append_eq_nil_iff.mp empty.symm).1
      constructor
      · unfold pathParts
        rw [if_neg notRoot, shape, List.tail_cons]
        exact splitOn_path hfirst.2.1 fun text mem => (h text (List.mem_cons_of_mem _ mem)).2.1
      · rw [shape, List.head?_cons]

/-- The texts of the segments match the segments. -/
theorem matchSegments_texts {target : Option Nat}
    (valid : ∀ id ∈ target, 0 < id ∧ id ≤ i64Max) {segments : List PathSegment}
    {texts : List (List Char)}
    (h : List.Forall₂ (fun segment text => segmentText target segment = .ok text) segments texts)
    (earlier : Option Nat) :
    matchSegments segments texts earlier =
      some (if .target ∈ segments then target else earlier) := by
  induction h generalizing earlier with
  | nil => rfl
  | @cons segment text segments texts head tail ih =>
      cases segment with
      | static value =>
          cases head
          simp only [matchSegments, if_true, ih, List.mem_cons, reduceCtorEq, false_or]
      | target =>
          simp only [segmentText, need, bind_eq_ok, context_eq_ok] at head
          rcases head with ⟨id, rfl, result⟩
          cases result
          have bounds := valid id rfl
          simp only [matchSegments, String.ofList_toList, canonicalId_print bounds.1 bounds.2, ih,
            List.mem_cons, true_or, if_true]
          split <;> rfl

/-- A resolved path is matched by its own route, with the same target, and holds
no query separator. -/
theorem resolvePath_matches {m : Manifest} {reference : RouteRef} {path : String}
    (h : resolvePath m reference = .ok path) :
    ∃ route, m.route reference.route = .ok route ∧
      matchPath route path = some reference.target ∧ '?' ∉ path.toList := by
  simp only [resolvePath, check, bind_eq_ok, ensure_eq_ok] at h
  rcases h with ⟨route, hroute, segments, hsegments, _, same, _, valid, texts, htexts, result⟩
  have grammar := pathSegments_spec hsegments
  have texts_of := mapM_eq_ok.mp htexts
  have hpath : builtPath texts = path := by
    rw [builtPath]
    exact Except.ok.inj result
  subst hpath
  have pathTexts : ∀ text ∈ texts, PathText text := by
    intro text mem
    rcases mapM_mem htexts mem with ⟨segment, hsegment, htext⟩
    refine segmentText_pathText (fun value heq => ?_) htext
    exact grammar.static value (heq ▸ hsegment)
  rcases builtPath_parts pathTexts with ⟨parts, slash⟩
  refine ⟨route, hroute, ?_, ?_⟩
  · simp only [matchPath, hsegments, slash, if_true, parts]
    rw [matchSegments_texts valid texts_of none]
    congr 1
    by_cases found : PathSegment.target ∈ segments
    · rw [if_pos found]
    · rw [if_neg found]
      have none_counted := List.count_eq_zero_of_not_mem found
      rw [grammar.targets] at none_counted
      cases target : reference.target with
      | none => rfl
      | some id =>
          rw [same, target] at none_counted
          simp at none_counted
  · unfold builtPath
    split
    · simp
    · rw [String.toList_ofList]
      intro mem
      rcases List.mem_flatMap.mp mem with ⟨text, htext, inText⟩
      rcases List.mem_cons.mp inText with slash | inText
      · simp at slash
      · exact (pathTexts text htext).2.2 inText

/-! ## Routes that match one path overlap -/

/-- What one segment accepts of a path. -/
def PathSegment.accepts (part : List Char) : PathSegment → Prop
  | .static value => value.toList = part
  | .target => (canonicalId (String.ofList part)).isSome = true

theorem matchSegments_cons {segment : PathSegment} {segments : List PathSegment}
    {part : List Char} {parts : List (List Char)} {before found : Option Nat}
    (h : matchSegments (segment :: segments) (part :: parts) before = some found) :
    segment.accepts part ∧ ∃ between, matchSegments segments parts between = some found := by
  cases segment with
  | static value =>
      simp only [matchSegments] at h
      split at h
      · next same => exact ⟨same, before, h⟩
      · cases h
  | target =>
      simp only [matchSegments] at h
      split at h
      · next id canonical =>
        have accepted : (canonicalId (String.ofList part)).isSome = true := by rw [canonical]; rfl
        exact ⟨accepted, some id, h⟩
      · cases h

/-- Segments that accept one part overlap. -/
theorem overlaps_of_accepts {left right : PathSegment} {part : List Char}
    (hleft : left.accepts part) (hright : right.accepts part) : left.overlaps right = true := by
  cases left with
  | static value =>
      cases right with
      | static other =>
          have same : value = other := String.ext (hleft.trans hright.symm)
          simp [PathSegment.overlaps, same]
      | target =>
          have text : String.ofList part = value := String.ext (by
            rw [String.toList_ofList]
            exact hleft.symm)
          exact text ▸ hright
  | target =>
      cases right with
      | static other =>
          have text : String.ofList part = other := String.ext (by
            rw [String.toList_ofList]
            exact hright.symm)
          exact text ▸ hleft
      | target => rfl

theorem overlaps_of_matches {left right : List PathSegment} {parts : List (List Char)}
    {before before' : Option Nat} {found found' : Option Nat}
    (hleft : matchSegments left parts before = some found)
    (hright : matchSegments right parts before' = some found') :
    left.length = right.length ∧
      (left.zip right).all (fun pair => pair.1.overlaps pair.2) = true := by
  induction parts generalizing left right before before' with
  | nil =>
      cases left with
      | nil =>
          cases right with
          | nil => exact ⟨rfl, rfl⟩
          | cons segment rest => cases segment <;> cases hright
      | cons segment rest => cases segment <;> cases hleft
  | cons part parts ih =>
      cases left with
      | nil => cases hleft
      | cons first left =>
          cases right with
          | nil => cases hright
          | cons second right =>
              rcases matchSegments_cons hleft with ⟨accepted, _, restLeft⟩
              rcases matchSegments_cons hright with ⟨accepted', _, restRight⟩
              have tail := ih restLeft restRight
              refine ⟨by rw [List.length_cons, List.length_cons, tail.1], ?_⟩
              rw [List.zip_cons_cons, List.all_cons, tail.2, Bool.and_true]
              exact overlaps_of_accepts accepted accepted'

/-- Two routes that match one path overlap. -/
theorem pathsOverlap_of_matches {left right : Route} {path : String}
    {found found' : Option Nat} (hleft : matchPath left path = some found)
    (hright : matchPath right path = some found') : pathsOverlap left right = true := by
  unfold matchPath at hleft hright
  unfold pathsOverlap
  cases parsed : pathSegments left with
  | error e => rfl
  | ok segments =>
      cases parsed' : pathSegments right with
      | error e => rfl
      | ok segments' =>
          rw [parsed] at hleft
          rw [parsed'] at hright
          simp only at hleft hright ⊢
          split at hleft
          · next slash =>
            rw [if_pos slash] at hright
            have overlap := overlaps_of_matches hleft hright
            rw [overlap.1, overlap.2, beq_self_eq_true, Bool.and_true]
          · cases hleft

end Noxide
