import Noxide.Http.Query

/-!
# Emitted links

The links the host puts into its pages, and whether its own transport accepts
them: the path belongs to one route only, and the query string reads back as the
parameters it was made from.

Main results:

- Theorem {lit}`resolved_matched`: the path of a resolved link is matched by the
  referenced route and by no other.
- Theorem {lit}`acceptsLinks_iff`: the links of a reference are accepted exactly
  when its encoded parameters fit the transport's input allowance.
-/

namespace Noxide

open Checked

/-! ## Links -/

/-- The link of a reference: its path, and its parameters as a query string. -/
def resolve (url : FormUrlencoded) (m : Manifest) (reference : RouteRef) : Result String := do
  let route ← m.route reference.route
  validateParams m route reference.params
  let path ← resolvePath m reference
  return if reference.params = ∅ then path
    else path ++ "?" ++ url.serialize reference.params.pairs

/-- An issued page token: base64url text within the token limit. -/
structure PageToken where
  encoded : String
  alphabet : encoded.toList.all (fun c => c.isAlphanum || c == '-' || c == '_') = true
  size : encoded.utf8ByteSize ≤ maxTokenBytes

def cursorComponent (token : PageToken) : String :=
  "cursor=" ++ token.encoded

/-- The link to the next page: the page's own link and one cursor component. -/
def nextPageLink (url : FormUrlencoded) (m : Manifest) (reference : RouteRef)
    (token : PageToken) : Result String := do
  let path ← resolve url m reference
  return path ++ (if reference.params = ∅ then "?" else "&") ++ cursorComponent token

/-- The path of a link ends at the first question mark. -/
def linkPath (link : String) : String :=
  String.ofList (link.toList.takeWhile (· ≠ '?'))

/-- The query string of a link, if it has a question mark. -/
def linkQuery (link : String) : Option String :=
  match link.toList.dropWhile (· ≠ '?') with
  | [] => none
  | _ :: query => some (String.ofList query)

/-! ## Acceptance -/

/-- The referenced route alone matches the link's path, with the reference's
target. -/
structure Matched (m : Manifest) (reference : RouteRef) (link : String) (route : Route) :
    Prop where
  referenced : m.route reference.route = .ok route
  target : matchPath route (linkPath link) = some reference.target
  alone : ∀ other ∈ m.routes, (matchPath other (linkPath link)).isSome → other = route

/-- The transport accepts a link as the reference it was made from. -/
def Accepts (url : FormUrlencoded) (m : Manifest) (reference : RouteRef) (link : String)
    (cursor : Option String) : Prop :=
  ∃ route, Matched m reference link route ∧
    parseQuery url m route (linkQuery link) = .ok (cursor, reference.params)

/-- The transport accepts the link of a reference and its next-page links. -/
structure AcceptsLinks (url : FormUrlencoded) (m : Manifest) (reference : RouteRef) : Prop where
  page : ∀ link, resolve url m reference = .ok link → Accepts url m reference link none
  next : ∀ token link, nextPageLink url m reference token = .ok link →
    Accepts url m reference link (some token.encoded)

/-! ## Splitting links -/

theorem linkPath_plain {path : String} (plain : '?' ∉ path.toList) : linkPath path = path := by
  have keep : path.toList.takeWhile (· ≠ '?') = path.toList := by
    refine List.takeWhile_eq_self_iff.mpr fun c mem => ?_
    simp only [decide_eq_true_eq]
    rintro rfl
    exact plain mem
  rw [linkPath, keep, String.ofList_toList]

theorem linkQuery_plain {path : String} (plain : '?' ∉ path.toList) : linkQuery path = none := by
  have drop : path.toList.dropWhile (· ≠ '?') = [] := by
    refine List.dropWhile_eq_nil_iff.mpr fun c mem => ?_
    simp only [decide_eq_true_eq]
    rintro rfl
    exact plain mem
  rw [linkQuery, drop]

theorem link_toList (path query : String) :
    (path ++ "?" ++ query).toList = path.toList ++ '?' :: query.toList := by
  simp [String.toList_append]

theorem linkPath_query {path query : String} (plain : '?' ∉ path.toList) :
    linkPath (path ++ "?" ++ query) = path := by
  have all : ∀ c ∈ path.toList, decide (c ≠ '?') = true := by
    intro c mem
    simp only [decide_eq_true_eq]
    rintro rfl
    exact plain mem
  rw [linkPath, link_toList, List.takeWhile_append_of_pos all]
  simp

theorem linkQuery_query {path query : String} (plain : '?' ∉ path.toList) :
    linkQuery (path ++ "?" ++ query) = some query := by
  have all : ∀ c ∈ path.toList, decide (c ≠ '?') = true := by
    intro c mem
    simp only [decide_eq_true_eq]
    rintro rfl
    exact plain mem
  rw [linkQuery, link_toList, List.dropWhile_append_of_pos all]
  simp

/-! ## Matching the path -/

/-- The path of a resolved link is matched by the referenced route alone. -/
theorem resolved_matched {m : Manifest} {reference : RouteRef} {path link : String}
    (limits : validateContractLimits m = .ok ()) (routes : validateRoutes m = .ok ())
    (resolved : resolvePath m reference = .ok path) (split : linkPath link = path) :
    ∃ route, Matched m reference link route := by
  rcases resolvePath_matches resolved with ⟨route, hroute, target, _⟩
  refine ⟨route, hroute, split ▸ target, fun other mem found => ?_⟩
  have declared := Manifest.route_mem hroute
  rw [split] at found
  rcases Option.isSome_iff_exists.mp found with ⟨_, hfound⟩
  have overlap := pathsOverlap_of_matches target hfound
  have admitted := validateRoutes_spec routes route declared.1
  by_cases same : other.id = route.id
  · exact List.inj_on_of_nodup_map (validateContractLimits_routes limits) mem declared.1 same
  · rw [admitted.disjoint other mem same] at overlap
    cases overlap

/-! ## Reading the query -/

variable {url : FormUrlencoded}

/-- The components of a serialized query; an empty query has one empty
component. -/
theorem components_serialize {pairs : List (String × String)} (nonempty : pairs ≠ []) :
    FormUrlencoded.components (url.serialize pairs) = pairs.map url.component := by
  refine FormUrlencoded.components_intercalate (by simpa using nonempty) fun text mem => ?_
  rcases List.mem_map.mp mem with ⟨pair, _, rfl⟩
  exact FormUrlencoded.component_no_separator pair

/-- Parameters a route accepts are declared, and none is the cursor. -/
structure Declared (route : Route) (params : Fields) : Prop where
  declared : ∀ name ∈ params.keys, name ∈ route.params
  noCursor : "cursor" ∉ params.keys

theorem declared_of_validateParams {m : Manifest} {route : Route} {params : Fields}
    (admitted : AdmittedRoute m route) (valid : validateParams m route params = .ok ()) :
    Declared route params := by
  have keys := validateParams_keys admitted.distinct valid
  constructor
  · intro name mem
    rw [keys, List.mem_toFinset] at mem
    exact mem
  · intro mem
    rw [keys, List.mem_toFinset] at mem
    exact (admitted.names _ mem).2 rfl

namespace Declared

variable {route : Route} {params : Fields}

theorem ordinary (h : Declared route params) : ∀ pair ∈ params.pairs, pair.1 ≠ "cursor" := by
  rintro ⟨name, value⟩ mem rfl
  refine h.noCursor ?_
  rw [Finmap.mem_keys, ← Finmap.lookup_isSome, Fields.mem_pairs.mp mem]
  rfl

/-- Reading the serialized parameters collects them. -/
theorem read (h : Declared route params) :
    (params.pairs.map url.component).foldlM (addComponent url) ⟨∅, none⟩ =
      .ok ⟨params, none⟩ := by
  rw [addComponents_pairs h.ordinary params.pairs_nodup fun pair _ => Finmap.notMem_empty,
    Fields.ofPairs_pairs]

theorem erase_cursor (h : Declared route params) : params.erase "cursor" = params := by
  refine Finmap.ext_lookup fun name => ?_
  by_cases same : name = "cursor"
  · rw [same, Finmap.lookup_erase, eq_comm, Finmap.lookup_eq_none, ← Finmap.mem_keys]
    exact h.noCursor
  · rw [Finmap.lookup_erase_ne same]

theorem erase_insert_cursor (h : Declared route params) (value : String) :
    (params.insert "cursor" value).erase "cursor" = params := by
  refine Finmap.ext_lookup fun name => ?_
  by_cases same : name = "cursor"
  · rw [same, Finmap.lookup_erase, eq_comm, Finmap.lookup_eq_none, ← Finmap.mem_keys]
    exact h.noCursor
  · rw [Finmap.lookup_erase_ne same, Finmap.lookup_insert_of_ne _ same]

end Declared

/-- The components of serialized parameters are read back as the parameters. -/
theorem read_serialize {route : Route} {params : Fields} (h : Declared route params) :
    (FormUrlencoded.components (url.serialize params.pairs)).foldlM (addComponent url) ⟨∅, none⟩ =
      .ok ⟨params, none⟩ := by
  by_cases empty : params.pairs = []
  · have none : params = ∅ := by rw [← Fields.ofPairs_pairs params, empty]; rfl
    have noComponent : addComponent url ⟨∅, Option.none⟩ "" = .ok ⟨∅, Option.none⟩ := by
      rw [addComponent, url.parse_empty]
      rfl
    rw [empty, none]
    change (FormUrlencoded.components "").foldlM (addComponent url) ⟨∅, Option.none⟩ = _
    rw [show FormUrlencoded.components "" = [""] from rfl, List.foldlM_cons, noComponent]
    rfl
  · rw [components_serialize empty, h.read]

/-- Serialized parameters are accepted exactly when they fit the allowance. -/
theorem parseQuery_serialize {m : Manifest} {route : Route} {params : Fields}
    (h : Declared route params) (valid : validateParams m route params = .ok ()) :
    parseQuery url m route (some (url.serialize params.pairs)) = .ok (none, params) ↔
      FormUrlencoded.querySize params.pairs ≤ inputAllowance := by
  simp only [parseQuery, Option.getD_some, check, bind_eq_ok, ensure_eq_ok, read_serialize h,
    FormUrlencoded.serialize_size]
  constructor
  · rintro ⟨_, _, _, _, state, read, _, fits, _⟩
    cases read
    rwa [inputBytes, FormUrlencoded.serialize_size] at fits
  · intro fits
    have total : FormUrlencoded.querySize params.pairs ≤
        inputAllowance + cursorComponentBytes + 1 := by omega
    have escaped : FormUrlencoded.percentValid (url.serialize params.pairs).toList = true := by
      refine FormUrlencoded.intercalate_percentValid fun text mem => ?_
      rcases List.mem_map.mp mem with ⟨pair, _, rfl⟩
      exact FormUrlencoded.component_percentValid pair
    refine ⟨(), total, (), escaped, ⟨params, none⟩, rfl, (), ?_, (), ?_, (), ?_, ?_⟩
    · rwa [inputBytes, FormUrlencoded.serialize_size]
    · exact fun name mem => Or.inr (h.declared name mem)
    · rwa [h.erase_cursor]
    · have noCursor : params.lookup "cursor" = none := by
        rw [Finmap.lookup_eq_none, ← Finmap.mem_keys]
        exact h.noCursor
      rw [noCursor, h.erase_cursor]
      rfl

/-! ## Reading the next-page query -/

theorem PageToken.kept (token : PageToken) : token.encoded.toList.all FormUrlencoded.keeps = true := by
  have alphabet := token.alphabet
  rw [List.all_eq_true] at alphabet ⊢
  intro c mem
  have allowed := alphabet c mem
  simp only [Bool.or_eq_true] at allowed
  simp only [FormUrlencoded.keeps, Bool.or_eq_true]
  tauto

/-- The cursor component is what serializing the cursor pair gives. -/
theorem cursorComponent_eq (token : PageToken) :
    cursorComponent token = url.component ("cursor", token.encoded) := by
  have name : "cursor".toList.all FormUrlencoded.keeps = true := by decide
  rw [FormUrlencoded.component, url.encode_kept _ name, url.encode_kept _ token.kept]
  rfl

/-- The query string of a next-page link. -/
def nextPageQuery (url : FormUrlencoded) (params : Fields) (token : PageToken) : String :=
  url.serialize (params.pairs ++ [("cursor", token.encoded)])

theorem cursorComponent_size (token : PageToken) :
    (cursorComponent token).utf8ByteSize ≤ cursorComponentBytes := by
  rw [cursorComponent, String.utf8ByteSize_append, cursorComponentBytes]
  exact Nat.add_le_add_left token.size _

/-- A fresh cursor within its transport limit is read. -/
theorem addPair_cursor {state : QueryState} {token : PageToken}
    (fresh : "cursor" ∉ state.values) :
    addPair (cursorComponent token) state ("cursor", token.encoded) =
      .ok ⟨state.values.insert "cursor" token.encoded,
        some (cursorComponent token).utf8ByteSize⟩ := by
  have limits := cursorComponent_size token
  simp [addPair, check, ensure, fresh, limits, token.size, Fields.insertPair]

theorem read_nextPageQuery {route : Route} {params : Fields} {token : PageToken}
    (h : Declared route params) :
    (FormUrlencoded.components (nextPageQuery url params token)).foldlM (addComponent url)
        ⟨∅, none⟩ =
      .ok ⟨params.insert "cursor" token.encoded, some (cursorComponent token).utf8ByteSize⟩ := by
  have nonempty : params.pairs ++ [("cursor", token.encoded)] ≠ [] := by simp
  rw [nextPageQuery, components_serialize nonempty, List.map_append, List.foldlM_append, h.read,
    bind_ok, List.map_singleton, List.foldlM_cons, addComponent_component, ← cursorComponent_eq,
    addPair_cursor h.noCursor]
  rfl

theorem querySize_concat (pairs : List (String × String)) (pair : String × String) :
    FormUrlencoded.querySize (pairs ++ [pair]) =
      FormUrlencoded.querySize pairs + (if pairs = [] then 0 else 1) +
        (FormUrlencoded.size pair.1 + 1 + FormUrlencoded.size pair.2) := by
  cases pairs with
  | nil => simp [FormUrlencoded.querySize]
  | cons first rest =>
      simp only [FormUrlencoded.querySize, List.map_append, List.sum_append, List.length_append,
        List.length_cons, List.map_cons, List.map_nil, List.sum_cons, List.sum_nil, reduceCtorEq,
        if_false, List.length_nil]
      omega

/-- A next-page query is larger than its parameters by the cursor component and
its separator. -/
theorem nextPageQuery_size (params : Fields) (token : PageToken) :
    (nextPageQuery url params token).utf8ByteSize =
      FormUrlencoded.querySize params.pairs + (if params.pairs = [] then 0 else 1) +
        (cursorComponent token).utf8ByteSize := by
  rw [nextPageQuery, FormUrlencoded.serialize_size, querySize_concat, @cursorComponent_eq url token,
    FormUrlencoded.component_size]

/-- The cursor component and its separator do not count against the allowance. -/
theorem inputBytes_nextPageQuery (params : Fields) (token : PageToken) :
    inputBytes (nextPageQuery url params token) (some (cursorComponent token).utf8ByteSize) =
      FormUrlencoded.querySize params.pairs := by
  simp only [inputBytes, nextPageQuery_size]
  by_cases empty : params.pairs = []
  · simp [empty, FormUrlencoded.querySize]
  · simp only [empty, if_false]
    split <;> omega

/-- A next-page query is accepted when its parameters fit the allowance. -/
theorem parseQuery_nextPageQuery {m : Manifest} {route : Route} {params : Fields}
    {token : PageToken} (h : Declared route params)
    (valid : validateParams m route params = .ok ())
    (fits : FormUrlencoded.querySize params.pairs ≤ inputAllowance) :
    parseQuery url m route (some (nextPageQuery url params token)) =
      .ok (some token.encoded, params) := by
  simp only [parseQuery, Option.getD_some, check, bind_eq_ok, ensure_eq_ok, read_nextPageQuery h]
  have total : (nextPageQuery url params token).utf8ByteSize ≤
      inputAllowance + cursorComponentBytes + 1 := by
    have component := cursorComponent_size token
    rw [nextPageQuery_size]
    split <;> omega
  have escaped : FormUrlencoded.percentValid (nextPageQuery url params token).toList = true := by
    refine FormUrlencoded.intercalate_percentValid fun text mem => ?_
    rcases List.mem_map.mp mem with ⟨pair, _, rfl⟩
    exact FormUrlencoded.component_percentValid pair
  refine ⟨(), total, (), escaped, _, rfl, (), ?_, (), ?_, (), ?_, ?_⟩
  · rwa [inputBytes_nextPageQuery]
  · intro name mem
    rw [Finmap.mem_keys, Finmap.mem_insert] at mem
    rcases mem with rfl | mem
    · exact Or.inl rfl
    · exact Or.inr (h.declared name (Finmap.mem_keys.mpr mem))
  · rwa [h.erase_insert_cursor]
  · rw [h.erase_insert_cursor, Finmap.lookup_insert]
    rfl

/-! ## Accepting the links -/

theorem Fields.pairs_ne_nil {params : Fields} (h : params ≠ ∅) : params.pairs ≠ [] := by
  intro empty
  refine h ?_
  rw [← Fields.ofPairs_pairs params, empty]
  rfl

theorem nextPageQuery_eq (params : Fields) (token : PageToken) :
    nextPageQuery url params token =
      if params = ∅ then cursorComponent token
      else url.serialize params.pairs ++ "&" ++ cursorComponent token := by
  rw [nextPageQuery, FormUrlencoded.serialize, List.map_append, List.map_singleton,
    ← cursorComponent_eq]
  split
  · next empty =>
    rw [empty, Fields.pairs_empty, List.map_nil, List.nil_append, String.intercalate_singleton]
  · next nonempty =>
    have pairs := Fields.pairs_ne_nil nonempty
    rw [String.intercalate_append_of_ne_nil (by simpa using pairs) (by simp),
      String.intercalate_singleton]
    rfl

theorem resolve_eq_ok {m : Manifest} {reference : RouteRef} {link : String}
    (h : resolve url m reference = .ok link) :
    ∃ route path, m.route reference.route = .ok route ∧
      validateParams m route reference.params = .ok () ∧ resolvePath m reference = .ok path ∧
      link = if reference.params = ∅ then path
        else path ++ "?" ++ url.serialize reference.params.pairs := by
  simp only [resolve, bind_eq_ok] at h
  rcases h with ⟨route, hroute, _, valid, path, hpath, result⟩
  exact ⟨route, path, hroute, valid, hpath, (Except.ok.inj result).symm⟩

/-- The query string of a resolved link is its serialized parameters. -/
theorem linkQuery_resolved {params : Fields} {path : String} (plain : '?' ∉ path.toList) :
    (linkQuery (if params = ∅ then path else path ++ "?" ++ url.serialize params.pairs)).getD "" =
      url.serialize params.pairs := by
  split
  · next empty =>
    rw [linkQuery_plain plain, empty, Fields.pairs_empty]
    rfl
  · rw [linkQuery_query plain]
    rfl

theorem linkPath_resolved {params : Fields} {path : String} (plain : '?' ∉ path.toList) :
    linkPath (if params = ∅ then path else path ++ "?" ++ url.serialize params.pairs) = path := by
  split
  · exact linkPath_plain plain
  · exact linkPath_query plain

/-- A next-page link is the page's path and the next-page query. -/
theorem nextPageLink_eq {m : Manifest} {reference : RouteRef} {path link next : String}
    {token : PageToken} (resolved : resolve url m reference = .ok link)
    (hlink : link = if reference.params = ∅ then path
      else path ++ "?" ++ url.serialize reference.params.pairs)
    (h : nextPageLink url m reference token = .ok next) :
    next = path ++ "?" ++ nextPageQuery url reference.params token := by
  simp only [nextPageLink, resolved, bind_ok, pure, Except.pure, Except.ok.injEq] at h
  rw [← h, hlink, nextPageQuery_eq]
  by_cases empty : reference.params = ∅
  · simp only [empty, if_true]
  · simp only [empty, if_false, String.append_assoc]

/-- A query string that is absent reads as an empty one. -/
theorem parseQuery_getD {m : Manifest} {route : Route} (raw : Option String) :
    parseQuery url m route raw = parseQuery url m route (some (raw.getD "")) := by
  cases raw <;> rfl

/-- The links of a reference are accepted exactly when its encoded parameters
fit the transport's input allowance. -/
theorem acceptsLinks_iff {m : Manifest} {reference : RouteRef} {link : String}
    (limits : validateContractLimits m = .ok ()) (routes : validateRoutes m = .ok ())
    (resolved : resolve url m reference = .ok link) :
    AcceptsLinks url m reference ↔
      FormUrlencoded.querySize reference.params.pairs ≤ inputAllowance := by
  rcases resolve_eq_ok resolved with ⟨route, path, hroute, valid, hpath, hlink⟩
  have admitted := validateRoutes_spec routes route (Manifest.route_mem hroute).1
  have declared := declared_of_validateParams admitted valid
  rcases resolvePath_matches hpath with ⟨_, _, _, plain⟩
  -- Every link of the reference has the referenced route's path, and so its route.
  have matched : ∀ {text : String}, linkPath text = path → Matched m reference text route := by
    intro text split
    rcases resolved_matched limits routes hpath split with ⟨found, hfound⟩
    have same := hfound.referenced.symm.trans hroute
    cases same
    exact hfound
  constructor
  · intro accepts
    rcases accepts.page link resolved with ⟨found, hfound, parsed⟩
    have same := hfound.referenced.symm.trans hroute
    cases same
    rw [parseQuery_getD, hlink, linkQuery_resolved plain] at parsed
    exact (parseQuery_serialize declared valid).mp parsed
  · intro fits
    constructor
    · intro link' resolved'
      cases resolved.symm.trans resolved'
      refine ⟨route, matched ?_, ?_⟩
      · rw [hlink, linkPath_resolved plain]
      · rw [parseQuery_getD, hlink, linkQuery_resolved plain]
        exact (parseQuery_serialize declared valid).mpr fits
    · intro token next hnext
      rw [nextPageLink_eq resolved hlink hnext]
      refine ⟨route, matched (linkPath_query plain), ?_⟩
      rw [linkQuery_query plain]
      exact parseQuery_nextPageQuery declared valid fits

/-! ## A sample application -/

def sampleSearchNotes : Resource where
  search := some ⟨tokenizerId, ["body"], 4096⟩
  expiry := none
  unique := []
  gate := none
  id := 1
  name := "note"
  fields := [⟨false, .text, false, none, "body", "Body", 1024⟩]

/-- Owners list their notes by search terms. -/
def sampleSearchList : Operation where
  maintenance := false
  query := some ⟨some ⟨["body"], "terms"⟩, none, none, []⟩
  bind := []
  scope := none
  via := none
  filter := []
  disclose := []
  list := none
  id := 1
  resource := 1
  kind := .list
  policy := ⟨[[.owner]]⟩
  visibility := none
  fields := none

def sampleSearchManifest : Manifest where
  effects := none
  jobs := none
  version := 13
  resources := [sampleSearchNotes]
  operations := [sampleSearchList]
  routes := [⟨[], 1, "/", none, [], [], .authenticated⟩,
    ⟨["terms"], 2, "/search", none, [1], [], .authenticated⟩]
  actions := []
  webBindings := []

/-- Search terms of two-byte characters. -/
def sampleTerms (length : Nat) : String :=
  String.ofList (List.replicate length 'é')

def sampleReference (terms : String) : RouteRef where
  params := Finmap.singleton "terms" terms
  route := 2
  target := none

theorem sampleTerms_size (length : Nat) :
    FormUrlencoded.size (sampleTerms length) = length * 6 := by
  have encoded : FormUrlencoded.cost 'é' = 6 := by decide
  rw [sampleTerms, FormUrlencoded.size_replicate, encoded]

theorem sampleTerms_bytes (length : Nat) : (sampleTerms length).utf8ByteSize = length * 2 := by
  have bytes : Char.utf8Size 'é' = 2 := by decide
  simp [Decimal.utf8ByteSize_eq_sum, sampleTerms, bytes]

theorem sampleReference_pairs (terms : String) :
    (sampleReference terms).params.pairs = [("terms", terms)] := by
  have keys : (sampleReference terms).params.keys = {"terms"} := Finmap.keys_singleton _ _
  rw [Fields.pairs, keys, Finset.sort_singleton]
  rfl

/-- Any nonempty search text within the parameter limit resolves. -/
theorem resolve_sample (url : FormUrlencoded) {terms : String} (nonempty : terms ≠ "")
    (small : terms.utf8ByteSize ≤ 1024) :
    ∃ link, resolve url sampleSearchManifest (sampleReference terms) = .ok link := by
  have hroute : sampleSearchManifest.route 2 =
      .ok ⟨["terms"], 2, "/search", none, [1], [], .authenticated⟩ := rfl
  have fields : parameterFields sampleSearchManifest
      ⟨["terms"], 2, "/search", none, [1], [], .authenticated⟩ = .ok [("terms", .search)] := rfl
  have keys : (sampleReference terms).params.keys = {"terms"} := Finmap.keys_singleton _ _
  have found : (sampleReference terms).params.lookup "terms" = some terms := rfl
  have valid : validateParams sampleSearchManifest
      ⟨["terms"], 2, "/search", none, [1], [], .authenticated⟩ (sampleReference terms).params =
        .ok () := by
    simp [validateParams, fields, check, ensure, keys, found, need, context, small, nonempty,
      ParameterField.validate]
  have path : resolvePath sampleSearchManifest (sampleReference terms) = .ok "/search" := rfl
  have route : (sampleReference terms).route = 2 := rfl
  rw [resolve, route, hroute, bind_ok, valid, bind_ok, path, bind_ok]
  exact ⟨_, rfl⟩

theorem sampleTerms_resolve {length : Nat} (pos : 0 < length) (small : length ≤ 512) :
    ∃ link, resolve FormUrlencoded.standard sampleSearchManifest
      (sampleReference (sampleTerms length)) = .ok link := by
  have bytes := sampleTerms_bytes length
  refine resolve_sample _ ?_ (by omega)
  intro empty
  rw [empty] at bytes
  have zero : "".utf8ByteSize = 0 := rfl
  omega

theorem sampleReference_querySize (length : Nat) :
    FormUrlencoded.querySize (sampleReference (sampleTerms length)).params.pairs =
      6 + length * 6 := by
  have name : FormUrlencoded.size "terms" = 5 := by decide
  rw [sampleReference_pairs]
  simp only [FormUrlencoded.querySize, List.map_cons, List.map_nil, List.sum_cons, List.sum_nil,
    List.length_cons, List.length_nil, sampleTerms_size, name]
  omega

/-! ## Every link the host emits is one it accepts -/

/-- The links of a reference that resolves are accepted exactly when its encoded
parameters take at most 1024 bytes. -/
theorem emitted_links_accepted_iff {url : FormUrlencoded} {m : Manifest} {reference : RouteRef}
    {link : String} (limits : validateContractLimits m = .ok ())
    (routes : validateRoutes m = .ok ()) (resolved : resolve url m reference = .ok link) :
    AcceptsLinks url m reference ↔ FormUrlencoded.querySize reference.params.pairs ≤ 1024 :=
  acceptsLinks_iff limits routes resolved

/-- 169 two-byte characters are accepted, 170 are not. -/
theorem emitted_links_accepted_iff_sample :
    AcceptsLinks FormUrlencoded.standard sampleSearchManifest (sampleReference (sampleTerms 169)) ∧
      ¬ AcceptsLinks FormUrlencoded.standard sampleSearchManifest
        (sampleReference (sampleTerms 170)) := by
  rcases sampleTerms_resolve (show 0 < 169 by decide) (by decide) with ⟨link, resolved⟩
  rcases sampleTerms_resolve (show 0 < 170 by decide) (by decide) with ⟨link', resolved'⟩
  constructor
  · rw [emitted_links_accepted_iff rfl rfl resolved, sampleReference_querySize]
    decide
  · rw [emitted_links_accepted_iff rfl rfl resolved', sampleReference_querySize]
    decide

/-- Search terms of 340 bytes pass the parameter limit and resolve to a link that
is not accepted. -/
theorem emitted_link_refused :
    ¬ ∀ (url : FormUrlencoded) (m : Manifest) (reference : RouteRef) (link : String),
      validateContractLimits m = .ok () → validateRoutes m = .ok () →
        resolve url m reference = .ok link → AcceptsLinks url m reference := by
  intro claim
  rcases sampleTerms_resolve (show 0 < 170 by decide) (by decide) with ⟨link, resolved⟩
  have accepts := claim _ _ _ _ rfl rfl resolved
  rw [acceptsLinks_iff rfl rfl resolved, sampleReference_querySize] at accepts
  revert accepts
  decide

end Noxide
