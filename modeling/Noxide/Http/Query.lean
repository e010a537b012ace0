import Noxide.Admission.Parameters
import Noxide.Authority.Security
import Noxide.Library.FormUrlencoded

/-!
# Query strings

The links the host emits and the query strings its transport accepts.  A link is
a resolved path with the serialized route parameters; the next page of a list
adds one opaque cursor component.

Main results:

- Theorem {lit}`addComponents_pairs`: parsing serialized pairs collects exactly
  those pairs.
- Theorem {lit}`Fields.ofPairs_pairs`: parameters are determined by their pairs.
-/

namespace Noxide

open Checked

/-! ## Parameters as pairs -/

/-- The entries of a field map in key order. -/
def Fields.pairs (fields : Fields) : List (String × String) :=
  (fields.keys.sort (· ≤ ·)).filterMap fun name =>
    (fields.lookup name).map fun value => (name, value)

def Fields.insertPair (fields : Fields) (pair : String × String) : Fields :=
  fields.insert pair.1 pair.2

theorem Fields.mem_pairs {fields : Fields} {name value : String} :
    (name, value) ∈ fields.pairs ↔ fields.lookup name = some value := by
  simp only [Fields.pairs, List.mem_filterMap, Finset.mem_sort, Option.map_eq_some_iff,
    Prod.mk.injEq]
  constructor
  · rintro ⟨found, _, stored, hstored, rfl, rfl⟩
    exact hstored
  · intro h
    refine ⟨name, ?_, value, h, rfl, rfl⟩
    rw [Finmap.mem_keys, ← Finmap.lookup_isSome, h]
    rfl

/-- The names of the pairs are the keys in order. -/
theorem Fields.pairs_names (fields : Fields) :
    fields.pairs.map Prod.fst = fields.keys.sort (· ≤ ·) := by
  have general : ∀ names : List String, (∀ name ∈ names, name ∈ fields) →
      (names.filterMap fun name =>
        (fields.lookup name).map fun value => (name, value)).map Prod.fst = names := by
    intro names
    induction names with
    | nil => intro _; rfl
    | cons first rest ih =>
        intro h
        have present : (fields.lookup first).isSome := by
          rw [Finmap.lookup_isSome]
          exact h first List.mem_cons_self
        rcases Option.isSome_iff_exists.mp present with ⟨value, hvalue⟩
        rw [List.filterMap_cons, hvalue]
        simp only [Option.map_some, List.map_cons]
        rw [ih fun name mem => h name (List.mem_cons_of_mem _ mem)]
  refine general _ fun name mem => ?_
  rw [Finset.mem_sort, Finmap.mem_keys] at mem
  exact mem

theorem Fields.pairs_nodup (fields : Fields) : (fields.pairs.map Prod.fst).Nodup := by
  rw [Fields.pairs_names]
  exact Finset.sort_nodup _ _

theorem Fields.pairs_eq_nil {fields : Fields} : fields.pairs = [] ↔ fields.keys = ∅ := by
  rw [← List.map_eq_nil_iff, Fields.pairs_names]
  constructor
  · intro h
    rw [← Finset.sort_toFinset fields.keys (· ≤ ·), h]
    rfl
  · intro h
    rw [h, Finset.sort_empty]

theorem Fields.pairs_empty : Fields.pairs ∅ = [] :=
  Fields.pairs_eq_nil.mpr Finmap.keys_empty

/-- Folding pairs in leaves other names alone. -/
theorem Fields.lookup_foldl_insertPair_of_notMem {pairs : List (String × String)}
    {start : Fields} {name : String} (h : name ∉ pairs.map Prod.fst) :
    (pairs.foldl Fields.insertPair start).lookup name = start.lookup name := by
  induction pairs generalizing start with
  | nil => rfl
  | cons first rest ih =>
      simp only [List.map_cons, List.mem_cons, not_or] at h
      rw [List.foldl_cons, ih h.2, Fields.insertPair, Finmap.lookup_insert_of_ne _ h.1]

/-- Folding pairs with distinct names in stores each of them. -/
theorem Fields.lookup_foldl_insertPair {pairs : List (String × String)} {start : Fields}
    {name value : String} (distinct : (pairs.map Prod.fst).Nodup) (mem : (name, value) ∈ pairs) :
    (pairs.foldl Fields.insertPair start).lookup name = some value := by
  induction pairs generalizing start with
  | nil => cases mem
  | cons first rest ih =>
      simp only [List.map_cons, List.nodup_cons] at distinct
      rw [List.foldl_cons]
      rcases List.mem_cons.mp mem with rfl | mem
      · rw [Fields.lookup_foldl_insertPair_of_notMem distinct.1, Fields.insertPair,
          Finmap.lookup_insert]
      · exact ih distinct.2 mem

/-- Parameters are determined by their pairs. -/
theorem Fields.ofPairs_pairs (fields : Fields) :
    fields.pairs.foldl Fields.insertPair ∅ = fields := by
  refine Finmap.ext_lookup fun name => ?_
  cases h : fields.lookup name with
  | some value =>
      exact Fields.lookup_foldl_insertPair fields.pairs_nodup (Fields.mem_pairs.mpr h)
  | none =>
      rw [Fields.lookup_foldl_insertPair_of_notMem, Finmap.lookup_empty]
      rw [Fields.pairs_names, Finset.mem_sort, Finmap.mem_keys, ← Finmap.lookup_isSome, h]
      exact Bool.false_ne_true

/-! ## Reading a query string -/

def inputAllowance : Nat := 1024

/-- The length of {lit}`cursor=` and of the longest token. -/
def cursorComponentBytes : Nat := "cursor=".utf8ByteSize + maxTokenBytes

/-- The pairs read so far, and the length of the component with the cursor. -/
structure QueryState where
  values : Fields
  cursorComponent : Option Nat
  deriving DecidableEq

/-- Read one pair of a component. -/
def addPair (component : String) (state : QueryState) (pair : String × String) :
    Result QueryState := do
  check "cursor transport limit"
    (pair.1 = "cursor" → component.utf8ByteSize ≤ cursorComponentBytes
      ∧ pair.2.utf8ByteSize ≤ maxTokenBytes)
  check "duplicate query parameter" (pair.1 ∉ state.values)
  return {
    values := state.values.insertPair pair
    cursorComponent :=
      if pair.1 = "cursor" then some component.utf8ByteSize else state.cursorComponent }

def addComponent (url : FormUrlencoded) (state : QueryState) (component : String) :
    Result QueryState :=
  (url.parse component).foldlM (addPair component) state

/-- Bytes that count against the input allowance: one opaque cursor component,
plus its separator, is outside it. -/
def inputBytes (raw : String) (cursorComponent : Option Nat) : Nat :=
  match cursorComponent with
  | none => raw.utf8ByteSize
  | some length =>
      raw.utf8ByteSize - length - if raw.utf8ByteSize > length then 1 else 0

/-- Read the query string of a route's request: its cursor and its parameters. -/
def parseQuery (url : FormUrlencoded) (m : Manifest) (route : Route) (raw : Option String) :
    Result (Option String × Fields) := do
  let raw := raw.getD ""
  check "query string limit" (raw.utf8ByteSize ≤ inputAllowance + cursorComponentBytes + 1)
  check "invalid query encoding" (FormUrlencoded.percentValid raw.toList = true)
  let state ← (FormUrlencoded.components raw).foldlM (addComponent url) ⟨∅, none⟩
  check "query string limit" (inputBytes raw state.cursorComponent ≤ inputAllowance)
  check "unknown query parameter"
    (∀ name ∈ state.values.keys, name = "cursor" ∨ name ∈ route.params)
  let values := state.values.erase "cursor"
  validateParams m route values
  return (state.values.lookup "cursor", values)

/-! ## Reading serialized pairs -/

variable {url : FormUrlencoded}

theorem addComponent_component (state : QueryState) (pair : String × String) :
    addComponent url state (url.component pair) = addPair (url.component pair) state pair := by
  rw [addComponent, FormUrlencoded.component, url.parse_pair]
  simp only [List.foldlM_cons, List.foldlM_nil, bind_pure]

/-- A pair with a fresh ordinary name is always read. -/
theorem addPair_ordinary {component : String} {state : QueryState} {pair : String × String}
    (ordinary : pair.1 ≠ "cursor") (fresh : pair.1 ∉ state.values) :
    addPair component state pair =
      .ok ⟨state.values.insertPair pair, state.cursorComponent⟩ := by
  simp [addPair, check, ensure, ordinary, fresh]

/-- Reading the components of ordinary pairs collects exactly those pairs. -/
theorem addComponents_pairs {pairs : List (String × String)} {state : QueryState}
    (ordinary : ∀ pair ∈ pairs, pair.1 ≠ "cursor") (distinct : (pairs.map Prod.fst).Nodup)
    (fresh : ∀ pair ∈ pairs, pair.1 ∉ state.values) :
    (pairs.map url.component).foldlM (addComponent url) state =
      .ok ⟨pairs.foldl Fields.insertPair state.values, state.cursorComponent⟩ := by
  induction pairs generalizing state with
  | nil => rfl
  | cons first rest ih =>
      simp only [List.map_cons, List.nodup_cons] at distinct
      have read : addComponent url state (url.component first) =
          .ok ⟨state.values.insertPair first, state.cursorComponent⟩ := by
        rw [addComponent_component]
        exact addPair_ordinary (ordinary first List.mem_cons_self) (fresh first List.mem_cons_self)
      rw [List.map_cons, List.foldlM_cons, read, bind_ok, ih]
      · rfl
      · exact fun pair mem => ordinary pair (List.mem_cons_of_mem _ mem)
      · exact distinct.2
      · intro pair mem
        have other : pair.1 ≠ first.1 := by
          intro same
          exact distinct.1 (same ▸ List.mem_map_of_mem mem)
        simp only [Fields.insertPair, Finmap.mem_insert, other, false_or]
        exact fresh pair (List.mem_cons_of_mem _ mem)

end Noxide
