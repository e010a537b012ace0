import Mathlib.Data.List.Basic

/-!
# Maximal runs

A text is cut into runs.  A run begins with an element that may start one and goes on with
elements that may continue one; it is maximal where no longer run contains it.

Main results:

- Theorem {lit}`mem_spans`: one pass over the text finds exactly the maximal runs.
- Theorem {lit}`spans_ordered`: it finds them in their order, apart from each other.
-/

namespace Runs

variable {α : Type} (starts continues : α → Bool)

/-- The elements from one position up to another form a run. -/
structure IsRun (text : List α) (i j : Nat) : Prop where
  some_element : i < j
  inside : j ≤ text.length
  first : ∃ a, text[i]? = some a ∧ starts a = true
  rest : ∀ k, i ≤ k → k < j → ∃ a, text[k]? = some a ∧ continues a = true

/-- A run that no longer run contains. -/
structure Maximal (text : List α) (i j : Nat) : Prop where
  run : IsRun starts continues text i j
  longest : ∀ i' j', IsRun starts continues text i' j' → i' ≤ i → j ≤ j' → i' = i ∧ j' = j

/-- Where the run at a position began, after one more element. -/
def goOn (offset : Nat) (start : Option Nat) (a : α) : Option Nat :=
  match start with
  | none => if starts a then some offset else none
  | some begin => if continues a then some begin else none

/-- The runs of the rest of a text, where the run before it began. -/
def spansFrom : Nat → Option Nat → List α → List (Nat × Nat)
  | offset, start, [] => start.toList.map fun begin => (begin, offset)
  | offset, start, a :: rest =>
      match goOn starts continues offset start a with
      | some begin => spansFrom (offset + 1) (some begin) rest
      | none => (start.toList.map fun begin => (begin, offset)) ++ spansFrom (offset + 1) none rest

def spans (text : List α) : List (Nat × Nat) := spansFrom starts continues 0 none text

/-- The elements of a run. -/
def slice (text : List α) (span : Nat × Nat) : List α := (text.drop span.1).take (span.2 - span.1)

/-- The texts of the maximal runs. -/
def runs (text : List α) : List (List α) := (spans starts continues text).map (slice text)

/-- What is known before the rest of a text: the longest run that ends here, or that none does. -/
def Reached (text : List α) (offset : Nat) : Option Nat → Prop
  | none => ∀ i, ¬ IsRun starts continues text i offset
  | some start => IsRun starts continues text start offset
      ∧ ∀ i, IsRun starts continues text i offset → start ≤ i

section Spans

variable {starts continues : α → Bool} {text rest : List α} {a : α} {i j offset : Nat} {start : Option Nat}

/-- A run without its last element, if that is not its first. -/
theorem IsRun.shorten (run : IsRun starts continues text i (j + 1)) (longer : i < j) :
    IsRun starts continues text i j :=
  ⟨longer, Nat.le_of_succ_le run.inside, run.first, fun k from_start before => run.rest k from_start (by omega)⟩

/-- A run with one more element. -/
theorem IsRun.extend (run : IsRun starts continues text i j) (next : text[j]? = some a)
    (more : continues a = true) : IsRun starts continues text i (j + 1) := by
  have inside : j < text.length := (List.getElem?_eq_some_iff.mp next).1
  refine ⟨Nat.lt_succ_of_lt run.some_element, inside, run.first, fun k from_start before => ?_⟩
  by_cases last : k = j
  · exact ⟨a, last ▸ next, more⟩
  · exact run.rest k from_start (by omega)

theorem IsRun.last (run : IsRun starts continues text i (j + 1)) (next : text[j]? = some a) :
    continues a = true := by
  rcases run.rest j (Nat.le_of_lt_succ run.some_element) (Nat.lt_succ_self j) with ⟨b, here, continuing⟩
  rw [next] at here
  cases here
  exact continuing

/-- What is known after one more element. -/
theorem Reached.next (reached : Reached starts continues text offset start) (next : text[offset]? = some a)
    (weaker : starts a = true → continues a = true) :
    Reached starts continues text (offset + 1) (goOn starts continues offset start a) := by
  have inside : offset < text.length := (List.getElem?_eq_some_iff.mp next).1
  unfold goOn
  cases start with
  | none =>
      have fresh : ∀ i, IsRun starts continues text i (offset + 1) → i = offset ∧ starts a = true := by
        intro i run
        by_cases longer : i < offset
        · exact absurd (run.shorten longer) (reached i)
        · have same : i = offset := by
            have before := run.some_element
            omega
          rcases run.first with ⟨b, here, starting⟩
          rw [same, next] at here
          cases here
          exact ⟨same, starting⟩
      simp only
      split
      · rename_i starting
        refine ⟨⟨Nat.lt_succ_self offset, inside, ⟨a, next, starting⟩, fun k from_start before => ?_⟩,
          fun i run => Nat.le_of_eq (fresh i run).1.symm⟩
        have same : k = offset := by omega
        exact ⟨a, same ▸ next, weaker starting⟩
      · rename_i silent
        exact fun i run => silent (fresh i run).2
  | some begin =>
      simp only
      split
      · rename_i continuing
        refine ⟨reached.1.extend next continuing, fun i run => ?_⟩
        by_cases longer : i < offset
        · exact reached.2 i (run.shorten longer)
        · have before := reached.1.some_element
          omega
      · rename_i silent
        exact fun i run => silent (run.last next)

/-- The longest run that ends here is maximal where nothing continues it. -/
theorem Reached.maximal (reached : Reached starts continues text offset start)
    (ended : ∀ a, text[offset]? = some a → start ≠ none → continues a = false) :
    Maximal starts continues text i offset ↔ start = some i := by
  constructor
  · intro maximal
    cases start with
    | none => exact absurd maximal.run (reached i)
    | some begin =>
        rw [(maximal.longest begin offset reached.1 (reached.2 i maximal.run) (Nat.le_refl _)).1]
  · rintro rfl
    refine ⟨reached.1, fun i' j' run from_start at_end => ?_⟩
    have same : j' = offset := by
      by_contra different
      rcases run.rest offset (Nat.le_trans from_start (Nat.le_of_lt reached.1.some_element)) (by omega) with ⟨a, next, continuing⟩
      rw [ended a next (Option.some_ne_none i)] at continuing
      cases continuing
    subst same
    exact ⟨Nat.le_antisymm from_start (reached.2 i' run), rfl⟩

/-- The runs of the rest of a text are the maximal ones that end there. -/
theorem mem_spansFrom (weaker : ∀ a, starts a = true → continues a = true) (split : text.drop offset = rest)
    (inside : offset ≤ text.length) (reached : Reached starts continues text offset start) :
    (i, j) ∈ spansFrom starts continues offset start rest
      ↔ Maximal starts continues text i j ∧ offset ≤ j := by
  induction rest generalizing offset start with
  | nil =>
      have length : offset = text.length := Nat.le_antisymm inside (List.drop_eq_nil_iff.mp split)
      have ended : ∀ a, text[offset]? = some a → start ≠ none → continues a = false := by
        intro a next
        rw [List.getElem?_eq_none (Nat.le_of_eq length.symm)] at next
        cases next
      rw [spansFrom, List.mem_map]
      constructor
      · rintro ⟨begin, here, same⟩
        cases same
        exact ⟨(reached.maximal ended).mpr (Option.mem_toList.mp here), Nat.le_refl _⟩
      · rintro ⟨maximal, behind⟩
        have same : j = offset := Nat.le_antisymm (Nat.le_trans maximal.run.inside (Nat.le_of_eq length.symm)) behind
        subst same
        exact ⟨i, Option.mem_toList.mpr ((reached.maximal ended).mp maximal), rfl⟩
  | cons a rest ih =>
      have next : text[offset]? = some a := by
        rw [← List.head?_drop, split, List.head?_cons]
      have later : text.drop (offset + 1) = rest := by
        rw [← List.tail_drop, split, List.tail_cons]
      have bound : offset + 1 ≤ text.length := (List.getElem?_eq_some_iff.mp next).1
      have after := reached.next next (weaker a)
      rw [spansFrom]
      cases step : goOn starts continues offset start a with
      | some begin =>
          rw [step] at after
          simp only
          rw [ih later bound after]
          refine and_congr_right fun maximal => ⟨fun behind => by omega, fun behind => ?_⟩
          -- a run that ends here is not maximal, for it goes on
          by_contra ends
          have same : j = offset := by omega
          subst same
          have longer : IsRun starts continues text i (j + 1) := maximal.run.extend next (by
            unfold goOn at step
            cases start with
            | none => exact absurd maximal.run (reached i)
            | some _ =>
                simp only at step
                split at step
                · assumption
                · cases step)
          have impossible := (maximal.longest i (j + 1) longer (Nat.le_refl _) (Nat.le_succ j)).2
          omega
      | none =>
          rw [step] at after
          have ended : ∀ b, text[offset]? = some b → start ≠ none → continues b = false := by
            intro b here began
            rw [next] at here
            cases here
            unfold goOn at step
            cases start with
            | none => exact absurd rfl began
            | some _ =>
                simp only at step
                split at step
                · cases step
                · rename_i silent
                  simpa using silent
          simp only
          rw [List.mem_append, ih later bound after, List.mem_map]
          constructor
          · rintro (⟨begin, here, same⟩ | ⟨maximal, behind⟩)
            · cases same
              exact ⟨(reached.maximal ended).mpr (Option.mem_toList.mp here), Nat.le_refl _⟩
            · exact ⟨maximal, by omega⟩
          · rintro ⟨maximal, behind⟩
            by_cases here : j = offset
            · subst here
              exact .inl ⟨i, Option.mem_toList.mpr ((reached.maximal ended).mp maximal), rfl⟩
            · exact .inr ⟨maximal, by omega⟩

/-- One pass finds exactly the maximal runs. -/
theorem mem_spans (weaker : ∀ a, starts a = true → continues a = true) :
    (i, j) ∈ spans starts continues text ↔ Maximal starts continues text i j := by
  have start : Reached starts continues text 0 none := fun i run => by
    have before := run.some_element
    omega
  rw [spans, mem_spansFrom weaker List.drop_zero (Nat.zero_le _) start]
  exact and_iff_left (Nat.zero_le j)

theorem goOn_some {begin : Nat} (step : goOn starts continues offset start a = some begin) :
    begin = start.getD offset := by
  unfold goOn at step
  cases start with
  | none =>
      simp only at step
      split at step
      · exact (Option.some.inj step).symm
      · cases step
  | some _ =>
      simp only at step
      split at step
      · exact (Option.some.inj step).symm
      · cases step

theorem spansFrom_ordered (began : start.getD offset ≤ offset) :
    (spansFrom starts continues offset start rest).Pairwise (fun p q => p.2 < q.1)
      ∧ ∀ p ∈ spansFrom starts continues offset start rest, start.getD offset ≤ p.1 := by
  induction rest generalizing offset start with
  | nil =>
      cases start with
      | none => exact ⟨List.Pairwise.nil, fun p member => by cases member⟩
      | some begin =>
          refine ⟨List.pairwise_singleton _ _, fun p member => ?_⟩
          rw [List.mem_singleton.mp member]
          exact Nat.le_refl _
  | cons a rest ih =>
      rw [spansFrom]
      cases step : goOn starts continues offset start a with
      | some begin =>
          simp only
          have same := goOn_some step
          rcases @ih (offset + 1) (some begin) (Nat.le_succ_of_le (Nat.le_trans (Nat.le_of_eq same) began)) with
            ⟨ordered, from_start⟩
          exact ⟨ordered, fun p member => same ▸ from_start p member⟩
      | none =>
          simp only
          rcases @ih (offset + 1) none (Nat.le_refl _) with ⟨ordered, from_start⟩
          cases start with
          | none => exact ⟨ordered, fun p member => Nat.le_of_succ_le (from_start p member)⟩
          | some begin =>
              refine ⟨List.pairwise_cons.mpr ⟨fun q member => from_start q member, ordered⟩, fun p member => ?_⟩
              rcases List.mem_cons.mp member with rfl | later
              · exact Nat.le_refl _
              · exact Nat.le_trans began (Nat.le_of_succ_le (from_start p later))

/-- The runs come in their order, apart from each other. -/
theorem spans_ordered : (spans starts continues text).Pairwise fun p q => p.2 < q.1 :=
  (spansFrom_ordered (Nat.le_refl 0)).1

theorem slice_length (run : IsRun starts continues text i j) : (slice text (i, j)).length = j - i := by
  have inside := run.inside
  rw [slice, List.length_take, List.length_drop]
  omega

/-- Every element of a run continues it. -/
theorem slice_continues (run : IsRun starts continues text i j) (member : a ∈ slice text (i, j)) :
    continues a = true := by
  rcases List.mem_iff_getElem?.mp member with ⟨k, found⟩
  have inside : k < j - i := by
    have bound := (List.getElem?_eq_some_iff.mp found).1
    rw [slice_length run] at bound
    exact bound
  rw [slice, List.getElem?_take_of_lt inside, List.getElem?_drop] at found
  rcases run.rest (i + k) (Nat.le_add_right i k) (by omega) with ⟨b, here, continuing⟩
  rw [found] at here
  cases here
  exact continuing

/-- A run that began goes on to some end. -/
theorem spansFrom_began {begin : Nat} :
    ∃ stop tail, offset ≤ stop ∧ spansFrom starts continues offset (some begin) rest = (begin, stop) :: tail := by
  induction rest generalizing offset with
  | nil => exact ⟨offset, [], Nat.le_refl _, rfl⟩
  | cons a rest ih =>
      rw [spansFrom]
      cases step : goOn starts continues offset (some begin) a with
      | some other =>
          have same : other = begin := goOn_some step
          rcases @ih (offset + 1) with ⟨stop, tail, later, spans⟩
          exact ⟨stop, tail, Nat.le_of_succ_le later, same ▸ spans⟩
      | none => exact ⟨offset, _, Nat.le_refl _, rfl⟩

end Spans

end Runs
