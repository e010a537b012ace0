import Mathlib.Data.Finset.Card
import Mathlib.Data.List.Chain
import Mathlib.Logic.Relation

/-!
# Acyclic relations

Facts about finished sets of a depth-first search: sets closed under successors
on which a relation has no cycle, and the length of chains in acyclic relations.

Main results:

- Theorem {lit}`Finished.insert`: a node whose successors are finished can be
  finished after them.
- Theorem {lit}`chain_length_le`: a chain of an acyclic relation is no longer than
  the nodes it can pass.
-/

namespace Acyclic

open Relation

variable {α : Type}

/-- No node reaches itself. -/
def Holds (edge : α → α → Prop) : Prop :=
  ∀ node, ¬ TransGen edge node node

/-- A set closed under successors, without a cycle through its nodes. -/
structure Finished (edge : α → α → Prop) (nodes : Finset α) : Prop where
  closed : ∀ {node next : α}, node ∈ nodes → edge node next → next ∈ nodes
  acyclic : ∀ node ∈ nodes, ¬ TransGen edge node node

theorem finished_empty (edge : α → α → Prop) : Finished edge ∅ where
  closed := by
    intro node next mem
    simp at mem
  acyclic := by
    intro node mem
    simp at mem

/-- Everything a finished node reaches is finished. -/
theorem Finished.reach {edge : α → α → Prop} {nodes : Finset α} (h : Finished edge nodes)
    {node last : α} (mem : node ∈ nodes) (path : ReflTransGen edge node last) : last ∈ nodes := by
  induction path with
  | refl => exact mem
  | tail _ step ih => exact h.closed ih step

/-- A node whose successors are finished can be finished after them. -/
theorem Finished.insert [DecidableEq α] {edge : α → α → Prop} {nodes : Finset α}
    (h : Finished edge nodes) {node : α} (fresh : node ∉ nodes)
    (successors : ∀ next, edge node next → next ∈ nodes) :
    Finished edge (insert node nodes) := by
  constructor
  · intro first next mem step
    rcases Finset.mem_insert.mp mem with rfl | mem
    · exact Finset.mem_insert_of_mem (successors next step)
    · exact Finset.mem_insert_of_mem (h.closed mem step)
  · intro first mem cycle
    rcases Finset.mem_insert.mp mem with rfl | mem
    · rcases TransGen.head'_iff.mp cycle with ⟨next, step, back⟩
      exact fresh (h.reach (successors next step) back)
    · exact h.acyclic first mem cycle

/-- A relation is acyclic if every node with a successor is finished. -/
theorem holds_of_finished {edge : α → α → Prop} {nodes : Finset α} (h : Finished edge nodes)
    (sources : ∀ node next, edge node next → node ∈ nodes) : Holds edge := by
  intro node cycle
  rcases TransGen.head'_iff.mp cycle with ⟨next, step, _⟩
  exact h.acyclic node (sources node next step) cycle

/-- Along a chain the head reaches every later node. -/
theorem chain_reaches {edge : α → α → Prop} {first : α} {rest : List α}
    (chain : (first :: rest).IsChain edge) : ∀ node ∈ rest, TransGen edge first node := by
  induction rest generalizing first with
  | nil => intro node mem; cases mem
  | cons second rest ih =>
      rw [List.isChain_cons_cons] at chain
      intro node mem
      rcases List.mem_cons.mp mem with rfl | mem
      · exact TransGen.single chain.1
      · exact TransGen.head chain.1 (ih chain.2 node mem)

/-- A chain of an acyclic relation passes no node twice. -/
theorem chain_nodup {edge : α → α → Prop} (h : Holds edge) {nodes : List α}
    (chain : nodes.IsChain edge) : nodes.Nodup := by
  induction nodes with
  | nil => exact List.nodup_nil
  | cons first rest ih =>
      rw [List.nodup_cons]
      exact ⟨fun mem => h first (chain_reaches chain first mem), ih chain.tail⟩

/-- Every node of a chain but the last has a successor. -/
theorem chain_sources {edge : α → α → Prop} {nodes : List α} (chain : nodes.IsChain edge) :
    ∀ node ∈ nodes.dropLast, ∃ next, edge node next := by
  induction nodes with
  | nil => intro node mem; cases mem
  | cons first rest ih =>
      cases rest with
      | nil => intro node mem; cases mem
      | cons second rest =>
          rw [List.isChain_cons_cons] at chain
          intro node mem
          rw [List.dropLast_cons_cons] at mem
          rcases List.mem_cons.mp mem with rfl | mem
          · exact ⟨second, chain.1⟩
          · exact ih chain.2 node mem

/-- A chain of an acyclic relation has at most one node more than the sources of
edges it can pass. -/
theorem chain_length_le [DecidableEq α] {edge : α → α → Prop} (h : Holds edge) {sources : Finset α}
    (covered : ∀ node next, edge node next → node ∈ sources) {nodes : List α}
    (chain : nodes.IsChain edge) : nodes.length ≤ sources.card + 1 := by
  have nodup : nodes.dropLast.Nodup := (chain_nodup h chain).sublist (List.dropLast_sublist nodes)
  have subset : nodes.dropLast.toFinset ⊆ sources := by
    intro node mem
    rcases chain_sources chain node (List.mem_toFinset.mp mem) with ⟨next, step⟩
    exact covered node next step
  have bound := Finset.card_le_card subset
  rw [List.toFinset_card_of_nodup nodup, List.length_dropLast] at bound
  omega

end Acyclic
