import DepGraph.Proofs.DepsFile.RoundTrip
import Mathlib.Data.Finset.Sort

/-!
# The normal form of a deps file

A file that is read and written again comes out in its normal form (`Graph.toFile_normal`): it has the current
header, and each record lists what it depends on in ascending order, each number once. All else is as it
was, and a file in normal form is written as it was read.
-/

namespace DepGraph

/-- The record with what it depends on in ascending order, each number once. -/
def NodeRecord.normal (r : NodeRecord) : NodeRecord :=
  { r with definitions := r.definitions.toFinset.sort (· ≤ ·) }

/-- **The file with the current header and its records in normal form.** -/
def DepsFile.normal (file : DepsFile) : DepsFile :=
  ⟨Header.current, file.nodes.map NodeRecord.normal⟩

namespace Graph

variable {g : Graph} {file : DepsFile}

/-- What a node depends on is listed in normal form, whichever list has the same members. -/
theorem definitionsOf_eq_sort (hg : g.OK) {use : ℕ} {l : List ℕ}
    (h : ∀ d, ⟨d, use⟩ ∈ g.arcs ↔ d ∈ l) : g.definitionsOf use = l.toFinset.sort (· ≤ ·) := by
  have hset : l.toFinset = (g.definitionsOf use).toFinset := by
    ext d
    rw [List.mem_toFinset, List.mem_toFinset, mem_definitionsOf, h]
  rw [hset]
  exact ((List.toFinset_sort _ (definitionsOf_nodup hg use)).2 (definitionsOf_sorted g use)).symm

/-- **What is read from a file is written in its normal form.** -/
theorem toFile_eq_normal (h : file.graph = .ok g) : g.toFile = file.normal := by
  obtain ⟨g', hg', hok, hnodes, hmem⟩ := (DepsFile.wellFormed_of_graph h).graph_eq
  rw [h] at hg'
  cases hg'
  have hrecords : g.toFile.nodes = file.nodes.map NodeRecord.normal := by
    apply List.ext_getElem?
    intro i
    rw [toFile_nodes_get, ← Array.getElem?_toList, hnodes, List.getElem?_map, List.getElem?_map]
    cases hi : file.nodes[i]? with
    | none => rfl
    | some r =>
      -- the arcs to this place are those that its record lists
      have harcs : ∀ d, ⟨d, i⟩ ∈ g.arcs ↔ d ∈ r.definitions := by
        intro d
        rw [hmem]
        simp [hi]
      simp only [Option.map_some, record, NodeRecord.node, NodeRecord.normal,
        definitionsOf_eq_sort hok harcs]
  rw [DepsFile.normal, ← hrecords]
  rfl

/-- **A file that is read and written comes out in its normal form**, with ascending lists, and stays as it
is from then on. -/
theorem toFile_normal (h : file.graph = .ok g) : g.toFile = file.normal ∧
    (∀ r ∈ g.toFile.nodes, r.definitions.Pairwise (· < ·)) ∧
    ∃ g', g.toFile.graph = .ok g' ∧ g'.toFile = g.toFile := by
  refine ⟨toFile_eq_normal h, ?_, ?_⟩
  · intro r hr
    rw [toFile_eq_normal h] at hr
    obtain ⟨r', -, rfl⟩ := List.mem_map.1 hr
    exact (Finset.sortedLT_sort r'.definitions.toFinset).pairwise
  · obtain ⟨g', hg', hsame⟩ := toFile_graph (graph_ok h)
    exact ⟨g', hg', hsame.toFile⟩

/-- A file of an older writer, whose records depend on each other in no order and more than once. -/
def tangled : DepsFile where
  header := ⟨"DEPS", 1, 7, "another 0.0.1"⟩
  nodes := [⟨⟨.topLevel, .interface, "", "f"⟩, none, 0, [2, 1, 2], true⟩,
    ⟨⟨.topLevel, .implementation, "", "f"⟩, none, 1, [0], true⟩,
    ⟨⟨.externalDepend, .interface, "", "lib"⟩, some .zero, 2, [], false⟩]

theorem toFile_normal_tangled : ∃ g, tangled.graph = .ok g ∧ g.toFile = tangled.normal ∧
    (∀ r ∈ g.toFile.nodes, r.definitions.Pairwise (· < ·)) ∧
    ∃ g', g.toFile.graph = .ok g' ∧ g'.toFile = g.toFile := by
  obtain ⟨g, h⟩ := exists_of_isOk (by decide +kernel : tangled.graph.isOk = true)
  exact ⟨g, h, toFile_normal h⟩

end Graph

end DepGraph
