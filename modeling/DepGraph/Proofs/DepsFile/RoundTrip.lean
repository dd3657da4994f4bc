import DepGraph.Graph.Verify
import DepGraph.Proofs.Data.Reading
import DepGraph.Proofs.DepsFile.Acceptance
import DepGraph.Proofs.Graph.Arcs

/-!
# Deps files read back

* `DepsFile.read_toData`: in a faithful notation a file reads back as itself, as long as its numbers fit.
* `Graph.toFile_graph`: the file of a graph gives the same graph, up to the order of its arcs.
-/

namespace DepGraph

variable {g h : Graph}

/-! ## From a graph to its file and back -/

namespace Graph

/-- Two graphs with the same nodes and the same arcs, whatever the order of the arcs. -/
structure Same (g h : Graph) : Prop where
  nodes : g.nodes = h.nodes
  definitions : ∀ use, g.definitionsOf use = h.definitionsOf use

theorem Same.toFile (hs : g.Same h) : h.toFile = g.toFile := by
  simp only [Graph.toFile, record, hs.nodes, hs.definitions]

theorem compareNodes_ok_iff : ∀ {pairs : List (Node × Node)} {position : ℕ},
    g.compareNodes h position pairs = .ok () ↔ (∀ pair ∈ pairs, pair.1 = pair.2) ∧
      ∀ i < pairs.length, g.definitionsOf (position + i) = h.definitionsOf (position + i) := by
  intro pairs
  induction pairs with
  | nil => intro position; simp [compareNodes]
  | cons pair rest ih =>
    intro position
    obtain ⟨left, right⟩ := pair
    have hshift : ∀ i, position + 1 + i = position + (i + 1) := by omega
    rw [compareNodes]
    split_ifs with hnode hdefinitions
    · simp [hnode]
    · simp only [false_iff, not_and]
      intro _ hall
      exact hdefinitions (hall 0 (by simp))
    · rw [ih, List.forall_mem_cons, List.length_cons, Nat.forall_lt_succ_left]
      simp only [hshift, Nat.add_zero, not_not.1 hnode, not_not.1 hdefinitions, true_and]

/-- **What it takes for two graphs to be found the same.** -/
theorem verifySame_ok_iff : g.verifySame h = .ok () ↔
    g.nodes = h.nodes ∧ ∀ i < g.nodes.size, g.definitionsOf i = h.definitionsOf i := by
  rw [verifySame]
  split_ifs with hsize
  · simp only [false_iff, not_and]
    intro hnodes
    exact absurd (congrArg Array.size hnodes) hsize
  · have hsize := not_not.1 hsize
    have hnodes : (∀ pair ∈ g.nodes.toList.zip h.nodes.toList, pair.1 = pair.2) ↔ g.nodes = h.nodes := by
      constructor
      · intro hall
        refine Array.ext hsize fun i hi hi' => ?_
        have hpair : (g.nodes[i], h.nodes[i]) ∈ g.nodes.toList.zip h.nodes.toList := by
          rw [List.mem_iff_getElem?]
          exact ⟨i, by simp [hi, hi']⟩
        exact hall _ hpair
      · intro heq pair hpair
        rw [heq, List.zip_eq_zipWith, List.zipWith_self, List.mem_map] at hpair
        obtain ⟨node, -, rfl⟩ := hpair
        rfl
    rw [compareNodes_ok_iff, hnodes]
    simp [hsize]

theorem Same.verifySame (hs : g.Same h) : g.verifySame h = .ok () :=
  verifySame_ok_iff.2 ⟨hs.nodes, fun i _ => hs.definitions i⟩

theorem toFile_nodes_get (i : ℕ) : g.toFile.nodes[i]? = g.nodes[i]?.map (g.record · i) := by
  simp only [toFile, List.getElem?_map, List.getElem?_zipIdx, Array.getElem?_toList, Option.map_map]
  cases g.nodes[i]? <;> simp

theorem toFile_map_node : g.toFile.nodes.map NodeRecord.node = g.nodes.toList := by
  apply List.ext_getElem?
  intro i
  rw [List.getElem?_map, toFile_nodes_get, Option.map_map, Array.getElem?_toList]
  exact Option.map_id'

theorem toFile_map_key : g.toFile.nodes.map NodeRecord.key = g.keys := by
  rw [keys, ← toFile_map_node, List.map_map]
  rfl

theorem toFile_number (hg : g.OK) {i : ℕ} {r : NodeRecord} (h : g.toFile.nodes[i]? = some r) :
    r.number = i := by
  rw [toFile_nodes_get, Option.map_eq_some_iff] at h
  obtain ⟨node, hn, rfl⟩ := h
  exact hg.number i node hn

theorem mem_toFile_nodes {r : NodeRecord} :
    r ∈ g.toFile.nodes ↔ ∃ i node, g.nodes[i]? = some node ∧ g.record node i = r := by
  rw [List.mem_iff_getElem?]
  simp only [toFile_nodes_get, Option.map_eq_some_iff]

theorem length_toFile : g.toFile.nodes.length = g.nodes.size := by simp [toFile]

/-- The file of a graph lists its arcs. -/
theorem mem_toFile_arcs (hg : g.OK) (arc : Arc) :
    (∃ r, g.toFile.nodes[arc.use]? = some r ∧ arc.definition ∈ r.definitions) ↔ arc ∈ g.arcs := by
  simp only [toFile_nodes_get, Option.map_eq_some_iff]
  constructor
  · rintro ⟨-, ⟨node, -, rfl⟩, hd⟩
    exact mem_definitionsOf.1 hd
  · intro ha
    exact ⟨_, ⟨_, Array.getElem?_eq_getElem (hg.arc_lt arc ha).2, rfl⟩, mem_definitionsOf.2 ha⟩

theorem toFile_wellFormed (hg : g.OK) : g.toFile.WellFormed where
  signature := rfl
  major := rfl
  number := fun _ _ => toFile_number hg
  keys := by rw [toFile_map_key]; exact hg.keys_nodup
  definitions := by
    intro i r hr d hd
    have ha := (mem_toFile_arcs hg ⟨d, i⟩).1 ⟨r, hr, hd⟩
    rw [length_toFile]
    exact ⟨(hg.arc_lt _ ha).1, hg.arc_ne _ ha⟩

/-- **The file of a graph gives the same graph.** -/
theorem toFile_graph (hg : g.OK) : ∃ h, g.toFile.graph = .ok h ∧ g.Same h := by
  obtain ⟨h, hgraph, hok, hnodes, hmem⟩ := (toFile_wellFormed hg).graph_eq
  refine ⟨h, hgraph, ?_, ?_⟩
  · apply Array.toList_inj.1
    rw [hnodes, toFile_map_node]
  · refine definitionsOf_congr hg hok ?_
    intro arc
    rw [hmem, mem_toFile_arcs hg]

/-- A key with quotes, backslashes, line breaks, marks of a notation and a character beyond 16 bits. -/
def awkwardKey : Key := ⟨.member, .interface, " \"\\\x00\u2028'", "\n😀: #"⟩

/-- The pair of an awkward key. -/
def awkward : Graph :=
  ((empty.append awkwardKey (some .zero) true).append awkwardKey.implementation none true).link 0 1

theorem awkward_reachable : Reachable awkward :=
  .step .new (.pair (rfl : empty.upsertPair awkwardKey (some .zero) = .ok (awkward, 0, 1)))

theorem awkward_small : awkward.nodes.size < 2 ^ 32 := by
  rw [awkward, nodes_link, size_append, size_append]
  decide

end Graph

/-! ## From a file to data and back -/

/-- The numbers of a record fit 64 bits. -/
structure NodeRecord.Fits (r : NodeRecord) : Prop where
  number : r.number < 2 ^ 64
  definitions : ∀ d ∈ r.definitions, d < 2 ^ 64

/-- All numbers of a file fit where they are written. -/
structure DepsFile.Fits (f : DepsFile) : Prop where
  major : f.header.major ≤ maxVersion
  minor : f.header.minor ≤ maxVersion
  nodes : ∀ r ∈ f.nodes, r.Fits

theorem Graph.toFile_fits (hg : g.OK) (hsize : g.nodes.size < 2 ^ 64) : g.toFile.Fits where
  major := (by decide : Header.current.major ≤ maxVersion)
  minor := (by decide : Header.current.minor ≤ maxVersion)
  nodes := by
    intro r hr
    obtain ⟨i, node, hn, rfl⟩ := mem_toFile_nodes.1 hr
    constructor
    · obtain ⟨hi, -⟩ := Array.getElem?_eq_some_iff.1 hn
      rw [show (g.record node i).number = i from hg.number i node hn]
      omega
    · intro d hd
      obtain ⟨hd, -⟩ := hg.arc_lt _ (mem_definitionsOf.1 hd)
      exact Nat.lt_trans hd hsize

theorem Kind.ofName?_name (k : Kind) : Kind.ofName? k.name = some k := by
  cases k <;> decide

theorem Aspect.ofName?_name (a : Aspect) : Aspect.ofName? a.name = some a := by
  cases a <;> decide

section

variable {ν : Type} {m : Type → Type} [Monad m] [DataTree ν m] {tree : Data → ν}

theorem Key.read_toData (ht : Faithful tree) (k : Key) : Key.read (tree k.toData) = pure k := by
  have hnd : ["kind", "aspect", "context", "name"].Nodup := by decide
  refine ht.record "DependencyKey" Key.fields
    (((((), some k.kind), some k.aspect), some k.context), some k.name) hnd hnd (fun _ h => h) ?_
    (fun _ => rfl)
  exact ⟨⟨⟨⟨trivial, _, rfl, ht.choice _ k.kind.ofName?_name⟩,
    _, rfl, ht.choice _ k.aspect.ofName?_name⟩, _, rfl, ht.text _⟩, _, rfl, ht.text _⟩

theorem Header.read_toData (ht : Faithful tree) (h : Header) (hmajor : h.major ≤ maxVersion)
    (hminor : h.minor ≤ maxVersion) : Header.read (tree h.toData) = pure h := by
  have hnd : ["signature", "major", "minor", "compiler_version"].Nodup := by decide
  have hmax : maxVersion < 2 ^ 64 := by decide
  refine ht.record "FormatHeader" Header.fields
    (((((), some h.signature), some h.major), some h.minor), some h.compilerVersion) hnd hnd
    (fun _ h => h) ?_ (fun _ => rfl)
  exact ⟨⟨⟨⟨trivial, _, rfl, ht.text _⟩, _, rfl, ht.count _ hmajor (by omega)⟩,
    _, rfl, ht.count _ hminor (by omega)⟩, _, rfl, ht.text _⟩

theorem read_number (ht : Faithful tree) {n : ℕ} (hn : n < 2 ^ 64) :
    DataTree.count maxCount "usize" (tree (.count n)) = pure n := by
  refine ht.count "usize" ?_ hn
  unfold maxCount
  omega

theorem read_numbers (ht : Faithful tree) {ns : List ℕ} (h : ∀ n ∈ ns, n < 2 ^ 64) :
    DataTree.list (DataTree.count maxCount "usize") (tree (.list (ns.map .count))) = pure ns :=
  ht.list fun n hn => read_number ht (h n hn)

/-- The members of a record, of which the fingerprint may be left out. -/
def NodeRecord.slots (r : NodeRecord) : List (String × Option Data) :=
  [("key", some r.key.toData), ("fingerprint", r.fingerprint.map Fingerprint.toData),
    ("sequence_number", some (.count r.number)),
    ("defs_i_depend_upon", some (.list (r.definitions.map .count))), ("is_provides", some (.flag r.provides))]

theorem NodeRecord.toData_eq (r : NodeRecord) : r.toData = .record (Fields.present r.slots) := by
  rw [NodeRecord.toData, NodeRecord.slots]
  cases r.fingerprint <;> rfl

theorem NodeRecord.read_toData (ht : Faithful tree) (r : NodeRecord) (hr : r.Fits) :
    NodeRecord.read (tree r.toData) = pure r := by
  have hf : ["key", "fingerprint", "sequence_number", "defs_i_depend_upon", "is_provides"].Nodup := by
    decide
  have hlookup := Fields.lookup_present (r.slots.map (Prod.map id (Option.map tree))) hf
  rw [NodeRecord.toData_eq]
  refine ht.record_present "SerializedNode" NodeRecord.fields
    ((((((), some r.key), r.fingerprint.map some), some r.number), some r.definitions), some r.provides)
    hf rfl ?_ ?_
  · exact ⟨⟨⟨⟨⟨trivial, .of_member (hlookup "key") (r.key.read_toData ht)⟩,
      ht.slot_optional (hlookup "fingerprint") nofun ht.fingerprint⟩,
      .of_member (hlookup "sequence_number") (read_number ht hr.number)⟩,
      .of_member (hlookup "defs_i_depend_upon") (read_numbers ht hr.definitions)⟩,
      .of_member (hlookup "is_provides") (ht.flag _)⟩
  · intro ε missing
    obtain ⟨key, fingerprint, number, definitions, provides⟩ := r
    cases fingerprint <;> rfl

/-- **A file reads back as itself** in every faithful notation. -/
theorem DepsFile.read_toData (ht : Faithful tree) (f : DepsFile) (hf : f.Fits) :
    DepsFile.read (tree f.toData) = pure f := by
  have hnd : ["header", "nodes"].Nodup := by decide
  refine ht.record "SerializedGraph" DepsFile.fields (((), some f.header), some f.nodes) hnd hnd
    (fun _ h => h) ?_ (fun _ => rfl)
  exact ⟨⟨trivial, _, rfl, f.header.read_toData ht hf.major hf.minor⟩,
    _, rfl, ht.list fun r hr => r.read_toData ht (hf.nodes r hr)⟩

end

end DepGraph
