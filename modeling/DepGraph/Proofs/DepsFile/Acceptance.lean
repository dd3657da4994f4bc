import DepGraph.Proofs.Graph.Invariant

/-!
# Which deps files hold a graph

* `DepsFile.WellFormed`: a file with the right header, its records numbered by place and with different
  keys, each of which depends on other records of the file.
* `WellFormed.graph_eq`: such a file holds a graph with a node for each record and an arc for each entry.
* `DepsFile.graph_accepts`: no other file holds one. It is refused over the first of its problems: the
  header comes before the records, and all records come before the arcs.
-/

namespace DepGraph

/-- The node of a record. -/
def NodeRecord.node (r : NodeRecord) : Node := ⟨r.key, r.fingerprint, r.number, r.provides⟩

namespace DepsFile

variable {file : DepsFile} {nodes : List NodeRecord} {p : Problem}

/-- Records are numbered by their places. -/
def Numbered (nodes : List NodeRecord) : Prop :=
  ∀ (i : ℕ) (r : NodeRecord), nodes[i]? = some r → r.number = i

/-- **A file that holds a graph.** -/
structure WellFormed (file : DepsFile) : Prop where
  signature : file.header.signature = "DEPS"
  major : file.header.major = 1
  number : Numbered file.nodes
  keys : (file.nodes.map NodeRecord.key).Nodup
  definitions : ∀ (i : ℕ) (r : NodeRecord), file.nodes[i]? = some r →
    ∀ d ∈ r.definitions, d < file.nodes.length ∧ d ≠ i

/-! ## Files that hold a graph -/

/-- Records that are numbered from the end of the graph on and bring new keys are added. -/
theorem addNodes_eq : ∀ {records : List NodeRecord} {g : Graph}, g.OK →
    (∀ (i : ℕ) (r : NodeRecord), records[i]? = some r → r.number = g.nodes.size + i) →
    (g.keys ++ records.map NodeRecord.key).Nodup →
    ∃ h, addNodes g records = .ok h ∧ h.OK ∧ h.arcs = g.arcs ∧
      h.nodes.toList = g.nodes.toList ++ records.map NodeRecord.node := by
  intro records
  induction records with
  | nil =>
    intro g hg _ _
    exact ⟨g, rfl, hg, rfl, by simp⟩
  | cons r rest ih =>
    intro g hg hnum hkeys
    have hr : r.number = g.nodes.size := by simpa using hnum 0 r rfl
    rw [List.map_cons, List.nodup_append] at hkeys
    obtain ⟨hk₁, hk₂, hdis⟩ := hkeys
    have hnew : g.find? r.key = none := by
      rw [hg.find_none]
      exact fun h => hdis r.key h r.key List.mem_cons_self rfl
    have hkeys' : ((g.append r.key r.fingerprint r.provides).keys ++ rest.map NodeRecord.key).Nodup := by
      rw [Graph.keys_append, List.append_assoc, List.singleton_append, List.nodup_append]
      exact ⟨hk₁, hk₂, hdis⟩
    have hnum' : ∀ (i : ℕ) (s : NodeRecord), rest[i]? = some s →
        s.number = (g.append r.key r.fingerprint r.provides).nodes.size + i := by
      intro i s hs
      rw [hnum (i + 1) s hs, Graph.size_append]
      omega
    obtain ⟨h, ha, hok, harcs, hnodes⟩ := ih (Graph.append_ok hg hnew) hnum' hkeys'
    refine ⟨h, ?_, hok, harcs, ?_⟩
    · rw [addNodes, if_neg (not_not.2 hr), hnew]
      exact ha
    · rw [hnodes]
      simp [Graph.append, NodeRecord.node, hr]

/-- Arcs between different nodes are added. -/
theorem addArcs_eq : ∀ {arcs : List Arc} {g : Graph}, g.OK →
    (∀ arc ∈ arcs, (arc.definition < g.nodes.size ∧ arc.use < g.nodes.size) ∧
      arc.definition ≠ arc.use) →
    ∃ h, addArcs g arcs = .ok h ∧ h.OK ∧ h.nodes = g.nodes ∧
      ∀ arc, arc ∈ h.arcs ↔ arc ∈ g.arcs ∨ arc ∈ arcs := by
  intro arcs
  induction arcs with
  | nil =>
    intro g hg _
    exact ⟨g, rfl, hg, rfl, fun arc => by simp⟩
  | cons a rest ih =>
    intro g hg hall
    obtain ⟨⟨hd, hu⟩, hne⟩ := hall a List.mem_cons_self
    have hrest : ∀ arc ∈ rest, (arc.definition < (g.link a.definition a.use).nodes.size ∧
        arc.use < (g.link a.definition a.use).nodes.size) ∧ arc.definition ≠ arc.use := by
      intro arc harc
      rw [Graph.nodes_link]
      exact hall arc (List.mem_cons_of_mem _ harc)
    obtain ⟨h, ha, hok, hnodes, hmem⟩ := ih (Graph.link_ok hg hd hu) hrest
    refine ⟨h, ?_, hok, hnodes.trans (Graph.nodes_link _ _), ?_⟩
    · rw [addArcs, if_neg (by omega), if_neg hne]
      exact ha
    · intro arc
      rw [hmem, Graph.mem_link, List.mem_cons, or_assoc]
      simp only [hne, ne_eq, not_false_eq_true, and_true]

/-- Records that are numbered by place and have different keys are the nodes of a graph. -/
theorem addNodes_empty (hnum : Numbered nodes) (hkeys : (nodes.map NodeRecord.key).Nodup) :
    ∃ g, addNodes .empty nodes = .ok g ∧ g.OK ∧ g.arcs = #[] ∧
      g.nodes.toList = nodes.map NodeRecord.node ∧ g.nodes.size = nodes.length := by
  have hnum' : ∀ (i : ℕ) (r : NodeRecord), nodes[i]? = some r →
      r.number = Graph.empty.nodes.size + i := by
    intro i r hr
    rw [hnum i r hr]
    exact (Nat.zero_add i).symm
  obtain ⟨g, hn, hok, harcs, hnodes⟩ := addNodes_eq Graph.empty_ok hnum' hkeys
  refine ⟨g, hn, hok, harcs, hnodes, ?_⟩
  rw [← Array.length_toList, hnodes]
  simp [Graph.empty]

/-- A record that is numbered by its place lists the arcs to that place. -/
theorem mem_recordArcs (hnum : Numbered nodes) {arc : Arc} :
    arc ∈ nodes.flatMap recordArcs ↔ ∃ r, nodes[arc.use]? = some r ∧ arc.definition ∈ r.definitions := by
  simp only [List.mem_flatMap, recordArcs, List.mem_map]
  constructor
  · rintro ⟨r, hr, d, hd, rfl⟩
    obtain ⟨i, hi⟩ := List.mem_iff_getElem?.1 hr
    refine ⟨r, ?_, hd⟩
    rw [hnum i r hi]; exact hi
  · rintro ⟨r, hr, hd⟩
    refine ⟨r, List.mem_of_getElem? hr, arc.definition, hd, ?_⟩
    rw [hnum _ r hr]

/-- The header is looked at first, then the records, then the arcs. -/
theorem graph_stages (file : DepsFile) : file.graph =
    if file.header.signature ≠ "DEPS" then .error (.signature file.header.signature)
    else if file.header.major ≠ 1 then .error (.version file.header.major file.header.minor)
    else addNodes .empty file.nodes >>= fun g => addArcs g (file.nodes.flatMap recordArcs) := by
  unfold graph
  change (if file.header.signature ≠ "DEPS" then _ else _) = _
  split
  · rfl
  · change (if file.header.major ≠ 1 then _ else _) = _
    split
    · rfl
    · rfl

/-- **The graph of a well formed file.** -/
theorem WellFormed.graph_eq (h : file.WellFormed) : ∃ g, file.graph = .ok g ∧ g.OK ∧
    g.nodes.toList = file.nodes.map NodeRecord.node ∧
    ∀ arc, arc ∈ g.arcs ↔ ∃ r, file.nodes[arc.use]? = some r ∧ arc.definition ∈ r.definitions := by
  obtain ⟨g₁, hn, hok₁, harcs₁, hnodes₁, hsize⟩ := addNodes_empty h.number h.keys
  have hall : ∀ arc ∈ file.nodes.flatMap recordArcs,
      (arc.definition < g₁.nodes.size ∧ arc.use < g₁.nodes.size) ∧ arc.definition ≠ arc.use := by
    intro arc harc
    obtain ⟨r, hr, hd⟩ := (mem_recordArcs h.number).1 harc
    obtain ⟨hlt, hne⟩ := h.definitions arc.use r hr arc.definition hd
    rw [hsize]
    exact ⟨⟨hlt, (List.getElem?_eq_some_iff.1 hr).1⟩, hne⟩
  obtain ⟨g, ha, hok, hnodes, hmem⟩ := addArcs_eq hok₁ hall
  refine ⟨g, ?_, hok, ?_, ?_⟩
  · rw [graph_stages, if_neg (not_not.2 h.signature), if_neg (not_not.2 h.major), hn]
    exact ha
  · rw [hnodes, hnodes₁]
  · intro arc
    rw [hmem, harcs₁, mem_recordArcs h.number]
    simp

/-! ## What is wrong with a file -/

def headerProblems (header : Header) : List Problem :=
  (if header.signature = "DEPS" then [] else [.signature header.signature]) ++
    if header.major = 1 then [] else [.version header.major header.minor]

/-- What is wrong with the record at a place. -/
def recordProblems (nodes : List NodeRecord) (r : NodeRecord) (i : ℕ) : List Problem :=
  (if r.number = i then [] else [.misnumbered i r.number]) ++
    if r.key ∈ (nodes.take i).map NodeRecord.key then [.duplicateKey r.key] else []

/-- What is wrong with an arc where there are so many nodes. -/
def arcProblems (count : ℕ) (arc : Arc) : List Problem :=
  (if arc.definition < count then [] else [.missingNode arc]) ++
    if arc.definition = arc.use then [.selfDependency arc.definition] else []

/-- What is wrong with records, one after the other. -/
def nodeProblems (nodes : List NodeRecord) : List Problem :=
  nodes.zipIdx.flatMap fun place => recordProblems nodes place.1 place.2

/-- What is wrong with the numbers that records list, one after the other. -/
def dependencyProblems (nodes : List NodeRecord) : List Problem :=
  nodes.zipIdx.flatMap fun place =>
    place.1.definitions.flatMap fun d => arcProblems nodes.length ⟨d, place.2⟩

/-- **All that is wrong with a file**, in the order in which it is looked at: the header, then the records
one by one, then what each of them depends on. -/
def problems (file : DepsFile) : List Problem :=
  headerProblems file.header ++ nodeProblems file.nodes ++ dependencyProblems file.nodes

theorem headerProblems_eq_nil_iff {header : Header} :
    headerProblems header = [] ↔ header.signature = "DEPS" ∧ header.major = 1 := by
  simp [headerProblems]

/-- The keys are different iff no record has the key of one before it. -/
theorem nodup_keys_iff : (nodes.map NodeRecord.key).Nodup ↔
    ∀ (i : ℕ) (r : NodeRecord), nodes[i]? = some r → r.key ∉ (nodes.take i).map NodeRecord.key := by
  rw [List.nodup_iff_getElem?_ne_getElem?]
  constructor
  · intro h i r hi hmem
    obtain ⟨r', hr', hk⟩ := List.mem_map.1 hmem
    obtain ⟨j, hj⟩ := List.mem_iff_getElem?.1 hr'
    rw [List.getElem?_take] at hj
    split at hj
    · rename_i hji
      apply h j i hji
      · rw [List.length_map]; exact (List.getElem?_eq_some_iff.1 hi).1
      · rw [List.getElem?_map, List.getElem?_map, hi, hj, Option.map_some, Option.map_some, hk]
    · cases hj
  · intro h i j hij hj heq
    rw [List.length_map] at hj
    have hri := List.getElem?_eq_getElem (Nat.lt_trans hij hj)
    have hrj := List.getElem?_eq_getElem hj
    rw [List.getElem?_map, List.getElem?_map, hri, hrj] at heq
    refine h j _ hrj (List.mem_map.2 ⟨nodes[i], ?_, Option.some.inj heq⟩)
    refine List.mem_iff_getElem?.2 ⟨i, ?_⟩
    rw [List.getElem?_take, if_pos hij, hri]

theorem nodeProblems_eq_nil_iff :
    nodeProblems nodes = [] ↔ Numbered nodes ∧ (nodes.map NodeRecord.key).Nodup := by
  rw [nodeProblems, List.flatMap_eq_nil_iff, nodup_keys_iff]
  constructor
  · intro h
    have hat : ∀ (i : ℕ) (r : NodeRecord), nodes[i]? = some r →
        r.number = i ∧ r.key ∉ (nodes.take i).map NodeRecord.key := by
      intro i r hi
      have := h (r, i) (List.mem_zipIdx_iff_getElem?.2 hi)
      simpa [recordProblems] using this
    exact ⟨fun i r hi => (hat i r hi).1, fun i r hi => (hat i r hi).2⟩
  · rintro ⟨hnum, hkey⟩ ⟨r, i⟩ hm
    have hi := List.mem_zipIdx_iff_getElem?.1 hm
    simp only [recordProblems, if_pos (hnum i r hi), if_neg (hkey i r hi), List.append_nil]

theorem dependencyProblems_eq_nil_iff : dependencyProblems nodes = [] ↔
    ∀ (i : ℕ) (r : NodeRecord), nodes[i]? = some r →
      ∀ d ∈ r.definitions, d < nodes.length ∧ d ≠ i := by
  have harc : ∀ d i, arcProblems nodes.length ⟨d, i⟩ = [] ↔ d < nodes.length ∧ d ≠ i := by
    intro d i
    simp [arcProblems]
  simp only [dependencyProblems, List.flatMap_eq_nil_iff, harc]
  constructor
  · intro h i r hi
    exact h (r, i) (List.mem_zipIdx_iff_getElem?.2 hi)
  · rintro h ⟨r, i⟩ hm
    exact h i r (List.mem_zipIdx_iff_getElem?.1 hm)

/-- **A file is well formed iff nothing is wrong with it.** -/
theorem problems_eq_nil_iff : file.problems = [] ↔ file.WellFormed := by
  rw [problems, List.append_eq_nil_iff, List.append_eq_nil_iff, headerProblems_eq_nil_iff,
    nodeProblems_eq_nil_iff, dependencyProblems_eq_nil_iff]
  constructor
  · rintro ⟨⟨⟨hs, hm⟩, hnum, hkeys⟩, hdefs⟩
    exact ⟨hs, hm, hnum, hkeys, hdefs⟩
  · rintro ⟨hs, hm, hnum, hkeys, hdefs⟩
    exact ⟨⟨⟨hs, hm⟩, hnum, hkeys⟩, hdefs⟩

/-! ## The first problem -/

/-- Records are refused over the first problem with one of them; `before` are those that were added. -/
theorem addNodes_error_iff (before : List NodeRecord) {rest : List NodeRecord} {g : Graph}
    (hsplit : before ++ rest = nodes) (hg : g.OK) (hkeys : g.keys = before.map NodeRecord.key) :
    addNodes g rest = .error p ↔ ((rest.zipIdx before.length).flatMap fun place =>
      recordProblems nodes place.1 place.2).head? = some p := by
  induction rest generalizing before g with
  | nil => simp [addNodes]
  | cons r rest ih =>
    have hsize : g.nodes.size = before.length := by
      rw [← Graph.length_keys, hkeys, List.length_map]
    have hbefore : nodes.take before.length = before := by
      rw [← hsplit, List.take_left]
    rw [List.zipIdx_cons, List.flatMap_cons, List.head?_append, addNodes, hsize]
    by_cases hnum : r.number = before.length
    · rw [if_neg (not_not.2 hnum)]
      by_cases hkey : r.key ∈ before.map NodeRecord.key
      · have hfind : (g.find? r.key).isSome = true := by
          rw [Option.isSome_iff_ne_none, ne_eq, hg.find_none, hkeys]
          exact not_not.2 hkey
        rw [if_pos hfind]
        simp [recordProblems, hnum, hbefore, hkey]
      · have hnew : g.find? r.key = none := by
          rw [hg.find_none, hkeys]; exact hkey
        have hnil : recordProblems nodes r before.length = [] := by
          simp [recordProblems, hnum, hbefore, hkey]
        have hrest := ih (before ++ [r]) (by simpa using hsplit)
          (Graph.append_ok (f := r.fingerprint) (p := r.provides) hg hnew)
          (by rw [Graph.keys_append, hkeys]; simp)
        rw [List.length_append] at hrest
        rw [hnew, hnil]
        exact hrest
    · rw [if_pos hnum]
      simp [recordProblems, hnum]

/-- Arcs to nodes that are there are refused over the first problem with one of them. -/
theorem addArcs_error_iff {arcs : List Arc} {g : Graph} (huse : ∀ arc ∈ arcs, arc.use < g.nodes.size) :
    addArcs g arcs = .error p ↔ (arcs.flatMap (arcProblems g.nodes.size)).head? = some p := by
  induction arcs generalizing g with
  | nil => simp [addArcs]
  | cons arc rest ih =>
    have hu := huse arc List.mem_cons_self
    rw [List.flatMap_cons, List.head?_append, addArcs]
    by_cases hd : arc.definition < g.nodes.size
    · rw [if_neg (by omega)]
      by_cases hself : arc.definition = arc.use
      · have hself' : arcProblems g.nodes.size arc = [.selfDependency arc.definition] := by
          rw [arcProblems, if_pos hd, if_pos hself, List.nil_append]
        rw [if_pos hself, hself']
        simp
      · have hnil : arcProblems g.nodes.size arc = [] := by
          rw [arcProblems, if_pos hd, if_neg hself, List.nil_append]
        have hrest := ih (g := g.link arc.definition arc.use) (by
          rw [Graph.nodes_link]
          exact fun a ha => huse a (List.mem_cons_of_mem _ ha))
        rw [Graph.nodes_link] at hrest
        rw [if_neg hself, hnil]
        exact hrest
    · rw [if_pos (by omega)]
      simp [arcProblems, hd]

/-- The arcs that records list, with the places of the records for their numbers. -/
theorem recordArcs_eq (hnum : Numbered nodes) : nodes.flatMap recordArcs =
    nodes.zipIdx.flatMap fun place => place.1.definitions.map fun d => ⟨d, place.2⟩ := by
  have hfst : nodes.flatMap recordArcs = nodes.zipIdx.flatMap fun place => recordArcs place.1 := by
    rw [← List.flatMap_map Prod.fst recordArcs nodes.zipIdx, List.zipIdx_map_fst]
  rw [hfst, List.flatMap_def, List.flatMap_def]
  congr 1
  apply List.map_congr_left
  intro place hm
  rw [recordArcs, hnum place.2 place.1 (List.mem_zipIdx_iff_getElem?.1 hm)]

/-- The arcs of records that are nodes are refused over the first problem with a number they list. -/
theorem dependencies_error_iff {g : Graph} (hnum : Numbered nodes) (hsize : g.nodes.size = nodes.length) :
    addArcs g (nodes.flatMap recordArcs) = .error p ↔ (dependencyProblems nodes).head? = some p := by
  have huse : ∀ arc ∈ nodes.flatMap recordArcs, arc.use < g.nodes.size := by
    intro arc harc
    obtain ⟨r, hr, -⟩ := (mem_recordArcs hnum).1 harc
    rw [hsize]; exact (List.getElem?_eq_some_iff.1 hr).1
  rw [addArcs_error_iff huse, recordArcs_eq hnum, hsize, List.flatMap_assoc, dependencyProblems]
  simp only [List.flatMap_map]

/-- **A file is refused over the first of its problems.** -/
theorem graph_error_iff : file.graph = .error p ↔ file.problems.head? = some p := by
  rw [graph_stages, problems, List.head?_append, List.head?_append, headerProblems]
  by_cases hs : file.header.signature = "DEPS"
  · rw [if_neg (not_not.2 hs), if_pos hs]
    by_cases hm : file.header.major = 1
    · rw [if_neg (not_not.2 hm), if_pos hm]
      have hnodes : ∀ {e : Problem}, addNodes .empty file.nodes = .error e ↔
          (nodeProblems file.nodes).head? = some e :=
        addNodes_error_iff [] rfl Graph.empty_ok rfl
      cases hn : addNodes .empty file.nodes with
      | error e =>
        rw [hnodes.1 hn]
        change Except.error e = Except.error p ↔ _
        simp
      | ok g =>
        have hnil : nodeProblems file.nodes = [] := by
          refine List.head?_eq_none_iff.1 (Option.eq_none_iff_forall_ne_some.2 ?_)
          intro e he
          rw [hnodes.2 he] at hn
          cases hn
        -- nothing is wrong with the records, so they are the nodes, and the arcs lead to their places
        obtain ⟨hnum, hkeys⟩ := nodeProblems_eq_nil_iff.1 hnil
        obtain ⟨g', hn', -, -, -, hsize⟩ := addNodes_empty hnum hkeys
        rw [hn] at hn'
        cases hn'
        rw [hnil]
        exact dependencies_error_iff hnum hsize
    · rw [if_pos hm, if_neg hm]
      simp
  · rw [if_pos hs, if_neg hs]
    simp

theorem wellFormed_of_graph {g : Graph} (h : file.graph = .ok g) : file.WellFormed := by
  rw [← problems_eq_nil_iff]
  refine List.head?_eq_none_iff.1 (Option.eq_none_iff_forall_ne_some.2 ?_)
  intro p hp
  rw [graph_error_iff.2 hp] at h
  cases h

/-- **Exactly the well formed files hold a graph**, and any other is refused over the first of its
problems. -/
theorem graph_accepts (file : DepsFile) : ((∃ g, file.graph = .ok g) ↔ file.WellFormed) ∧
    ∀ p, file.graph = .error p ↔ file.problems.head? = some p := by
  refine ⟨⟨?_, ?_⟩, fun p => graph_error_iff⟩
  · rintro ⟨g, hg⟩
    exact wellFormed_of_graph hg
  · intro h
    obtain ⟨g, hg, -⟩ := h.graph_eq
    exact ⟨g, hg⟩

end DepsFile

end DepGraph
