import DepGraph.Proofs.Construction.Anchoring
import DepGraph.Proofs.Manifest

/-!
# What dropped fingerprints change

After a compilation error the fingerprints of declarations are dropped. Two constructions that differ in
this only run side by side: each operation on the graph without fingerprints gives the graph that the same
operation gives with them, less the fingerprints (`upsert_erased`, `defineEach_erased`, `useEach_erased`).

* `construct_erased`: the finished graphs differ in fingerprints only, and no diagnostic shows it.
* `Manifest.build_erased`: the same of what is built from a manifest.
-/

namespace DepGraph

open DepGraph.Graph

/-- A node less its fingerprint. -/
def Node.erased (n : Node) : Node := { n with fingerprint := none }

/-- **A graph less its fingerprints**, except that of the first node. -/
def Graph.erased (g : Graph) : Graph :=
  { g with nodes := g.nodes.mapIdx fun i node => if i = 0 then node else node.erased }

namespace Graph

variable {g g' : Graph} {key : Key} {f : Option Fingerprint} {p : Bool} {i j : ℕ}

theorem erased_get (g : Graph) (i : ℕ) :
    g.erased.nodes[i]? = g.nodes[i]?.map fun node => if i = 0 then node else node.erased := by
  unfold erased
  rw [Array.getElem?_mapIdx]

theorem size_erased (g : Graph) : g.erased.nodes.size = g.nodes.size := Array.size_mapIdx

theorem keys_erased (g : Graph) : g.erased.keys = g.keys := by
  apply List.ext_getElem?
  intro i
  rw [keys_getElem?, keys_getElem?, erased_get, Option.map_map]
  congr 1
  funext node
  simp only [Function.comp_apply]
  split <;> rfl

theorem sourceFile_erased (g : Graph) : g.erased.sourceFile? = g.sourceFile? := by
  unfold sourceFile?
  rw [erased_get]
  cases g.nodes[0]? with
  | none => rfl
  | some node => rfl

/-- Graphs are equal when their nodes are, place by place, and the rest is. -/
theorem ext_nodes (hn : ∀ i : ℕ, g.nodes[i]? = g'.nodes[i]?) (hi : g.index = g'.index)
    (ha : g.arcs = g'.arcs) : g = g' := by
  have hnodes := Array.ext_getElem? hn
  cases g
  cases g'
  simp only at hnodes hi ha
  rw [hnodes, hi, ha]

theorem append_erased (h : g.nodes.size ≠ 0) :
    (g.append key f p).erased = g.erased.append key none p := by
  apply ext_nodes
  · intro i
    rw [erased_get]
    simp only [append, Array.getElem?_push, size_erased]
    by_cases hi : i = g.nodes.size
    · -- the new node is not the first
      subst hi
      rw [if_pos rfl, if_pos rfl, Option.map_some, if_neg h]
      rfl
    · rw [if_neg hi, if_neg hi, erased_get]
  · unfold append
    rw [size_erased]
    rfl
  · rfl

theorem replace_erased (hi : i ≠ 0) (node : Node) :
    (g.replace i node).erased = g.erased.replace i node.erased := by
  apply ext_nodes
  · intro j
    rw [erased_get, nodes_replace, nodes_replace, size_erased]
    by_cases hij : i = j
    · subst hij
      rw [if_pos rfl, if_pos rfl]
      by_cases hlt : i < g.nodes.size
      · rw [if_pos hlt, if_pos hlt, Option.map_some, if_neg hi]
      · rw [if_neg hlt, if_neg hlt]
        rfl
    · rw [if_neg hij, if_neg hij, erased_get]
  · rfl
  · rfl

theorem link_erased (d u : ℕ) : (g.link d u).erased = g.erased.link d u := by
  have hdep : g.erased.dependsOn u d = g.dependsOn u d := rfl
  unfold link
  rw [hdep]
  split <;> rfl

theorem addArc_erased {d u : ℕ} (ha : g.addArc d u = .ok g') :
    g.erased.addArc d u = .ok g'.erased := by
  obtain ⟨rfl, h⟩ := addArc_cases ha
  unfold addArc
  rw [size_erased, if_pos h, link_erased]

/-- A provision of a node that was provided before keeps no fingerprint that it did not have. -/
theorem provide_erased {old node : Node} (hold : old.provides = true) (h : old.provide f = .ok node) :
    old.erased.provide none = .ok node.erased := by
  have hnode : node = { old with provides := true, fingerprint := node.fingerprint } := by
    unfold Node.provide at h
    rw [if_neg (by simp [hold])] at h
    split at h <;> cases h <;> rfl
  rw [hnode]
  simp [Node.provide, Node.erased]

/-- **An upsert without fingerprints.** A node that is provided again must have been provided before and
must not be the first. -/
theorem upsert_erased (hsize : g.nodes.size ≠ 0) (hu : g.upsert key f p = .ok (g', i))
    (h : p = true → ∀ old, g.find? key = some i → g.nodes[i]? = some old → i ≠ 0 ∧ old.provides = true) :
    g.erased.upsert key none p = .ok (g'.erased, i) := by
  have hfind : g.erased.find? key = g.find? key := rfl
  unfold upsert
  rw [hfind]
  rcases upsert_cases hu with ⟨hf, rfl, rfl⟩ | ⟨hf, rfl, rfl⟩ | ⟨hf, rfl, old, node, hold, hnode, rfl⟩
  · rw [hf]
    simp only [append_erased hsize, size_erased]
  · rw [hf]
    rfl
  · obtain ⟨hi, hprov⟩ := h rfl old hf hold
    have hget : g.erased.nodes[i]? = some old.erased := by
      rw [erased_get, hold, Option.map_some, if_neg hi]
    rw [hf, replace_erased hi]
    simp only [hget, provide_erased hprov hnode, if_true]
    rfl

/-! ## The first phase -/

/-- A graph in the first phase: the file's node stands first, and every node is provided. -/
structure Provides (g : Graph) (file : Key) : Prop where
  ok : g.OK
  first : g.keys[0]? = some file
  provides : ∀ node ∈ g.nodes, node.provides = true

variable {file : Key}

theorem Provides.size_ne (h : g.Provides file) : g.nodes.size ≠ 0 := by
  have := lt_of_keys_get h.first
  omega

theorem Provides.upsert (h : g.Provides file) (hu : g.upsert key f true = .ok (g', i)) :
    g'.Provides file where
  ok := (upsert_ok h.ok hu).1
  first := keys_upsert_get h.ok hu h.first
  provides := by
    intro node hn
    rcases upsert_cases hu with ⟨-, rfl, -⟩ | ⟨-, hp, -⟩ | ⟨-, -, old, node', hold, hnode, rfl⟩
    · rcases Array.mem_push.1 hn with hn | rfl
      · exact h.provides node hn
      · rfl
    · cases hp
    · obtain ⟨j, hj⟩ := Array.mem_iff_getElem?.1 hn
      rw [nodes_replace] at hj
      split at hj
      · rw [if_pos (Array.getElem?_eq_some_iff.1 hold).1] at hj
        cases hj
        exact (Node.provide_ok hnode).2.2
      · exact h.provides node (Array.mem_iff_getElem?.2 ⟨j, hj⟩)

theorem Provides.addArc {d u : ℕ} (h : g.Provides file) (ha : g.addArc d u = .ok g') :
    g'.Provides file := by
  have hok := addArc_ok h.ok ha
  obtain ⟨rfl, -⟩ := addArc_cases ha
  refine ⟨hok, ?_, ?_⟩
  · rw [keys_link]; exact h.first
  · rw [nodes_link]; exact h.provides

/-- A provision of any key but the file's. -/
theorem Provides.upsert_erased (h : g.Provides file) (hkey : key ≠ file)
    (hu : g.upsert key f true = .ok (g', i)) : g.erased.upsert key none true = .ok (g'.erased, i) := by
  apply Graph.upsert_erased h.size_ne hu
  intro _ old hf hold
  refine ⟨?_, h.provides old (Array.mem_iff_getElem?.2 ⟨i, hold⟩)⟩
  rintro rfl
  have hk := (h.ok.find key 0).1 hf
  rw [h.first] at hk
  exact hkey (Option.some.inj hk).symm

theorem Provides.upsertPair_erased (h : g.Provides file) (hkind : key.kind ≠ file.kind)
    (hp : g.upsertPair key f = .ok (g', i, j)) :
    g.erased.upsertPair key none = .ok (g'.erased, i, j) ∧ g'.Provides file := by
  obtain ⟨hint, g₁, g₂, h₁, h₂, h₃⟩ := upsertPair_cases hp
  have hkey : key ≠ file := by
    intro heq
    exact hkind (congrArg Key.kind heq)
  have himpl : key.implementation ≠ file := by
    intro heq
    have : key.implementation.kind = file.kind := congrArg Key.kind heq
    exact hkind this
  have hg₁ := h.upsert h₁
  have hg₂ := hg₁.upsert h₂
  refine ⟨?_, hg₂.addArc h₃⟩
  exact upsertPair_eq hint (h.upsert_erased hkey h₁) (hg₁.upsert_erased himpl h₂) (addArc_erased h₃)

end Graph

namespace Construction

variable {c c' : Construction} {key file : Key} {f : Option Fingerprint}

/-- **The construction that drops fingerprints**, at the same point. -/
def erased (c : Construction) : Construction where
  graph := c.graph.erased
  diagnostics := c.diagnostics
  dropFingerprints := true

/-- A construction in its first phase that does not drop fingerprints. -/
structure Defining (c : Construction) (file : Key) : Prop where
  provides : c.graph.Provides file
  kind : file.kind = .sourceFileProvide
  keeps : c.dropFingerprints = false

theorem defineKey_erased {pair : Option (ℕ × ℕ)} (h : c.Defining file)
    (hd : c.defineKey key f = .ok (c', pair)) :
    c.erased.defineKey key f = .ok (c'.erased, pair) ∧ c'.Defining file := by
  unfold defineKey at hd
  by_cases hk : key.kind = .sourceFileProvide
  · rw [if_pos hk] at hd
    cases hd
    refine ⟨?_, h⟩
    unfold defineKey
    rw [if_pos hk]
    rfl
  · rw [if_neg hk] at hd
    obtain ⟨⟨g, i, j⟩, hpair, hd⟩ := exists_of_bind hd
    have hkind : key.interface.kind ≠ file.kind := by rw [h.kind]; exact hk
    obtain ⟨hpair', hg⟩ := h.provides.upsertPair_erased hkind hpair
    have hfile := sourceFile_eq hg.first h.kind
    simp only [hfile] at hd
    obtain ⟨g', ha, hd⟩ := exists_of_bind hd
    cases hd
    refine ⟨?_, hg.addArc ha, h.kind, h.keeps⟩
    -- the fingerprint is dropped before it comes to the graph
    have htrusted : c.erased.trusted f = none := rfl
    rw [← htrusted] at hpair'
    rw [← sourceFile_erased] at hfile
    exact defineKey_eq hk hpair' hfile (addArc_erased ha)

theorem defineAll_erased (kind : Kind) : ∀ (entities : List Entity) {c c' : Construction},
    c.Defining file → c.defineAll kind entities = .ok c' →
      c.erased.defineAll kind entities = .ok c'.erased ∧ c'.Defining file := by
  intro entities
  induction entities with
  | nil => intro c c' h hd; cases hd; exact ⟨rfl, h⟩
  | cons e rest ih =>
    intro c c' h hd
    obtain ⟨⟨c₁, pair⟩, h₁, hd⟩ := exists_of_bind hd
    obtain ⟨h₁', hc₁⟩ := defineKey_erased h h₁
    obtain ⟨h₂, hc'⟩ := ih hc₁ hd
    refine ⟨?_, hc'⟩
    unfold defineAll
    rw [h₁']
    exact h₂

theorem define_erased {definition : Definition} {pair : Option (ℕ × ℕ)} (h : c.Defining file)
    (hd : c.define definition = .ok (c', pair)) :
    c.erased.define definition = .ok (c'.erased, pair) ∧ c'.Defining file := by
  cases definition with
  | one key f => exact defineKey_erased h hd
  | all kind entities =>
    rw [define] at hd ⊢
    cases hall : c.defineAll kind entities with
    | error e => rw [hall] at hd; cases hd
    | ok c₁ =>
      rw [hall] at hd
      cases hd
      obtain ⟨hall', hc'⟩ := defineAll_erased kind entities h hall
      rw [hall']
      exact ⟨rfl, hc'⟩

/-- **The first phase without fingerprints.** -/
theorem defineEach_erased : ∀ (definitions : List Definition) {c c' : Construction}
    {log : List (Option (ℕ × ℕ) × Graph)}, c.Defining file → c.defineEach definitions = .ok (c', log) →
      c'.Defining file ∧ ∃ log', c.erased.defineEach definitions = .ok (c'.erased, log') := by
  intro definitions
  induction definitions with
  | nil => intro c c' log h hd; cases hd; exact ⟨h, [], rfl⟩
  | cons d rest ih =>
    intro c c' log h hd
    obtain ⟨⟨c₁, pair⟩, h₁, hd⟩ := exists_of_bind hd
    obtain ⟨⟨c₂, log₂⟩, h₂, hd⟩ := exists_of_bind hd
    cases hd
    obtain ⟨h₁', hc₁⟩ := define_erased h h₁
    obtain ⟨hc₂, log', h₂'⟩ := ih hc₁ h₂
    refine ⟨hc₂, (pair, c₁.erased.graph) :: log', ?_⟩
    unfold defineEach
    rw [h₁']
    change (c₁.erased.defineEach rest >>= _) = _
    rw [h₂']
    rfl

/-! ## The second phase -/

theorem linkUse_erased {d : ℕ} {u : Key} (hsize : c.graph.nodes.size ≠ 0)
    (h : c.linkUse d u = .ok c') : c.erased.linkUse d u = .ok c'.erased := by
  have hfind : c.erased.graph.find? u = c.graph.find? u := rfl
  unfold linkUse
  rw [hfind]
  rcases linkUse_cases h with ⟨i, g, hf, ha, rfl⟩ | ⟨g, i, g', hf, hu, ha, rfl⟩
  · have ha' : c.erased.graph.addArc d i = .ok g.erased := addArc_erased ha
    rw [hf]
    simp only [ha']
    rfl
  · have hu' : c.erased.graph.upsert u none true = .ok (g.erased, i) := by
      apply upsert_erased hsize hu
      intro _ old hsome
      rw [hf] at hsome
      cases hsome
    rw [hf]
    simp only [hu']
    change (g.erased.addArc d i >>= _) = _
    rw [addArc_erased ha]
    rfl

/-- **One call.** What is used is only mentioned, so its fingerprint matters to a new node alone. -/
theorem use_erased {use : Use} (hsize : c.graph.nodes.size ≠ 0) (h : c.use use = .ok c') :
    c.erased.use use = .ok c'.erased := by
  have hmention : ∀ {d u : Key} {f : Option Fingerprint} {g : Graph} {i : ℕ},
      c.graph.upsert d f false = .ok (g, i) → ({ c with graph := g } : Construction).linkUse i u = .ok c' →
      c.erased.graph.upsert d none false = .ok (g.erased, i) ∧
        ({ c.erased with graph := g.erased } : Construction).linkUse i u = .ok c'.erased := by
    intro d u f g i hu hl
    have hle : g.nodes.size ≠ 0 := by
      rcases upsert_cases hu with ⟨-, rfl, -⟩ | ⟨-, -, rfl⟩ | ⟨-, hp, -⟩
      · rw [size_append]; omega
      · exact hsize
      · cases hp
    exact ⟨upsert_erased hsize hu (fun hp => by cases hp), linkUse_erased hle hl⟩
  cases use with
  | declaration d u =>
    obtain ⟨⟨g, i⟩, hu, hl⟩ := exists_of_bind h
    obtain ⟨hu', hl'⟩ := hmention hu hl
    rw [Construction.use, hu']
    exact hl'
  | external d u f =>
    obtain ⟨⟨g, i⟩, hu, hl⟩ := exists_of_bind h
    obtain ⟨hu', hl'⟩ := hmention hu hl
    have htrusted : c.erased.trusted f = none := rfl
    rw [Construction.use, htrusted, hu']
    exact hl'
  | remark diagnostic =>
    cases h
    rfl

/-- **The second phase without fingerprints.** -/
theorem useEach_erased : ∀ (uses : List Use) {c c' : Construction} {log : List (ℕ × Graph)},
    c.graph.nodes.size ≠ 0 → c.useEach uses = .ok (c', log) →
      ∃ log', c.erased.useEach uses = .ok (c'.erased, log') := by
  intro uses
  induction uses with
  | nil => intro c c' log _ h; cases h; exact ⟨[], rfl⟩
  | cons use rest ih =>
    intro c c' log hsize h
    obtain ⟨c₁, h₁, h⟩ := exists_of_bind h
    obtain ⟨⟨c₂, log₂⟩, h₂, h⟩ := exists_of_bind h
    cases h
    have hsize₁ : c₁.graph.nodes.size ≠ 0 := by
      intro hzero
      obtain ⟨node, hnode⟩ : ∃ node, c.graph.nodes[0]? = some node :=
        ⟨_, Array.getElem?_eq_getElem (Nat.pos_of_ne_zero hsize)⟩
      have hkept := (use_keeps h₁).nodes 0 node hnode
      have := (Array.getElem?_eq_some_iff.1 hkept).1
      omega
    obtain ⟨log', h₂'⟩ := ih hsize₁ h₂
    refine ⟨(c₁.erased.diagnostics.length, c₁.erased.graph) :: log', ?_⟩
    unfold useEach
    rw [use_erased hsize h₁]
    change (c₁.erased.useEach rest >>= _) = _
    rw [h₂']
    rfl

/-- Both constructions begin with the file's node, which keeps its fingerprint. -/
theorem begin_erased (options : ConstructionOptions) :
    ∃ c, begin { options with hadCompilationError := false } = .ok c ∧
      begin { options with hadCompilationError := true } = .ok c.erased ∧
      c.Defining (.sourceFile options.depsName) := by
  obtain ⟨c, hc, hdefines, hdiagnostics, hdrop⟩ := begin_ok { options with hadCompilationError := false }
  refine ⟨c, hc, ?_, ⟨hdefines.ok, hdefines.first, ?_⟩, rfl, hdrop⟩
  · obtain ⟨⟨g, i⟩, hu, h⟩ := exists_of_bind hc
    cases h
    unfold begin
    change (Graph.empty.upsert (.sourceFile options.depsName) (some options.fileFingerprint) true >>= _) = _
    rw [hu]
    have hg : g.erased = g := by
      refine ext_nodes ?_ rfl rfl
      intro j
      rw [erased_get]
      rcases upsert_cases hu with ⟨-, rfl, -⟩ | ⟨-, hp, -⟩ | ⟨hf, -⟩
      · cases j with
        | zero => rfl
        | succ j => rfl
      · cases hp
      · simp [find?, empty] at hf
    change Except.ok _ = Except.ok _
    simp only [erased, hg]
  · exact tells_provides hdefines.tells hdefines.provides

end Construction

/-! ## The remark about the finished graph -/

namespace Graph

variable {g : Graph}

/-- No implementation has a fingerprint. -/
def Bare (g : Graph) : Prop :=
  ∀ node ∈ g.nodes, node.key.isImplementation = true → node.fingerprint = none

theorem toList_erased (g : Graph) :
    g.erased.nodes.toList = g.nodes.toList.head?.toList ++ g.nodes.toList.tail.map Node.erased := by
  unfold erased
  rw [Array.toList_mapIdx]
  cases g.nodes.toList with
  | nil => rfl
  | cons node rest =>
    rw [List.mapIdx_cons]
    congr 1
    apply List.ext_getElem?
    intro i
    simp

/-- The only fingerprints that are checked are those of implementations. -/
theorem verifyNodes_erased : ∀ (nodes : List Node) (position : ℕ) (seen : List (Key × ℕ)),
    (∀ node ∈ nodes, node.key.isImplementation = true → node.fingerprint = none) →
      verifyNodes position seen (nodes.map Node.erased) = verifyNodes position seen nodes := by
  intro nodes
  induction nodes with
  | nil => intro position seen _; rfl
  | cons node rest ih =>
    intro position seen h
    have hnode : ¬ (node.key.isImplementation = true ∧ node.fingerprint.isSome = true) := by
      rintro ⟨hi, hs⟩
      rw [h node List.mem_cons_self hi] at hs
      cases hs
    have herased : ¬ (node.erased.key.isImplementation = true ∧ node.erased.fingerprint.isSome = true) := by
      rintro ⟨-, hs⟩
      cases hs
    have hrest := ih (position + 1) ((node.key, node.number) :: seen)
      (fun n hn => h n (List.mem_cons_of_mem _ hn))
    rw [List.map_cons, verifyNodes, verifyNodes, if_neg hnode, if_neg herased]
    change (if node.number ≠ position then _ else _) = _
    rw [← hrest]
    rfl

theorem verifyArcs_erased (g : Graph) : g.erased.verifyArcs = g.verifyArcs := by
  have hkey : ∀ i : ℕ, g.erased.nodes[i]?.map Node.key = g.nodes[i]?.map Node.key := by
    intro i
    rw [← keys_getElem?, ← keys_getElem?, keys_erased]
  unfold verifyArcs
  simp only [hkey]
  rfl

theorem Bare.verify_erased (h : g.Bare) : g.erased.verify = g.verify := by
  have hnodes : verifyNodes 0 [] g.erased.nodes.toList = verifyNodes 0 [] g.nodes.toList := by
    rw [toList_erased]
    have hall : ∀ node ∈ g.nodes.toList, node.key.isImplementation = true → node.fingerprint = none :=
      fun node hn => h node (Array.mem_toList_iff.1 hn)
    cases hl : g.nodes.toList with
    | nil => rfl
    | cons node rest =>
      rw [hl] at hall
      change verifyNodes 0 [] (node :: rest.map Node.erased) = _
      rw [verifyNodes, verifyNodes,
        verifyNodes_erased rest _ _ (fun n hn => hall n (List.mem_cons_of_mem _ hn))]
  unfold verify
  rw [hnodes, verifyArcs_erased, size_erased]
  rfl

theorem Bare.complaint_erased (h : g.Bare) (depsName : String) :
    g.erased.complaint depsName = g.complaint depsName := by
  unfold complaint
  rw [h.verify_erased]

end Graph

variable {options : ConstructionOptions} {definitions : List Definition} {uses : List Use}
  {defined : Graph} {c : Constructed}

/-- What is compiled elsewhere is known by interfaces. -/
def InterfacesOnly (uses : List Use) : Prop :=
  ∀ d u f, Use.external d u f ∈ uses → d.isInterface = true

/-- The first phase gives no implementation a fingerprint, and the second one only to what is compiled
elsewhere. -/
theorem Account.bare (h : Account options definitions uses defined c) (hext : InterfacesOnly uses) :
    c.graph.Bare := by
  intro node hn himpl
  by_cases hk : node.key ∈ defined.keys
  · have hold := h.meets.mem_old h.ok hn hk
    rw [h.tells.keys, List.mem_eraseDups] at hk
    obtain ⟨call, hc, hkey⟩ := List.mem_map.1 hk
    rcases definedCalls_cases hc with rfl | ⟨d, -, hpair, -⟩
    · rw [← hkey] at himpl
      cases himpl
    · rcases List.mem_cons.1 hpair with rfl | hpair
      · rw [← hkey] at himpl
        cases himpl
      · -- it is provided without a fingerprint once, so no fingerprint is agreed on
        rw [List.mem_singleton] at hpair
        subst hpair
        obtain ⟨-, hfp⟩ := merged_eq hc hkey rfl (h.tells.contents node hold)
        cases hf : node.fingerprint with
        | none => rfl
        | some x => cases (hfp x).1 hf _ hc hkey rfl
  · have hmention := List.mem_of_find?_eq_some (h.meets.new node hn hk)
    obtain ⟨use, huse, hmem⟩ := List.mem_flatMap.1 hmention
    cases use with
    | declaration d u =>
      simp only [Use.mentions, List.mem_cons, Upsert.mk.injEq, List.not_mem_nil, or_false] at hmem
      rcases hmem with ⟨-, hf, -⟩ | ⟨-, hf, -⟩ <;> exact hf
    | external d u f =>
      simp only [Use.mentions, List.mem_cons, Upsert.mk.injEq, List.not_mem_nil, or_false] at hmem
      rcases hmem with ⟨hd, -, -⟩ | ⟨-, hf, -⟩
      · have hint := hext d u f huse
        rw [← hd] at hint
        unfold Key.isInterface at hint
        unfold Key.isImplementation at himpl
        rw [decide_eq_true_eq] at hint himpl
        rw [hint] at himpl
        cases himpl
      · exact hf
    | remark diagnostic => cases hmem

/-- **Dropped fingerprints are the only difference** between two constructions. -/
theorem construct_erased (hname : options.depsName ≠ "") (definitions : List Definition)
    (hext : InterfacesOnly uses) :
    ∃ c c', construct { options with hadCompilationError := false } definitions uses = .ok c ∧
      construct { options with hadCompilationError := true } definitions uses = .ok c' ∧
      c'.graph = c.graph.erased ∧ c'.diagnostics = c.diagnostics ∧
      c.graph.nodes[0]? =
        some ⟨⟨.sourceFileProvide, .interface, "", options.depsName⟩, some options.fileFingerprint, 0,
          true⟩ := by
  obtain ⟨c₀, h₀, h₀', hdefining⟩ := Construction.begin_erased options
  have hkept : ({ options with hadCompilationError := false } : ConstructionOptions).depsName ≠ "" := hname
  have hdropped : ({ options with hadCompilationError := true } : ConstructionOptions).depsName ≠ "" := hname
  obtain ⟨defined, c, hc, haccount⟩ := construct_account hkept definitions uses
  obtain ⟨c₁, c₂, h₁, h₂, hgraph, hdiagnostics⟩ := construct_phases hkept hc
  unfold firstPhase at h₁
  rw [h₀] at h₁
  -- the other construction, phase by phase
  obtain ⟨hdefining₁, log₁, h₁'⟩ := Construction.defineEach_erased definitions hdefining h₁
  obtain ⟨log₂, h₂'⟩ := Construction.useEach_erased uses hdefining₁.provides.size_ne h₂
  have hbare : c₂.graph.Bare := by rw [hgraph]; exact haccount.bare hext
  refine ⟨c, ⟨c₂.erased.graph, c₂.erased.diagnostics ++ c₂.erased.graph.complaint options.depsName,
    log₁, log₂⟩, hc, ?_, ?_, ?_, haccount.file⟩
  · rw [construct_named hdropped]
    unfold firstPhase
    rw [h₀']
    change (c₀.erased.defineEach definitions >>= _) = _
    rw [h₁']
    change (c₁.erased.useEach uses >>= _) = _
    rw [h₂']
    rfl
  · rw [← hgraph]; rfl
  · rw [hdiagnostics]
    exact congrArg (c₂.diagnostics ++ ·) (hbare.complaint_erased options.depsName)

namespace Manifest

theorem useCalls_interfacesOnly (m : Manifest) : InterfacesOnly m.useCalls := by
  intro d u f h
  unfold useCalls at h
  rcases List.mem_append.1 h with h | h
  · obtain ⟨r, -, hr⟩ := List.mem_map.1 h
    cases hr
  · obtain ⟨r, -, hr⟩ := List.mem_map.1 h
    rw [externalCall_eq] at hr
    split at hr
    · cases hr; rfl
    · cases hr

/-- **A compilation error costs fingerprints and nothing else.** -/
theorem build_erased (m : Manifest) {options : ConstructionOptions} (hname : options.depsName ≠ "") :
    ∃ c c', m.build { options with hadCompilationError := false } = .ok c ∧
      m.build { options with hadCompilationError := true } = .ok c' ∧
      c'.graph = c.graph.erased ∧ c'.diagnostics = c.diagnostics ∧
      c.graph.nodes[0]? =
        some ⟨⟨.sourceFileProvide, .interface, "", options.depsName⟩, some options.fileFingerprint, 0, true⟩ :=
  construct_erased hname m.definitions m.useCalls_interfacesOnly

/-- Fingerprints that agree and others that do not, one from elsewhere, and one that cannot be read. -/
def fingerprinted : Manifest where
  depsName := "a.deps"
  nominals := [⟨"S", .structType, some "1S", some .zero⟩, ⟨"S", .extension "1S", none, none⟩,
    ⟨"T", .classType, some "1T", some .zero⟩]
  uses := [⟨⟨.nominal, .implementation, "1T", ""⟩, some ⟨.topLevel, .interface, "", "g"⟩⟩]
  externals := [⟨"lib", some "00000000000000000000000000000000", none⟩, ⟨"lib", some "xyz", none⟩]

theorem build_erased_fingerprinted : "b.deps" ≠ "" ∧
    ∃ c c', fingerprinted.build ⟨"b.deps", .zero, false, none, false⟩ = .ok c ∧
      fingerprinted.build ⟨"b.deps", .zero, true, none, false⟩ = .ok c' ∧
      c'.graph = c.graph.erased ∧ c'.diagnostics = c.diagnostics ∧
      c.graph.nodes[0]? = some ⟨⟨.sourceFileProvide, .interface, "", "b.deps"⟩, some .zero, 0, true⟩ := by
  have hname : (⟨"b.deps", .zero, false, none, false⟩ : ConstructionOptions).depsName ≠ "" := by decide
  exact ⟨hname, build_erased fingerprinted hname⟩

end Manifest

end DepGraph
