import DepGraph.Outlet
import DepGraph.Proofs.Construction
import DepGraph.Proofs.Graph.Reach

/-!
# Constructions never fail, and what a file provides is anchored in it

* `constructInto_total`: whatever the calls are, and whatever the outlet does, a construction gives a
  graph. Without a deps file name it is the empty one, with one error.
* `construct_anchored`: the file's own node stands first and keeps the fingerprint of the file; both sides
  of every declaration depend on it and are found from it. No call of the second phase changes a node
  that was there before it, or removes an arc (`use_keeps`).
-/

namespace DepGraph

open DepGraph.Graph

/-! ## Graphs that keep what there was -/

/-- **A graph is part of another**: its nodes stand unchanged at their places, and its arcs are there. -/
structure Graph.Keeps (g g' : Graph) : Prop where
  nodes : ∀ (i : ℕ) (node : Node), g.nodes[i]? = some node → g'.nodes[i]? = some node
  arcs : ∀ arc ∈ g.arcs, arc ∈ g'.arcs

namespace Graph

variable {g g' : Graph} {key : Key} {f : Option Fingerprint} {p : Bool} {i : ℕ}

theorem Keeps.refl (g : Graph) : g.Keeps g := ⟨fun _ _ h => h, fun _ h => h⟩

theorem Keeps.trans {g₁ g₂ g₃ : Graph} (h : g₁.Keeps g₂) (h' : g₂.Keeps g₃) : g₁.Keeps g₃ :=
  ⟨fun i node hi => h'.nodes i node (h.nodes i node hi), fun arc ha => h'.arcs arc (h.arcs arc ha)⟩

/-- An upsert keeps what there is, unless it provides a node that is there already. -/
theorem upsert_keeps (hu : g.upsert key f p = .ok (g', i)) (h : p = false ∨ g.find? key = none) :
    g.Keeps g' := by
  rcases upsert_cases hu with ⟨-, rfl, -⟩ | ⟨-, -, rfl⟩ | ⟨hf, hp, -⟩
  · refine ⟨?_, fun _ harc => harc⟩
    intro j node hj
    have hlt := (Array.getElem?_eq_some_iff.1 hj).1
    simp only [append, Array.getElem?_push]
    rw [if_neg (by omega)]; exact hj
  · exact Keeps.refl _
  · rcases h with h | h
    · rw [hp] at h; cases h
    · rw [hf] at h; cases h

theorem addArc_keeps {d u : ℕ} (ha : g.addArc d u = .ok g') : g.Keeps g' := by
  obtain ⟨rfl, -⟩ := addArc_cases ha
  refine ⟨?_, fun arc harc => mem_link.2 (Or.inl harc)⟩
  intro j node hj
  rw [nodes_link]; exact hj

end Graph

namespace Construction

variable {c c' : Construction}

/-- **Everything that a user can do**: it is known and gets an arc, or it is new and provided first. -/
theorem linkUse_cases {d : ℕ} {u : Key} (h : c.linkUse d u = .ok c') :
    (∃ i g, c.graph.find? u = some i ∧ c.graph.addArc d i = .ok g ∧ c' = { c with graph := g }) ∨
    (∃ g i g', c.graph.find? u = none ∧ c.graph.upsert u none true = .ok (g, i) ∧
      g.addArc d i = .ok g' ∧
      c' = { c with graph := g', diagnostics := c.diagnostics ++ [undefinedUser u] }) := by
  unfold linkUse at h
  split at h
  · rename_i i hfind
    obtain ⟨g, ha, h⟩ := exists_of_bind h
    cases h
    exact Or.inl ⟨i, g, hfind, ha, rfl⟩
  · rename_i hfind
    obtain ⟨⟨g, i⟩, hu, h⟩ := exists_of_bind h
    obtain ⟨g', ha, h⟩ := exists_of_bind h
    cases h
    exact Or.inr ⟨g, i, g', hfind, hu, ha, rfl⟩

theorem linkUse_keeps {d : ℕ} {u : Key} (h : c.linkUse d u = .ok c') : c.graph.Keeps c'.graph := by
  rcases linkUse_cases h with ⟨i, g, -, ha, rfl⟩ | ⟨g, i, g', hfind, hu, ha, rfl⟩
  · exact addArc_keeps ha
  · exact (upsert_keeps hu (Or.inr hfind)).trans (addArc_keeps ha)

/-- **A call of the second phase changes nothing that is there.** -/
theorem use_keeps {use : Use} (h : c.use use = .ok c') : c.graph.Keeps c'.graph := by
  -- what is used is mentioned, which provides nothing; then its user gets an arc
  cases use with
  | declaration d u =>
    obtain ⟨⟨g, i⟩, hu, h⟩ := exists_of_bind h
    exact (upsert_keeps hu (Or.inl rfl)).trans (linkUse_keeps h)
  | external d u f =>
    obtain ⟨⟨g, i⟩, hu, h⟩ := exists_of_bind h
    exact (upsert_keeps hu (Or.inl rfl)).trans (linkUse_keeps h)
  | remark diagnostic =>
    cases h
    exact Keeps.refl _

/-- **Through the second phase**, the graph after each call keeps the one before it. -/
theorem useEach_keeps : ∀ (uses : List Use) {c c' : Construction} {log : List (ℕ × Graph)},
    c.useEach uses = .ok (c', log) →
      log.length = uses.length ∧ (c.graph :: log.map (·.2)).IsChain Keeps ∧
        (c.graph :: log.map (·.2)).getLast? = some c'.graph := by
  intro uses
  induction uses with
  | nil =>
    intro c c' log h
    cases h
    exact ⟨rfl, List.IsChain.singleton _, rfl⟩
  | cons use rest ih =>
    intro c c' log h
    obtain ⟨c₁, hu, h⟩ := exists_of_bind h
    obtain ⟨⟨c₂, log₂⟩, hr, h⟩ := exists_of_bind h
    cases h
    obtain ⟨hlen, hchain, hlast⟩ := ih hr
    refine ⟨?_, ?_, ?_⟩
    · rw [List.length_cons, List.length_cons, hlen]
    · exact List.IsChain.cons_cons (use_keeps hu) hchain
    · rw [List.map_cons, List.getLast?_cons_cons]; exact hlast

theorem defineEach_length : ∀ (definitions : List Definition) {c c' : Construction}
    {log : List (Option (ℕ × ℕ) × Graph)}, c.defineEach definitions = .ok (c', log) →
      log.length = definitions.length := by
  intro definitions
  induction definitions with
  | nil => intro c c' log h; cases h; rfl
  | cons d rest ih =>
    intro c c' log h
    obtain ⟨⟨c₁, pair⟩, -, h⟩ := exists_of_bind h
    obtain ⟨⟨c₂, log₂⟩, hr, h⟩ := exists_of_bind h
    cases h
    rw [List.length_cons, List.length_cons, ih hr]

end Construction

variable {options : ConstructionOptions} {definitions : List Definition} {uses : List Use}
  {defined : Graph} {c : Constructed}

/-- The construction after the first phase. -/
def firstPhase (options : ConstructionOptions) (definitions : List Definition) :
    Except Misuse (Construction × List (Option (ℕ × ℕ) × Graph)) :=
  Construction.begin options >>= fun c => c.defineEach definitions

/-- A construction of a named file is its two phases, and a remark about the finished graph. -/
theorem construct_named (hname : options.depsName ≠ "") (definitions : List Definition)
    (uses : List Use) : construct options definitions uses =
      (firstPhase options definitions >>= fun first => first.1.useEach uses >>= fun second =>
        .ok ⟨second.1.graph, second.1.diagnostics ++ second.1.graph.complaint options.depsName,
          first.2, second.2⟩) := by
  unfold construct firstPhase
  rw [if_neg hname]
  cases Construction.begin options with
  | error e => rfl
  | ok c₀ =>
    change (c₀.defineEach definitions >>= _) = (c₀.defineEach definitions >>= _)
    congr 1
    funext first
    change (first.1.useEach uses >>= _) = _
    congr 1
    funext second
    obtain ⟨hgraph, hdiagnostics⟩ := second.1.check_eq options.depsName
    rw [← hdiagnostics]
    change Except.ok _ = _
    rw [hgraph]

theorem construct_phases (hname : options.depsName ≠ "")
    (h : construct options definitions uses = .ok c) :
    ∃ c₁ c₂, firstPhase options definitions = .ok (c₁, c.defined) ∧
      c₁.useEach uses = .ok (c₂, c.used) ∧ c₂.graph = c.graph ∧
      c.diagnostics = c₂.diagnostics ++ c₂.graph.complaint options.depsName := by
  rw [construct_named hname] at h
  obtain ⟨⟨c₁, log₁⟩, h₁, h⟩ := exists_of_bind h
  obtain ⟨⟨c₂, log₂⟩, h₂, h⟩ := exists_of_bind h
  cases h
  exact ⟨c₁, c₂, h₁, h₂, rfl, rfl⟩

/-! ## Constructions never fail -/

/-- Without a deps file name nothing is constructed. -/
theorem construct_unnamed (hname : options.depsName = "") (definitions : List Definition)
    (uses : List Use) : construct options definitions uses = .ok
      { graph := .empty
        diagnostics := [.error "cannot build a dependency graph without a deps file name"] } := by
  unfold construct
  rw [if_pos hname]
  rfl

/-- An outlet adds diagnostics to a construction, and none to that of an unnamed file. -/
theorem constructInto_run {σ : Type} (o : Outlet (StateM σ))
    (hc : construct options definitions uses = .ok c) (s : σ) :
    ∃ remarks s', (constructInto o options definitions uses).run s =
        (.ok { c with diagnostics := c.diagnostics ++ remarks }, s') ∧
      (options.depsName = "" → remarks = [] ∧ s' = s) := by
  unfold constructInto
  rw [hc]
  by_cases hdot : options.emitDot = true ∧ options.depsName ≠ ""
  · refine ⟨((c.graph.saveDot o options.dotPath).run s).1, ((c.graph.saveDot o options.dotPath).run s).2, ?_,
      fun h => absurd h hdot.2⟩
    simp only [if_pos hdot]
    rfl
  · refine ⟨[], s, ?_, fun _ => ⟨rfl, rfl⟩⟩
    simp only [if_neg hdot, List.append_nil]
    rfl

theorem firstPhase_length {c₁ : Construction} {log : List (Option (ℕ × ℕ) × Graph)}
    (h : firstPhase options definitions = .ok (c₁, log)) : log.length = definitions.length := by
  obtain ⟨c₀, -, h⟩ := exists_of_bind h
  exact Construction.defineEach_length definitions h

/-- **Every construction gives a graph**, and no outlet can prevent it. All calls are carried out if the
file has a name; if it has none, the graph is empty and the only diagnostic is an error. -/
theorem constructInto_total {σ : Type} (o : Outlet (StateM σ)) (options : ConstructionOptions)
    (definitions : List Definition) (uses : List Use) (s : σ) :
    ∃ c remarks s', construct options definitions uses = .ok c ∧
      (constructInto o options definitions uses).run s =
        (.ok { c with diagnostics := c.diagnostics ++ remarks }, s') ∧
      (options.depsName ≠ "" →
        c.defined.length = definitions.length ∧ c.used.length = uses.length) ∧
      (options.depsName = "" → c.graph = .empty ∧
        (∃ message, c.diagnostics = [.error message]) ∧ remarks = [] ∧ s' = s) := by
  by_cases hname : options.depsName = ""
  · have hc := construct_unnamed hname definitions uses
    obtain ⟨remarks, s', hrun, hnone⟩ := constructInto_run o hc s
    exact ⟨_, remarks, s', hc, hrun, absurd hname, fun h => ⟨rfl, ⟨_, rfl⟩, hnone h⟩⟩
  · obtain ⟨defined, c, hc, -⟩ := construct_account hname definitions uses
    obtain ⟨c₁, c₂, hfirst, hsecond, -⟩ := construct_phases hname hc
    obtain ⟨remarks, s', hrun, -⟩ := constructInto_run o hc s
    refine ⟨c, remarks, s', hc, hrun, fun _ => ⟨?_, ?_⟩, fun h => absurd h hname⟩
    · exact firstPhase_length hfirst
    · exact (Construction.useEach_keeps uses hsecond).1

/-! ## What the file provides -/

theorem mem_declarations {d : Key × Option Fingerprint} : d ∈ declarations definitions ↔
    (∃ definition ∈ definitions, d ∈ definition.declarations) ∧ d.1.kind ≠ .sourceFileProvide := by
  unfold declarations
  rw [List.mem_filter, List.mem_flatMap, decide_eq_true_eq]

/-- The node of a key that the first phase provides: it has a fingerprint iff all its provisions agree. -/
theorem Account.provided (h : Account options definitions uses defined c) {call : Upsert}
    (hc : call ∈ definedCalls options definitions) (hp : call.provides = true) :
    ∃ (i : ℕ) (f : Option Fingerprint), c.graph.nodes[i]? = some ⟨call.key, f, i, true⟩ ∧ ∀ x, f = some x ↔
      ∀ other ∈ definedCalls options definitions, other.key = call.key → other.provides = true →
        other.fingerprint = some x := by
  have hkey : call.key ∈ defined.keys := by
    rw [h.tells.keys, List.mem_eraseDups]
    exact List.mem_map.2 ⟨call, hc, rfl⟩
  obtain ⟨node, hn, hk⟩ := mem_keys.1 hkey
  obtain ⟨i, hi⟩ := Array.mem_iff_getElem?.1 hn
  obtain ⟨hprov, hfp⟩ := merged_eq hc hk.symm hp (h.tells.contents node hn)
  have hnum := h.defined_ok.number i node hi
  refine ⟨i, node.fingerprint, ?_, ?_⟩
  · have hnode : node = ⟨call.key, node.fingerprint, i, true⟩ := by
      rw [← hk, ← hnum, ← hprov]
    rw [← hnode]
    exact h.meets.old i node hi
  · intro x
    rw [← hk]; exact hfp x

theorem mem_definedCalls_pair {d : Key × Option Fingerprint} (hd : d ∈ declarations definitions)
    {call : Upsert} (hc : call ∈ pairCalls options.hadCompilationError d) :
    call ∈ definedCalls options definitions :=
  List.mem_cons_of_mem _ (List.mem_flatMap.2 ⟨d, hd, hc⟩)

/-- The calls of a first phase are that of the file, whose key no declaration has, and those of pairs. -/
theorem definedCalls_cases {call : Upsert} (hc : call ∈ definedCalls options definitions) :
    call = ⟨.sourceFile options.depsName, some options.fileFingerprint, true⟩ ∨
      ∃ d ∈ declarations definitions, call ∈ pairCalls options.hadCompilationError d ∧
        call.key.kind ≠ .sourceFileProvide := by
  rcases List.mem_cons.1 hc with rfl | hc
  · exact Or.inl rfl
  · obtain ⟨d, hd, hc⟩ := List.mem_flatMap.1 hc
    have hkind := (mem_declarations.1 hd).2
    refine Or.inr ⟨d, hd, hc, ?_⟩
    rcases List.mem_cons.1 hc with rfl | hc
    · exact hkind
    · rw [List.mem_singleton] at hc
      rw [hc]; exact hkind

/-- **The file's own node stands first**, with the fingerprint of the whole file. -/
theorem Account.file (h : Account options definitions uses defined c) :
    c.graph.nodes[0]? =
      some ⟨.sourceFile options.depsName, some options.fileFingerprint, 0, true⟩ := by
  obtain ⟨i, f, hi, hf⟩ := h.provided List.mem_cons_self rfl
  have hfile : f = some options.fileFingerprint := by
    rw [hf]
    intro other hother hkey _
    rcases definedCalls_cases hother with rfl | ⟨d, -, -, hkind⟩
    · rfl
    · rw [hkey] at hkind; exact absurd rfl hkind
  -- it is the first key of the first phase, so its place is the first
  have hfirst : defined.keys[0]? = some (Key.sourceFile options.depsName) := by
    rw [h.tells.keys, definedCalls, List.map_cons, List.eraseDups_cons]; rfl
  have hfirst' : c.graph.keys[0]? = some (Key.sourceFile options.depsName) := by
    rw [keys_getElem?] at hfirst ⊢
    obtain ⟨node, hnode, hk⟩ := Option.map_eq_some_iff.1 hfirst
    rw [h.meets.old 0 node hnode, Option.map_some, hk]
  have hplace : c.graph.keys[i]? = some (Key.sourceFile options.depsName) := by
    rw [keys_getElem?, hi]; rfl
  have hzero := h.ok.place_unique hplace hfirst'
  subst hzero
  rw [hi, hfile]

/-- An arc between keys is an arc between their places. -/
theorem Account.arc (h : Account options definitions uses defined c) {i j : ℕ} {d u : Key}
    (harc : (d, u) ∈ allArcs options definitions uses) (hne : d ≠ u) (hi : c.graph.keys[i]? = some d)
    (hj : c.graph.keys[j]? = some u) : ⟨i, j⟩ ∈ c.graph.arcs := by
  obtain ⟨i', j', hmem, hi', hj'⟩ := (h.joins d u).2 ⟨harc, hne⟩
  rw [h.ok.place_unique hi hi', h.ok.place_unique hj hj']
  exact hmem

/-- **Both sides of a declaration**: the interface depends on the file's node, and the implementation, which
has no fingerprint, on the interface. -/
theorem Account.declared (h : Account options definitions uses defined c)
    {d : Key × Option Fingerprint} (hd : d ∈ declarations definitions) :
    ∃ (i j : ℕ) (f : Option Fingerprint), c.graph.nodes[i]? = some ⟨d.1.interface, f, i, true⟩ ∧
      c.graph.nodes[j]? = some ⟨d.1.implementation, none, j, true⟩ ∧
      ⟨0, i⟩ ∈ c.graph.arcs ∧ ⟨i, j⟩ ∈ c.graph.arcs := by
  obtain ⟨i, f, hi, -⟩ := h.provided (mem_definedCalls_pair hd List.mem_cons_self) rfl
  have hcall : (⟨d.1.implementation, none, true⟩ : Upsert) ∈ definedCalls options definitions :=
    mem_definedCalls_pair hd (List.mem_cons_of_mem _ List.mem_cons_self)
  obtain ⟨j, f', hj, hf'⟩ := h.provided hcall rfl
  have hnone : f' = none := by
    cases f' with
    | none => rfl
    | some x => cases (hf' x).1 rfl _ hcall rfl rfl
  subst hnone
  have hfile : c.graph.keys[0]? = some (Key.sourceFile options.depsName) := by
    rw [keys_getElem?, h.file]; rfl
  have hikey : c.graph.keys[i]? = some d.1.interface := by rw [keys_getElem?, hi]; rfl
  have hjkey : c.graph.keys[j]? = some d.1.implementation := by rw [keys_getElem?, hj]; rfl
  have harcs : ∀ arc ∈ pairArcs (.sourceFile options.depsName) d,
      arc ∈ allArcs options definitions uses :=
    fun arc harc => List.mem_append_left _ (List.mem_flatMap.2 ⟨d, hd, harc⟩)
  refine ⟨i, j, f, hi, hj, h.arc (harcs _ (by simp [pairArcs])) ?_ hfile hikey,
    h.arc (harcs _ (by simp [pairArcs])) ?_ hikey hjkey⟩
  · intro heq
    exact (mem_declarations.1 hd).2 (congrArg Key.kind heq).symm
  · intro heq
    cases congrArg Key.aspect heq

/-- Both sides of a key are provided, hang on the first node one below the other, and are found from it. -/
def Graph.Anchors (g : Graph) (key : Key) : Prop :=
  ∃ (i j : ℕ) (f : Option Fingerprint) (found : List ℕ),
    g.nodes[i]? = some ⟨⟨key.kind, .interface, key.context, key.name⟩, f, i, true⟩ ∧
    g.nodes[j]? = some ⟨⟨key.kind, .implementation, key.context, key.name⟩, none, j, true⟩ ∧
    g.dependsOn i 0 = true ∧ g.dependsOn j i = true ∧
    g.reachableFrom 0 = .ok found ∧ i ∈ found ∧ j ∈ found

theorem Account.anchors (h : Account options definitions uses defined c)
    {d : Key × Option Fingerprint} (hd : d ∈ declarations definitions) : c.graph.Anchors d.1 := by
  obtain ⟨i, j, f, hi, hj, h0i, hij⟩ := h.declared hd
  obtain ⟨found, hfound, hpath⟩ :=
    reachableFrom_path h.ok (Array.getElem?_eq_some_iff.1 h.file).1
  refine ⟨i, j, f, found, hi, hj, dependsOn_iff.2 h0i, dependsOn_iff.2 hij, hfound, ?_, ?_⟩
  · exact hpath i (.single h0i)
  · exact hpath j (.tail (.single h0i) hij)

/-- **What a file provides is anchored in it, and stays.** The graph after the first phase is the one
that is constructed without uses, and each call of the second phase keeps the graph before it. -/
theorem construct_anchored (hname : options.depsName ≠ "") (definitions : List Definition)
    (uses : List Use) : ∃ first c, construct options definitions [] = .ok first ∧
      construct options definitions uses = .ok c ∧
      c.graph.nodes[0]? =
        some ⟨⟨.sourceFileProvide, .interface, "", options.depsName⟩, some options.fileFingerprint, 0, true⟩ ∧
      (∀ definition ∈ definitions, ∀ d ∈ definition.declarations, d.1.kind ≠ .sourceFileProvide →
        c.graph.Anchors d.1) ∧
      c.used.length = uses.length ∧ (first.graph :: c.used.map (·.2)).IsChain Keeps ∧
      (first.graph :: c.used.map (·.2)).getLast? = some c.graph := by
  obtain ⟨-, first, hfirst, -⟩ := construct_account hname definitions []
  obtain ⟨defined, c, hc, haccount⟩ := construct_account hname definitions uses
  obtain ⟨c₁, c₂, h₁, h₂, hg₂, -⟩ := construct_phases hname hc
  -- the first phase is the same in both, and without uses it is all
  obtain ⟨c₁', c₂', h₁', h₂', hg₂', -⟩ := construct_phases hname hfirst
  obtain ⟨rfl, -⟩ := Prod.mk.inj (Except.ok.inj (h₁.symm.trans h₁'))
  obtain ⟨rfl, -⟩ := Prod.mk.inj (Except.ok.inj h₂')
  obtain ⟨hlen, hchain, hlast⟩ := Construction.useEach_keeps uses h₂
  rw [hg₂'] at hchain hlast
  rw [hg₂] at hlast
  refine ⟨first, c, hfirst, hc, haccount.file, ?_, hlen, hchain, hlast⟩
  intro definition hdef d hd hkind
  exact haccount.anchors (mem_declarations.2 ⟨⟨definition, hdef, hd⟩, hkind⟩)

/-- A key that is defined by either side, and with two fingerprints. -/
def redefined : List Definition :=
  [.one ⟨.topLevel, .implementation, "", "f"⟩ (some .zero), .one ⟨.topLevel, .interface, "", "f"⟩ none,
    .one (.sourceFile "b.deps") (some .zero)]

/-- Uses of the file itself and of an implementation, and a provided key as something compiled elsewhere. -/
def crossing : List Use :=
  [.declaration (.sourceFile "a.deps") ⟨.topLevel, .interface, "", "f"⟩,
    .declaration ⟨.topLevel, .implementation, "", "f"⟩ (.sourceFile "a.deps"),
    .external ⟨.topLevel, .interface, "", "f"⟩ ⟨.topLevel, .interface, "", "g"⟩ (some .zero)]

theorem construct_anchored_crossing : "a.deps" ≠ "" ∧
    ∃ first c, construct ⟨"a.deps", .zero, false, none, false⟩ redefined [] = .ok first ∧
      construct ⟨"a.deps", .zero, false, none, false⟩ redefined crossing = .ok c ∧
      c.graph.nodes[0]? = some ⟨⟨.sourceFileProvide, .interface, "", "a.deps"⟩, some .zero, 0, true⟩ ∧
      c.graph.Anchors ⟨.topLevel, .implementation, "", "f"⟩ ∧
      c.used.length = crossing.length ∧ (first.graph :: c.used.map (·.2)).IsChain Keeps ∧
      (first.graph :: c.used.map (·.2)).getLast? = some c.graph := by
  have hname : (⟨"a.deps", .zero, false, none, false⟩ : ConstructionOptions).depsName ≠ "" := by decide
  obtain ⟨first, c, hfirst, hc, hfile, hanchors, hkeeps⟩ := construct_anchored hname redefined crossing
  refine ⟨hname, first, c, hfirst, hc, hfile, ?_, hkeeps⟩
  exact hanchors _ List.mem_cons_self _ List.mem_cons_self (by decide)

end DepGraph
