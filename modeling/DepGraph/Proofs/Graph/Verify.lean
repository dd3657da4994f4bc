import DepGraph.Graph.Verify
import DepGraph.Proofs.Graph.Run

/-!
# What the check of a graph finds

* `Key.verify_ok_iff`: a key passes iff it has the parts that its kind asks for (`Key.WellFormed`).
* `Graph.OK.verify_eq`: where the parts of a graph fit together, nothing but single nodes can be wrong, and
  the check finds the first thing that is.
* `verify_run`: hence after any calls, on an empty graph or on one from a deps file, a graph passes iff all
  its nodes are sound, and else the node with the lowest number is to blame.
-/

namespace DepGraph

/-! ## Keys -/

namespace Key

variable {k : Key}

/-- **A key has the parts that its kind asks for.** Nominals and their members have a context, and all but
nominals and potential members have a name. -/
structure WellFormed (k : Key) : Prop where
  external : k.kind = .externalDepend → k.aspect = .interface
  context : k.context ≠ "" ↔ k.kind = .nominal ∨ k.kind = .potentialMember ∨ k.kind = .member
  name : k.name ≠ "" ↔ ¬ (k.kind = .nominal ∨ k.kind = .potentialMember)

theorem wellFormed_iff : k.WellFormed ↔ (k.kind = .externalDepend → k.aspect = .interface) ∧
    (k.context ≠ "" ↔ k.kind = .nominal ∨ k.kind = .potentialMember ∨ k.kind = .member) ∧
    (k.name ≠ "" ↔ ¬ (k.kind = .nominal ∨ k.kind = .potentialMember)) :=
  ⟨fun h => ⟨h.external, h.context, h.name⟩, fun h => ⟨h.1, h.2.1, h.2.2⟩⟩

instance (k : Key) : Decidable k.WellFormed := decidable_of_iff' _ wellFormed_iff

theorem verify_ok_iff : k.verify = .ok () ↔ k.WellFormed := by
  obtain ⟨kind, aspect, context, name⟩ := k
  rw [wellFormed_iff]
  unfold verify
  cases kind <;> cases aspect <;> by_cases hc : context = "" <;> by_cases hn : name = "" <;>
    simp [isInterface, hc, hn]

end Key

/-! ## Nodes -/

/-- Nothing is wrong with a node. -/
structure Node.Sound (n : Node) : Prop where
  key : n.key.WellFormed
  fingerprint : n.key.aspect = .implementation → n.fingerprint = none

/-- **What is wrong with a node**: its key, or else a fingerprint that an implementation must not have. -/
inductive Node.Flawed (n : Node) : Graph.Flaw → Prop where
  | key {flaw : Key.Flaw} (h : n.key.verify = .error flaw) : n.Flawed (.key flaw)
  | fingerprint (hkey : n.key.WellFormed) (himpl : n.key.aspect = .implementation)
    (h : n.fingerprint ≠ none) : n.Flawed (.implementationFingerprint n.key)

/-- The flaw of a node, if there is one. -/
def Node.flaw? (n : Node) : Option Graph.Flaw :=
  match n.key.verify with
  | .error flaw => some (.key flaw)
  | .ok () =>
    if n.key.isImplementation ∧ n.fingerprint.isSome then some (.implementationFingerprint n.key)
    else none

theorem Node.flaw?_eq_none {n : Node} : n.flaw? = none ↔ n.Sound := by
  unfold flaw?
  cases hv : n.key.verify with
  | error flaw =>
    have hk : ¬ n.key.WellFormed := by rw [← Key.verify_ok_iff, hv]; exact nofun
    exact ⟨nofun, fun h => absurd h.key hk⟩
  | ok =>
    have hk := Key.verify_ok_iff.1 hv
    cases hf : n.fingerprint with
    | none => simpa using ⟨hk, fun _ => hf⟩
    | some f =>
      simp only [Key.isImplementation, decide_eq_true_eq, Option.isSome_some, and_true]
      constructor
      · intro h
        refine ⟨hk, fun himpl => ?_⟩
        rw [if_pos himpl] at h
        cases h
      · intro h
        rw [if_neg]
        intro himpl
        rw [h.fingerprint himpl] at hf
        cases hf

theorem Node.flaw?_eq_some {n : Node} {flaw : Graph.Flaw} : n.flaw? = some flaw ↔ n.Flawed flaw := by
  unfold flaw?
  cases hv : n.key.verify with
  | error found =>
    constructor
    · intro h
      cases h
      exact .key hv
    · intro h
      cases h with
      | key h => rw [hv] at h; cases h; rfl
      | fingerprint hkey _ _ => rw [Key.verify_ok_iff.2 hkey] at hv; cases hv
  | ok =>
    simp only
    constructor
    · intro h
      split at h
      · rename_i hn
        cases h
        exact .fingerprint (Key.verify_ok_iff.1 hv) (of_decide_eq_true hn.1)
          (Option.isSome_iff_ne_none.1 hn.2)
      · cases h
    · intro h
      cases h with
      | key h => rw [hv] at h; cases h
      | fingerprint _ himpl h =>
        exact if_pos ⟨decide_eq_true himpl, Option.isSome_iff_ne_none.2 h⟩

namespace Graph

variable {g start : Graph} {flaw : Flaw}

/-! ## The check -/

/-- Nodes that are numbered by place and bring new keys are checked one by one. -/
theorem verifyNodes_eq : ∀ (nodes : List Node) (position : ℕ) (seen : List (Key × ℕ)),
    (∀ (i : ℕ) (node : Node), nodes[i]? = some node → node.number = position + i) →
    (seen.map Prod.fst ++ nodes.map Node.key).Nodup →
    verifyNodes position seen nodes =
      match nodes.findSome? Node.flaw? with
      | none => .ok ()
      | some flaw => .error flaw := by
  intro nodes
  induction nodes with
  | nil => intro position seen _ _; rfl
  | cons node rest ih =>
    intro position seen hnum hkeys
    have hposition : node.number = position := by simpa using hnum 0 node rfl
    rw [List.map_cons] at hkeys
    have hnew : seen.lookup node.key = none := by
      rw [List.lookup_eq_none_iff]
      intro entry he
      rw [bne_iff_ne]
      exact fun heq => (List.nodup_append.1 hkeys).2.2 entry.1 (List.mem_map_of_mem he) node.key
        List.mem_cons_self heq.symm
    -- what has been seen grows by the key of this node
    have hkeys' : (((node.key, node.number) :: seen).map Prod.fst ++ rest.map Node.key).Nodup :=
      List.nodup_middle.1 hkeys
    have hnum' : ∀ (i : ℕ) (n : Node), rest[i]? = some n → n.number = position + 1 + i := by
      intro i n hn
      rw [hnum (i + 1) n hn]
      omega
    have hrest := ih _ _ hnum' hkeys'
    rw [verifyNodes, if_neg (not_not.2 hposition), hnew, List.findSome?_cons]
    unfold Node.flaw?
    cases node.key.verify with
    | error flaw => rfl
    | ok =>
      simp only
      split
      · rfl
      · exact hrest

/-- **In a graph whose parts fit together only single nodes can be wrong**, and the first that is gives the
answer. -/
theorem OK.verify_eq (hg : g.OK) :
    g.verify = match g.nodes.toList.findSome? Node.flaw? with
      | none => .ok ()
      | some flaw => .error flaw := by
  have hnum : ∀ (i : ℕ) (node : Node), g.nodes.toList[i]? = some node → node.number = 0 + i := by
    intro i node hn
    rw [Nat.zero_add]
    exact hg.number i node (by rwa [Array.getElem?_toList] at hn)
  have hnodes := verifyNodes_eq g.nodes.toList 0 [] hnum hg.keys_nodup
  have harcs : g.verifyArcs = .ok () := by
    have hnone : g.arcs.toList.find? (fun arc => arc.definition = arc.use) = none := by
      rw [List.find?_eq_none]
      intro arc ha
      simpa using hg.arc_ne arc (Array.mem_toList_iff.1 ha)
    rw [verifyArcs, hnone]
  unfold verify
  rw [hnodes, harcs, hg.size]
  cases g.nodes.toList.findSome? Node.flaw? with
  | none => simp [bind, Except.bind, pure, Except.pure]
  | some flaw => rfl

theorem OK.verify_ok_iff (hg : g.OK) : g.verify = .ok () ↔ ∀ node ∈ g.nodes, node.Sound := by
  have hnone : g.nodes.toList.findSome? Node.flaw? = none ↔ ∀ node ∈ g.nodes, node.Sound := by
    simp only [List.findSome?_eq_none_iff, Node.flaw?_eq_none, Array.mem_toList_iff]
  rw [← hnone, hg.verify_eq]
  cases g.nodes.toList.findSome? Node.flaw? with
  | none => simp
  | some flaw => simp

/-- The numbers of nodes are their places, so what stands before a node has a lower number. -/
theorem OK.mem_before (hg : g.OK) {before after : List Node} {node other : Node}
    (hl : g.nodes.toList = before ++ node :: after) (hother : other ∈ g.nodes) :
    other ∈ before ↔ other.number < node.number := by
  have hplace : ∀ {i : ℕ} {n : Node}, (before ++ node :: after)[i]? = some n → n.number = i := by
    intro i n hn
    rw [← hl, Array.getElem?_toList] at hn
    exact hg.number i n hn
  have hnode : node.number = before.length := hplace (by simp)
  constructor
  · intro h
    obtain ⟨i, hi, rfl⟩ := List.mem_iff_getElem.1 h
    rw [hnode, hplace (by rw [List.getElem?_append_left hi]; exact List.getElem?_eq_getElem hi)]
    exact hi
  · intro h
    obtain ⟨i, hi⟩ := List.mem_iff_getElem?.1 (hl ▸ Array.mem_toList_iff.2 hother)
    rw [hnode, hplace hi] at h
    rw [List.getElem?_append_left h] at hi
    exact List.mem_of_getElem? hi

/-- **The node with the lowest number is to blame.** -/
theorem OK.verify_error_iff (hg : g.OK) : g.verify = .error flaw ↔
    ∃ node ∈ g.nodes, node.Flawed flaw ∧
      ∀ other ∈ g.nodes, other.number < node.number → other.Sound := by
  have hsome : g.verify = .error flaw ↔ g.nodes.toList.findSome? Node.flaw? = some flaw := by
    rw [hg.verify_eq]
    cases g.nodes.toList.findSome? Node.flaw? with
    | none => simp
    | some found => simp
  rw [hsome, List.findSome?_eq_some_iff]
  constructor
  · rintro ⟨before, node, after, hl, hnode, hbefore⟩
    have hmem : node ∈ g.nodes := by rw [← Array.mem_toList_iff, hl]; simp
    refine ⟨node, hmem, Node.flaw?_eq_some.1 hnode, ?_⟩
    intro other hother hlt
    exact Node.flaw?_eq_none.1 (hbefore other ((hg.mem_before hl hother).2 hlt))
  · rintro ⟨node, hmem, hnode, hbefore⟩
    obtain ⟨before, after, hl⟩ := List.append_of_mem (Array.mem_toList_iff.2 hmem)
    refine ⟨before, node, after, hl, Node.flaw?_eq_some.2 hnode, ?_⟩
    intro other hother
    have hin : other ∈ g.nodes := by rw [← Array.mem_toList_iff, hl]; simp [hother]
    exact Node.flaw?_eq_none.2 (hbefore other hin ((hg.mem_before hl hin).1 hother))

/-- **What the check finds after any calls.** A graph passes iff all its nodes are sound. Else the node with
the lowest number of those that are not is to blame, for its key or else for its fingerprint; numbers, doubled
keys, arcs and the index are never at fault. -/
theorem verify_run (hstart : start = empty ∨ ∃ file : DepsFile, file.graph = .ok start)
    (calls : List Call) :
    ((start.run calls).verify = .ok () ↔ ∀ node ∈ (start.run calls).nodes, node.Sound) ∧
    (∀ flaw, (start.run calls).verify = .error flaw ↔
      ∃ node ∈ (start.run calls).nodes, node.Flawed flaw ∧
        ∀ other ∈ (start.run calls).nodes, other.number < node.number → other.Sound) ∧
    ∀ flaw, (start.run calls).verify = .error flaw →
      (∃ found, flaw = .key found) ∨ ∃ key, flaw = .implementationFingerprint key := by
  have hreach : Reachable start := by
    rcases hstart with rfl | ⟨file, hfile⟩
    · exact .new
    · exact .load hfile
  have hok := (hreach.run calls).ok
  refine ⟨hok.verify_ok_iff, fun flaw => hok.verify_error_iff, ?_⟩
  intro flaw h
  obtain ⟨node, -, hnode, -⟩ := hok.verify_error_iff.1 h
  cases hnode with
  | key _ => exact Or.inl ⟨_, rfl⟩
  | fingerprint _ _ _ => exact Or.inr ⟨_, rfl⟩

/-- A file that holds a graph, though an implementation has a fingerprint in it, and a nominal a name. -/
def tampered : DepsFile where
  header := ⟨"DEPS", 1, 0, ""⟩
  nodes := [⟨⟨.topLevel, .interface, "", "f"⟩, none, 0, [], true⟩,
    ⟨⟨.topLevel, .implementation, "", "f"⟩, some .zero, 1, [0], true⟩,
    ⟨⟨.nominal, .interface, "1S", "S"⟩, none, 2, [1], false⟩]

/-- Calls of which the first brings keys that lack a name, and the last is refused. -/
def nameless : List Call := [.pair ⟨.member, .interface, "1S", ""⟩ (some .zero), .arc 2 3, .arc 0 9]

theorem verify_run_tampered : ∃ start, tampered.graph = .ok start ∧
    ((start.run nameless).verify = .ok () ↔ ∀ node ∈ (start.run nameless).nodes, node.Sound) ∧
    (∀ flaw, (start.run nameless).verify = .error flaw ↔
      ∃ node ∈ (start.run nameless).nodes, node.Flawed flaw ∧
        ∀ other ∈ (start.run nameless).nodes, other.number < node.number → other.Sound) ∧
    ∀ flaw, (start.run nameless).verify = .error flaw →
      (∃ found, flaw = .key found) ∨ ∃ key, flaw = .implementationFingerprint key := by
  obtain ⟨start, h⟩ := exists_of_isOk (by decide +kernel : tampered.graph.isOk = true)
  exact ⟨start, h, verify_run (Or.inr ⟨tampered, h⟩) nameless⟩

end Graph

end DepGraph
