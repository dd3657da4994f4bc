import DepGraph.DepsFile.Basic
import Mathlib.Data.List.Nodup
import Mathlib.Tactic.Common

/-!
# What holds of every graph

* `Graph.OK`: the parts of a graph fit together. Nodes are numbered by place, the index finds exactly
  the nodes there are, and arcs join two different nodes, each pair at most once.
* `upsert_cases`: everything that an upsert can do.
* `Reachable.ok`: a graph that was made by upserts, pairs and arcs, from nothing or from a deps file, is
  `OK`.
-/

namespace DepGraph

theorem exists_of_isOk {ε α : Type} {x : Except ε α} (h : x.isOk = true) : ∃ a, x = .ok a := by
  cases x with
  | error e => cases h
  | ok a => exact ⟨a, rfl⟩

/-- A sequence that succeeds has a first part that does. -/
theorem exists_of_bind {ε α β : Type} {x : Except ε α} {k : α → Except ε β} {b : β}
    (h : (x >>= k) = .ok b) : ∃ a, x = .ok a ∧ k a = .ok b := by
  cases x with
  | error e => cases h
  | ok a => exact ⟨a, rfl, h⟩

theorem Node.provide_ok {n n' : Node} {f : Option Fingerprint} (h : n.provide f = .ok n') :
    n'.key = n.key ∧ n'.number = n.number ∧ n'.provides = true := by
  unfold Node.provide at h
  split at h
  · split at h
    · cases h
    · cases h; exact ⟨rfl, rfl, rfl⟩
  · split at h <;> cases h <;> exact ⟨rfl, rfl, rfl⟩

namespace Graph

variable {g g' : Graph} {key : Key} {f : Option Fingerprint} {p : Bool} {i j : ℕ}

/-- The keys of the nodes, in sequence. -/
def keys (g : Graph) : List Key := g.nodes.toList.map Node.key

theorem keys_getElem? (g : Graph) (i : ℕ) : g.keys[i]? = g.nodes[i]?.map Node.key := by
  simp [keys]

theorem length_keys (g : Graph) : g.keys.length = g.nodes.size := by simp [keys]

theorem lt_of_keys_get {k : Key} (h : g.keys[i]? = some k) : i < g.nodes.size := by
  rw [← length_keys]; exact (List.getElem?_eq_some_iff.1 h).1

theorem mem_keys {key : Key} : key ∈ g.keys ↔ ∃ node ∈ g.nodes, node.key = key := by
  simp [keys]

/-- **The parts of a graph fit together.** -/
structure OK (g : Graph) : Prop where
  number : ∀ (i : ℕ) (node : Node), g.nodes[i]? = some node → node.number = i
  find : ∀ (key : Key) (i : ℕ), g.find? key = some i ↔ g.keys[i]? = some key
  size : g.index.size = g.nodes.size
  arc_lt : ∀ arc ∈ g.arcs, arc.definition < g.nodes.size ∧ arc.use < g.nodes.size
  arc_ne : ∀ arc ∈ g.arcs, arc.definition ≠ arc.use
  arcs_nodup : g.arcs.toList.Nodup

theorem OK.find_none (hg : g.OK) : g.find? key = none ↔ key ∉ g.keys := by
  constructor
  · intro h hk
    obtain ⟨i, hi⟩ := List.mem_iff_getElem?.1 hk
    rw [(hg.find key i).2 hi] at h
    cases h
  · intro h
    cases hf : g.find? key with
    | none => rfl
    | some i => exact absurd (List.mem_of_getElem? ((hg.find key i).1 hf)) h

theorem OK.find_lt (hg : g.OK) (h : g.find? key = some i) : i < g.nodes.size :=
  lt_of_keys_get ((hg.find key i).1 h)

theorem OK.key_of_find (hg : g.OK) {node : Node} (h : g.find? key = some i)
    (hi : g.nodes[i]? = some node) : node.key = key := by
  have hk := (hg.find key i).1 h
  rw [keys_getElem?, hi] at hk
  exact Option.some.inj hk

/-- A key has one place: the index cannot give two. -/
theorem OK.place_unique (hg : g.OK) (hi : g.keys[i]? = some key) (hj : g.keys[j]? = some key) : i = j := by
  have hfi := (hg.find key i).2 hi
  rw [(hg.find key j).2 hj] at hfi
  exact (Option.some.inj hfi).symm

/-- No two nodes share a key. -/
theorem OK.keys_nodup (hg : g.OK) : g.keys.Nodup := by
  rw [List.nodup_iff_getElem?_ne_getElem?]
  intro i j hij hj heq
  obtain ⟨k, hk⟩ : ∃ k, g.keys[j]? = some k := ⟨_, List.getElem?_eq_getElem hj⟩
  have := hg.place_unique (heq.trans hk) hk
  omega

theorem empty_ok : empty.OK where
  number := by intro i node h; simp [empty] at h
  find := by intro key i; simp [find?, empty, keys]
  size := by simp [empty]
  arc_lt := by intro arc h; simp [empty] at h
  arc_ne := by intro arc h; simp [empty] at h
  arcs_nodup := by simp [empty]

/-! ## Adding a node -/

theorem keys_append : (g.append key f p).keys = g.keys ++ [key] := by simp [keys, append]

theorem size_append : (g.append key f p).nodes.size = g.nodes.size + 1 := by simp [append]

theorem find_append (k : Key) :
    (g.append key f p).find? k = if key = k then some g.nodes.size else g.find? k := by
  simp only [find?, append]
  rw [Std.TreeMap.getElem?_insert]
  simp only [Std.LawfulEqCmp.compare_eq_iff_eq]

theorem append_ok (hg : g.OK) (hnew : g.find? key = none) : (g.append key f p).OK where
  number := by
    intro i node h
    simp only [append, Array.getElem?_push] at h
    split at h
    · rename_i hi
      cases h; exact hi.symm
    · exact hg.number i node h
  find := by
    intro k i
    rw [find_append, keys_append]
    have hk := hg.find_none.1 hnew
    -- the new key has the last place and no other; the places of all others stay
    by_cases hkk : key = k
    · subst hkk
      rw [if_pos rfl]
      constructor
      · intro h; cases h
        rw [← length_keys]; simp
      · intro h
        rw [List.getElem?_append] at h
        split at h
        · exact absurd (List.mem_of_getElem? h) hk
        · rename_i hi
          have := (List.getElem?_eq_some_iff.1 h).1
          simp only [List.length_singleton, length_keys] at this hi
          congr 1; omega
    · rw [if_neg hkk, hg.find]
      constructor
      · intro h
        rw [List.getElem?_append_left (List.getElem?_eq_some_iff.1 h).1]; exact h
      · intro h
        rw [List.getElem?_append] at h
        split at h
        · exact h
        · have hm := List.mem_of_getElem? h
          rw [List.mem_singleton] at hm
          exact absurd hm.symm hkk
  size := by
    -- the index grows as well, for the key was not in it
    have hc : g.index.contains key = false := by
      simpa [find?, ← Std.TreeMap.isSome_getElem?_eq_contains] using hnew
    simp only [append, Std.TreeMap.size_insert, hc, Array.size_push, hg.size]
    rfl
  arc_lt := by
    intro arc h
    have := hg.arc_lt arc h
    rw [size_append]; omega
  arc_ne := hg.arc_ne
  arcs_nodup := hg.arcs_nodup

/-! ## Changing a node -/

/-- The graph with another node at a place. -/
def replace (g : Graph) (i : ℕ) (node : Node) : Graph :=
  { g with nodes := g.nodes.setIfInBounds i node }

theorem nodes_replace (node : Node) (j : ℕ) :
    (g.replace i node).nodes[j]? = if i = j then (if i < g.nodes.size then some node else none)
      else g.nodes[j]? := by
  simp only [replace, Array.getElem?_setIfInBounds]

theorem keys_replace {old node : Node} (hi : g.nodes[i]? = some old) (hk : node.key = old.key) :
    (g.replace i node).keys = g.keys := by
  apply List.ext_getElem?
  intro j
  rw [keys_getElem?, keys_getElem?, nodes_replace]
  split
  · rename_i hij
    subst hij
    rw [if_pos (Array.getElem?_eq_some_iff.1 hi).1, hi]
    simp [hk]
  · rfl

theorem replace_ok (hg : g.OK) {old node : Node} (hi : g.nodes[i]? = some old)
    (hk : node.key = old.key) (hn : node.number = old.number) : (g.replace i node).OK where
  number := by
    intro j n h
    rw [nodes_replace] at h
    split at h
    · rename_i hij
      subst hij
      rw [if_pos (Array.getElem?_eq_some_iff.1 hi).1] at h
      cases h
      rw [hn]; exact hg.number i old hi
    · exact hg.number j n h
  find := by
    intro key j
    rw [keys_replace hi hk]; exact hg.find key j
  size := by
    simp only [replace, Array.size_setIfInBounds]; exact hg.size
  arc_lt := by
    intro arc h
    simp only [replace, Array.size_setIfInBounds]; exact hg.arc_lt arc h
  arc_ne := hg.arc_ne
  arcs_nodup := hg.arcs_nodup

/-! ## Adding an arc -/

theorem dependsOn_iff {definition use : ℕ} :
    g.dependsOn use definition = true ↔ ⟨definition, use⟩ ∈ g.arcs := by
  simp [dependsOn]

theorem nodes_link (d u : ℕ) : (g.link d u).nodes = g.nodes := by
  unfold link; split <;> rfl

theorem find_link (d u : ℕ) : (g.link d u).find? key = g.find? key := by
  unfold link; split <;> rfl

theorem keys_link (d u : ℕ) : (g.link d u).keys = g.keys := by
  unfold keys; rw [nodes_link]

/-- An arc is there after it is added, unless it is reflexive; no other arc comes or goes. -/
theorem mem_link {d u : ℕ} {arc : Arc} :
    arc ∈ (g.link d u).arcs ↔ arc ∈ g.arcs ∨ (arc = ⟨d, u⟩ ∧ d ≠ u) := by
  unfold link
  split
  · -- nothing is added: the arc is reflexive or there already
    rename_i h
    rw [dependsOn_iff] at h
    constructor
    · exact Or.inl
    · rintro (ha | ⟨rfl, hne⟩)
      · exact ha
      · exact h.resolve_left hne
  · rename_i h
    rw [not_or] at h
    simp only [Array.mem_push]
    constructor
    · rintro (ha | ha)
      · exact Or.inl ha
      · exact Or.inr ⟨ha, h.1⟩
    · rintro (ha | ⟨ha, -⟩)
      · exact Or.inl ha
      · exact Or.inr ha

theorem link_ok (hg : g.OK) {d u : ℕ} (hd : d < g.nodes.size) (hu : u < g.nodes.size) :
    (g.link d u).OK where
  number := by rw [nodes_link]; exact hg.number
  find := by intro key i; rw [find_link, keys_link]; exact hg.find key i
  size := by
    rw [nodes_link, ← hg.size]
    unfold link; split <;> rfl
  arc_lt := by
    intro arc h
    rw [nodes_link]
    rcases mem_link.1 h with h | ⟨rfl, -⟩
    · exact hg.arc_lt arc h
    · exact ⟨hd, hu⟩
  arc_ne := by
    intro arc h
    rcases mem_link.1 h with h | ⟨rfl, hne⟩
    · exact hg.arc_ne arc h
    · exact hne
  arcs_nodup := by
    unfold link
    split
    · exact hg.arcs_nodup
    · rename_i h
      rw [not_or, dependsOn_iff] at h
      rw [Array.toList_push, List.nodup_append]
      refine ⟨hg.arcs_nodup, List.nodup_singleton _, ?_⟩
      intro a ha b hb hab
      rw [List.mem_singleton] at hb
      subst hab hb
      exact h.2 (Array.mem_toList_iff.1 ha)

/-! ## The operations -/

/-- **Everything that an upsert can do**: add a node, find one, or provide the one that it finds. -/
theorem upsert_cases (hu : g.upsert key f p = .ok (g', i)) :
    (g.find? key = none ∧ g' = g.append key f p ∧ i = g.nodes.size) ∨
    (g.find? key = some i ∧ p = false ∧ g' = g) ∨
    (g.find? key = some i ∧ p = true ∧ ∃ old node, g.nodes[i]? = some old ∧
      old.provide f = .ok node ∧ g' = g.replace i node) := by
  unfold upsert at hu
  split at hu
  · rename_i hf
    cases hu; exact Or.inl ⟨hf, rfl, rfl⟩
  · rename_i k hf
    split at hu
    · rename_i hp
      split at hu
      · cases hu
      · rename_i old hold
        split at hu
        · cases hu
        · rename_i node hnode
          cases hu
          exact Or.inr (Or.inr ⟨hf, hp, old, node, hold, hnode, rfl⟩)
    · rename_i hp
      cases hu
      exact Or.inr (Or.inl ⟨hf, by simpa using hp, rfl⟩)

/-- An upsert keeps a graph in order, gives the place of its key, and changes no arc; it keeps the
keys as they are or adds its own at the end. -/
theorem upsert_ok (hg : g.OK) (hu : g.upsert key f p = .ok (g', i)) :
    g'.OK ∧ g'.keys[i]? = some key ∧ g'.arcs = g.arcs ∧
      g'.keys = if key ∈ g.keys then g.keys else g.keys ++ [key] := by
  rcases upsert_cases hu with ⟨hf, rfl, rfl⟩ | ⟨hf, -, rfl⟩ | ⟨hf, -, old, node, hold, hnode, rfl⟩
  · refine ⟨append_ok hg hf, ?_, rfl, ?_⟩
    · rw [keys_append, ← length_keys]; simp
    · rw [if_neg (hg.find_none.1 hf), keys_append]
  · have hk := (hg.find key i).1 hf
    exact ⟨hg, hk, rfl, by rw [if_pos (List.mem_of_getElem? hk)]⟩
  · obtain ⟨hkey, hnum, -⟩ := Node.provide_ok hnode
    have hk := (hg.find key i).1 hf
    have hkeys := keys_replace hold hkey
    refine ⟨replace_ok hg hold hkey hnum, by rw [hkeys]; exact hk, rfl, ?_⟩
    rw [hkeys, if_pos (List.mem_of_getElem? hk)]

/-- A place of one graph is a place of the next. -/
theorem keys_upsert_get {k : Key} (hg : g.OK)
    (hu : g.upsert key f p = .ok (g', i)) (hj : g.keys[j]? = some k) : g'.keys[j]? = some k := by
  obtain ⟨-, -, -, hkeys⟩ := upsert_ok hg hu
  rw [hkeys]
  split
  · exact hj
  · rw [List.getElem?_append_left (List.getElem?_eq_some_iff.1 hj).1]; exact hj

theorem addArc_cases {d u : ℕ} (ha : g.addArc d u = .ok g') :
    g' = g.link d u ∧ (d = u ∨ (d < g.nodes.size ∧ u < g.nodes.size)) := by
  unfold addArc at ha
  split at ha
  · rename_i h
    cases ha; exact ⟨rfl, h⟩
  · cases ha

theorem addArc_eq {d u : ℕ} (hd : d < g.nodes.size) (hu : u < g.nodes.size) :
    g.addArc d u = .ok (g.link d u) := by
  unfold addArc
  rw [if_pos (Or.inr ⟨hd, hu⟩)]

theorem addArc_ok (hg : g.OK) {d u : ℕ} (ha : g.addArc d u = .ok g') : g'.OK := by
  obtain ⟨rfl, h | ⟨hd, hu⟩⟩ := addArc_cases ha
  · -- a reflexive arc is accepted whatever its number is, and changes nothing
    have : g.link d u = g := by unfold link; rw [if_pos (Or.inl h)]
    rw [this]; exact hg
  · exact link_ok hg hd hu

/-- A pair is two upserts and an arc. -/
theorem upsertPair_cases (hp : g.upsertPair key f = .ok (g', i, j)) :
    key.isInterface = true ∧ ∃ g₁ g₂, g.upsert key f true = .ok (g₁, i) ∧
      g₁.upsert key.implementation none true = .ok (g₂, j) ∧ g₂.addArc i j = .ok g' := by
  unfold upsertPair at hp
  cases hi : key.isInterface with
  | false => rw [hi] at hp; cases hp
  | true =>
    refine ⟨rfl, ?_⟩
    rw [hi] at hp
    simp only [Bool.true_eq_false, if_false] at hp
    cases h₁ : g.upsert key f true with
    | error e => rw [h₁] at hp; cases hp
    | ok r₁ =>
      obtain ⟨g₁, i₁⟩ := r₁
      rw [h₁] at hp
      change (g₁.upsert key.implementation none true >>= _) = _ at hp
      cases h₂ : g₁.upsert key.implementation none true with
      | error e => rw [h₂] at hp; cases hp
      | ok r₂ =>
        obtain ⟨g₂, j₁⟩ := r₂
        rw [h₂] at hp
        change (g₂.addArc i₁ j₁ >>= _) = _ at hp
        cases h₃ : g₂.addArc i₁ j₁ with
        | error e => rw [h₃] at hp; cases hp
        | ok g₃ => rw [h₃] at hp; cases hp; exact ⟨g₁, g₂, rfl, h₂, h₃⟩

theorem upsertPair_eq {g₁ g₂ : Graph} (hi : key.isInterface = true)
    (h₁ : g.upsert key f true = .ok (g₁, i))
    (h₂ : g₁.upsert key.implementation none true = .ok (g₂, j)) (h₃ : g₂.addArc i j = .ok g') :
    g.upsertPair key f = .ok (g', i, j) := by
  unfold upsertPair
  rw [hi, h₁]
  change (g₁.upsert key.implementation none true >>= _) = _
  rw [h₂]
  change (g₂.addArc i j >>= _) = _
  rw [h₃]
  rfl

theorem upsertPair_ok (hg : g.OK) (hp : g.upsertPair key f = .ok (g', i, j)) : g'.OK := by
  obtain ⟨-, g₁, g₂, h₁, h₂, h₃⟩ := upsertPair_cases hp
  exact addArc_ok (upsert_ok (upsert_ok hg h₁).1 h₂).1 h₃

/-! ## Graphs from deps files -/

theorem addNodes_ok : ∀ (records : List NodeRecord) {g : Graph}, g.OK →
    DepsFile.addNodes g records = .ok g' → g'.OK := by
  intro records
  induction records with
  | nil => intro g hg h; cases h; exact hg
  | cons r rest ih =>
    intro g hg h
    unfold DepsFile.addNodes at h
    split at h
    · cases h
    · split at h
      · cases h
      · rename_i hnew
        exact ih (append_ok hg (by simpa using hnew)) h

theorem addArcs_ok : ∀ (arcs : List Arc) {g : Graph}, g.OK →
    DepsFile.addArcs g arcs = .ok g' → g'.OK := by
  intro arcs
  induction arcs with
  | nil => intro g hg h; cases h; exact hg
  | cons a rest ih =>
    intro g hg h
    unfold DepsFile.addArcs at h
    split at h
    · cases h
    · rename_i hlt
      simp only [ge_iff_le, not_or, Nat.not_le] at hlt
      split at h
      · cases h
      · exact ih (link_ok hg hlt.1 hlt.2) h

/-- A file with the right header holds a graph when its nodes, and then its arcs, can be added. -/
theorem graph_cases {file : DepsFile} (h : file.graph = .ok g) :
    file.header.signature = Header.expectedSignature ∧ file.header.major = Header.expectedMajor ∧
      ∃ g₁, DepsFile.addNodes .empty file.nodes = .ok g₁ ∧
        DepsFile.addArcs g₁ (file.nodes.flatMap DepsFile.recordArcs) = .ok g := by
  unfold DepsFile.graph at h
  by_cases hs : file.header.signature = Header.expectedSignature
  · by_cases hm : file.header.major = Header.expectedMajor
    · simp only [hs, hm, ne_eq, not_true_eq_false, if_false] at h
      cases hn : DepsFile.addNodes .empty file.nodes with
      | error e => rw [hn] at h; cases h
      | ok g₁ => rw [hn] at h; exact ⟨hs, hm, g₁, rfl, h⟩
    · simp only [hs, ne_eq, not_true_eq_false, if_false, hm, not_false_eq_true, if_true] at h
      cases h
  · simp only [hs, ne_eq, not_false_eq_true, if_true] at h
    cases h

theorem graph_ok {file : DepsFile} (h : file.graph = .ok g) : g.OK := by
  obtain ⟨-, -, g₁, hn, ha⟩ := graph_cases h
  exact addArcs_ok _ (addNodes_ok _ empty_ok hn) ha

/-! ## Every graph -/

/-- One operation on a graph. A call that is refused changes nothing and is no step. -/
inductive Step : Graph → Graph → Prop where
  | upsert {g g' : Graph} {key : Key} {f : Option Fingerprint} {p : Bool} {i : ℕ}
      (h : g.upsert key f p = .ok (g', i)) : Step g g'
  | pair {g g' : Graph} {key : Key} {f : Option Fingerprint} {i j : ℕ}
      (h : g.upsertPair key f = .ok (g', i, j)) : Step g g'
  | arc {g g' : Graph} {d u : ℕ} (hd : d < g.nodes.size) (hu : u < g.nodes.size)
      (h : g.addArc d u = .ok g') : Step g g'

/-- The graphs that operations lead to, from nothing or from a deps file. -/
inductive Reachable : Graph → Prop where
  | new : Reachable empty
  | load {file : DepsFile} {g : Graph} (h : file.graph = .ok g) : Reachable g
  | step {g g' : Graph} (hg : Reachable g) (h : Step g g') : Reachable g'

theorem Step.ok (h : Step g g') (hg : g.OK) : g'.OK := by
  cases h with
  | upsert h => exact (upsert_ok hg h).1
  | pair h => exact upsertPair_ok hg h
  | arc _ _ h => exact addArc_ok hg h

/-- **Every graph is in order.** -/
theorem Reachable.ok (h : Reachable g) : g.OK := by
  induction h with
  | new => exact empty_ok
  | load h => exact graph_ok h
  | step _ h ih => exact h.ok ih

end Graph

end DepGraph
