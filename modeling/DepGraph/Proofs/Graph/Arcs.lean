import DepGraph.Proofs.Graph.Run
import Mathlib.Algebra.Ring.Nat
import Mathlib.Data.Finset.Card

/-!
# The arcs of a graph

* `mem_run`: after any calls the arcs are those that were there and those that the calls inserted.
* `Shows`: all ways to look at the arcs of a graph show one set. In a graph whose parts fit together they
  show the set of its arcs (`OK.shows`).
* `run_shows`: hence after any calls on an empty graph they show what the calls inserted.
-/

namespace DepGraph

/-- The order in which arcs are visited: by use, then by definition. -/
def Arc.Before (a b : Arc) : Prop := a.use < b.use ∨ a.use = b.use ∧ a.definition < b.definition

namespace Graph

variable {g h : Graph} {key : Key} {f : Option Fingerprint} {p : Bool} {i : ℕ} {arc : Arc}

/-! ## What calls insert -/

/-- The arc that a call gives to a graph: that between two nodes that are there, or that between the two
sides of a pair, unless the pair is refused. -/
def Call.arc? (g : Graph) : Call → Option Arc
  | .upsert _ _ _ => none
  | .pair key f =>
    match g.upsertPair key f with
    | .ok (_, interface, implementation) => some ⟨interface, implementation⟩
    | .error _ => none
  | .arc d u => if d < g.nodes.size ∧ u < g.nodes.size then some ⟨d, u⟩ else none

/-- The arcs that calls give to a graph, one call after the other, those of a node to itself left out. -/
def inserted (g : Graph) : List Call → List Arc
  | [] => []
  | call :: rest =>
    ((call.arc? g).filter fun arc => arc.definition ≠ arc.use).toList ++ (g.next call).inserted rest

theorem arcs_upsert (hu : g.upsert key f p = .ok (h, i)) : h.arcs = g.arcs := by
  rcases upsert_cases hu with ⟨-, rfl, -⟩ | ⟨-, -, rfl⟩ | ⟨-, -, old, node, -, -, rfl⟩ <;> rfl

/-- An arc is there after it is given, unless it is one of a node to itself. -/
theorem mem_link_given {d u : ℕ} : arc ∈ (g.link d u).arcs ↔
    arc ∈ g.arcs ∨ (some (⟨d, u⟩ : Arc) = some arc ∧ arc.definition ≠ arc.use) := by
  rw [mem_link, Option.some.injEq]
  constructor
  · rintro (ha | ⟨rfl, hne⟩)
    · exact Or.inl ha
    · exact Or.inr ⟨rfl, hne⟩
  · rintro (ha | ⟨rfl, hne⟩)
    · exact Or.inl ha
    · exact Or.inr ⟨rfl, hne⟩

/-- **One call more, its arc more.** -/
theorem mem_next (g : Graph) (call : Call) : arc ∈ (g.next call).arcs ↔
    arc ∈ g.arcs ∨ (call.arc? g = some arc ∧ arc.definition ≠ arc.use) := by
  unfold next
  cases call with
  | upsert key f p =>
    cases hu : g.upsert key f p with
    | error e => simp [perform, hu, Except.map, Call.arc?]
    | ok r => simp [perform, hu, Except.map, Call.arc?, arcs_upsert hu]
  | pair key f =>
    cases hp : g.upsertPair key f with
    | error e => simp [perform, hp, Except.map, Call.arc?]
    | ok r =>
      obtain ⟨-, g₁, g₂, h₁, h₂, h₃⟩ := upsertPair_cases hp
      obtain ⟨hlink, -⟩ := addArc_cases h₃
      simp only [perform, hp, Except.map, Call.arc?]
      rw [hlink, mem_link_given, arcs_upsert h₂, arcs_upsert h₁]
  | arc d u =>
    simp only [perform, Call.arc?]
    by_cases hlt : d < g.nodes.size ∧ u < g.nodes.size
    · rw [addArc_eq hlt.1 hlt.2, if_pos hlt]
      exact mem_link_given
    · -- the arc is one of a number to itself and changes nothing, or it is refused
      rw [if_neg hlt]
      by_cases hself : d = u
      · simp [addArc, link, hself]
      · simp [addArc, hself, hlt]

/-- **After any calls the arcs are those that were there and those that the calls inserted.** -/
theorem mem_run (g : Graph) (calls : List Call) :
    arc ∈ (g.run calls).arcs ↔ arc ∈ g.arcs ∨ arc ∈ g.inserted calls := by
  induction calls generalizing g with
  | nil => simp [run, inserted]
  | cons call rest ih =>
    have hrest := ih (g.next call)
    rw [mem_next] at hrest
    change arc ∈ ((g.next call).run rest).arcs ↔ _
    rw [hrest, inserted, List.mem_append, Option.mem_toList, Option.filter_eq_some_iff,
      decide_eq_true_eq, or_assoc]

/-! ## What a use depends on -/

theorem mem_definitionsOf {use d : ℕ} : d ∈ g.definitionsOf use ↔ ⟨d, use⟩ ∈ g.arcs := by
  rw [definitionsOf, List.mem_mergeSort, List.mem_map, ← Array.mem_toList_iff]
  simp only [List.mem_filter, decide_eq_true_eq]
  constructor
  · rintro ⟨⟨d', u⟩, ⟨ha, hu⟩, hd⟩
    cases hu; cases hd; exact ha
  · intro ha
    exact ⟨⟨d, use⟩, ⟨ha, rfl⟩, rfl⟩

theorem definitionsOf_nodup (hg : g.OK) (use : ℕ) : (g.definitionsOf use).Nodup := by
  rw [definitionsOf, (List.mergeSort_perm _ _).nodup_iff]
  refine List.Nodup.map_on ?_ (hg.arcs_nodup.filter _)
  rintro ⟨d, u⟩ ha ⟨d', u'⟩ hb hd
  simp only [List.mem_filter, decide_eq_true_eq] at ha hb
  cases ha.2; cases hb.2; cases hd; rfl

theorem definitionsOf_sorted (g : Graph) (use : ℕ) : (g.definitionsOf use).Pairwise (· ≤ ·) := by
  rw [definitionsOf]
  refine (List.pairwise_mergeSort ?_ ?_ _).imp of_decide_eq_true
  · intro a b c hab hbc
    rw [decide_eq_true_eq] at hab hbc ⊢
    omega
  · intro a b
    rw [Bool.or_eq_true, decide_eq_true_eq, decide_eq_true_eq]
    omega

theorem definitionsOf_ascending (hg : g.OK) (use : ℕ) : (g.definitionsOf use).Pairwise (· < ·) :=
  ((definitionsOf_sorted g use).and (definitionsOf_nodup hg use)).imp fun hab => Nat.lt_of_le_of_ne hab.1 hab.2

/-- Graphs with the same arcs list the same definitions. -/
theorem definitionsOf_congr (hg : g.OK) (hh : h.OK) (harcs : ∀ arc, arc ∈ g.arcs ↔ arc ∈ h.arcs)
    (use : ℕ) : g.definitionsOf use = h.definitionsOf use := by
  -- without repetitions the same members make a permutation, and a sorted one is the list itself
  have hperm : (g.definitionsOf use).Perm (h.definitionsOf use) := by
    rw [List.perm_ext_iff_of_nodup (definitionsOf_nodup hg use) (definitionsOf_nodup hh use)]
    intro d
    rw [mem_definitionsOf, mem_definitionsOf, harcs]
  exact hperm.eq_of_pairwise (fun a b _ _ => Nat.le_antisymm) (definitionsOf_sorted g use)
    (definitionsOf_sorted h use)

/-! ## All arcs -/

theorem sortedArcs_ordered (hg : g.OK) : g.sortedArcs.Pairwise Arc.Before := by
  rw [sortedArcs, List.pairwise_flatMap]
  constructor
  · intro use _
    rw [List.pairwise_map]
    exact (definitionsOf_ascending hg use).imp fun hab => Or.inr ⟨rfl, hab⟩
  · refine List.pairwise_lt_range.imp ?_
    intro use use' hlt a ha b hb
    obtain ⟨d, -, rfl⟩ := List.mem_map.1 ha
    obtain ⟨d', -, rfl⟩ := List.mem_map.1 hb
    exact Or.inl hlt

theorem mem_sortedArcs (hg : g.OK) : arc ∈ g.sortedArcs ↔ arc ∈ g.arcs := by
  simp only [sortedArcs, List.mem_flatMap, List.mem_range, List.mem_map, mem_definitionsOf]
  constructor
  · rintro ⟨use, -, d, ha, rfl⟩
    exact ha
  · intro ha
    exact ⟨arc.use, (hg.arc_lt arc ha).2, arc.definition, ha, rfl⟩

theorem sortedArcs_nodup (hg : g.OK) : g.sortedArcs.Nodup := by
  refine (sortedArcs_ordered hg).imp ?_
  rintro a b (hlt | ⟨-, hlt⟩) rfl
  · omega
  · omega

theorem sortedArcs_perm (hg : g.OK) : g.sortedArcs.Perm g.arcs.toList := by
  rw [List.perm_ext_iff_of_nodup (sortedArcs_nodup hg) hg.arcs_nodup]
  intro arc
  rw [mem_sortedArcs hg, Array.mem_toList_iff]

theorem length_sortedArcs : g.sortedArcs.length =
    ((List.range g.nodes.size).map fun use => (g.definitionsOf use).length).sum := by
  simp only [sortedArcs, List.length_flatMap, List.length_map]

/-! ## Arcs by key -/

/-- Different arcs have different keys at their ends, as no two nodes share a key. -/
theorem arcKeys?_nodup (hg : g.OK) : (g.arcs.toList.filterMap g.arcKeys?).Nodup := by
  refine List.Nodup.filterMap ?_ hg.arcs_nodup
  rintro ⟨i, j⟩ ⟨i', j'⟩ ⟨d, u⟩ ha hb
  obtain ⟨hi, hj⟩ := arcKeys?_eq_some_iff.1 ha
  obtain ⟨hi', hj'⟩ := arcKeys?_eq_some_iff.1 hb
  have hd : i = i' := hg.place_unique hi hi'
  have hu : j = j' := hg.place_unique hj hj'
  rw [hd, hu]

theorem arcKeys_perm (hg : g.OK) : g.arcKeys.Perm (g.arcs.toList.filterMap g.arcKeys?) := by
  rw [arcKeys, eraseDups_of_nodup ((List.mergeSort_perm _ _).nodup_iff.2 (arcKeys?_nodup hg))]
  exact List.mergeSort_perm _ _

theorem length_arcKeys (hg : g.OK) : g.arcKeys.length = g.arcs.size := by
  rw [(arcKeys_perm hg).length_eq, ← Array.length_toList, List.filterMap_length_eq_length]
  intro arc ha
  obtain ⟨hd, hu⟩ := hg.arc_lt arc (Array.mem_toList_iff.1 ha)
  have hkeys : g.arcKeys? arc = some (g.nodes[arc.definition].key, g.nodes[arc.use].key) :=
    arcKeys?_eq_some_iff.2 (by simp [keys_getElem?, hd, hu])
  rw [hkeys]
  rfl

/-! ## One set, shown in every way -/

/-- **All ways to look at the arcs of a graph show one set.** -/
structure Shows (g : Graph) (arcs : Finset Arc) : Prop where
  dependsOn : ∀ d u, g.dependsOn u d = true ↔ ⟨d, u⟩ ∈ arcs
  definitions : ∀ u, (g.definitionsOf u).Pairwise (· < ·) ∧ ∀ d, d ∈ g.definitionsOf u ↔ ⟨d, u⟩ ∈ arcs
  /-- A visit of all arcs comes to each of them once, by use and then definition. -/
  visits : g.sortedArcs.Pairwise Arc.Before ∧
    ∀ arc, g.sortedArcs.count arc = if arc ∈ arcs then 1 else 0
  /-- The numbers of an arc are those of the nodes at its ends. -/
  ends : ∀ arc ∈ arcs, ∃ d u, g.get? arc.definition = some d ∧ g.get? arc.use = some u ∧
    d.number = arc.definition ∧ u.number = arc.use
  size : g.arcs.size = arcs.card ∧
    ((List.range g.nodes.size).map fun use => (g.definitionsOf use).length).sum = arcs.card
  keys : (∀ d u, (d, u) ∈ g.arcKeys ↔
      ∃ arc ∈ arcs, g.keys[arc.definition]? = some d ∧ g.keys[arc.use]? = some u) ∧
    g.arcKeys.Nodup ∧ g.arcKeys.length = arcs.card

theorem OK.shows (hg : g.OK) {arcs : Finset Arc} (harcs : ∀ arc, arc ∈ g.arcs ↔ arc ∈ arcs) :
    g.Shows arcs := by
  have hcard : g.arcs.size = arcs.card := by
    have hset : arcs = g.arcs.toList.toFinset := by
      ext arc
      rw [List.mem_toFinset, Array.mem_toList_iff, harcs]
    rw [hset, List.toFinset_card_of_nodup hg.arcs_nodup, Array.length_toList]
  have hvisit : g.sortedArcs.length = arcs.card := by
    rw [(sortedArcs_perm hg).length_eq, Array.length_toList, hcard]
  refine ⟨?_, ?_, ⟨sortedArcs_ordered hg, ?_⟩, ?_, ⟨hcard, ?_⟩, ?_, ?_, ?_⟩
  · intro d u
    rw [dependsOn_iff, harcs]
  · intro u
    refine ⟨definitionsOf_ascending hg u, fun d => ?_⟩
    rw [mem_definitionsOf, harcs]
  · intro arc
    rw [(sortedArcs_nodup hg).count]
    simp only [mem_sortedArcs hg, harcs]
  · intro arc ha
    obtain ⟨hd, hu⟩ := hg.arc_lt arc ((harcs arc).2 ha)
    have hd' : g.nodes[arc.definition]? = some g.nodes[arc.definition] := Array.getElem?_eq_getElem hd
    have hu' : g.nodes[arc.use]? = some g.nodes[arc.use] := Array.getElem?_eq_getElem hu
    exact ⟨_, _, hd', hu', hg.number _ _ hd', hg.number _ _ hu'⟩
  · rw [← length_sortedArcs, hvisit]
  · intro d u
    rw [mem_arcKeys]
    constructor
    · rintro ⟨i, j, ha, hk⟩
      exact ⟨⟨i, j⟩, (harcs _).1 ha, hk⟩
    · rintro ⟨⟨i, j⟩, ha, hk⟩
      exact ⟨i, j, (harcs _).2 ha, hk⟩
  · exact (arcKeys_perm hg).nodup_iff.2 (arcKeys?_nodup hg)
  · rw [length_arcKeys hg, hcard]

/-- **After any calls on an empty graph, its arcs are those that the calls inserted**, in whatever way one
looks at them. Calls that are refused, repeated arcs and arcs of a node to itself do not matter. -/
theorem run_shows (calls : List Call) : (empty.run calls).Shows (empty.inserted calls).toFinset := by
  refine (Reachable.new.run calls).ok.shows fun arc => ?_
  rw [mem_run, List.mem_toFinset]
  simp [empty]

end Graph

end DepGraph
