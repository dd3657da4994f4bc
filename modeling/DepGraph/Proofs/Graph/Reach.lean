import DepGraph.Graph.Reach
import DepGraph.Proofs.Graph.Run
import Mathlib.Data.List.Perm.Subperm
import Mathlib.Logic.Relation
import Mathlib.Order.Lattice.Nat

/-!
# What the search from a node finds

The search takes one node at a time off its queue, and queues the users that it has not seen. So what was
seen is what has left the queue, followed by the queue.

* `Search`: no node is seen twice. Hence there is room for every node, and the search ends with its queue and
  not for want of fuel (`explore_fuel`).
* `Breadth`: what was seen can be reached, the users of what has left the queue were seen, and nearer nodes
  were seen first. This holds as long as the queue spans at most two distances, and each step keeps that.
* `reachableFrom_breadthFirst`: hence the nodes that are found are those that a path of arcs leads to, each
  once, by distance.
-/

namespace DepGraph.Graph

variable {g : Graph} {fuel : ℕ} {queue seen : List ℕ}

theorem mem_usersOf {d u : ℕ} : u ∈ g.usersOf d ↔ ⟨d, u⟩ ∈ g.arcs := by
  unfold usersOf
  simp only [List.mem_map, List.mem_filter, List.mem_reverse, Array.mem_toList_iff, decide_eq_true_eq]
  constructor
  · rintro ⟨⟨d', u'⟩, ⟨harc, rfl⟩, rfl⟩
    exact harc
  · intro harc
    exact ⟨⟨d, u⟩, ⟨harc, rfl⟩, rfl⟩

theorem usersOf_nodup (hg : g.OK) (d : ℕ) : (g.usersOf d).Nodup := by
  unfold usersOf
  apply List.Nodup.map_on
  · -- arcs of one definition with the same use are the same arc
    rintro ⟨d₁, u₁⟩ h₁ ⟨d₂, u₂⟩ h₂ hu
    have hd₁ : d₁ = d := by simpa using (List.mem_filter.1 h₁).2
    have hd₂ : d₂ = d := by simpa using (List.mem_filter.1 h₂).2
    have hu' : u₁ = u₂ := hu
    rw [hd₁, hd₂, hu']
  · exact (List.nodup_reverse.2 hg.arcs_nodup).filter _

/-- **The state of a search**: what was seen are nodes, none of them twice, and those that have left the
queue and the fuel that is left make up for all nodes. -/
structure Search (g : Graph) (fuel : ℕ) (queue seen : List ℕ) : Prop where
  nodup : seen.Nodup
  lt : ∀ i ∈ seen, i < g.nodes.size
  room : g.nodes.size + queue.length ≤ fuel + seen.length

theorem Search.length_le (h : g.Search fuel queue seen) : seen.length ≤ g.nodes.size := by
  have hsub : seen ⊆ List.range g.nodes.size := fun i hi => List.mem_range.2 (h.lt i hi)
  have hle := (List.subperm_of_subset h.nodup hsub).length_le
  rwa [List.length_range] at hle

/-- The search ends with its queue, not for want of fuel. -/
theorem Search.queue_nil (h : g.Search 0 queue seen) : queue = [] := by
  have hroom := h.room
  have hlen := h.length_le
  apply List.eq_nil_of_length_eq_zero
  omega

theorem Search.step (hg : g.OK) {i : ℕ} (h : g.Search (fuel + 1) (i :: queue) seen) :
    g.Search fuel (queue ++ (g.usersOf i).filter (· ∉ seen)) (seen ++ (g.usersOf i).filter (· ∉ seen))
    where
  nodup := by
    rw [List.nodup_append]
    refine ⟨h.nodup, (usersOf_nodup hg i).filter _, ?_⟩
    intro a ha b hb hab
    subst hab
    have hnew : a ∉ seen := by simpa using (List.mem_filter.1 hb).2
    exact hnew ha
  lt := by
    intro u hu
    rcases List.mem_append.1 hu with hu | hu
    · exact h.lt u hu
    · exact (hg.arc_lt _ (mem_usersOf.1 (List.mem_filter.1 hu).1)).2
  room := by
    have hroom := h.room
    simp only [List.length_append, List.length_cons] at hroom ⊢
    omega

/-- Fuel that is left over changes nothing. -/
theorem explore_fuel (hg : g.OK) {more : ℕ} : ∀ {fuel : ℕ} {queue seen : List ℕ},
    g.Search fuel queue seen → g.explore (fuel + more) queue seen = g.explore fuel queue seen := by
  intro fuel
  induction fuel with
  | zero =>
    intro queue seen h
    rw [h.queue_nil]
    simp [explore]
  | succ fuel ih =>
    intro queue seen h
    cases queue with
    | nil => simp [explore]
    | cons i queue =>
      have hrest := ih (h.step hg)
      rw [Nat.succ_add, explore, explore, hrest]

/-! ## Paths and distances -/

/-- One step along an arc, from a definition to a use of it. -/
def Leads (g : Graph) (definition use : ℕ) : Prop := ⟨definition, use⟩ ∈ g.arcs

/-- A walk along so many arcs. -/
inductive Walk (g : Graph) (start : ℕ) : (length i : ℕ) → Prop where
  | here : Walk g start 0 start
  | step {n i u : ℕ} (h : Walk g start n i) (harc : g.Leads i u) : Walk g start (n + 1) u

/-- The length of a shortest walk. -/
noncomputable def distance (g : Graph) (start i : ℕ) : ℕ := sInf {n | g.Walk start n i}

variable {start i u : ℕ}

theorem exists_walk_iff : (∃ n, g.Walk start n i) ↔ Relation.ReflTransGen g.Leads start i := by
  constructor
  · rintro ⟨n, h⟩
    induction h with
    | here => exact .refl
    | step _ harc ih => exact .tail ih harc
  · intro h
    induction h with
    | refl => exact ⟨0, .here⟩
    | tail _ harc ih =>
      obtain ⟨n, hn⟩ := ih
      exact ⟨n + 1, .step hn harc⟩

theorem walk_distance (h : Relation.ReflTransGen g.Leads start i) : g.Walk start (g.distance start i) i :=
  Nat.sInf_mem (exists_walk_iff.2 h)

theorem distance_le {n : ℕ} (h : g.Walk start n i) : g.distance start i ≤ n := Nat.sInf_le h

/-- A use is at most one step farther than its definition. -/
theorem distance_use (h : Relation.ReflTransGen g.Leads start i) (harc : g.Leads i u) :
    g.distance start u ≤ g.distance start i + 1 :=
  distance_le (.step (walk_distance h) harc)

/-- What is not the start itself is reached from a node one step nearer. -/
theorem exists_nearer (h : Relation.ReflTransGen g.Leads start u) (hne : u ≠ start) :
    ∃ i, Relation.ReflTransGen g.Leads start i ∧ g.Leads i u ∧
      g.distance start u = g.distance start i + 1 := by
  have hwalk := walk_distance h
  generalize hn : g.distance start u = n at hwalk
  cases hwalk with
  | here => exact absurd rfl hne
  | step hi harc =>
    have hreach := exists_walk_iff.1 ⟨_, hi⟩
    have hle := distance_le hi
    have huse := distance_use hreach harc
    exact ⟨_, hreach, harc, by omega⟩

/-! ## Breadth first -/

/-- **A search that goes breadth first.** What was seen, in this order, is what is `done` and the queue. -/
structure Breadth (g : Graph) (start : ℕ) (done queue : List ℕ) : Prop where
  begun : start ∈ done ++ queue
  reached : ∀ i ∈ done ++ queue, Relation.ReflTransGen g.Leads start i
  closed : ∀ i ∈ done, ∀ u, g.Leads i u → u ∈ done ++ queue
  ordered : (done ++ queue).Pairwise fun i j => g.distance start i ≤ g.distance start j
  /-- Nothing that was seen is more than one step farther than what comes next. -/
  span : ∀ i, queue.head? = some i → ∀ j ∈ done ++ queue, g.distance start j ≤ g.distance start i + 1

variable {done : List ℕ}

theorem breadth_start (g : Graph) (start : ℕ) : g.Breadth start [] [start] where
  begun := List.mem_singleton_self start
  reached := by
    intro i hi
    rw [List.mem_singleton.1 hi]
  closed := by
    intro i hi
    cases hi
  ordered := List.pairwise_singleton _ _
  span := by
    intro i hi j hj
    cases hi
    rw [List.mem_singleton.1 hj]
    omega

/-- The next node is the nearest of the queue. -/
theorem Breadth.next_le (h : g.Breadth start done (i :: queue)) {j : ℕ} (hj : j ∈ queue) :
    g.distance start i ≤ g.distance start j := by
  have hqueue := (List.pairwise_append.1 h.ordered).2.1
  exact (List.pairwise_cons.1 hqueue).1 j hj

/-- What was seen and is nearer than the next node is done. -/
theorem Breadth.mem_done (h : g.Breadth start done (i :: queue)) {j : ℕ} (hj : j ∈ done ++ i :: queue)
    (hlt : g.distance start j < g.distance start i) : j ∈ done := by
  rcases List.mem_append.1 hj with hd | hq
  · exact hd
  · rcases List.mem_cons.1 hq with rfl | hq
    · omega
    · have := h.next_le hq
      omega

/-- **All that is nearer than the next node is done.** -/
theorem Breadth.nearer_done (h : g.Breadth start done (i :: queue)) : ∀ (n j : ℕ), g.distance start j = n →
    Relation.ReflTransGen g.Leads start j → n < g.distance start i → j ∈ done := by
  intro n
  induction n using Nat.strong_induction_on with
  | _ n ih =>
    intro j hn hj hlt
    by_cases hs : j = start
    · subst hs
      exact h.mem_done h.begun (by omega)
    · -- the node before it on a shortest walk is done, so it was seen
      obtain ⟨k, hk, harc, hdist⟩ := exists_nearer hj hs
      have hdone := ih (g.distance start k) (by omega) k rfl hk (by omega)
      exact h.mem_done (h.closed k hdone j harc) (by omega)

/-- A user that was not seen is one step farther than the node at hand. -/
theorem Breadth.distance_fresh (h : g.Breadth start done (i :: queue)) (harc : g.Leads i u)
    (hnew : u ∉ done ++ i :: queue) : g.distance start u = g.distance start i + 1 := by
  have hi := h.reached i (by simp)
  have hu := hi.tail harc
  have hle := distance_use hi harc
  have hne : u ≠ start := fun heq => hnew (heq ▸ h.begun)
  obtain ⟨k, hk, hku, hdist⟩ := exists_nearer hu hne
  by_contra hdiff
  -- it would be reached from a node nearer than the one at hand
  have hdone := h.nearer_done _ k rfl hk (by omega)
  exact hnew (h.closed k hdone u hku)

theorem Breadth.step (h : g.Breadth start done (i :: queue)) :
    g.Breadth start (done ++ [i]) (queue ++ (g.usersOf i).filter (· ∉ done ++ i :: queue)) := by
  set fresh := (g.usersOf i).filter (· ∉ done ++ i :: queue) with hfresh
  have hseen : done ++ [i] ++ (queue ++ fresh) = (done ++ i :: queue) ++ fresh := by simp
  have hmem : ∀ u, u ∈ fresh ↔ g.Leads i u ∧ u ∉ done ++ i :: queue := by
    intro u
    rw [hfresh, List.mem_filter, mem_usersOf, decide_eq_true_eq]
    rfl
  have hfar : ∀ u ∈ fresh, g.distance start u = g.distance start i + 1 := by
    intro u hu
    obtain ⟨harc, hnew⟩ := (hmem u).1 hu
    exact h.distance_fresh harc hnew
  have hspan := h.span i rfl
  refine ⟨?_, ?_, ?_, ?_, ?_⟩
  · rw [hseen]
    exact List.mem_append_left _ h.begun
  · intro j hj
    rw [hseen] at hj
    rcases List.mem_append.1 hj with hj | hj
    · exact h.reached j hj
    · exact (h.reached i (by simp)).tail ((hmem j).1 hj).1
  · intro j hj u harc
    rw [hseen]
    rcases List.mem_append.1 hj with hj | hj
    · exact List.mem_append_left _ (h.closed j hj u harc)
    · -- the users of the node at hand were seen or are queued now
      cases List.mem_singleton.1 hj
      by_cases hs : u ∈ done ++ i :: queue
      · exact List.mem_append_left _ hs
      · exact List.mem_append_right _ ((hmem u).2 ⟨harc, hs⟩)
  · rw [hseen, List.pairwise_append]
    refine ⟨h.ordered, ?_, ?_⟩
    · rw [List.pairwise_iff_forall_sublist]
      intro a b hab
      have ha := hfar a (hab.subset (by simp))
      have hb := hfar b (hab.subset (by simp))
      omega
    · intro a ha b hb
      have := hspan a ha
      have := hfar b hb
      omega
  · intro k hk j hj
    rw [hseen] at hj
    -- the next node is not nearer than the one at hand
    have hki : g.distance start i ≤ g.distance start k := by
      have hkq : k ∈ queue ++ fresh := List.mem_of_mem_head? hk
      rcases List.mem_append.1 hkq with hkq | hkq
      · exact h.next_le hkq
      · have := hfar k hkq
        omega
    rcases List.mem_append.1 hj with hj | hj
    · have := hspan j hj
      omega
    · have := hfar j hj
      omega

/-- **A search goes breadth first to its end**: what is done then has all nodes that were found. -/
theorem explore_breadth (hg : g.OK) : ∀ {fuel : ℕ} {done queue : List ℕ},
    g.Search fuel queue (done ++ queue) → g.Breadth start done queue →
      (done ++ g.explore fuel queue (done ++ queue)).Nodup ∧
        g.Breadth start (done ++ g.explore fuel queue (done ++ queue)) [] := by
  intro fuel
  induction fuel with
  | zero =>
    intro done queue hs hb
    obtain rfl := hs.queue_nil
    exact ⟨by simpa [explore] using hs.nodup, by simpa [explore] using hb⟩
  | succ fuel ih =>
    intro done queue hs hb
    cases queue with
    | nil => exact ⟨by simpa [explore] using hs.nodup, by simpa [explore] using hb⟩
    | cons i queue =>
      have hseen : done ++ i :: queue ++ (g.usersOf i).filter (· ∉ done ++ i :: queue) =
          done ++ [i] ++ (queue ++ (g.usersOf i).filter (· ∉ done ++ i :: queue)) := by simp
      have hs' := hs.step hg
      rw [hseen] at hs'
      have hrest := ih hs' hb.step
      rw [explore, hseen]
      simpa using hrest

theorem search_start (hstart : start < g.nodes.size) : g.Search g.nodes.size [start] [start] :=
  ⟨List.nodup_singleton _, by simpa using hstart, Nat.le_refl _⟩

theorem reachableFrom_eq (hstart : start < g.nodes.size) :
    g.reachableFrom start = .ok (g.explore g.nodes.size [start] [start]) := by
  unfold reachableFrom
  rw [if_pos hstart]

/-- What a search with an empty queue has done is closed under uses, so it is all that can be reached. -/
theorem Breadth.mem_iff (h : g.Breadth start done []) : i ∈ done ↔ Relation.ReflTransGen g.Leads start i := by
  have hb := h.begun
  have hc := h.closed
  rw [List.append_nil] at hb hc
  constructor
  · intro hi
    exact h.reached i (by simpa using hi)
  · intro hpath
    induction hpath with
    | refl => exact hb
    | tail _ harc ih => exact hc _ ih _ harc

/-- **Whatever a path of arcs leads to is found.** -/
theorem reachableFrom_path (hg : g.OK) {start : ℕ} (hstart : start < g.nodes.size) :
    ∃ found, g.reachableFrom start = .ok found ∧
      ∀ i, Relation.ReflTransGen g.Leads start i → i ∈ found := by
  obtain ⟨-, hb⟩ := explore_breadth hg (search_start hstart) (breadth_start g start)
  exact ⟨_, reachableFrom_eq hstart, fun i hpath => hb.mem_iff.2 hpath⟩

/-- **What is found from a node.** The list begins with the node itself, has each node that a path of arcs
leads to once and no other, and has nearer nodes first. The search has come to its end: more fuel finds
nothing else. -/
theorem reachableFrom_breadthFirst (hg : Reachable g) (hstart : start < g.nodes.size) :
    ∃ found, g.reachableFrom start = .ok found ∧ found.head? = some start ∧ found.Nodup ∧
      (∀ i, i ∈ found ↔ Relation.ReflTransGen g.Leads start i) ∧
      (found.Pairwise fun i j => g.distance start i ≤ g.distance start j) ∧
      ∀ fuel ≥ g.nodes.size, g.explore fuel [start] [start] = found := by
  have hsearch := search_start hstart
  obtain ⟨hnodup, hb⟩ := explore_breadth hg.ok hsearch (breadth_start g start)
  refine ⟨_, reachableFrom_eq hstart, ?_, hnodup, fun i => hb.mem_iff, ?_, ?_⟩
  · obtain ⟨n, hn⟩ : ∃ n, g.nodes.size = n + 1 := ⟨g.nodes.size - 1, by omega⟩
    rw [hn, explore]
    rfl
  · simpa using hb.ordered
  · intro fuel hfuel
    obtain ⟨more, rfl⟩ := Nat.exists_eq_add_of_le hfuel
    exact explore_fuel hg.ok hsearch

/-- Calls that make two ways from the first node to the fourth, a cycle, and a node that is not reached. -/
def winding : List Call :=
  [.upsert ⟨.topLevel, .interface, "", "a"⟩ none true, .upsert ⟨.topLevel, .interface, "", "b"⟩ none true,
    .upsert ⟨.topLevel, .interface, "", "c"⟩ none true, .upsert ⟨.topLevel, .interface, "", "d"⟩ none true,
    .upsert ⟨.topLevel, .interface, "", "e"⟩ none true,
    .arc 0 1, .arc 0 2, .arc 1 3, .arc 2 3, .arc 3 0, .arc 4 3]

theorem reachableFrom_breadthFirst_winding : Reachable (empty.run winding) ∧
    0 < (empty.run winding).nodes.size ∧
    ∃ found, (empty.run winding).reachableFrom 0 = .ok found ∧ found.head? = some 0 ∧ found.Nodup ∧
      (∀ i, i ∈ found ↔ Relation.ReflTransGen (empty.run winding).Leads 0 i) ∧
      (found.Pairwise fun i j => (empty.run winding).distance 0 i ≤ (empty.run winding).distance 0 j) ∧
      ∀ fuel ≥ (empty.run winding).nodes.size, (empty.run winding).explore fuel [0] [0] = found := by
  have hreach : Reachable (empty.run winding) := Reachable.new.run winding
  have hsize : 0 < (empty.run winding).nodes.size := by decide +kernel
  exact ⟨hreach, hsize, reachableFrom_breadthFirst hreach hsize⟩

end DepGraph.Graph
