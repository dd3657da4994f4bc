import DepGraph.Proofs.Graph.History

/-!
# Graphs under any calls

A graph changes by upserts, pairs and arcs, in any order. A call that is refused changes nothing.

* `run_in_order`: after any calls, on an empty graph or on one from a deps file, the parts of the graph fit
  together, and whatever call comes next adds at most two nodes and an arc to what is there.
* `runAll_recalls`: when no call is refused, a node follows from the calls on its key. It is provided iff
  some call provides it; then it has the fingerprint that all of these agree on, whatever their order, and
  before that the one of the first call.
-/

namespace DepGraph.Graph

/-- A call on a graph. -/
inductive Call where
  | upsert (key : Key) (fingerprint : Option Fingerprint) (provides : Bool)
  | pair (key : Key) (fingerprint : Option Fingerprint)
  | arc (definition use : ℕ)

/-- The graph after a call, unless the call is refused. -/
def perform (g : Graph) : Call → Except Misuse Graph
  | .upsert key f p => (g.upsert key f p).map (·.1)
  | .pair key f => (g.upsertPair key f).map (·.1)
  | .arc d u => g.addArc d u

/-- The graph after a call; one that is refused changes nothing. -/
def next (g : Graph) (call : Call) : Graph :=
  match g.perform call with
  | .ok g' => g'
  | .error _ => g

/-- The graph after calls of which any may be refused. -/
def run (g : Graph) (calls : List Call) : Graph := calls.foldl next g

/-- The graph after calls of which none may be refused. -/
def runAll (g : Graph) (calls : List Call) : Except Misuse Graph := calls.foldlM perform g

variable {g g' start : Graph} {key : Key} {f : Option Fingerprint} {p : Bool} {i j : ℕ}
  {call : Call} {calls : List Call} {told : List Upsert}

theorem perform_cases (h : g.perform call = .ok g') :
    (∃ key f p i, call = .upsert key f p ∧ g.upsert key f p = .ok (g', i)) ∨
    (∃ key f i j, call = .pair key f ∧ g.upsertPair key f = .ok (g', i, j)) ∨
    (∃ d u, call = .arc d u ∧ g.addArc d u = .ok g') := by
  cases call with
  | upsert key f p =>
    cases hu : g.upsert key f p with
    | error e => rw [perform, hu] at h; cases h
    | ok r => rw [perform, hu] at h; cases h; exact Or.inl ⟨key, f, p, r.2, rfl, hu⟩
  | pair key f =>
    cases hp : g.upsertPair key f with
    | error e => rw [perform, hp] at h; cases h
    | ok r => rw [perform, hp] at h; cases h; exact Or.inr (Or.inl ⟨key, f, r.2.1, r.2.2, rfl, hp⟩)
  | arc d u => exact Or.inr (Or.inr ⟨d, u, rfl, h⟩)

/-- A call that is not refused is a step, or the arc of a number to itself. -/
theorem perform_step (h : g.perform call = .ok g') : g' = g ∨ Step g g' := by
  rcases perform_cases h with ⟨key, f, p, i, -, hu⟩ | ⟨key, f, i, j, -, hp⟩ | ⟨d, u, -, ha⟩
  · exact Or.inr (.upsert hu)
  · exact Or.inr (.pair hp)
  · obtain ⟨rfl, hdu | ⟨hd, hu⟩⟩ := addArc_cases ha
    · left
      unfold link
      rw [if_pos (Or.inl hdu)]
    · exact Or.inr (.arc hd hu ha)

theorem perform_ok (hg : g.OK) (h : g.perform call = .ok g') : g'.OK := by
  rcases perform_step h with rfl | hs
  · exact hg
  · exact hs.ok hg

theorem next_step (g : Graph) (call : Call) : g.next call = g ∨ Step g (g.next call) := by
  unfold next
  split
  · rename_i h; exact perform_step h
  · exact Or.inl rfl

/-- Calls lead from graphs that can be reached to such graphs. -/
theorem Reachable.run (h : Reachable g) (calls : List Call) : Reachable (g.run calls) := by
  induction calls generalizing g with
  | nil => exact h
  | cons call rest ih =>
    apply ih
    rcases next_step g call with heq | hs
    · rw [heq]; exact h
    · exact .step h hs

/-! ## What a call adds -/

/-- **A graph with more at its end**: the nodes keep their places and keys, the arcs stay, and at most
so many of each are new. -/
structure Adds (nodes arcs : ℕ) (g g' : Graph) : Prop where
  keys : ∃ new, g'.keys = g.keys ++ new ∧ new.length ≤ nodes
  arcs : ∃ new, g'.arcs.toList = g.arcs.toList ++ new ∧ new.length ≤ arcs

theorem Adds.refl (n a : ℕ) (g : Graph) : Adds n a g g where
  keys := ⟨[], by simp⟩
  arcs := ⟨[], by simp⟩

theorem Adds.trans {n a n' a' : ℕ} {g₁ g₂ : Graph} (h : Adds n a g g₁) (h' : Adds n' a' g₁ g₂) :
    Adds (n + n') (a + a') g g₂ := by
  obtain ⟨⟨k, hk, hkn⟩, ⟨l, hl, hla⟩⟩ := h
  obtain ⟨⟨k', hk', hkn'⟩, ⟨l', hl', hla'⟩⟩ := h'
  refine ⟨⟨k ++ k', ?_, ?_⟩, ⟨l ++ l', ?_, ?_⟩⟩
  · rw [hk', hk, List.append_assoc]
  · rw [List.length_append]; omega
  · rw [hl', hl, List.append_assoc]
  · rw [List.length_append]; omega

theorem Adds.mono {n a n' a' : ℕ} (h : Adds n a g g') (hn : n ≤ n') (ha : a ≤ a') :
    Adds n' a' g g' := by
  obtain ⟨⟨k, hk, hkn⟩, ⟨l, hl, hla⟩⟩ := h
  exact ⟨⟨k, hk, by omega⟩, ⟨l, hl, by omega⟩⟩

theorem upsert_adds (hg : g.OK) (hu : g.upsert key f p = .ok (g', i)) : Adds 1 0 g g' := by
  obtain ⟨-, -, harcs, hkeys⟩ := upsert_ok hg hu
  refine ⟨?_, ⟨[], by simp [harcs]⟩⟩
  split at hkeys
  · exact ⟨[], by simp [hkeys]⟩
  · exact ⟨[key], hkeys, by simp⟩

theorem addArc_adds {d u : ℕ} (ha : g.addArc d u = .ok g') : Adds 0 1 g g' := by
  obtain ⟨rfl, -⟩ := addArc_cases ha
  refine ⟨⟨[], by simp [keys_link]⟩, ?_⟩
  unfold link
  split
  · exact ⟨[], by simp⟩
  · exact ⟨[⟨d, u⟩], by simp⟩

theorem Step.adds (hg : g.OK) (h : Step g g') : Adds 2 1 g g' := by
  cases h with
  | upsert h => exact (upsert_adds hg h).mono (by omega) (by omega)
  | pair h =>
    obtain ⟨-, g₁, g₂, h₁, h₂, h₃⟩ := upsertPair_cases h
    have hg₁ := (upsert_ok hg h₁).1
    exact ((upsert_adds hg h₁).trans (upsert_adds hg₁ h₂)).trans (addArc_adds h₃)
  | arc _ _ h => exact (addArc_adds h).mono (by omega) (by omega)

/-- **The parts of a graph fit together after any calls**, and the next call only adds to it. -/
theorem run_in_order (hstart : start = empty ∨ ∃ file : DepsFile, file.graph = .ok start)
    (calls : List Call) :
    (start.run calls).OK ∧ (start.run calls).keys.Nodup ∧
      ∀ call, Adds 2 1 (start.run calls) ((start.run calls).next call) := by
  have hreach : Reachable start := by
    rcases hstart with rfl | ⟨file, hfile⟩
    · exact .new
    · exact .load hfile
  have hok := (hreach.run calls).ok
  refine ⟨hok, hok.keys_nodup, ?_⟩
  intro call
  rcases next_step (start.run calls) call with heq | hs
  · rw [heq]; exact Adds.refl 2 1 _
  · exact hs.adds hok

/-- A file whose two records depend on each other. What the second stands for is only used, and has a
fingerprint. -/
def crossed : DepsFile where
  header := ⟨"DEPS", 1, 3, ""⟩
  nodes := [⟨⟨.topLevel, .interface, "", "f"⟩, none, 0, [1], true⟩,
    ⟨⟨.externalDepend, .interface, "", "lib"⟩, some .zero, 1, [0, 0], false⟩]

/-- Calls of which the first two and the last are refused. -/
def disputed : List Call :=
  [.upsert ⟨.externalDepend, .interface, "", "lib"⟩ (some .zero) true,
    .pair ⟨.topLevel, .implementation, "", "f"⟩ none, .pair ⟨.topLevel, .interface, "", "f"⟩ (some .zero),
    .arc 1 0, .arc 2 1, .arc 7 7, .arc 0 7]

theorem run_in_order_crossed : ∃ start, crossed.graph = .ok start ∧
    (start.run disputed).OK ∧ (start.run disputed).keys.Nodup ∧
      ∀ call, Adds 2 1 (start.run disputed) ((start.run disputed).next call) := by
  obtain ⟨start, h⟩ := exists_of_isOk (by decide +kernel : crossed.graph.isOk = true)
  exact ⟨start, h, run_in_order (Or.inr ⟨crossed, h⟩) disputed⟩

/-! ## What calls say -/

/-- The upserts that a call makes. A pair that is asked for by its implementation makes none. -/
def Call.upserts : Call → List Upsert
  | .upsert key f p => [⟨key, f, p⟩]
  | .pair key f =>
    if key.aspect = .interface then
      [⟨key, f, true⟩, ⟨⟨key.kind, .implementation, key.context, key.name⟩, none, true⟩]
    else []
  | .arc _ _ => []

/-- **One call more, its upserts more.** -/
theorem perform_tells (hg : g.OK) (ht : g.Tells told) (h : g.perform call = .ok g') :
    g'.Tells (told ++ call.upserts) := by
  rcases perform_cases h with ⟨key, f, p, i, rfl, hu⟩ | ⟨key, f, i, j, rfl, hp⟩ | ⟨d, u, rfl, ha⟩
  · exact upsert_tells hg ht hu
  · obtain ⟨hi, g₁, g₂, h₁, h₂, h₃⟩ := upsertPair_cases hp
    obtain ⟨rfl, -⟩ := addArc_cases h₃
    have ht₁ := upsert_tells hg ht h₁
    have ht₂ := upsert_tells (upsert_ok hg h₁).1 ht₁ h₂
    rw [List.append_assoc] at ht₂
    rw [Call.upserts, if_pos (of_decide_eq_true hi)]
    exact ht₂.link i j
  · obtain ⟨rfl, -⟩ := addArc_cases ha
    rw [Call.upserts, List.append_nil]
    exact ht.link d u

theorem runAll_concat (h : g.runAll (calls ++ [call]) = .ok g') :
    ∃ g₁, g.runAll calls = .ok g₁ ∧ g₁.perform call = .ok g' := by
  rw [runAll, List.foldlM_append] at h
  change (g.runAll calls >>= _) = _ at h
  cases hr : g.runAll calls with
  | error e => rw [hr] at h; cases h
  | ok g₁ =>
    rw [hr] at h
    simp only [List.foldlM_cons, List.foldlM_nil, bind_pure] at h
    exact ⟨g₁, rfl, h⟩

/-- Calls of which none is refused leave what their upserts say. -/
theorem runAll_tells (h : empty.runAll calls = .ok g) :
    g.OK ∧ g.Tells (calls.flatMap Call.upserts) := by
  induction calls using List.reverseRecOn generalizing g with
  | nil => cases h; exact ⟨empty_ok, tells_empty⟩
  | append_singleton calls call ih =>
    obtain ⟨g₁, hr, hp⟩ := runAll_concat h
    obtain ⟨hok, ht⟩ := ih hr
    rw [List.flatMap_append, List.flatMap_singleton]
    exact ⟨perform_ok hok hp, perform_tells hok ht hp⟩

theorem Tells.mem_keys_iff (ht : g.Tells told) : key ∈ g.keys ↔ callsOn key told ≠ [] := by
  rw [ht.keys, List.mem_eraseDups]
  exact ⟨callsOn_ne_nil, fun h => Decidable.not_not.1 fun hk => h (callsOn_eq_nil hk)⟩

/-- **What a node holds of the calls on its key.** -/
structure Holds (node : Node) (calls : List Upsert) : Prop where
  provides : node.provides = true ↔ ∃ c ∈ calls, c.provides = true
  /-- Until it is provided, the first call decides. -/
  first : (∀ c ∈ calls, c.provides = false) →
    ∃ c, calls.head? = some c ∧ node.fingerprint = c.fingerprint
  /-- Once it is provided, all provisions have to agree. -/
  agreed : (∃ c ∈ calls, c.provides = true) → ∀ f, node.fingerprint = some f ↔
    ∀ c ∈ calls, c.provides = true → c.fingerprint = some f

theorem Holds.depends_iff {node : Node} {calls : List Upsert} (h : Holds node calls) :
    node.provides = false ↔ ∀ c ∈ calls, c.provides = false := by
  rw [← Bool.not_eq_true, h.provides]
  simp

theorem holds_merged {node : Node} {calls : List Upsert} (hne : calls ≠ [])
    (h : (node.fingerprint, node.provides) = merged calls) : Holds node calls := by
  obtain ⟨c, rest, rfl⟩ := List.exists_cons_of_ne_nil hne
  unfold merged at h
  by_cases hany : (c :: rest).any (·.provides) = true
  · rw [if_pos hany] at h
    obtain ⟨hf, hp⟩ := Prod.mk.inj h
    obtain ⟨d, hd, hdp⟩ := List.any_eq_true.1 hany
    refine ⟨⟨fun _ => ⟨d, hd, hdp⟩, fun _ => hp⟩, ?_, ?_⟩
    · intro hall
      rw [hall d hd] at hdp
      cases hdp
    · intro _ x
      rw [hf]; exact agreed_provided hd hdp
  · rw [if_neg hany] at h
    obtain ⟨hf, hp⟩ := Prod.mk.inj h
    have hnone : ¬ ∃ d ∈ c :: rest, d.provides = true := fun hd => hany (List.any_eq_true.2 hd)
    refine ⟨?_, fun _ => ⟨c, rfl, hf⟩, fun hd => absurd hd hnone⟩
    rw [hp]
    simp only [hnone, Bool.false_eq_true]

theorem Tells.holds (ht : g.Tells told) {node : Node} (hn : node ∈ g.nodes) :
    Holds node (callsOn node.key told) :=
  holds_merged (ht.mem_keys_iff.1 (mem_keys.2 ⟨node, hn, rfl⟩)) (ht.contents node hn)

/-- The nodes that a fingerprint cannot be provided for, told by the calls. -/
theorem Tells.placeholder_iff (ht : g.Tells told) :
    (∃ node ∈ g.nodes, node.key = key ∧ node.provides = false ∧ node.fingerprint.isSome) ↔
      (∀ c ∈ callsOn key told, c.provides = false) ∧
        ∃ c, (callsOn key told).head? = some c ∧ c.fingerprint.isSome := by
  constructor
  · rintro ⟨node, hn, rfl, hp, hf⟩
    have hall := (ht.holds hn).depends_iff.1 hp
    obtain ⟨c, hc, hcf⟩ := (ht.holds hn).first hall
    rw [hcf] at hf
    exact ⟨hall, c, hc, hf⟩
  · rintro ⟨hall, c, hc, hf⟩
    have hne : callsOn key told ≠ [] := by
      intro h; rw [h] at hc; cases hc
    obtain ⟨node, hn, rfl⟩ := mem_keys.1 (ht.mem_keys_iff.2 hne)
    obtain ⟨c', hc', hcf⟩ := (ht.holds hn).first hall
    rw [hc] at hc'
    cases hc'
    exact ⟨node, hn, rfl, (ht.holds hn).depends_iff.2 hall, by rw [hcf]; exact hf⟩

/-- A pair is refused as its interface is: the implementation brings no fingerprint, and the arc joins
two nodes that are there. -/
theorem upsertPair_error_iff (hg : g.OK) (hi : key.isInterface = true) {e : Misuse} :
    g.upsertPair key f = .error e ↔ g.upsert key f true = .error e := by
  cases h₁ : g.upsert key f true with
  | error e₁ =>
    have hpair : g.upsertPair key f = .error e₁ := by
      unfold upsertPair
      rw [hi, h₁]
      rfl
    rw [hpair, Except.error.injEq, Except.error.injEq]
  | ok r₁ =>
    obtain ⟨g₁, i⟩ := r₁
    obtain ⟨hg₁, hk₁, -, -⟩ := upsert_ok hg h₁
    cases h₂ : g₁.upsert key.implementation none true with
    | error e₂ =>
      obtain ⟨-, -, hf, -⟩ := (upsert_error_iff hg₁).1 h₂
      cases hf
    | ok r₂ =>
      obtain ⟨g₂, j⟩ := r₂
      obtain ⟨-, hk₂, -, -⟩ := upsert_ok hg₁ h₂
      have hk₁' := keys_upsert_get hg₁ h₂ hk₁
      have h₃ := addArc_eq (lt_of_keys_get hk₁') (lt_of_keys_get hk₂)
      rw [upsertPair_eq hi h₁ h₂ h₃]
      simp only [reduceCtorEq]

theorem map_error_iff {α β : Type} {x : Except Misuse α} {t : α → β} {e : Misuse} :
    x.map t = .error e ↔ x = .error e := by
  cases x with
  | error e' => rw [Except.map, Except.error.injEq, Except.error.injEq]
  | ok a => simp only [Except.map, reduceCtorEq]

/-- **When a call is refused over a fingerprint**: it provides one for a key that was not provided yet and
has one from its first call. -/
theorem perform_placeholder_iff (hg : g.OK) (ht : g.Tells told) :
    g.perform call = .error .fingerprintedPlaceholder ↔ ∃ u ∈ call.upserts, u.provides = true ∧
      u.fingerprint.isSome ∧ (∀ c ∈ callsOn u.key told, c.provides = false) ∧
      ∃ c, (callsOn u.key told).head? = some c ∧ c.fingerprint.isSome := by
  cases call with
  | upsert key f p =>
    rw [perform, map_error_iff, upsert_error_iff hg, ht.placeholder_iff]
    simp only [Call.upserts, List.mem_singleton, exists_eq_left, true_and]
  | pair key f =>
    rw [perform, map_error_iff]
    cases hi : key.isInterface with
    | false =>
      -- the refusal is over the implementation that the pair was asked for by
      have himp : g.upsertPair key f = .error .implementationPair := by
        unfold upsertPair
        rw [hi]
        rfl
      have haspect : key.aspect ≠ .interface := of_decide_eq_false hi
      simp [himp, Call.upserts, haspect]
    | true =>
      have haspect : key.aspect = .interface := of_decide_eq_true hi
      rw [upsertPair_error_iff hg hi, upsert_error_iff hg, ht.placeholder_iff]
      simp [Call.upserts, haspect]
  | arc d u =>
    rw [perform]
    unfold addArc
    split <;> simp [Call.upserts]

/-! ## Order and repetition -/

theorem agreed_congr {l l' : List (Option Fingerprint)} (h : ∀ f, f ∈ l ↔ f ∈ l') :
    agreed l = agreed l' := by
  apply Option.ext
  intro x
  rw [agreed_eq_some, agreed_eq_some, ne_eq, ne_eq, List.eq_nil_iff_forall_not_mem,
    List.eq_nil_iff_forall_not_mem]
  simp only [h]

theorem mem_provided_callsOn : f ∈ provided (callsOn key told) ↔ ⟨key, f, true⟩ ∈ told := by
  simp only [provided, callsOn, List.mem_map, List.mem_filter, decide_eq_true_eq]
  constructor
  · rintro ⟨⟨k, f', p⟩, ⟨⟨hc, rfl⟩, rfl⟩, rfl⟩
    exact hc
  · intro hc
    exact ⟨_, ⟨⟨hc, rfl⟩, rfl⟩, rfl⟩

theorem exists_provides_callsOn :
    (∃ c ∈ callsOn key told, c.provides = true) ↔ ∃ f, ⟨key, f, true⟩ ∈ told := by
  constructor
  · rintro ⟨c, hc, hp⟩
    exact ⟨c.fingerprint, mem_provided_callsOn.1 (List.mem_map.2 ⟨c, List.mem_filter.2 ⟨hc, hp⟩, rfl⟩)⟩
  · rintro ⟨f, hf⟩
    exact ⟨_, List.mem_filter.2 ⟨hf, by simp⟩, rfl⟩

/-- A node that is provided has the fingerprint that its provisions agree on. -/
theorem Tells.fingerprint_eq (ht : g.Tells told) {node : Node} (hn : node ∈ g.nodes)
    (hp : node.provides = true) : node.fingerprint = agreed (provided (callsOn node.key told)) := by
  obtain ⟨c, hc, hcp⟩ := (ht.holds hn).provides.1 hp
  apply Option.ext
  intro x
  rw [agreed_provided hc hcp]
  exact (ht.holds hn).agreed ⟨c, hc, hcp⟩ x

/-- **A graph recalls the upserts that made it.** -/
structure Recalls (g : Graph) (told : List Upsert) : Prop where
  known : ∀ key, (∃ i, g.find? key = some i) ↔ callsOn key told ≠ []
  holds : ∀ node ∈ g.nodes, Holds node (callsOn node.key told)
  /-- A call is refused iff it provides a fingerprint for a key that was not provided before and whose
  first call brought one. -/
  refused : ∀ call : Call, g.perform call = .error .fingerprintedPlaceholder ↔
    ∃ u ∈ call.upserts, u.provides = true ∧ u.fingerprint.isSome ∧
      (∀ c ∈ callsOn u.key told, c.provides = false) ∧
      ∃ c, (callsOn u.key told).head? = some c ∧ c.fingerprint.isSome

/-- **The contents of nodes follow from the calls on their keys.** What the provisions of a key lead to does
not depend on their order or repetition, nor on any other calls. -/
theorem runAll_recalls (h : empty.runAll calls = .ok g) :
    Recalls g (calls.flatMap Call.upserts) ∧
      ∀ calls' g', empty.runAll calls' = .ok g' → ∀ node ∈ g.nodes, ∀ node' ∈ g'.nodes,
        node'.key = node.key → node.provides = true →
        (∀ f, ⟨node.key, f, true⟩ ∈ calls.flatMap Call.upserts ↔
          ⟨node.key, f, true⟩ ∈ calls'.flatMap Call.upserts) →
        node'.provides = true ∧ node'.fingerprint = node.fingerprint := by
  obtain ⟨hok, ht⟩ := runAll_tells h
  refine ⟨⟨?_, fun node => ht.holds, fun call => perform_placeholder_iff hok ht⟩, ?_⟩
  · intro key
    rw [← ht.mem_keys_iff, List.mem_iff_getElem?]
    simp only [hok.find]
  · intro calls' g' h' node hn node' hn' hkey hp hsame
    obtain ⟨-, ht'⟩ := runAll_tells h'
    have hp' : node'.provides = true := by
      rw [(ht.holds hn).provides, exists_provides_callsOn] at hp
      obtain ⟨f, hf⟩ := hp
      rw [(ht'.holds hn').provides, exists_provides_callsOn, hkey]
      exact ⟨f, (hsame f).1 hf⟩
    refine ⟨hp', ?_⟩
    rw [ht.fingerprint_eq hn hp, ht'.fingerprint_eq hn' hp', hkey]
    apply agreed_congr
    intro f
    rw [mem_provided_callsOn, mem_provided_callsOn, hsame]

/-- Calls that use a key before they provide it, by a pair and once more, with others in between. -/
def mixed : List Call :=
  [.upsert ⟨.topLevel, .interface, "", "f"⟩ none false,
    .upsert ⟨.externalDepend, .interface, "", "lib"⟩ (some .zero) false, .arc 1 0,
    .pair ⟨.topLevel, .interface, "", "f"⟩ (some .zero),
    .upsert ⟨.topLevel, .interface, "", "f"⟩ (some .zero) true]

theorem runAll_recalls_mixed : ∃ g g', empty.runAll mixed = .ok g ∧
    empty.runAll [.pair ⟨.topLevel, .interface, "", "f"⟩ (some .zero)] = .ok g' ∧
    Recalls g (mixed.flatMap Call.upserts) ∧
    ∀ node ∈ g.nodes, ∀ node' ∈ g'.nodes, node.key = ⟨.topLevel, .interface, "", "f"⟩ →
      node'.key = node.key → node.provides = true →
        node'.provides = true ∧ node'.fingerprint = node.fingerprint := by
  obtain ⟨g, h⟩ := exists_of_isOk (by decide +kernel : (empty.runAll mixed).isOk = true)
  obtain ⟨g', h'⟩ := exists_of_isOk (by decide +kernel : (empty.runAll
    [.pair ⟨.topLevel, .interface, "", "f"⟩ (some .zero)]).isOk = true)
  obtain ⟨hr, horder⟩ := runAll_recalls h
  refine ⟨g, g', h, h', hr, ?_⟩
  intro node hn node' hn' hk hkey hp
  refine horder _ g' h' node hn node' hn' hkey hp ?_
  intro f
  rw [hk]
  simp [mixed, Call.upserts]

end DepGraph.Graph
