import DepGraph.Construction
import DepGraph.Proofs.Graph.History

/-!
# What a construction makes of its calls

`construct` never fails on a named file, and the graph follows from the calls (`construct_account`):

* the first phase leaves what its upserts say, two for each declaration (`defineEach_ok`); as all of them
  provide, none is refused;
* the second phase changes nothing that is there (`useEach_ok`): what it mentions first becomes a node as
  mentioned, and a user that was not known is remarked upon;
* the arcs are those of the declarations and of the uses, reflexive ones aside.
-/

namespace DepGraph

open DepGraph.Graph

/-! ## What the calls say -/

/-- The keys that a call of the first phase defines, with the fingerprints that they bring. -/
def Definition.declarations : Definition → List (Key × Option Fingerprint)
  | .one key f => [(key, f)]
  | .all kind entities => entities.map fun e => (e.key kind, e.fingerprint?)

/-- All that a first phase declares. The file's own kind of key declares nothing. -/
def declarations (definitions : List Definition) : List (Key × Option Fingerprint) :=
  (definitions.flatMap Definition.declarations).filter (·.1.kind ≠ .sourceFileProvide)

/-- The upserts for a declaration. -/
def pairCalls (drop : Bool) (d : Key × Option Fingerprint) : List Upsert :=
  [⟨d.1.interface, if drop then none else d.2, true⟩, ⟨d.1.implementation, none, true⟩]

/-- The arcs for a declaration: within the pair, and from the file. -/
def pairArcs (file : Key) (d : Key × Option Fingerprint) : List (Key × Key) :=
  [(d.1.interface, d.1.implementation), (file, d.1.interface)]

/-- What a call of the second phase mentions: what is used, then its user. -/
def Use.mentions (drop : Bool) : Use → List Upsert
  | .declaration d u => [⟨d, none, false⟩, ⟨u, none, true⟩]
  | .external d u f => [⟨d, if drop then none else f, false⟩, ⟨u, none, true⟩]
  | .remark _ => []

/-- The arc of a call of the second phase. -/
def Use.arcs : Use → List (Key × Key)
  | .declaration d u | .external d u _ => [(d, u)]
  | .remark _ => []

/-- The keys that a call of the second phase mentions. -/
def Use.keys : Use → List Key
  | .declaration d u | .external d u _ => [d, u]
  | .remark _ => []

/-- What is remarked upon a call when some keys are known: a user that is none of them. -/
def Use.remarks (known : List Key) : Use → List Diagnostic
  | .declaration d u | .external d u _ =>
    if u ∈ known ++ [d] then [] else [Construction.undefinedUser u]
  | .remark diagnostic => [diagnostic]

/-- The remarks of a second phase, in the order of its calls. -/
def remarks (known : List Key) : List Use → List Diagnostic
  | [] => []
  | use :: rest => use.remarks known ++ remarks (known ++ use.keys) rest

/-- The remark about a finished graph, if something is wrong with it. -/
def Graph.complaint (g : Graph) (depsName : String) : List Diagnostic :=
  match g.verify with
  | .ok () => []
  | .error flaw => [.error s!"malformed dependency graph for {depsName}: {flaw.message}"]

theorem Use.keys_eq (drop : Bool) (use : Use) : (use.mentions drop).map (·.key) = use.keys := by
  cases use <;> rfl

variable {g g' : Graph} {key : Key} {f : Option Fingerprint} {i j : ℕ}

theorem Graph.sourceFile_eq (hk : g.keys[0]? = some key) (hkind : key.kind = .sourceFileProvide) :
    g.sourceFile? = some 0 := by
  rw [keys_getElem?] at hk
  unfold sourceFile?
  cases h : g.nodes[0]? with
  | none => rw [h] at hk; cases hk
  | some node =>
    rw [h] at hk
    cases hk
    simp only [hkind, if_true]

namespace Construction

variable {c : Construction} {file : Key} {calls : List Upsert} {arcs : List (Key × Key)}

/-! ## The first phase -/

/-- **The state of a first phase**: the file's node stands first, and all calls so far provided. -/
structure Defines (c : Construction) (file : Key) (calls : List Upsert) (arcs : List (Key × Key)) :
    Prop where
  ok : c.graph.OK
  tells : c.graph.Tells calls
  joins : c.graph.Joins arcs
  first : c.graph.keys[0]? = some file
  provides : ∀ call ∈ calls, call.provides = true

theorem tells_provides (ht : g.Tells calls) (hp : ∀ call ∈ calls, call.provides = true) :
    ∀ node ∈ g.nodes, node.provides = true := by
  intro node hn
  have hk : node.key ∈ calls.map (·.key) := by
    rw [← List.mem_eraseDups, ← ht.keys]
    exact mem_keys.2 ⟨node, hn, rfl⟩
  obtain ⟨call, rest, hcall⟩ := List.exists_cons_of_ne_nil (callsOn_ne_nil hk)
  have hmem : call ∈ callsOn node.key calls := by rw [hcall]; exact List.mem_cons_self
  have hany : (callsOn node.key calls).any (·.provides) = true :=
    List.any_eq_true.2 ⟨call, hmem, hp call (List.mem_of_mem_filter hmem)⟩
  have hcont := ht.contents node hn
  rw [merged, if_pos hany] at hcont
  exact (Prod.mk.inj hcont).2

/-- A provision in the first phase is never refused. -/
theorem upsert_defines (hg : g.OK) (ht : g.Tells calls) (hp : ∀ call ∈ calls, call.provides = true)
    (key : Key) (f : Option Fingerprint) : ∃ g' i, g.upsert key f true = .ok (g', i) ∧ g'.OK ∧
      g'.Tells (calls ++ [⟨key, f, true⟩]) ∧ g'.keys[i]? = some key := by
  -- what is refused is a fingerprint for a node that was only used, and there is none yet
  obtain ⟨g', i, hu⟩ := upsert_total (f := f) hg
    (fun node hn _ _ => Or.inl (tells_provides ht hp node hn))
  obtain ⟨hg', hi, -, -⟩ := upsert_ok hg hu
  exact ⟨g', i, hu, hg', upsert_tells hg ht hu, hi⟩

theorem defineKey_eq {file : ℕ} {pair : ℕ × ℕ} (hk : key.kind ≠ .sourceFileProvide)
    (hpair : c.graph.upsertPair key.interface (c.trusted f) = .ok (g, pair))
    (hfile : g.sourceFile? = some file) (ha : g.addArc file pair.1 = .ok g') :
    c.defineKey key f = .ok ({ c with graph := g' }, some pair) := by
  unfold defineKey
  rw [if_neg hk, hpair]
  simp only [bind, Except.bind, hfile, ha]
  rfl

/-- **One declaration.** -/
theorem defineKey_ok (h : c.Defines file calls arcs) (hfile : file.kind = .sourceFileProvide)
    (hk : key.kind ≠ .sourceFileProvide) (f : Option Fingerprint) :
    ∃ c' pair, c.defineKey key f = .ok (c', pair) ∧
      c'.Defines file (calls ++ pairCalls c.dropFingerprints (key, f)) (arcs ++ pairArcs file (key, f)) ∧
      c'.diagnostics = c.diagnostics ∧ c'.dropFingerprints = c.dropFingerprints := by
  obtain ⟨g₁, i, hu₁, hg₁, ht₁, hi₁⟩ :=
    upsert_defines h.ok h.tells h.provides key.interface (c.trusted f)
  have hp₁ : ∀ call ∈ calls ++ [⟨key.interface, c.trusted f, true⟩], call.provides = true := by
    intro call hc
    rcases List.mem_append.1 hc with hc | hc
    · exact h.provides call hc
    · rw [List.mem_singleton] at hc; rw [hc]
  obtain ⟨g₂, j, hu₂, hg₂, ht₂, hj₂⟩ := upsert_defines hg₁ ht₁ hp₁ key.implementation none
  have hi₂ := keys_upsert_get hg₁ hu₂ hi₁
  have hf₂ := keys_upsert_get hg₁ hu₂ (keys_upsert_get h.ok hu₁ h.first)
  have hj₂' := (h.joins.upsert h.ok hu₁).upsert hg₁ hu₂
  -- the arc of the pair, then the one from the file
  have ha₃ := addArc_eq (lt_of_keys_get hi₂) (lt_of_keys_get hj₂)
  have hint : key.interface.isInterface = true := rfl
  have hpair := upsertPair_eq hint hu₁ hu₂ ha₃
  set g₃ := g₂.link i j with hg₃
  have hok₃ : g₃.OK := link_ok hg₂ (lt_of_keys_get hi₂) (lt_of_keys_get hj₂)
  have hi₃ : g₃.keys[i]? = some key.interface := by rw [hg₃, keys_link]; exact hi₂
  have hf₃ : g₃.keys[0]? = some file := by rw [hg₃, keys_link]; exact hf₂
  have ha₄ := addArc_eq (lt_of_keys_get hf₃) (lt_of_keys_get hi₃)
  refine ⟨{ c with graph := g₃.link 0 i }, some (i, j), ?_, ⟨?_, ?_, ?_, ?_, ?_⟩, rfl, rfl⟩
  · exact defineKey_eq hk hpair (sourceFile_eq hf₃ hfile) ha₄
  · exact link_ok hok₃ (lt_of_keys_get hf₃) (lt_of_keys_get hi₃)
  · have := (ht₂.link i j).link 0 i
    rw [List.append_assoc] at this
    exact this
  · have h₃ := hj₂'.link hg₂ hi₂ hj₂
    have h₄ := Joins.link h₃ hok₃ hf₃ hi₃
    rw [List.append_assoc] at h₄
    exact h₄
  · rw [keys_link]; exact hf₃
  · intro call hc
    rcases List.mem_append.1 hc with hc | hc
    · exact h.provides call hc
    · rcases List.mem_cons.1 hc with rfl | hc
      · rfl
      · rw [List.mem_singleton] at hc; rw [hc]

/-- `c'` comes from `c` by declarations, of which those of the file's own kind do not count. -/
def After (c c' : Construction) (file : Key) (l : List (Key × Option Fingerprint)) : Prop :=
  ∀ calls arcs, c.Defines file calls arcs →
    c'.Defines file
      (calls ++ (l.filter (·.1.kind ≠ .sourceFileProvide)).flatMap (pairCalls c.dropFingerprints))
      (arcs ++ (l.filter (·.1.kind ≠ .sourceFileProvide)).flatMap (pairArcs file)) ∧
    c'.diagnostics = c.diagnostics ∧ c'.dropFingerprints = c.dropFingerprints

theorem After.refl (c : Construction) (file : Key) : c.After c file [] := by
  intro calls arcs h
  simpa using h

theorem After.trans {c₁ c₂ : Construction} {l l' : List (Key × Option Fingerprint)}
    (h : c.After c₁ file l) (h' : c₁.After c₂ file l') : c.After c₂ file (l ++ l') := by
  intro calls arcs hc
  obtain ⟨h₁, hd₁, hf₁⟩ := h calls arcs hc
  obtain ⟨h₂, hd₂, hf₂⟩ := h' _ _ h₁
  rw [hf₁] at h₂
  rw [List.filter_append, List.flatMap_append, List.flatMap_append, ← List.append_assoc,
    ← List.append_assoc]
  exact ⟨h₂, hd₂.trans hd₁, hf₂.trans hf₁⟩

/-- One key, be it a declaration or not. -/
theorem defineKey_after (h : c.Defines file calls arcs) (hfile : file.kind = .sourceFileProvide)
    (key : Key) (f : Option Fingerprint) :
    ∃ c' pair, c.defineKey key f = .ok (c', pair) ∧ c.After c' file [(key, f)] := by
  by_cases hk : key.kind = .sourceFileProvide
  · refine ⟨c, none, ?_, ?_⟩
    · unfold defineKey
      rw [if_pos hk]; rfl
    · intro calls arcs hc
      simpa [hk] using hc
  · obtain ⟨c', pair, heq, -⟩ := defineKey_ok h hfile hk f
    refine ⟨c', pair, heq, ?_⟩
    -- the result is one and the same, by whatever calls the state before is told
    intro calls arcs hc
    obtain ⟨c'', pair', heq', hd⟩ := defineKey_ok hc hfile hk f
    rw [heq] at heq'
    cases heq'
    simpa [hk] using hd

theorem defineAll_after (hfile : file.kind = .sourceFileProvide) (kind : Kind) :
    ∀ (entities : List Entity) {c : Construction} {calls : List Upsert} {arcs : List (Key × Key)},
      c.Defines file calls arcs → ∃ c', c.defineAll kind entities = .ok c' ∧
        c.After c' file (entities.map fun e => (e.key kind, e.fingerprint?)) := by
  intro entities
  induction entities with
  | nil => intro c calls arcs _; exact ⟨c, rfl, After.refl c file⟩
  | cons e rest ih =>
    intro c calls arcs h
    obtain ⟨c₁, pair, heq, ha⟩ := defineKey_after h hfile (e.key kind) e.fingerprint?
    obtain ⟨c₂, heq₂, ha₂⟩ := ih (ha calls arcs h).1
    refine ⟨c₂, ?_, ha.trans ha₂⟩
    unfold defineAll
    rw [heq]
    exact heq₂

theorem define_after (h : c.Defines file calls arcs) (hfile : file.kind = .sourceFileProvide)
    (definition : Definition) :
    ∃ c' pair, c.define definition = .ok (c', pair) ∧ c.After c' file definition.declarations := by
  cases definition with
  | one key f => exact defineKey_after h hfile key f
  | all kind entities =>
    obtain ⟨c', heq, ha⟩ := defineAll_after hfile kind entities h
    refine ⟨c', none, ?_, ha⟩
    rw [define, heq]; rfl

/-- **The first phase.** -/
theorem defineEach_ok (hfile : file.kind = .sourceFileProvide) :
    ∀ (definitions : List Definition) {c : Construction} {calls : List Upsert}
      {arcs : List (Key × Key)}, c.Defines file calls arcs →
      ∃ c' log, c.defineEach definitions = .ok (c', log) ∧
        c.After c' file (definitions.flatMap Definition.declarations) := by
  intro definitions
  induction definitions with
  | nil => intro c calls arcs _; exact ⟨c, [], rfl, After.refl c file⟩
  | cons d rest ih =>
    intro c calls arcs h
    obtain ⟨c₁, pair, heq, ha⟩ := define_after h hfile d
    obtain ⟨c₂, log, heq₂, ha₂⟩ := ih (ha calls arcs h).1
    refine ⟨c₂, (pair, c₁.graph) :: log, ?_, ha.trans ha₂⟩
    unfold defineEach
    rw [heq]
    change (c₁.defineEach rest >>= _) = _
    rw [heq₂]
    rfl

/-! ## The second phase -/

/-- **The state of a second phase** that started with the graph `base`. -/
structure Uses (base : Graph) (c : Construction) (mentions : List Upsert) (arcs : List (Key × Key)) :
    Prop where
  ok : c.graph.OK
  meets : base.Meets c.graph mentions
  joins : c.graph.Joins arcs

variable {base : Graph} {mentions : List Upsert}

/-- What is used gets a node, or has one already. -/
theorem upsert_uses (h : Uses base c mentions arcs) (key : Key) (f : Option Fingerprint) :
    ∃ g i, c.graph.upsert key f false = .ok (g, i) ∧ g.keys[i]? = some key ∧
      Uses base { c with graph := g } (mentions ++ [⟨key, f, false⟩]) arcs := by
  obtain ⟨g, i, hu⟩ : ∃ g i, c.graph.upsert key f false = .ok (g, i) := upsert_total h.ok (by simp)
  obtain ⟨hg, hi, -, -⟩ := upsert_ok h.ok hu
  refine ⟨g, i, hu, hi, hg, ?_, h.joins.upsert h.ok hu⟩
  rcases upsert_cases hu with ⟨hf, rfl, -⟩ | ⟨hf, -, rfl⟩ | ⟨-, hp, -⟩
  · exact h.meets.append (h.ok.find_none.1 hf)
  · exact h.meets.known (List.mem_of_getElem? hi)
  · cases hp

/-- **One user.** A user that is not there is provided, and remarked upon. -/
theorem linkUse_ok (h : Uses base c mentions arcs) {d : Key} (hd : c.graph.keys[i]? = some d)
    (u : Key) : ∃ c', c.linkUse i u = .ok c' ∧
      Uses base c' (mentions ++ [⟨u, none, true⟩]) (arcs ++ [(d, u)]) ∧
      c'.diagnostics = c.diagnostics ++ (if u ∈ c.graph.keys then [] else [undefinedUser u]) ∧
      c'.dropFingerprints = c.dropFingerprints := by
  unfold linkUse
  cases hf : c.graph.find? u with
  | some j =>
    -- a known user only gets the arc
    have hj := (h.ok.find u j).1 hf
    have hm := List.mem_of_getElem? hj
    refine ⟨{ c with graph := c.graph.link i j }, ?_, ⟨?_, ?_, ?_⟩, ?_, rfl⟩
    · simp only
      rw [addArc_eq (lt_of_keys_get hd) (lt_of_keys_get hj)]; rfl
    · exact link_ok h.ok (lt_of_keys_get hd) (lt_of_keys_get hj)
    · exact (h.meets.known hm).link i j
    · exact h.joins.link h.ok hd hj
    · rw [if_pos hm, List.append_nil]
  | none =>
    have hnew := h.ok.find_none.1 hf
    set g := c.graph.append u none true with hgdef
    have hu : c.graph.upsert u none true = .ok (g, c.graph.nodes.size) := by
      unfold upsert
      rw [hf]
    obtain ⟨hg, hj, -, -⟩ := upsert_ok h.ok hu
    have hd' := keys_upsert_get h.ok hu hd
    refine ⟨{ c with
      graph := g.link i c.graph.nodes.size
      diagnostics := c.diagnostics ++ [undefinedUser u] }, ?_, ⟨?_, ?_, ?_⟩, ?_, rfl⟩
    · simp only
      rw [hu]
      change (g.addArc i c.graph.nodes.size >>= _) = _
      rw [addArc_eq (lt_of_keys_get hd') (lt_of_keys_get hj)]; rfl
    · exact link_ok hg (lt_of_keys_get hd') (lt_of_keys_get hj)
    · exact (h.meets.append hnew).link i c.graph.nodes.size
    · exact (h.joins.upsert h.ok hu).link hg hd' hj
    · rw [if_neg hnew]

/-- What is used and its user. -/
theorem upsert_linkUse_ok (h : Uses base c mentions arcs) (d u : Key) (f : Option Fingerprint) :
    ∃ g i c', c.graph.upsert d f false = .ok (g, i) ∧
      ({ c with graph := g } : Construction).linkUse i u = .ok c' ∧
      Uses base c' (mentions ++ [⟨d, f, false⟩, ⟨u, none, true⟩]) (arcs ++ [(d, u)]) ∧
      c'.diagnostics = c.diagnostics ++ (if u ∈ c.graph.keys ++ [d] then [] else [undefinedUser u]) ∧
      c'.dropFingerprints = c.dropFingerprints := by
  obtain ⟨g, i, hu, hi, h₁⟩ := upsert_uses h d f
  obtain ⟨c', hl, h₂, hdiag, hdrop⟩ := linkUse_ok h₁ hi u
  refine ⟨g, i, c', hu, hl, ?_, ?_, hdrop⟩
  · rw [List.append_assoc] at h₂
    exact h₂
  · have hmem : u ∈ g.keys ↔ u ∈ c.graph.keys ++ [d] := by
      rw [(upsert_ok h.ok hu).2.2.2]
      split
      · rename_i hd
        rw [List.mem_append, List.mem_singleton]
        exact ⟨Or.inl, fun h => h.elim id (fun h => h ▸ hd)⟩
      · rfl
    rw [hdiag]
    simp only [hmem]

/-- **One call.** -/
theorem use_ok (h : Uses base c mentions arcs) (use : Use) {known : List Key}
    (hk : ∀ k, k ∈ c.graph.keys ↔ k ∈ known) :
    ∃ c', c.use use = .ok c' ∧
      Uses base c' (mentions ++ use.mentions c.dropFingerprints) (arcs ++ use.arcs) ∧
      c'.diagnostics = c.diagnostics ++ use.remarks known ∧
      c'.dropFingerprints = c.dropFingerprints ∧ ∀ k, k ∈ c'.graph.keys ↔ k ∈ known ++ use.keys := by
  have hkeys : ∀ {c' : Construction}, Uses base c' (mentions ++ use.mentions c.dropFingerprints)
      (arcs ++ use.arcs) → ∀ k, k ∈ c'.graph.keys ↔ k ∈ known ++ use.keys := by
    intro c' h' k
    rw [h'.meets.mem_keys_iff, List.map_append, List.mem_append, Use.keys_eq, ← or_assoc,
      ← h.meets.mem_keys_iff, hk, List.mem_append]
  have hd : ∀ d u, (u ∈ c.graph.keys ++ [d]) ↔ u ∈ known ++ [d] := by
    intro d u
    rw [List.mem_append, List.mem_append, hk]
  cases use with
  | declaration d u =>
    obtain ⟨g, i, c', hu, hl, h', hdiag, hdrop⟩ := upsert_linkUse_ok h d u none
    refine ⟨c', ?_, h', ?_, hdrop, hkeys h'⟩
    · rw [Construction.use, hu]; exact hl
    · rw [hdiag]
      simp only [hd]
      rfl
  | external d u f =>
    obtain ⟨g, i, c', hu, hl, h', hdiag, hdrop⟩ := upsert_linkUse_ok h d u (c.trusted f)
    refine ⟨c', ?_, h', ?_, hdrop, hkeys h'⟩
    · rw [Construction.use, hu]; exact hl
    · rw [hdiag]
      simp only [hd]
      rfl
  | remark diagnostic =>
    have h' : Uses base { c with diagnostics := c.diagnostics ++ [diagnostic] }
        (mentions ++ []) (arcs ++ []) := by
      rw [List.append_nil, List.append_nil]
      exact ⟨h.ok, h.meets, h.joins⟩
    exact ⟨_, rfl, h', rfl, rfl, hkeys h'⟩

/-- **The second phase.** -/
theorem useEach_ok : ∀ (uses : List Use) {c : Construction} {mentions : List Upsert}
    {arcs : List (Key × Key)} {known : List Key}, Uses base c mentions arcs →
    (∀ k, k ∈ c.graph.keys ↔ k ∈ known) →
    ∃ c' log, c.useEach uses = .ok (c', log) ∧
      Uses base c' (mentions ++ uses.flatMap (Use.mentions c.dropFingerprints))
        (arcs ++ uses.flatMap Use.arcs) ∧
      c'.diagnostics = c.diagnostics ++ remarks known uses := by
  intro uses
  induction uses with
  | nil =>
    intro c mentions arcs known h _
    refine ⟨c, [], rfl, ?_, ?_⟩
    · rw [List.flatMap_nil, List.flatMap_nil, List.append_nil, List.append_nil]; exact h
    · rw [remarks, List.append_nil]
  | cons use rest ih =>
    intro c mentions arcs known h hk
    obtain ⟨c₁, heq, h₁, hdiag, hdrop, hk₁⟩ := use_ok h use hk
    obtain ⟨c₂, log, heq₂, h₂, hdiag₂⟩ := ih h₁ hk₁
    refine ⟨c₂, (c₁.diagnostics.length, c₁.graph) :: log, ?_, ?_, ?_⟩
    · unfold useEach
      rw [heq]
      change (c₁.useEach rest >>= _) = _
      rw [heq₂]
      rfl
    · rw [List.flatMap_cons, List.flatMap_cons, ← List.append_assoc, ← List.append_assoc]
      rw [hdrop] at h₂
      exact h₂
    · rw [hdiag₂, hdiag, remarks, List.append_assoc]

/-! ## Both phases -/

/-- The file's own node, before anything is declared. -/
theorem begin_ok (options : ConstructionOptions) : ∃ c, begin options = .ok c ∧
    c.Defines (.sourceFile options.depsName)
      [⟨.sourceFile options.depsName, some options.fileFingerprint, true⟩] [] ∧
    c.diagnostics = [] ∧ c.dropFingerprints = options.hadCompilationError := by
  obtain ⟨g, i, hu, hg, ht, hi⟩ := upsert_defines empty_ok tells_empty (by simp)
    (.sourceFile options.depsName) (some options.fileFingerprint)
  refine ⟨{ graph := g, dropFingerprints := options.hadCompilationError }, ?_,
    ⟨hg, ht, joins_empty.upsert empty_ok hu, ?_, by simp⟩, rfl, rfl⟩
  · unfold begin
    rw [hu]; rfl
  · have hk := ht.keys
    rw [List.nil_append, List.map_singleton, List.eraseDups_cons] at hk
    rw [hk]; rfl

theorem check_eq (c : Construction) (depsName : String) :
    (c.check depsName).graph = c.graph ∧
      (c.check depsName).diagnostics = c.diagnostics ++ c.graph.complaint depsName := by
  unfold check Graph.complaint
  cases c.graph.verify with
  | ok _ => exact ⟨rfl, (List.append_nil _).symm⟩
  | error flaw => exact ⟨rfl, rfl⟩

end Construction

variable {options : ConstructionOptions} {definitions : List Definition} {uses : List Use}

/-- The upserts of a first phase, that of the file first. -/
def definedCalls (options : ConstructionOptions) (definitions : List Definition) : List Upsert :=
  ⟨.sourceFile options.depsName, some options.fileFingerprint, true⟩ ::
    (declarations definitions).flatMap (pairCalls options.hadCompilationError)

/-- The mentions of a second phase. -/
def usedMentions (options : ConstructionOptions) (uses : List Use) : List Upsert :=
  uses.flatMap (Use.mentions options.hadCompilationError)

/-- The arcs of both phases. -/
def allArcs (options : ConstructionOptions) (definitions : List Definition) (uses : List Use) :
    List (Key × Key) :=
  (declarations definitions).flatMap (pairArcs (.sourceFile options.depsName)) ++ uses.flatMap Use.arcs

/-- **What a construction holds**, told by its calls: the graph `defined` after the first phase, and the
finished one. -/
structure Account (options : ConstructionOptions) (definitions : List Definition) (uses : List Use)
    (defined : Graph) (c : Constructed) : Prop where
  defined_ok : defined.OK
  tells : defined.Tells (definedCalls options definitions)
  ok : c.graph.OK
  meets : defined.Meets c.graph (usedMentions options uses)
  joins : c.graph.Joins (allArcs options definitions uses)
  diagnostics : c.diagnostics =
    remarks ((definedCalls options definitions).map (·.key)) uses ++ c.graph.complaint options.depsName

/-- **A construction gives a graph, and the calls account for it.** -/
theorem construct_account (hname : options.depsName ≠ "") (definitions : List Definition)
    (uses : List Use) : ∃ defined c, construct options definitions uses = .ok c ∧
      Account options definitions uses defined c := by
  obtain ⟨c₀, h₀, hd₀, hdiag₀, hdrop₀⟩ := Construction.begin_ok options
  obtain ⟨c₁, log₁, h₁, ha₁⟩ := Construction.defineEach_ok rfl definitions hd₀
  obtain ⟨hd₁, hdiag₁, hdrop₁⟩ := ha₁ _ _ hd₀
  rw [hdrop₀] at hd₁ hdrop₁
  -- the second phase starts from the graph that the first one left
  have hu₁ : Construction.Uses c₁.graph c₁ [] _ := ⟨hd₁.ok, meets_refl hd₁.ok, hd₁.joins⟩
  have hk₁ : ∀ k, k ∈ c₁.graph.keys ↔ k ∈ (definedCalls options definitions).map (·.key) := by
    intro k
    rw [hd₁.tells.keys, List.mem_eraseDups]; rfl
  obtain ⟨c₂, log₂, h₂, hu₂, hdiag₂⟩ := Construction.useEach_ok uses hu₁ hk₁
  rw [hdrop₁] at hu₂
  obtain ⟨hgc, hdc⟩ := c₂.check_eq options.depsName
  refine ⟨c₁.graph, ⟨c₂.graph, (c₂.check options.depsName).diagnostics, log₁, log₂⟩, ?_,
    hd₁.ok, hd₁.tells, hu₂.ok, hu₂.meets, hu₂.joins, ?_⟩
  · unfold construct
    rw [if_neg hname, h₀]
    change (c₀.defineEach definitions >>= _) = _
    rw [h₁]
    change (c₁.useEach uses >>= _) = _
    rw [h₂]
    change Except.ok _ = _
    rw [hgc]
  · rw [hdc, hdiag₂, hdiag₁, hdiag₀, List.nil_append]

end DepGraph
