import DepGraph.Manifest.Build
import DepGraph.Proofs.Construction

/-!
# The graph that a manifest describes

A manifest declares keys and then, record by record, mentions more of them. This fixes the graph that is
built from it:

* `Manifest.build_shape`: the nodes are the keys in the order of their first mention, and the arcs are
  those of the declarations and of the records.
* `Manifest.build_contents`: what each node holds, and the diagnostics. A declared key has a fingerprint
  iff all its declarations agree on it; any other key is what its first mention makes it.
-/

namespace DepGraph

open DepGraph.Graph

/-! ## What a manifest says -/

/-- How a record mentions a key: as a user, or as what is used, with the fingerprint of something compiled
elsewhere. -/
inductive Role where
  | user
  | used (fingerprint : Option Fingerprint)
  deriving DecidableEq

/-- The fingerprint of a node that is first met in a role, and whether the file provides it. -/
def Role.contents : Role → Option Fingerprint × Bool
  | .user => (none, true)
  | .used f => (f, false)

/-- What records say, one thing after the other. -/
inductive Event where
  | mention (key : Key) (role : Role)
  | malformed (path : String) (error : Fingerprint.ParseError)

def Event.key? : Event → Option Key
  | .mention key _ => some key
  | .malformed _ _ => none

/-- The role that an event gives to a key. -/
def Event.roleOf? (key : Key) : Event → Option Role
  | .mention k role => if k = key then some role else none
  | .malformed _ _ => none

/-- A remark about a record: a user that was not known, or a fingerprint that cannot be read. -/
inductive Remark where
  | unknownUser (key : Key)
  | malformed (path : String) (error : Fingerprint.ParseError)

def Remark.diagnostic : Remark → Diagnostic
  | .unknownUser key =>
    .warning s!"use {key.display} was never defined in this file; treating it as always changed"
  | .malformed path e => .error s!"malformed external dependency record for '{path}': {e.message}"

def Remark.user? : Remark → Option Key
  | .unknownUser key => some key
  | .malformed _ _ => none

/-- The remarks about events when some keys are known. Whatever is mentioned is known from then on. -/
def remarksOn (known : List Key) : List Event → List Remark
  | [] => []
  | .mention key .user :: rest =>
    (if key ∈ known then [] else [.unknownUser key]) ++ remarksOn (known ++ [key]) rest
  | .mention key (.used _) :: rest => remarksOn (known ++ [key]) rest
  | .malformed path e :: rest => .malformed path e :: remarksOn known rest

/-- The fingerprint of an external record, which need not be there but has to be readable. -/
def ExternalRecord.reading (r : ExternalRecord) : Except Fingerprint.ParseError (Option Fingerprint) :=
  match r.fingerprint with
  | none => .ok none
  | some digits => (Fingerprint.parse digits).map some

namespace Manifest

/-- The key of the file itself. -/
def fileKey (m : Manifest) : Key := ⟨.sourceFileProvide, .interface, "", m.depsName⟩

/-- The interface keys of all declarations, in order, with the fingerprints that they bring. -/
def declared (m : Manifest) : List (Key × Option Fingerprint) :=
  m.topLevel.map (fun d => (⟨.topLevel, .interface, "", d.name⟩, (Entity.standalone d).fingerprint?))
    ++ m.nominals.map (fun d =>
      (⟨.nominal, .interface, d.nominalName, ""⟩, (Entity.standalone d).fingerprint?))
    ++ m.potentialMembers.map (fun d =>
      (⟨.potentialMember, .interface, d.nominalName, ""⟩, (Entity.standalone d).fingerprint?))
    ++ m.members.map (fun r =>
      (⟨.member, .interface, r.nominal.nominalName, r.member.name⟩,
        (Entity.member r.nominal r.member).fingerprint?))
    ++ m.dynamicLookups.map (fun d =>
      (⟨.dynamicLookup, .interface, "", d.name⟩, (Entity.standalone d).fingerprint?))

/-- The keys that are known before any record is read: those of the file and of both sides of each
declaration. -/
def known (m : Manifest) : List Key :=
  m.fileKey :: m.declared.flatMap fun d => [d.1, ⟨d.1.kind, .implementation, d.1.context, d.1.name⟩]

/-- The user of a record: the file itself where none is given. -/
def user (m : Manifest) (u : Option Key) : Key := u.getD m.fileKey

/-- What is used comes before its user. -/
def useEvents (m : Manifest) (r : UseRecord) : List Event :=
  [.mention r.definition (.used none), .mention (m.user r.user) .user]

/-- A record whose fingerprint cannot be read mentions nothing. -/
def externalEvents (m : Manifest) (r : ExternalRecord) : List Event :=
  match r.reading with
  | .ok f =>
    [.mention ⟨.externalDepend, .interface, "", r.path⟩ (.used f), .mention (m.user r.user) .user]
  | .error e => [.malformed r.path e]

/-- What the records say: the uses, then the externals. -/
def events (m : Manifest) : List Event :=
  m.uses.flatMap m.useEvents ++ m.externals.flatMap m.externalEvents

/-- All keys that a manifest mentions, in order, each as often as it is mentioned. -/
def mentions (m : Manifest) : List Key := m.known ++ m.events.filterMap Event.key?

/-- The role in which a key is first mentioned by a record. -/
def firstRole (m : Manifest) (key : Key) : Option Role := m.events.findSome? (Event.roleOf? key)

/-- The remarks about the records, in order. -/
def remarks (m : Manifest) : List Remark := remarksOn m.known m.events

/-- The arc of an external record, if it counts. -/
def externalArcs (m : Manifest) (r : ExternalRecord) : List (Key × Key) :=
  match r.reading with
  | .ok _ => [(⟨.externalDepend, .interface, "", r.path⟩, m.user r.user)]
  | .error _ => []

/-- The dependencies that a manifest describes, as pairs of definition and use: interfaces on the file,
implementations on interfaces, users on what they use. -/
def arcs (m : Manifest) : List (Key × Key) :=
  m.declared.flatMap (fun d =>
      [(m.fileKey, d.1), (d.1, ⟨d.1.kind, .implementation, d.1.context, d.1.name⟩)])
    ++ m.uses.map (fun r => (r.definition, m.user r.user)) ++ m.externals.flatMap m.externalArcs

variable (m : Manifest)

/-! ## From records to calls -/

theorem declared_kind : ∀ d ∈ m.declared, d.1.kind ≠ .sourceFileProvide ∧ d.1.aspect = .interface := by
  intro d hd
  unfold declared at hd
  simp only [List.mem_append, List.mem_map] at hd
  rcases hd with (((⟨x, -, rfl⟩ | ⟨x, -, rfl⟩) | ⟨x, -, rfl⟩) | ⟨x, -, rfl⟩) | ⟨x, -, rfl⟩ <;>
    exact ⟨nofun, rfl⟩

theorem declared_interface : ∀ d ∈ m.declared, d.1.interface = d.1 := by
  intro d hd
  have ha := (m.declared_kind d hd).2
  unfold Key.interface
  rw [← ha]

theorem declarations_definitions : declarations m.definitions = m.declared := by
  have hflat : m.definitions.flatMap Definition.declarations = m.declared := by
    simp only [definitions, List.flatMap_cons, List.flatMap_nil, Definition.declarations,
      List.map_map, List.append_nil, declared, List.append_assoc]
    rfl
  unfold declarations
  rw [hflat, List.filter_eq_self]
  intro d hd
  simpa using (m.declared_kind d hd).1

theorem externalCall_eq (r : ExternalRecord) :
    m.externalCall r = match r.reading with
      | .ok f => .external (Key.external r.path) (m.user r.user) f
      | .error e => .remark (Remark.malformed r.path e).diagnostic := by
  unfold externalCall ExternalRecord.reading
  cases r.fingerprint with
  | none => rfl
  | some digits =>
    simp only [Option.map_some]
    cases Fingerprint.parse digits with
    | ok f => rfl
    | error e => rfl

/-- The mention as the graph takes it. -/
def mentionOf? : Event → Option Upsert
  | .mention key role => some ⟨key, role.contents.1, role.contents.2⟩
  | .malformed _ _ => none

/-- A call of the second phase says the same as some events. -/
structure Agrees (use : Use) (events : List Event) : Prop where
  keys : use.keys = events.filterMap Event.key?
  mentions : use.mentions false = events.filterMap mentionOf?
  remarks : ∀ known rest, (remarksOn known (events ++ rest)).map Remark.diagnostic =
    use.remarks known ++ (remarksOn (known ++ use.keys) rest).map Remark.diagnostic

theorem agrees_pair (d u : Key) (f : Option Fingerprint) :
    Agrees (.external d u f) [.mention d (.used f), .mention u .user] where
  keys := rfl
  mentions := rfl
  remarks := by
    intro known rest
    simp only [List.cons_append, List.nil_append, remarksOn, Use.remarks, Use.keys, List.map_append,
      List.append_assoc]
    split <;> rfl

theorem agrees_use (r : UseRecord) : Agrees (m.useCall r) (m.useEvents r) := by
  obtain ⟨hk, hm, hr⟩ := agrees_pair r.definition (m.user r.user) none
  exact ⟨hk, hm, hr⟩

theorem agrees_external (r : ExternalRecord) : Agrees (m.externalCall r) (m.externalEvents r) := by
  rw [externalCall_eq]
  unfold externalEvents
  cases r.reading with
  | ok f => exact agrees_pair (Key.external r.path) (m.user r.user) f
  | error e =>
    refine ⟨rfl, rfl, ?_⟩
    intro known rest
    simp [remarksOn, Use.remarks, Use.keys]

theorem agrees_all {β : Type} (call : β → Use) (events : β → List Event)
    (h : ∀ r, Agrees (call r) (events r)) (l : List β) :
    (l.map call).flatMap Use.keys = (l.flatMap events).filterMap Event.key? ∧
    (l.map call).flatMap (Use.mentions false) = (l.flatMap events).filterMap mentionOf? ∧
    ∀ known rest restEvents,
      (∀ known', (remarksOn known' restEvents).map Remark.diagnostic = DepGraph.remarks known' rest) →
      (remarksOn known (l.flatMap events ++ restEvents)).map Remark.diagnostic =
        DepGraph.remarks known (l.map call ++ rest) := by
  induction l with
  | nil =>
    refine ⟨rfl, rfl, ?_⟩
    intro known rest restEvents hrest
    exact hrest known
  | cons r l ih =>
    obtain ⟨ihk, ihm, ihr⟩ := ih
    obtain ⟨hk, hm, hr⟩ := h r
    refine ⟨?_, ?_, ?_⟩
    · rw [List.map_cons, List.flatMap_cons, List.flatMap_cons, List.filterMap_append, hk, ihk]
    · rw [List.map_cons, List.flatMap_cons, List.flatMap_cons, List.filterMap_append, hm, ihm]
    · intro known rest restEvents hrest
      rw [List.flatMap_cons, List.append_assoc, hr, ihr _ _ _ hrest, List.map_cons, List.cons_append,
        DepGraph.remarks]

theorem useCalls_agree :
    m.useCalls.flatMap Use.keys = m.events.filterMap Event.key? ∧
    m.useCalls.flatMap (Use.mentions false) = m.events.filterMap mentionOf? ∧
    ∀ known, DepGraph.remarks known m.useCalls = (remarksOn known m.events).map Remark.diagnostic := by
  obtain ⟨huk, hum, hur⟩ := agrees_all m.useCall m.useEvents m.agrees_use m.uses
  obtain ⟨hek, hem, her⟩ := agrees_all m.externalCall m.externalEvents m.agrees_external m.externals
  unfold useCalls events
  refine ⟨?_, ?_, ?_⟩
  · rw [List.flatMap_append, List.filterMap_append, huk, hek]
  · rw [List.flatMap_append, List.filterMap_append, hum, hem]
  · intro known
    symm
    apply hur
    intro known'
    have := her known' [] [] (fun _ => rfl)
    rw [List.append_nil, List.append_nil] at this
    exact this

/-! ## The graph -/

variable {m} {options : ConstructionOptions}

theorem options_eq (h : m.options? = some options) :
    m.depsName ≠ "" ∧ options.depsName = m.depsName ∧
      options.fileFingerprint = m.wholeFileFingerprint ∧
      options.hadCompilationError = m.hadCompilationError := by
  unfold options? at h
  split at h
  · cases h
  · rename_i hne
    cases h; exact ⟨hne, rfl, rfl, rfl⟩

theorem options_some (h : m.depsName ≠ "") : ∃ options, m.options? = some options := by
  unfold options?
  rw [if_neg h]
  exact ⟨_, rfl⟩

/-- The upserts of the first phase are those of the file and of the declarations. -/
theorem mem_definedCalls (ho : m.options? = some options) {call : Upsert} :
    call ∈ definedCalls options m.definitions ↔
      call = ⟨m.fileKey, some m.wholeFileFingerprint, true⟩ ∨
      ∃ d ∈ m.declared, call = ⟨d.1, if m.hadCompilationError then none else d.2, true⟩ ∨
        call = ⟨d.1.implementation, none, true⟩ := by
  obtain ⟨-, hn, hf, he⟩ := options_eq ho
  unfold definedCalls
  rw [declarations_definitions, hn, hf, he, List.mem_cons, List.mem_flatMap]
  apply or_congr Iff.rfl
  constructor
  · rintro ⟨d, hd, hc⟩
    rw [pairCalls, m.declared_interface d hd, List.mem_cons, List.mem_singleton] at hc
    exact ⟨d, hd, hc⟩
  · rintro ⟨d, hd, hc⟩
    refine ⟨d, hd, ?_⟩
    rw [pairCalls, m.declared_interface d hd, List.mem_cons, List.mem_singleton]
    exact hc

/-- The keys of the first phase depend on nothing but the name of the file. -/
theorem definedCalls_known (hn : options.depsName = m.depsName) :
    (definedCalls options m.definitions).map (·.key) = m.known := by
  have hmap : ∀ l : List (Key × Option Fingerprint), (∀ d ∈ l, d.1.interface = d.1) →
      (l.flatMap (pairCalls options.hadCompilationError)).map (·.key) =
        l.flatMap fun d => [d.1, d.1.implementation] := by
    intro l
    induction l with
    | nil => intro _; rfl
    | cons d l ih =>
      intro h
      rw [List.flatMap_cons, List.flatMap_cons, List.map_append,
        ih (fun d' hd' => h d' (List.mem_cons_of_mem _ hd')), pairCalls, h d List.mem_cons_self]
      rfl
  unfold definedCalls known
  rw [declarations_definitions, List.map_cons, hmap _ m.declared_interface, hn]
  rfl

theorem definedCalls_keys (ho : m.options? = some options) :
    (definedCalls options m.definitions).map (·.key) = m.known :=
  definedCalls_known (options_eq ho).2.1

theorem mem_allArcs (ho : m.options? = some options) (p : Key × Key) :
    p ∈ allArcs options m.definitions m.useCalls ↔ p ∈ m.arcs := by
  obtain ⟨-, hn, -, -⟩ := options_eq ho
  have huse : (m.uses.map m.useCall).flatMap Use.arcs =
      m.uses.map fun r => (r.definition, m.user r.user) := by
    rw [List.flatMap_map, List.map_eq_flatMap]
    rfl
  have hext : (m.externals.map m.externalCall).flatMap Use.arcs = m.externals.flatMap m.externalArcs := by
    rw [List.flatMap_map]
    congr 1
    funext r
    rw [externalCall_eq]
    unfold externalArcs
    cases r.reading <;> rfl
  unfold allArcs arcs useCalls
  rw [declarations_definitions, hn, List.flatMap_append, huse, hext, List.append_assoc]
  simp only [List.mem_append]
  apply or_congr _ Iff.rfl
  rw [List.mem_flatMap, List.mem_flatMap]
  apply exists_congr
  intro d
  apply and_congr_right
  intro hd
  rw [pairArcs, m.declared_interface d hd, List.mem_pair, List.mem_pair]
  exact or_comm

theorem graph_keys (hn : options.depsName = m.depsName) {defined : Graph} {c : Constructed}
    (h : Account options m.definitions m.useCalls defined c) : c.graph.keys = m.mentions.eraseDups := by
  have hu : (usedMentions options m.useCalls).map (·.key) = m.events.filterMap Event.key? := by
    rw [← m.useCalls_agree.1, usedMentions, List.map_flatMap]
    congr 1
    funext use
    exact use.keys_eq _
  rw [h.meets.keys, h.tells.keys, eraseDups_eraseDups_append, definedCalls_known hn, hu]
  rfl

theorem keys_eq (ho : m.options? = some options) {defined : Graph} {c : Constructed}
    (h : Account options m.definitions m.useCalls defined c) : c.graph.keys = m.mentions.eraseDups :=
  graph_keys (options_eq ho).2.1 h

/-- **The nodes and arcs of a manifest's graph**: the keys in the order of their first mention, and the
dependencies that the manifest describes, other than those of a key on itself. -/
theorem build_shape (m : Manifest) (hname : m.depsName ≠ "") :
    ∃ options c, m.options? = some options ∧ m.build options = .ok c ∧
      c.graph.nodes.toList.map Node.key = m.mentions.eraseDups ∧
      (∀ (i : ℕ) (node : Node), c.graph.nodes[i]? = some node → node.number = i) ∧
      c.graph.arcKeys.Nodup ∧
      ∀ d u, (d, u) ∈ c.graph.arcKeys ↔ (d, u) ∈ m.arcs ∧ d ≠ u := by
  obtain ⟨options, ho⟩ := options_some hname
  obtain ⟨-, hn, -, -⟩ := options_eq ho
  obtain ⟨defined, c, hc, ha⟩ := construct_account (by rw [hn]; exact hname) m.definitions m.useCalls
  refine ⟨options, c, ho, hc, keys_eq ho ha, ha.ok.number, nodup_eraseDups _, ?_⟩
  intro d u
  rw [mem_arcKeys, ha.joins, mem_allArcs ho]

/-- A manifest in which keys coincide: an extension and the nominal that it extends, a record that uses
itself, and an external record that cannot be read. -/
def coinciding : Manifest where
  depsName := "a.deps"
  nominals := [⟨"S", .structType, some "1S", none⟩, ⟨"S", .extension "1S", none, none⟩]
  uses := [⟨⟨.topLevel, .interface, "", "f"⟩, some ⟨.topLevel, .interface, "", "f"⟩⟩,
    ⟨⟨.nominal, .interface, "1S", ""⟩, none⟩, ⟨⟨.topLevel, .interface, "", "f"⟩,
      some ⟨.topLevel, .interface, "", "g"⟩⟩]
  externals := [⟨"lib", some "xyz", none⟩, ⟨"lib", none, none⟩]

theorem build_shape_coinciding : coinciding.depsName ≠ "" ∧
    ∃ options c, coinciding.options? = some options ∧ coinciding.build options = .ok c ∧
      c.graph.nodes.toList.map Node.key = coinciding.mentions.eraseDups ∧
      (∀ (i : ℕ) (node : Node), c.graph.nodes[i]? = some node → node.number = i) ∧
      c.graph.arcKeys.Nodup ∧
      ∀ d u, (d, u) ∈ c.graph.arcKeys ↔ (d, u) ∈ coinciding.arcs ∧ d ≠ u :=
  ⟨by decide, build_shape coinciding (by decide)⟩

/-! ## The contents of nodes -/

/-- **What a manifest says of a node.** -/
structure Describes (m : Manifest) (node : Node) : Prop where
  /-- The file's own node has the fingerprint of the whole file. -/
  file : node.key = m.fileKey →
    node.provides = true ∧ node.fingerprint = some m.wholeFileFingerprint
  /-- An interface has a fingerprint iff all its declarations bring that one. -/
  interface : node.key ∈ m.declared.map (·.1) → node.provides = true ∧
    ∀ f, node.fingerprint = some f ↔ ∀ d ∈ m.declared, d.1 = node.key → d.2 = some f
  implementation : (∃ d ∈ m.declared, node.key = ⟨d.1.kind, .implementation, d.1.context, d.1.name⟩) →
    node.provides = true ∧ node.fingerprint = none
  /-- Any other node is what its first mention makes it. -/
  other : node.key ∉ m.known →
    ∃ role, m.firstRole node.key = some role ∧ (node.fingerprint, node.provides) = role.contents

/-- A mention that is met first gives the first role. -/
theorem find_mention {key : Key} {f : Option Fingerprint} {p : Bool} : ∀ {events : List Event},
    (events.filterMap mentionOf?).find? (·.key = key) = some ⟨key, f, p⟩ →
      ∃ role, events.findSome? (Event.roleOf? key) = some role ∧ (f, p) = role.contents := by
  intro events
  induction events with
  | nil => intro h; cases h
  | cons e rest ih =>
    intro h
    cases e with
    | malformed path e => exact ih h
    | mention k role =>
      have hm : mentionOf? (.mention k role) = some ⟨k, role.contents.1, role.contents.2⟩ := rfl
      rw [List.filterMap_cons_some hm, List.find?_cons] at h
      rw [List.findSome?_cons]
      by_cases hk : k = key
      · subst hk
        simp only [decide_true, Option.some.injEq, Upsert.mk.injEq, true_and] at h
        refine ⟨role, ?_, ?_⟩
        · simp [Event.roleOf?]
        · rw [← h.1, ← h.2]
      · simp only [hk, decide_false] at h
        obtain ⟨role', h', hc⟩ := ih h
        refine ⟨role', ?_, hc⟩
        simp only [Event.roleOf?, if_neg hk]; exact h'

/-- The users that are remarked upon are those first mentioned as users, each once. -/
theorem remarksOn_users : ∀ (events : List Event) (known : List Key),
    ((remarksOn known events).filterMap Remark.user?).Nodup ∧
    ∀ key, key ∈ (remarksOn known events).filterMap Remark.user? ↔
      key ∉ known ∧ events.findSome? (Event.roleOf? key) = some .user := by
  intro events
  induction events with
  | nil => intro known; exact ⟨List.nodup_nil, fun key => by simp [remarksOn]⟩
  | cons e rest ih =>
    intro known
    cases e with
    | malformed path e => exact ih known
    | mention k role =>
      obtain ⟨hnd, hmem⟩ := ih (known ++ [k])
      have hrole : ∀ key, (Event.mention k role :: rest).findSome? (Event.roleOf? key) =
          if k = key then some role else rest.findSome? (Event.roleOf? key) := by
        intro key
        rw [List.findSome?_cons]
        by_cases hk : k = key <;> simp [Event.roleOf?, hk]
      have hold : ∀ key, key ∉ known ++ [k] ↔ key ∉ known ∧ k ≠ key := by
        intro key
        rw [List.mem_append, List.mem_singleton, not_or, eq_comm (a := key)]
      -- only a user that is not known yet is remarked upon; from then on it is
      cases role with
      | used f =>
        refine ⟨hnd, ?_⟩
        intro key
        rw [remarksOn, hmem, hrole, hold]
        by_cases hk : k = key <;> simp [hk]
      | user =>
        rw [remarksOn]
        by_cases hkn : k ∈ known
        · rw [if_pos hkn, List.nil_append]
          refine ⟨hnd, ?_⟩
          intro key
          rw [hmem, hrole, hold]
          by_cases hk : k = key
          · subst hk; simp [hkn]
          · simp [hk]
        · have hu : (Remark.unknownUser k).user? = some k := rfl
          rw [if_neg hkn, List.singleton_append, List.filterMap_cons_some hu]
          refine ⟨List.nodup_cons.2 ⟨?_, hnd⟩, ?_⟩
          · intro h
            exact ((hold k).1 ((hmem k).1 h).1).2 rfl
          · intro key
            rw [List.mem_cons, hmem, hrole, hold]
            by_cases hk : k = key
            · subst hk; simp [hkn]
            · simp [hk, Ne.symm hk]

/-- Every node is as the manifest says. -/
theorem describes_node (ho : m.options? = some options) (herr : m.hadCompilationError = false)
    {defined : Graph} {c : Constructed} (h : Account options m.definitions m.useCalls defined c)
    {node : Node} (hn : node ∈ c.graph.nodes) : m.Describes node := by
  have hkeys : ∀ key, key ∈ defined.keys ↔ key ∈ m.known := by
    intro key
    rw [h.tells.keys, List.mem_eraseDups, definedCalls_keys ho]
  -- a known key: its node is that of the first phase, with the contents of the calls on it
  have hcont : ∀ call ∈ definedCalls options m.definitions, call.key = node.key →
      node.provides = true ∧ ∀ f, node.fingerprint = some f ↔
        ∀ c ∈ definedCalls options m.definitions, c.key = node.key → c.provides = true →
          c.fingerprint = some f := by
    intro call hcall hk
    have hknown : node.key ∈ m.known := by
      rw [← definedCalls_keys ho, ← hk]
      exact List.mem_map.2 ⟨call, hcall, rfl⟩
    have hp : call.provides = true := by
      rcases (mem_definedCalls ho).1 hcall with rfl | ⟨d, -, rfl | rfl⟩ <;> rfl
    have hold := h.meets.mem_old h.ok hn ((hkeys _).2 hknown)
    exact merged_eq hcall hk hp (h.tells.contents node hold)
  have hfk : m.fileKey.kind = .sourceFileProvide := rfl
  constructor
  · -- the file's key is of a kind of its own, so no declaration is on it
    intro hk
    have hcall := (mem_definedCalls ho).2 (Or.inl rfl)
    obtain ⟨hp, hf⟩ := hcont _ hcall hk.symm
    refine ⟨hp, (hf _).2 ?_⟩
    intro call hc hck _
    rcases (mem_definedCalls ho).1 hc with rfl | ⟨d, hd, rfl | rfl⟩
    · rfl
    · refine absurd ?_ (m.declared_kind d hd).1
      rw [show d.1 = m.fileKey from hck.trans hk]; rfl
    · refine absurd ?_ (m.declared_kind d hd).1
      rw [← hfk, ← hk, ← hck]; rfl
  · -- the calls on an interface are those of its declarations
    intro hk
    obtain ⟨d, hd, hdk⟩ := List.mem_map.1 hk
    have hcall := (mem_definedCalls ho).2 (Or.inr ⟨d, hd, Or.inl rfl⟩)
    obtain ⟨hp, hf⟩ := hcont _ hcall hdk
    refine ⟨hp, ?_⟩
    intro f
    rw [hf]
    constructor
    · intro hall d' hd' hk'
      have := hall _ ((mem_definedCalls ho).2 (Or.inr ⟨d', hd', Or.inl rfl⟩)) hk' rfl
      simpa [herr] using this
    · intro hall call hc hck _
      rcases (mem_definedCalls ho).1 hc with rfl | ⟨d', hd', rfl | rfl⟩
      · refine absurd ?_ (m.declared_kind d hd).1
        rw [hdk, ← hck]; rfl
      · simpa [herr] using hall d' hd' hck
      · have ha := (m.declared_kind d hd).2
        rw [hdk, ← hck] at ha
        cases ha
  · -- one provision without a fingerprint is enough to have none
    rintro ⟨d, hd, hdk⟩
    have hcall := (mem_definedCalls ho).2 (Or.inr ⟨d, hd, Or.inr rfl⟩)
    obtain ⟨hp, hf⟩ := hcont _ hcall hdk.symm
    refine ⟨hp, ?_⟩
    cases hnf : node.fingerprint with
    | none => rfl
    | some f => cases (hf f).1 hnf _ hcall hdk.symm rfl
  · -- a key that the first phase does not know is new in the second
    intro hk
    have hnew := h.meets.new node hn (fun hd => hk ((hkeys _).1 hd))
    obtain ⟨-, -, -, he⟩ := options_eq ho
    rw [usedMentions, he, herr, m.useCalls_agree.2.1] at hnew
    exact find_mention hnew

/-- **The contents and the diagnostics of a manifest's graph** after a compilation without errors. There
is a node for each key that is mentioned, and the manifest describes it. The diagnostics are the remarks
about the records, in order, among them one warning for each key that is first mentioned as a user, and
what is wrong with the whole graph, if anything is. -/
theorem build_contents (m : Manifest) (hname : m.depsName ≠ "") (herr : m.hadCompilationError = false) :
    ∃ options c, m.options? = some options ∧ m.build options = .ok c ∧
      (∀ key ∈ m.mentions, ∃ node ∈ c.graph.nodes, node.key = key) ∧
      (∀ node ∈ c.graph.nodes, m.Describes node) ∧
      c.diagnostics = m.remarks.map Remark.diagnostic ++ c.graph.complaint m.depsName ∧
      (m.remarks.filterMap Remark.user?).Nodup ∧
      ∀ key, key ∈ m.remarks.filterMap Remark.user? ↔ key ∉ m.known ∧ m.firstRole key = some .user := by
  obtain ⟨options, ho⟩ := options_some hname
  obtain ⟨-, hn, -, -⟩ := options_eq ho
  obtain ⟨defined, c, hc, ha⟩ := construct_account (by rw [hn]; exact hname) m.definitions m.useCalls
  obtain ⟨hnd, hmem⟩ := remarksOn_users m.events m.known
  refine ⟨options, c, ho, hc, ?_, fun node => describes_node ho herr ha, ?_, hnd, hmem⟩
  · intro key hk
    rw [← List.mem_eraseDups, ← keys_eq ho ha] at hk
    exact mem_keys.1 hk
  · rw [ha.diagnostics, definedCalls_keys ho, m.useCalls_agree.2.2, hn]
    rfl

theorem build_contents_coinciding :
    coinciding.depsName ≠ "" ∧ coinciding.hadCompilationError = false ∧
    ∃ options c, coinciding.options? = some options ∧ coinciding.build options = .ok c ∧
      (∀ key ∈ coinciding.mentions, ∃ node ∈ c.graph.nodes, node.key = key) ∧
      (∀ node ∈ c.graph.nodes, coinciding.Describes node) ∧
      c.diagnostics =
        coinciding.remarks.map Remark.diagnostic ++ c.graph.complaint coinciding.depsName ∧
      (coinciding.remarks.filterMap Remark.user?).Nodup ∧
      ∀ key, key ∈ coinciding.remarks.filterMap Remark.user? ↔
        key ∉ coinciding.known ∧ coinciding.firstRole key = some .user :=
  ⟨by decide, rfl, build_contents coinciding (by decide) rfl⟩

end Manifest

end DepGraph
