import DepGraph.Proofs.Construction.Erasure
import DepGraph.Proofs.Graph.Verify
import DepGraph.Proofs.Manifest

/-!
# Which manifests give a malformed graph

* `Manifest.Faulty`: something is wrong with a name, a path or a key in a manifest.
* `Manifest.mentions_wellFormed`: this is so iff some key that the manifest mentions is not well formed.
* `Manifest.build_malformed_iff`: and iff the construction reports a malformed graph. It never does so over a
  fingerprint, as no implementation gets one.
-/

namespace DepGraph

open DepGraph.Graph

/-! ## The report -/

/-- Some diagnostic is an error that reports a malformed graph. -/
def ReportsMalformed (diagnostics : List Diagnostic) : Prop :=
  ∃ d ∈ diagnostics, d.severity = .error ∧ "malformed dependency graph".toList <+: d.message.toList

theorem reports_append {l l' : List Diagnostic} :
    ReportsMalformed (l ++ l') ↔ ReportsMalformed l ∨ ReportsMalformed l' := by
  simp only [ReportsMalformed, List.mem_append, or_and_right, exists_or]

theorem complaint_reports {g : Graph} {depsName : String} :
    ReportsMalformed (g.complaint depsName) ↔ g.verify ≠ .ok () := by
  unfold Graph.complaint
  cases g.verify with
  | ok => simp [ReportsMalformed]
  | error flaw => simp [ReportsMalformed, Diagnostic.error, toString]

/-- What is remarked about records is something else. -/
theorem remarks_not_report (l : List Remark) : ¬ ReportsMalformed (l.map Remark.diagnostic) := by
  rintro ⟨d, hd, herror, h⟩
  obtain ⟨r, -, rfl⟩ := List.mem_map.1 hd
  cases r with
  | unknownUser key => cases herror
  | malformed path e => simp [Remark.diagnostic, Diagnostic.error, toString] at h

theorem outputRemarks_not_report (path : String) (result : Except Failure Unit) :
    ¬ ReportsMalformed (outputRemarks path result) := by
  rintro ⟨d, hd, -, h⟩
  cases result with
  | ok => cases hd
  | error failure =>
    rw [outputRemarks, List.mem_singleton] at hd
    subst hd
    simp [outputTrouble, Diagnostic.error, toString] at h

/-! ## Keys -/

/-- Only a key of something compiled elsewhere is concerned with its aspect. -/
theorem Key.implementation_wellFormed {k : Key} (h : k.kind ≠ .externalDepend) :
    k.implementation.WellFormed ↔ k.WellFormed := by
  rw [wellFormed_iff, wellFormed_iff]
  simp [implementation, h]

namespace Manifest

variable {m : Manifest}

/-- **What makes the graph of a manifest malformed.** An external record whose fingerprint cannot be read is
left out, so that nothing else about it matters. -/
inductive Faulty (m : Manifest) : Prop where
  | name {d : Declaration} (hd : d ∈ m.topLevel ∨ d ∈ m.dynamicLookups) (h : d.name = "")
  | nominal {d : Declaration} (hd : d ∈ m.nominals ∨ d ∈ m.potentialMembers) (h : d.nominalName = "")
  | memberNominal {r : MemberRecord} (hr : r ∈ m.members) (h : r.nominal.nominalName = "")
  | memberName {r : MemberRecord} (hr : r ∈ m.members) (h : r.member.name = "")
  | definition {r : UseRecord} (hr : r ∈ m.uses) (h : r.definition.verify ≠ .ok ())
  | user {r : UseRecord} {u : Key} (hr : r ∈ m.uses) (hu : r.user = some u) (h : u.verify ≠ .ok ())
  | externalUser {r : ExternalRecord} {f : Option Fingerprint} {u : Key} (hr : r ∈ m.externals)
    (hf : r.reading = .ok f) (hu : r.user = some u) (h : u.verify ≠ .ok ())
  | path {r : ExternalRecord} {f : Option Fingerprint} (hr : r ∈ m.externals) (hf : r.reading = .ok f)
    (h : r.path = "")

theorem mem_mentions {k : Key} : k ∈ m.mentions ↔ k = m.fileKey ∨
    (∃ d ∈ m.declared, k = d.1 ∨ k = d.1.implementation) ∨
    (∃ r ∈ m.uses, k = r.definition ∨ k = m.user r.user) ∨
    ∃ r ∈ m.externals, (∃ f, r.reading = .ok f) ∧ (k = Key.external r.path ∨ k = m.user r.user) := by
  have huse : ∀ r, k ∈ (m.useEvents r).filterMap Event.key? ↔ k = r.definition ∨ k = m.user r.user := by
    intro r
    exact List.mem_pair
  have hexternal : ∀ r, k ∈ (m.externalEvents r).filterMap Event.key? ↔
      (∃ f, r.reading = .ok f) ∧ (k = Key.external r.path ∨ k = m.user r.user) := by
    intro r
    unfold externalEvents
    cases r.reading with
    | ok f => simp [Event.key?, Key.external]
    | error e => simp [Event.key?]
  unfold mentions known events
  simp only [List.mem_append, List.mem_cons, List.filterMap_append, List.filterMap_flatMap,
    List.mem_flatMap, huse, hexternal, List.not_mem_nil, or_false, or_assoc, Key.implementation]

theorem declared_internal : ∀ d ∈ m.declared, d.1.kind ≠ .externalDepend := by
  intro d hd
  unfold declared at hd
  simp only [List.mem_append, List.mem_map] at hd
  rcases hd with (((⟨x, -, rfl⟩ | ⟨x, -, rfl⟩) | ⟨x, -, rfl⟩) | ⟨x, -, rfl⟩) | ⟨x, -, rfl⟩ <;> exact nofun

/-- The key of a declaration is well formed iff the names are there that it is made of. -/
theorem declared_wellFormed : (∀ d ∈ m.declared, d.1.WellFormed) ↔
    (∀ d ∈ m.topLevel, d.name ≠ "") ∧ (∀ d ∈ m.nominals, d.nominalName ≠ "") ∧
    (∀ d ∈ m.potentialMembers, d.nominalName ≠ "") ∧
    (∀ r ∈ m.members, r.nominal.nominalName ≠ "" ∧ r.member.name ≠ "") ∧
    ∀ d ∈ m.dynamicLookups, d.name ≠ "" := by
  simp only [declared, List.forall_mem_append, List.forall_mem_map, and_assoc]
  simp [Key.wellFormed_iff]

theorem fileKey_wellFormed (hname : m.depsName ≠ "") : m.fileKey.WellFormed := by
  simp [Key.wellFormed_iff, fileKey, hname]

/-- A user that is not well formed is a given one, for the file itself is. -/
theorem given_of_user (hname : m.depsName ≠ "") {user : Option Key} (h : ¬ (m.user user).WellFormed) :
    ∃ u, user = some u ∧ u.verify ≠ .ok () := by
  cases user with
  | none => exact absurd (fileKey_wellFormed hname) h
  | some u => exact ⟨u, rfl, fun hv => h (Key.verify_ok_iff.1 hv)⟩

/-- **All keys of a manifest are well formed unless something is wrong with it.** -/
theorem mentions_wellFormed (hname : m.depsName ≠ "") :
    (∀ k ∈ m.mentions, k.WellFormed) ↔ ¬ m.Faulty := by
  constructor
  · intro hall hfaulty
    obtain ⟨htop, hnominal, hpotential, hmember, hdynamic⟩ := declared_wellFormed.1 fun d hd =>
      hall d.1 (mem_mentions.2 (.inr (.inl ⟨d, hd, .inl rfl⟩)))
    have huse : ∀ r ∈ m.uses, r.definition.WellFormed ∧ (m.user r.user).WellFormed := fun r hr =>
      ⟨hall _ (mem_mentions.2 (.inr (.inr (.inl ⟨r, hr, .inl rfl⟩)))),
        hall _ (mem_mentions.2 (.inr (.inr (.inl ⟨r, hr, .inr rfl⟩))))⟩
    have hexternal : ∀ r ∈ m.externals, ∀ f, r.reading = .ok f →
        (Key.external r.path).WellFormed ∧ (m.user r.user).WellFormed := fun r hr f hf =>
      ⟨hall _ (mem_mentions.2 (.inr (.inr (.inr ⟨r, hr, ⟨f, hf⟩, .inl rfl⟩)))),
        hall _ (mem_mentions.2 (.inr (.inr (.inr ⟨r, hr, ⟨f, hf⟩, .inr rfl⟩))))⟩
    cases hfaulty with
    | name hd h => exact hd.elim (fun hd => htop _ hd h) (fun hd => hdynamic _ hd h)
    | nominal hd h => exact hd.elim (fun hd => hnominal _ hd h) (fun hd => hpotential _ hd h)
    | memberNominal hr h => exact (hmember _ hr).1 h
    | memberName hr h => exact (hmember _ hr).2 h
    | definition hr h => exact h (Key.verify_ok_iff.2 (huse _ hr).1)
    | user hr hu h =>
      have hk := (huse _ hr).2
      rw [hu] at hk
      exact h (Key.verify_ok_iff.2 hk)
    | externalUser hr hf hu h =>
      have hk := (hexternal _ hr _ hf).2
      rw [hu] at hk
      exact h (Key.verify_ok_iff.2 hk)
    | path hr hf h => exact (hexternal _ hr _ hf).1.name.2 (by simp [Key.external]) h
  · intro hsound k hk
    have hdeclared : ∀ d ∈ m.declared, d.1.WellFormed := declared_wellFormed.2
      ⟨fun _ hd h => hsound (.name (.inl hd) h), fun _ hd h => hsound (.nominal (.inl hd) h),
        fun _ hd h => hsound (.nominal (.inr hd) h),
        fun _ hr => ⟨fun h => hsound (.memberNominal hr h), fun h => hsound (.memberName hr h)⟩,
        fun _ hd h => hsound (.name (.inr hd) h)⟩
    rcases mem_mentions.1 hk with rfl | ⟨d, hd, rfl | rfl⟩ | ⟨r, hr, rfl | rfl⟩ | ⟨r, hr, ⟨f, hf⟩, rfl | rfl⟩
    · exact fileKey_wellFormed hname
    · exact hdeclared d hd
    · exact (Key.implementation_wellFormed (declared_internal d hd)).2 (hdeclared d hd)
    · by_contra hbad
      exact hsound (.definition hr (fun hv => hbad (Key.verify_ok_iff.1 hv)))
    · by_contra hbad
      obtain ⟨u, hu, h⟩ := given_of_user hname hbad
      exact hsound (.user hr hu h)
    · by_contra hbad
      exact hsound (.path hr hf (by simpa [Key.wellFormed_iff, Key.external] using hbad))
    · by_contra hbad
      obtain ⟨u, hu, h⟩ := given_of_user hname hbad
      exact hsound (.externalUser hr hf hu h)

/-! ## The construction -/

variable {options : ConstructionOptions} {defined : Graph} {c : Constructed}

/-- The graph of a manifest passes the check unless something is wrong with the manifest. -/
theorem verify_account (hname : m.depsName ≠ "") (hoptions : options.depsName = m.depsName)
    (h : Account options m.definitions m.useCalls defined c) :
    c.graph.verify = .ok () ↔ ¬ m.Faulty := by
  have hkeys : ∀ k, k ∈ m.mentions ↔ ∃ node ∈ c.graph.nodes, node.key = k := by
    intro k
    rw [← List.mem_eraseDups, ← graph_keys hoptions h, mem_keys]
  have hbare := h.bare m.useCalls_interfacesOnly
  rw [h.ok.verify_ok_iff, ← mentions_wellFormed hname]
  constructor
  · intro hsound k hk
    obtain ⟨node, hn, rfl⟩ := (hkeys k).1 hk
    exact (hsound node hn).key
  · intro hall node hn
    exact ⟨hall _ ((hkeys _).2 ⟨node, hn, rfl⟩), fun himpl => hbare node hn (decide_eq_true himpl)⟩

/-- Nothing but the check of the graph reports that it is malformed. -/
theorem account_reports (hname : m.depsName ≠ "") (hoptions : options.depsName = m.depsName)
    (h : Account options m.definitions m.useCalls defined c) :
    ReportsMalformed c.diagnostics ↔ m.Faulty := by
  rw [h.diagnostics, m.useCalls_agree.2.2, reports_append, complaint_reports, ne_eq,
    verify_account hname hoptions h, not_not]
  exact or_iff_right (remarks_not_report _)

/-- An outlet makes no difference to the graph, nor to what is reported about it. -/
theorem constructInto_reports {σ : Type} (o : Outlet (StateM σ)) {definitions : List Definition}
    {uses : List Use} (hc : construct options definitions uses = .ok c) (s : σ) :
    ∃ c' s', (constructInto o options definitions uses).run s = (.ok c', s') ∧ c'.graph = c.graph ∧
      (ReportsMalformed c'.diagnostics ↔ ReportsMalformed c.diagnostics) := by
  unfold constructInto
  rw [hc]
  by_cases hdot : options.emitDot = true ∧ options.depsName ≠ ""
  · simp only [if_pos hdot]
    refine ⟨_, _, rfl, rfl, ?_⟩
    rw [reports_append]
    exact or_iff_left (outputRemarks_not_report _ _)
  · simp only [if_neg hdot]
    exact ⟨c, s, rfl, rfl, Iff.rfl⟩

/-- **Which manifests give a malformed graph**, wherever output goes and whether or not there was a compilation
error. No manifest gives an implementation with a fingerprint. -/
theorem build_malformed_iff {σ : Type} (o : Outlet (StateM σ)) (m : Manifest)
    (hoptions : options.depsName = m.depsName) (s : σ) :
    ∃ c s', (constructInto o options m.definitions m.useCalls).run s = (.ok c, s') ∧
      (m.depsName ≠ "" → (ReportsMalformed c.diagnostics ↔ m.Faulty)) ∧
      ∀ node ∈ c.graph.nodes, node.key.aspect = .implementation → node.fingerprint = none := by
  by_cases hname : m.depsName = ""
  · obtain ⟨c, s', hrun, hgraph, -⟩ := constructInto_reports o
      (construct_unnamed (hoptions.trans hname) m.definitions m.useCalls) s
    refine ⟨c, s', hrun, fun h => absurd hname h, ?_⟩
    intro node hn
    rw [hgraph] at hn
    cases Array.mem_toList_iff.2 hn
  · obtain ⟨defined, c, hc, haccount⟩ :=
      construct_account (by rw [hoptions]; exact hname) m.definitions m.useCalls
    obtain ⟨c', s', hrun, hgraph, hreports⟩ := constructInto_reports o hc s
    refine ⟨c', s', hrun, fun _ => hreports.trans (account_reports hname hoptions haccount), ?_⟩
    intro node hn himpl
    rw [hgraph] at hn
    exact haccount.bare m.useCalls_interfacesOnly node hn (decide_eq_true himpl)

/-- A manifest with an extension of nothing. The record without a path cannot be read, and is not at fault. -/
def misnamed : Manifest where
  depsName := "a.deps"
  nominals := [⟨"S", .structType, some "1S", some .zero⟩, ⟨"S", .extension "", some "1S", some .zero⟩]
  uses := [⟨⟨.nominal, .implementation, "1S", ""⟩, none⟩]
  externals := [⟨"", some "xyz", some ⟨.member, .interface, "", ""⟩⟩, ⟨"lib", none, none⟩]

theorem build_malformed_iff_misnamed : misnamed.depsName ≠ "" ∧ misnamed.Faulty ∧
    ∃ c s', (constructInto (Outlet.discard : Outlet (StateM Unit)) ⟨"a.deps", .zero, true, none, true⟩
        misnamed.definitions misnamed.useCalls).run () = (.ok c, s') ∧
      (ReportsMalformed c.diagnostics ↔ misnamed.Faulty) ∧
      ∀ node ∈ c.graph.nodes, node.key.aspect = .implementation → node.fingerprint = none := by
  have hname : misnamed.depsName ≠ "" := by decide
  have hoptions : (⟨"a.deps", .zero, true, none, true⟩ : ConstructionOptions).depsName = misnamed.depsName :=
    rfl
  obtain ⟨c, s', hrun, hreports, hbare⟩ := build_malformed_iff (Outlet.discard : Outlet (StateM Unit))
    misnamed hoptions ()
  have hextension : (⟨"S", .extension "", some "1S", some .zero⟩ : Declaration) ∈ misnamed.nominals := by
    simp [misnamed]
  exact ⟨hname, .nominal (.inl hextension) rfl, c, s', hrun, hreports hname, hbare⟩

end Manifest

end DepGraph
