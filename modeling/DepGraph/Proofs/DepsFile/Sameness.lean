import DepGraph.Proofs.Json.Injective

/-!
# Graphs that are the same

Two graphs are found the same iff they have the same file (`Graph.verifySame_iff_toFile`), and the text of a
file tells it from all others (`Graph.toJson_inj`).

Arcs take no part in the making of nodes: any calls leave the nodes that they would leave without the calls for
arcs (`Graph.bare_run`). So runs that differ in the order and repetition of arcs leave graphs that are the same
(`Graph.Reordered.same`).

The two make `Graph.verifySame_as_written`.
-/

namespace DepGraph

/-! ## Data tells files apart -/

theorem Kind.name_inj {k k' : Kind} (h : k.name = k'.name) : k = k' := by
  have hk := k.ofName?_name
  rw [h, k'.ofName?_name] at hk
  exact (Option.some.inj hk).symm

theorem Aspect.name_inj {a a' : Aspect} (h : a.name = a'.name) : a = a' := by
  have ha := a.ofName?_name
  rw [h, a'.ofName?_name] at ha
  exact (Option.some.inj ha).symm

theorem Fingerprint.text_inj {f f' : Fingerprint} (h : f.text = f'.text) : f = f' := by
  have hf := f.parse_text
  rw [h, f'.parse_text] at hf
  exact (Except.ok.inj hf).symm

theorem Key.toData_inj {k k' : Key} (h : k.toData = k'.toData) : k = k' := by
  obtain ⟨kind, aspect, context, name⟩ := k
  obtain ⟨kind', aspect', context', name'⟩ := k'
  simp only [Key.toData, Data.record.injEq, List.cons.injEq, Prod.mk.injEq, Data.text.injEq, true_and,
    and_true] at h
  obtain ⟨hkind, haspect, rfl, rfl⟩ := h
  rw [Kind.name_inj hkind, Aspect.name_inj haspect]

theorem Header.toData_inj {h h' : Header} (heq : h.toData = h'.toData) : h = h' := by
  obtain ⟨signature, major, minor, version⟩ := h
  obtain ⟨signature', major', minor', version'⟩ := h'
  simp only [Header.toData, Data.record.injEq, List.cons.injEq, Prod.mk.injEq, Data.text.injEq,
    Data.count.injEq, true_and, and_true] at heq
  obtain ⟨rfl, rfl, rfl, rfl⟩ := heq
  rfl

/-- A fingerprint that is left out is told from one that is there by the name of the second member. -/
theorem NodeRecord.toData_inj {r r' : NodeRecord} (h : r.toData = r'.toData) : r = r' := by
  obtain ⟨key, fingerprint, number, definitions, provides⟩ := r
  obtain ⟨key', fingerprint', number', definitions', provides'⟩ := r'
  have hcounts : Function.Injective (List.map Data.count) :=
    List.map_injective_iff.2 fun _ _ => Data.count.inj
  simp only [NodeRecord.toData, Data.record.injEq] at h
  cases fingerprint with
  | none =>
    cases fingerprint' with
    | none =>
      simp only [Option.map_none, Data.optionalField, List.append_nil, List.cons_append, List.nil_append,
        List.cons.injEq, Prod.mk.injEq, Data.count.injEq, Data.list.injEq, Data.flag.injEq, true_and,
        and_true] at h
      obtain ⟨hkey, rfl, hdefinitions, rfl⟩ := h
      rw [Key.toData_inj hkey, hcounts hdefinitions]
    | some f => simp [Data.optionalField] at h
  | some f =>
    cases fingerprint' with
    | none => simp [Data.optionalField] at h
    | some f' =>
      simp only [Option.map_some, Data.optionalField, Fingerprint.toData, List.cons_append, List.nil_append,
        List.cons.injEq, Prod.mk.injEq, Data.text.injEq, Data.count.injEq, Data.list.injEq, Data.flag.injEq,
        true_and, and_true] at h
      obtain ⟨hkey, hf, rfl, hdefinitions, rfl⟩ := h
      rw [Key.toData_inj hkey, Fingerprint.text_inj hf, hcounts hdefinitions]

theorem DepsFile.toData_inj {f f' : DepsFile} (h : f.toData = f'.toData) : f = f' := by
  obtain ⟨header, nodes⟩ := f
  obtain ⟨header', nodes'⟩ := f'
  simp only [DepsFile.toData, Data.record.injEq, List.cons.injEq, Prod.mk.injEq, Data.list.injEq, true_and,
    and_true] at h
  rw [Header.toData_inj h.1, List.map_injective_iff.2 (fun _ _ => NodeRecord.toData_inj) h.2]

namespace Graph

variable {g h : Graph}

/-! ## The file of a graph -/

/-- Graphs have the same file iff they have the same nodes with the same dependencies. -/
theorem toFile_eq_iff : g.toFile = h.toFile ↔
    g.nodes = h.nodes ∧ ∀ i < g.nodes.size, g.definitionsOf i = h.definitionsOf i := by
  constructor
  · intro heq
    have hnodes : g.nodes = h.nodes := by
      rw [← Array.toList_inj, ← toFile_map_node, ← toFile_map_node, heq]
    refine ⟨hnodes, fun i hi => ?_⟩
    have hrecord := congrArg (fun file => file.nodes[i]?) heq
    simp only [toFile_nodes_get, ← hnodes, Array.getElem?_eq_getElem hi, Option.map_some,
      Option.some.injEq] at hrecord
    exact congrArg NodeRecord.definitions hrecord
  · rintro ⟨hnodes, hdefinitions⟩
    have hrecords : g.toFile.nodes = h.toFile.nodes := by
      apply List.ext_getElem?
      intro i
      rw [toFile_nodes_get, toFile_nodes_get, ← hnodes]
      cases hn : g.nodes[i]? with
      | none => rfl
      | some node =>
        have hi := (Array.getElem?_eq_some_iff.1 hn).1
        simp only [Option.map_some, record, hdefinitions i hi]
    exact congrArg (DepsFile.mk Header.current) hrecords

theorem toJson_inj : g.toJson = h.toJson ↔ g.toFile = h.toFile := by
  constructor
  · intro heq
    exact DepsFile.toData_inj (Json.pretty_inj.1 heq)
  · intro heq
    rw [toJson, toJson, heq]

theorem verifySame_iff_toFile : g.verifySame h = .ok () ↔ g.toFile = h.toFile := by
  rw [verifySame_ok_iff, toFile_eq_iff]

/-! ## Graphs without their arcs -/

/-- The graph without its arcs. -/
def bare (g : Graph) : Graph := { g with arcs := #[] }

theorem nodes_bare (g : Graph) : g.bare.nodes = g.nodes := rfl

theorem upsert_bare (g : Graph) (key : Key) (f : Option Fingerprint) (p : Bool) :
    g.bare.upsert key f p = (g.upsert key f p).map fun r => (r.1.bare, r.2) := by
  have hfind : g.bare.find? key = g.find? key := rfl
  unfold upsert
  rw [hfind, nodes_bare]
  cases g.find? key with
  | none => rfl
  | some i =>
    cases p with
    | false => rfl
    | true =>
      simp only [if_true]
      cases g.nodes[i]? with
      | none => rfl
      | some node =>
        dsimp only
        cases node.provide f with
        | error e => rfl
        | ok node => rfl

theorem link_bare (g : Graph) (d u : ℕ) : (g.link d u).bare = g.bare := by
  unfold link
  split
  · rfl
  · rfl

theorem addArc_bare (g : Graph) (d u : ℕ) : (g.bare.addArc d u).map bare = (g.addArc d u).map bare := by
  unfold addArc
  rw [nodes_bare]
  split
  · exact congrArg Except.ok ((link_bare g.bare d u).trans (link_bare g d u).symm)
  · rfl

/-- **Arcs take no part in what a call makes of the nodes.** -/
theorem perform_bare (g : Graph) (call : Call) :
    (g.bare.perform call).map bare = (g.perform call).map bare := by
  cases call with
  | upsert key f p =>
    rw [perform, perform, upsert_bare]
    cases g.upsert key f p with
    | error e => rfl
    | ok r => rfl
  | pair key f =>
    rw [perform, perform, upsertPair, upsertPair]
    cases key.isInterface with
    | false => rfl
    | true =>
      -- both sides are refused by the same one of the two upserts and the arc, if any
      rw [upsert_bare]
      cases g.upsert key f true with
      | error e => rfl
      | ok r₁ =>
        obtain ⟨g₁, i⟩ := r₁
        change ((g₁.bare.upsert key.implementation none true >>= _).map _).map _ =
          ((g₁.upsert key.implementation none true >>= _).map _).map _
        rw [upsert_bare]
        cases g₁.upsert key.implementation none true with
        | error e => rfl
        | ok r₂ =>
          obtain ⟨g₂, j⟩ := r₂
          have harc := addArc_bare g₂ i j
          change ((g₂.bare.addArc i j >>= _).map _).map _ = ((g₂.addArc i j >>= _).map _).map _
          cases h : g₂.bare.addArc i j <;> cases h' : g₂.addArc i j <;> rw [h, h'] at harc <;> exact harc
  | arc d u => exact addArc_bare g d u

theorem bare_next (g : Graph) (call : Call) : (g.next call).bare = (g.bare.next call).bare := by
  have hperform := perform_bare g call
  unfold next
  cases h : g.bare.perform call with
  | error e =>
    cases h' : g.perform call with
    | error e' => rfl
    | ok g' => rw [h, h'] at hperform; cases hperform
  | ok b =>
    cases h' : g.perform call with
    | error e' => rw [h, h'] at hperform; cases hperform
    | ok g' => rw [h, h'] at hperform; exact (Except.ok.inj hperform).symm

/-- A call for an arc leaves the nodes alone. -/
theorem bare_next_arc (g : Graph) (d u : ℕ) : (g.next (.arc d u)).bare = g.bare := by
  rw [next, perform]
  cases ha : g.addArc d u with
  | error e => rfl
  | ok g' =>
    obtain ⟨rfl, -⟩ := addArc_cases ha
    exact link_bare g d u

/-- Whether a call is for nodes, be it with the arc of a pair. -/
def Call.forNodes : Call → Bool
  | .arc _ _ => false
  | _ => true

/-- **The nodes follow from the calls for nodes alone**, whatever arcs were there and are called for. -/
theorem bare_run (hbare : g.bare = h.bare) (calls : List Call) :
    (g.run calls).bare = (h.run (calls.filter Call.forNodes)).bare := by
  induction calls generalizing g h with
  | nil => exact hbare
  | cons call rest ih =>
    have hnext : (g.next call).bare = (h.next call).bare := by
      rw [bare_next, hbare, ← bare_next]
    cases call with
    | upsert key f p => exact ih hnext
    | pair key f => exact ih hnext
    -- only one side makes this call
    | arc d u => exact ih ((bare_next_arc g d u).trans hbare)

/-! ## Order and repetition of arcs -/

/-- **Calls that differ in how arcs are inserted**: they are the same for nodes, and insert the same arcs, at
whatever moment, in whatever order and however often. -/
structure Reordered (g : Graph) (calls calls' : List Call) : Prop where
  nodes : calls.filter Call.forNodes = calls'.filter Call.forNodes
  arcs : (g.inserted calls).toFinset = (g.inserted calls').toFinset

theorem Reordered.same {calls calls' : List Call} (hr : g.Reordered calls calls') (hg : Reachable g) :
    (g.run calls).Same (g.run calls') where
  nodes := by
    have hbare : (g.run calls).bare = (g.run calls').bare := by
      rw [bare_run rfl calls, bare_run rfl calls', hr.nodes]
    rw [← nodes_bare, hbare, nodes_bare]
  definitions := by
    refine definitionsOf_congr (hg.run calls).ok (hg.run calls').ok fun arc => ?_
    rw [mem_run, mem_run, ← List.mem_toFinset, hr.arcs, List.mem_toFinset]

theorem compareNodes_congr {g' h' : Graph} (hg : g.Same g') (hh : h.Same h') :
    ∀ (pairs : List (Node × Node)) (position : ℕ),
      g.compareNodes h position pairs = g'.compareNodes h' position pairs := by
  intro pairs
  induction pairs with
  | nil => intro position; rfl
  | cons pair rest ih =>
    intro position
    simp only [compareNodes, hg.definitions, hh.definitions, ih]

/-- **Graphs that are the same are found the same as others**, or different in the same way. -/
theorem verifySame_congr {g' h' : Graph} (hg : g.Same g') (hh : h.Same h') :
    g.verifySame h = g'.verifySame h' := by
  simp only [verifySame, hg.nodes, hh.nodes, compareNodes_congr hg hh]

/-- **Two graphs are found the same iff they are written the same**, as a file and as text. So being found the
same is an equivalence; and neither its outcome nor the difference that it reports depends on the order or
repetition with which the arcs of either graph were inserted. -/
theorem verifySame_as_written :
    (∀ g h : Graph, (g.verifySame h = .ok () ↔ g.toFile = h.toFile) ∧
      (g.toFile = h.toFile ↔ g.toJson = h.toJson)) ∧
    Equivalence (fun g h : Graph => g.verifySame h = .ok ()) ∧
    ∀ g h, Reachable g → Reachable h → ∀ left left' right right',
      g.Reordered left left' → h.Reordered right right' →
        (g.run left).verifySame (h.run right) = (g.run left').verifySame (h.run right') := by
  refine ⟨fun g h => ⟨verifySame_iff_toFile, toJson_inj.symm⟩, ⟨?_, ?_, ?_⟩, ?_⟩
  · intro g
    exact verifySame_iff_toFile.2 rfl
  · intro g h hgh
    exact verifySame_iff_toFile.2 (verifySame_iff_toFile.1 hgh).symm
  · intro g h k hgh hhk
    exact verifySame_iff_toFile.2 ((verifySame_iff_toFile.1 hgh).trans (verifySame_iff_toFile.1 hhk))
  · intro g h hg hh left left' right right' hleft hright
    exact verifySame_congr (hleft.same hg) (hright.same hh)

/-- A pair and a definition that both its sides use. -/
def plain : List Call :=
  [.pair ⟨.topLevel, .interface, "", "f"⟩ (some .zero),
    .upsert ⟨.externalDepend, .interface, "", "lib"⟩ none false, .arc 2 0, .arc 2 1]

/-- The same with an arc that comes too early, the others in another order and one of them twice, the arc of
the pair once more, and one of a node to itself. -/
def shuffled : List Call :=
  [.arc 2 0, .pair ⟨.topLevel, .interface, "", "f"⟩ (some .zero), .arc 0 1,
    .upsert ⟨.externalDepend, .interface, "", "lib"⟩ none false, .arc 2 1, .arc 2 2, .arc 2 0, .arc 2 1]

/-- The arcs are kept in different orders. -/
theorem verifySame_as_written_shuffled : Reachable empty ∧ empty.Reordered plain shuffled ∧
    (empty.run plain).arcs ≠ (empty.run shuffled).arcs ∧
    (empty.run plain).verifySame (empty.run shuffled) = .ok () ∧
    (empty.run plain).toJson = (empty.run shuffled).toJson := by
  have hr : empty.Reordered plain shuffled := ⟨rfl, by decide +kernel⟩
  obtain ⟨hwritten, hequivalence, hreordered⟩ := verifySame_as_written
  have hsame : (empty.run plain).verifySame (empty.run shuffled) = .ok () :=
    (hreordered empty empty .new .new plain plain shuffled plain ⟨rfl, rfl⟩ ⟨hr.1.symm, hr.2.symm⟩).trans
      (hequivalence.refl (empty.run plain))
  obtain ⟨hfile, htext⟩ := hwritten (empty.run plain) (empty.run shuffled)
  exact ⟨.new, hr, by decide +kernel, hsame, htext.1 (hfile.1 hsame)⟩

end Graph

end DepGraph
