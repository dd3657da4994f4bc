import DepGraph.Proofs.DepsFile.RoundTrip
import DepGraph.Proofs.Yaml.JsonNode
import DepGraph.Proofs.Yaml.RoundTrip

/-!
# Deps files in JSON, read as YAML

* `DepsFile.mapText_toData`: what YAML makes of the keys of a file.
* `Graph.ofYaml_toJson_iff`: a graph reads back just when its keys last.
-/

namespace DepGraph

open Yaml

variable {g h : Graph}

theorem orFail_eq_ok {ε α : Type} {cause : ε → Cause} {x : Except ε α} {a : α} :
    orFail cause x = .ok a ↔ x = .ok a := by
  cases x <;> simp [orFail]

theorem within_eq_ok {α : Type} {context : String} {x : Except Failure α} {a : α} :
    within context x = .ok a ↔ x = .ok a := by
  cases x <;> simp [within]

/-! ## Keys -/

/-- What YAML makes of a key in JSON. -/
def Key.reread (k : Key) : Option Key :=
  (Yaml.reread k.context).bind fun context => (Yaml.reread k.name).map fun name => { k with context, name }

/-- A key whose texts last. -/
@[mk_iff]
structure Key.Lasting (k : Key) : Prop where
  context : Yaml.Lasting k.context
  name : Yaml.Lasting k.name

theorem Key.reread_eq_some_iff {k : Key} : k.reread = some k ↔ k.Lasting := by
  have hkey : k.reread = some k ↔
      Yaml.reread k.context = some k.context ∧ Yaml.reread k.name = some k.name := by
    obtain ⟨kind, aspect, context, name⟩ := k
    unfold Key.reread
    cases Yaml.reread context with
    | none => simp
    | some c => cases Yaml.reread name <;> simp
  rw [hkey, Yaml.reread_eq_some_iff, Yaml.reread_eq_some_iff, Key.lasting_iff]

instance (k : Key) : Decidable k.Lasting := decidable_of_iff _ k.lasting_iff.symm

theorem Kind.name_lasting (k : Kind) : Yaml.Lasting k.name := by
  cases k <;> exact lasting_of_line (by decide)

theorem Aspect.name_lasting (a : Aspect) : Yaml.Lasting a.name := by
  cases a <;> exact lasting_of_line (by decide)

theorem Key.mapText_toData (k : Key) : k.toData.mapText Yaml.reread = k.reread.map Key.toData := by
  have hkind : Yaml.reread k.kind.name = some k.kind.name := Yaml.reread_eq_some_iff.2 k.kind.name_lasting
  have haspect : Yaml.reread k.aspect.name = some k.aspect.name :=
    Yaml.reread_eq_some_iff.2 k.aspect.name_lasting
  simp only [Key.toData, Key.reread, Data.mapText, Data.mapFields, hkind, haspect]
  cases Yaml.reread k.context with
  | none => rfl
  | some context => cases Yaml.reread k.name <;> rfl

/-! ## Files -/

/-- What YAML makes of a record in JSON. -/
def NodeRecord.reread (r : NodeRecord) : Option NodeRecord := r.key.reread.map fun key => { r with key }

theorem Fingerprint.text_lasting (f : Fingerprint) : Yaml.Lasting f.text := by
  have hdigit : ∀ n : UInt8, n < 16 →
      ((isEscaped (hexDigit n) || isAllowed (hexDigit n)) && !breaksLine (hexDigit n)) = true := by
    intro n hn
    -- sixteen cases, as a natural number so that they can be listed
    have hall : ∀ n < 16, ((isEscaped (hexDigit (.ofNat n)) || isAllowed (hexDigit (.ofNat n))) &&
        !breaksLine (hexDigit (.ofNat n))) = true := by decide
    have h := hall n.toNat (UInt8.lt_iff_toNat_lt.1 hn)
    rwa [UInt8.ofNat_toNat] at h
  apply lasting_of_line
  rw [text, String.toList_ofList, List.all_flatMap, List.all_eq_true]
  intro b _
  obtain ⟨hhigh, hlow, -⟩ := div_mod_sixteen b
  rw [byteText, List.all_cons, List.all_cons, hdigit _ hhigh, hdigit _ hlow]
  rfl

theorem NodeRecord.mapText_toData (r : NodeRecord) :
    r.toData.mapText Yaml.reread = r.reread.map NodeRecord.toData := by
  have hdefinitions :
      Data.mapItems Yaml.reread (r.definitions.map .count) = some (r.definitions.map .count) := by
    induction r.definitions with
    | nil => rfl
    | cons d rest ih => rw [List.map_cons, Data.mapItems, ih]; rfl
  obtain ⟨key, fingerprint, number, definitions, provides⟩ := r
  cases fingerprint with
  | none =>
    simp only [NodeRecord.toData, NodeRecord.reread, Data.optionalField, Option.map_none, List.append_nil,
      List.singleton_append, Data.mapText, Data.mapFields, key.mapText_toData, hdefinitions]
    cases key.reread <;> rfl
  | some f =>
    have hf : Yaml.reread f.text = some f.text := Yaml.reread_eq_some_iff.2 f.text_lasting
    simp only [NodeRecord.toData, NodeRecord.reread, Data.optionalField, Option.map_some, Fingerprint.toData,
      List.cons_append, List.nil_append, Data.mapText, Data.mapFields, key.mapText_toData,
      hf, hdefinitions]
    cases key.reread <;> rfl

theorem mapItems_records (records : List NodeRecord) :
    Data.mapItems Yaml.reread (records.map NodeRecord.toData) =
      (records.mapM NodeRecord.reread).map (List.map NodeRecord.toData) := by
  induction records with
  | nil => rfl
  | cons r rest ih =>
    rw [List.map_cons, Data.mapItems, r.mapText_toData, ih, List.mapM_cons]
    cases r.reread with
    | none => rfl
    | some r => cases rest.mapM NodeRecord.reread <;> rfl

/-- **What YAML makes of a file in JSON:** the same file, with other keys. -/
theorem DepsFile.mapText_toData (records : List NodeRecord) :
    (DepsFile.toData ⟨Header.current, records⟩).mapText Yaml.reread =
      (records.mapM NodeRecord.reread).map fun records => DepsFile.toData ⟨Header.current, records⟩ := by
  have hheader : Header.current.toData.mapText Yaml.reread = some Header.current.toData := by
    have hsignature : Yaml.reread Header.current.signature = some Header.current.signature :=
      Yaml.reread_eq_some_iff.2 (lasting_of_line (by decide))
    have hversion : Yaml.reread Header.current.compilerVersion = some Header.current.compilerVersion :=
      Yaml.reread_eq_some_iff.2 (lasting_of_line (by decide))
    simp only [Header.toData, Data.mapText, Data.mapFields, hsignature, hversion]
    rfl
  simp only [DepsFile.toData, Data.mapText, Data.mapFields, hheader, mapItems_records]
  cases records.mapM NodeRecord.reread <;> rfl

theorem forall₂_reread : ∀ {records records' : List NodeRecord},
    records.mapM NodeRecord.reread = some records' →
    List.Forall₂ (fun r r' => r.reread = some r') records records' := by
  intro records
  induction records with
  | nil =>
    intro records' h
    cases h
    exact .nil
  | cons first rest ih =>
    intro records' h
    rw [List.mapM_cons] at h
    obtain ⟨first', hfirst, h⟩ := Option.bind_eq_some_iff.1 h
    obtain ⟨rest', hrest, h⟩ := Option.bind_eq_some_iff.1 h
    cases h
    exact .cons hfirst (ih hrest)

theorem mapM_lasting {records : List NodeRecord} (h : ∀ r ∈ records, r.key.Lasting) :
    records.mapM NodeRecord.reread = some records := by
  induction records with
  | nil => rfl
  | cons first rest ih =>
    have hfirst : first.reread = some first := by
      rw [NodeRecord.reread, Key.reread_eq_some_iff.2 (h first List.mem_cons_self)]
      rfl
    rw [List.mapM_cons, hfirst, ih fun r hr => h r (List.mem_cons_of_mem _ hr)]
    rfl

variable {records records' : List NodeRecord}

/-- Records that keep their keys have keys that last. -/
theorem lasting_of_keys (h : List.Forall₂ (fun r r' => r.reread = some r') records records')
    (hkeys : records'.map NodeRecord.key = records.map NodeRecord.key) : ∀ r ∈ records, r.key.Lasting := by
  induction h with
  | nil => exact fun r hr => absurd hr List.not_mem_nil
  | cons hfirst _ ih =>
    rw [List.map_cons, List.map_cons] at hkeys
    obtain ⟨hkey, hkeys⟩ := List.cons.inj hkeys
    refine List.forall_mem_cons.2 ⟨?_, ih hkeys⟩
    obtain ⟨key, hreread, rfl⟩ := Option.map_eq_some_iff.1 hfirst
    rw [← Key.reread_eq_some_iff, hreread, ← hkey]

/-- Other keys do not matter to the numbers of records. -/
theorem fits_reread (h : List.Forall₂ (fun r r' => r.reread = some r') records records')
    (hfits : ∀ r ∈ records, r.Fits) : ∀ r ∈ records', r.Fits := by
  induction h with
  | nil => exact hfits
  | cons hfirst _ ih =>
    obtain ⟨hfit, hfits⟩ := List.forall_mem_cons.1 hfits
    refine List.forall_mem_cons.2 ⟨?_, ih hfits⟩
    obtain ⟨key, -, rfl⟩ := Option.map_eq_some_iff.1 hfirst
    exact ⟨hfit.number, hfit.definitions⟩

/-! ## Graphs -/

namespace Graph

/-- The file of a graph in JSON, read as YAML. -/
theorem readText_toJson (hg : g.OK) (hsize : g.nodes.size < 2 ^ 64) :
    readText DepsFile.read (g.toJson ++ "\n") =
      (g.toFile.nodes.mapM NodeRecord.reread).elim (.error .malformed) fun records =>
        .ok ⟨Header.current, records⟩ := by
  have hfits := toFile_fits hg hsize
  have hdocument : Document.read (g.toJson ++ "\n") =
      (g.toFile.nodes.mapM NodeRecord.reread).map fun records =>
        ⟨.ofData .quoted (DepsFile.toData ⟨Header.current, records⟩), {}⟩ := by
    refine (Document.read_pretty g.toFile.toData_writable).trans ?_
    change ((DepsFile.toData ⟨Header.current, g.toFile.nodes⟩).mapText Yaml.reread).map _ = _
    rw [DepsFile.mapText_toData, Option.map_map]
    rfl
  rw [readText, hdocument]
  cases hmap : g.toFile.nodes.mapM NodeRecord.reread with
  | none => rfl
  | some records =>
    have hrecords : DepsFile.Fits ⟨Header.current, records⟩ :=
      ⟨hfits.major, hfits.minor, fits_reread (forall₂_reread hmap) hfits.nodes⟩
    have hread := DepsFile.read_toData (Tree.ofData_faithful Styles.quoted_definite) _ hrecords
    change (DepsFile.read (Tree.ofData .quoted (DepsFile.toData ⟨Header.current, records⟩))).run' _ = _
    rw [hread]
    rfl

/-- **A graph in JSON reads back as YAML just when its keys last.** -/
theorem ofYaml_toJson_iff (hg : g.OK) (hsize : g.nodes.size < 2 ^ 64) :
    (∃ h, ofYaml (g.toJson ++ "\n") = .ok h ∧ g.verifySame h = .ok ()) ↔ ∀ key ∈ g.keys, key.Lasting := by
  have hread := readText_toJson hg hsize
  rw [ofYaml, hread]
  constructor
  · rintro ⟨h, hofYaml, hsame⟩
    cases hmap : g.toFile.nodes.mapM NodeRecord.reread with
    | none =>
      rw [hmap] at hofYaml
      cases hofYaml
    | some records =>
      rw [hmap] at hofYaml
      have hgraph : DepsFile.graph ⟨Header.current, records⟩ = .ok h := orFail_eq_ok.1 hofYaml
      obtain ⟨h', hgraph', -, hnodes, -⟩ := (DepsFile.wellFormed_of_graph hgraph).graph_eq
      cases hgraph.symm.trans hgraph'
      have hkeys : records.map NodeRecord.key = g.toFile.nodes.map NodeRecord.key := by
        have hmapped : records.map NodeRecord.node = g.toFile.nodes.map NodeRecord.node := by
          rw [toFile_map_node, (verifySame_ok_iff.1 hsame).1, hnodes]
        have hfields := congrArg (List.map Node.key) hmapped
        rwa [List.map_map, List.map_map] at hfields
      intro key hkey
      rw [← toFile_map_key] at hkey
      obtain ⟨r, hr, rfl⟩ := List.mem_map.1 hkey
      exact lasting_of_keys (forall₂_reread hmap) hkeys r hr
  · intro hlasting
    have hrecords : ∀ r ∈ g.toFile.nodes, r.key.Lasting := by
      intro r hr
      apply hlasting
      rw [← toFile_map_key]
      exact List.mem_map_of_mem hr
    obtain ⟨h, hgraph, hsame⟩ := toFile_graph hg
    refine ⟨h, ?_, hsame.verifySame⟩
    rw [mapM_lasting hrecords]
    exact orFail_eq_ok.2 hgraph

end Graph

end DepGraph
