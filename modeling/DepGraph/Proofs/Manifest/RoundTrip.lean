import DepGraph.Manifest.Basic
import DepGraph.Proofs.Json.RoundTrip

/-!
# Manifests read back

* `Declaration.read_toData`: a declaration reads back as itself, however little nesting is allowed; its
  kind comes from the members that are kept aside.
* `Manifest.read_toData`: a manifest reads back as itself.
* `Manifest.canonical_inj`: its compact text tells it from every other.
-/

namespace DepGraph

open Json

/-! ## Declarations -/

theorem settle_ofString (room : ℕ) (s : String) : (Tree.ofData (.text s)).settle room = .ok () := by
  change (Spelling.ofString s).heard.map (fun _ => ()) = _
  rw [(says_ofString s).heard]
  rfl

/-- Members that settle are all kept. -/
theorem keep_all (room : ℕ) {l : List (String × Tree)} (h : ∀ e ∈ l, e.2.settle room = .ok ()) :
    ∀ kept : List (String × Tree),
      l.foldlM (fun kept e => (e.2.settle room).map fun () => kept ++ [(e.1, e.2)]) kept =
        .ok (kept ++ l) := by
  induction l with
  | nil => intro kept; rw [List.append_nil]; rfl
  | cons e l ih =>
    intro kept
    rw [List.foldlM_cons, h e List.mem_cons_self]
    change List.foldlM _ (kept ++ [e]) l = _
    rw [ih (fun e he => h e (List.mem_cons_of_mem _ he)), List.append_assoc]
    rfl

theorem DeclarationKind.readIndex_name (k : DeclarationKind) :
    DeclarationKind.readIndex (.ofData (.text k.name)) = .ok k.index := by
  have hpick : DeclarationKind.names.idxOf? k.name = some k.index := by cases k <;> rfl
  change ((Spelling.ofString k.name).heard >>= fun name =>
    Tree.pickName DeclarationKind.names (DeclarationKind.names.idxOf? ·) name) = _
  rw [(says_ofString k.name).heard]
  change Tree.pickName DeclarationKind.names (DeclarationKind.names.idxOf? ·) k.name = _
  rw [Tree.pickName, hpick]

/-- The members that are kept for the kind of a declaration. -/
def DeclarationKind.slots (k : DeclarationKind) : List (String × Option Tree) :=
  [("kind", some (.ofData (.text k.name))), ("extended", (k.extended?.map .text).map .ofData)]

theorem DeclarationKind.read_slots (k : DeclarationKind) :
    DeclarationKind.read (Fields.present k.slots) = .ok k := by
  have hkind : (Fields.present k.slots).filter (·.1 = "kind") = [("kind", .ofData (.text k.name))] := by
    cases k <;> rfl
  rw [DeclarationKind.read, hkind, readOnce, k.readIndex_name]
  cases k with
  | extension extended =>
    have htext : DataTree.text (Tree.ofData (.text extended)) = Except.ok extended :=
      Tree.ofData_faithful.text extended
    have hextended : (Fields.present (extension extended).slots).filter (·.1 = "extended") =
      [("extended", .ofData (.text extended))] := rfl
    change ((readOnce "extended" DataTree.text _).map DeclarationKind.extension) = _
    rw [hextended, readOnce, htext]
    rfl
  | _ => rfl

theorem DeclarationKind.slots_settle (room : ℕ) (k : DeclarationKind) :
    ∀ e ∈ Fields.present k.slots, e.2.settle room = .ok () := by
  intro e he
  -- both are texts
  rw [DeclarationKind.slots] at he
  cases hx : k.extended? with
  | none =>
    rw [hx] at he
    rw [List.mem_singleton.1 he]
    exact settle_ofString room k.name
  | some extended =>
    rw [hx] at he
    rcases List.mem_pair.1 he with rfl | rfl
    · exact settle_ofString room k.name
    · exact settle_ofString room extended

/-- The members of a declaration. -/
def Declaration.slots (d : Declaration) : List (String × Option Data) :=
  [("name", some (.text d.name)), ("kind", some (.text d.kind.name)),
    ("extended", d.kind.extended?.map .text), ("mangled_name", d.mangledName.map .text),
    ("body_fingerprint", d.bodyFingerprint.map Fingerprint.toData)]

theorem Declaration.toData_eq (d : Declaration) : d.toData = .record (Fields.present d.slots) := by
  rw [Declaration.toData, Declaration.slots]
  cases d.kind.extended? <;> cases d.mangledName <;> cases d.bodyFingerprint <;> rfl

/-- What is read of a declaration besides its kind. -/
def Declaration.draft (d : Declaration) : Declaration.fields.Draft :=
  ((((), some d.name), d.mangledName.map some), d.bodyFingerprint.map some)

theorem Declaration.finish_draft {ε : Type} (missing : String → ε) (d : Declaration) :
    Declaration.fields.finish missing d.draft = .ok (d.name, d.mangledName, d.bodyFingerprint) := by
  rw [Declaration.draft]
  cases d.mangledName <;> cases d.bodyFingerprint <;> rfl

/-- **A declaration reads back as itself**, however little nesting is allowed. -/
theorem Declaration.read_toData (room : ℕ) (d : Declaration) :
    Declaration.read room (.ofData d.toData) = .ok d := by
  have ht := Tree.ofData_faithful
  have hnd : ["name", "kind", "extended", "mangled_name", "body_fingerprint"].Nodup := by decide
  have hf : Declaration.fields.names.Nodup :=
    (by decide : ["name", "mangled_name", "body_fingerprint"].Nodup)
  let trees := d.slots.map (Prod.map id (Option.map Tree.ofData))
  have hlookup := Fields.lookup_present trees hnd
  have hlists : (Members.ofData (Fields.present d.slots)).Lists (Fields.present trees) := by
    rw [← Fields.map_present]
    exact Members.ofData_lists _
  have hfill : Declaration.fields.Fills (Fields.present trees) d.draft :=
    ⟨⟨⟨trivial, .of_member (hlookup "name") (ht.text _)⟩,
      ht.slot_optional (hlookup "mangled_name") nofun ht.text⟩,
      ht.slot_optional (hlookup "body_fingerprint") nofun ht.fingerprint⟩
  -- what is kept is the kind
  have hkept : (Fields.present trees).filter (fun e => e.1 ∉ Declaration.fields.names) =
      Fields.present d.kind.slots := by
    rw [Fields.filter_present (fun name => name ∉ Declaration.fields.names)]
    rfl
  have hcollect := hlists.collect_all Declaration.fields hf
    (fun name _ => List.nodup_iff_count_le_one.1 (hnd.sublist (Fields.present_sublist trees)) name) hfill
    (fun kept name value => (value.settle room).map fun () => kept ++ [(name, value)])
    (hkept ▸ keep_all room (d.kind.slots_settle room) [])
  rw [Declaration.toData_eq, Tree.ofData, Declaration.read, hcollect]
  simp only [bind, Except.bind, d.finish_draft, hkept, List.nil_append, d.kind.read_slots]
  rfl

/-! ## Manifests -/

theorem MemberRecord.read_toData (r : MemberRecord) :
    DataTree.record "MemberRecord" MemberRecord.fields (Tree.ofData r.toData) = pure r := by
  have hnd : ["nominal", "member"].Nodup := by decide
  exact Tree.ofData_faithful.record "MemberRecord" MemberRecord.fields
    (((), some r.nominal), some r.member) hnd hnd (fun _ h => h)
    ⟨⟨trivial, _, rfl, r.nominal.read_toData _⟩, _, rfl, r.member.read_toData _⟩ (fun _ => rfl)

def UseRecord.slots (r : UseRecord) : List (String × Option Data) :=
  [("def", some r.definition.toData), ("user", r.user.map Key.toData)]

theorem UseRecord.toData_eq (r : UseRecord) : r.toData = .record (Fields.present r.slots) := by
  rw [UseRecord.toData, UseRecord.slots]
  cases r.user <;> rfl

theorem UseRecord.read_toData (r : UseRecord) :
    DataTree.record "UseRecord" UseRecord.fields (Tree.ofData r.toData) = pure r := by
  have ht := Tree.ofData_faithful
  have hnd : ["def", "user"].Nodup := by decide
  have hlookup := Fields.lookup_present (r.slots.map (Prod.map id (Option.map Tree.ofData))) hnd
  rw [UseRecord.toData_eq]
  refine ht.record_present "UseRecord" UseRecord.fields (((), some r.definition), r.user.map some) hnd rfl
    ?_ ?_
  · exact ⟨⟨trivial, .of_member (hlookup "def") (r.definition.read_toData ht)⟩,
      ht.slot_optional (hlookup "user") nofun (Key.read_toData ht)⟩
  · intro ε missing
    obtain ⟨definition, user⟩ := r
    cases user <;> rfl

def ExternalRecord.slots (r : ExternalRecord) : List (String × Option Data) :=
  [("path", some (.text r.path)), ("fingerprint", r.fingerprint.map .text),
    ("user", r.user.map Key.toData)]

theorem ExternalRecord.toData_eq (r : ExternalRecord) : r.toData = .record (Fields.present r.slots) := by
  rw [ExternalRecord.toData, ExternalRecord.slots]
  cases r.fingerprint <;> cases r.user <;> rfl

theorem ExternalRecord.read_toData (r : ExternalRecord) :
    DataTree.record "ExternalDependencyRecord" ExternalRecord.fields (Tree.ofData r.toData) = pure r := by
  have ht := Tree.ofData_faithful
  have hnd : ["path", "fingerprint", "user"].Nodup := by decide
  have hlookup := Fields.lookup_present (r.slots.map (Prod.map id (Option.map Tree.ofData))) hnd
  rw [ExternalRecord.toData_eq]
  refine ht.record_present "ExternalDependencyRecord" ExternalRecord.fields
    ((((), some r.path), r.fingerprint.map some), r.user.map some) hnd rfl ?_ ?_
  · exact ⟨⟨⟨trivial, .of_member (hlookup "path") (ht.text _)⟩,
      ht.slot_optional (hlookup "fingerprint") nofun ht.text⟩,
      ht.slot_optional (hlookup "user") nofun (Key.read_toData ht)⟩
  · intro ε missing
    obtain ⟨path, fingerprint, user⟩ := r
    cases fingerprint <;> cases user <;> rfl

theorem Declaration.readList_toData (ds : List Declaration) :
    Declaration.readList (.ofData (.list (ds.map Declaration.toData))) = .ok ds :=
  Tree.ofData_faithful.list fun d _ => d.read_toData _

namespace Manifest

def slots (m : Manifest) : List (String × Option Data) :=
  [("deps_name", some (.text m.depsName)),
    ("file_fingerprint", m.fileFingerprint.map Fingerprint.toData),
    ("source_text", m.sourceText.map .text),
    ("had_compilation_error", some (.flag m.hadCompilationError)),
    ("top_level", some (.list (m.topLevel.map Declaration.toData))),
    ("nominals", some (.list (m.nominals.map Declaration.toData))),
    ("potential_members", some (.list (m.potentialMembers.map Declaration.toData))),
    ("members", some (.list (m.members.map MemberRecord.toData))),
    ("dynamic_lookups", some (.list (m.dynamicLookups.map Declaration.toData))),
    ("uses", some (.list (m.uses.map UseRecord.toData))),
    ("external_dependencies", some (.list (m.externals.map ExternalRecord.toData)))]

theorem toData_eq (m : Manifest) : m.toData = .record (Fields.present m.slots) := by
  rw [toData, slots]
  cases m.fileFingerprint <;> cases m.sourceText <;> rfl

/-- **A manifest reads back as itself.** -/
theorem read_toData (m : Manifest) : Manifest.read (.ofData m.toData) = .ok m := by
  have ht := Tree.ofData_faithful
  have hnd : ["deps_name", "file_fingerprint", "source_text", "had_compilation_error", "top_level",
      "nominals", "potential_members", "members", "dynamic_lookups", "uses",
      "external_dependencies"].Nodup := by decide
  have hlookup := Fields.lookup_present (m.slots.map (Prod.map id (Option.map Tree.ofData))) hnd
  have hdeclarations := Declaration.readList_toData
  rw [toData_eq]
  refine ht.record_present "FileManifest" Manifest.fields
    ((((((((((((), some m.depsName), m.fileFingerprint.map some), m.sourceText.map some),
      some m.hadCompilationError), some m.topLevel), some m.nominals), some m.potentialMembers),
      some m.members), some m.dynamicLookups), some m.uses), some m.externals) hnd rfl ?_ ?_
  · refine ⟨⟨⟨⟨⟨⟨⟨⟨⟨⟨⟨trivial, .of_member (hlookup "deps_name") (ht.text _)⟩, ?_⟩, ?_⟩,
      .of_member (hlookup "had_compilation_error") (ht.flag _)⟩,
      .of_member (hlookup "top_level") (hdeclarations _)⟩,
      .of_member (hlookup "nominals") (hdeclarations _)⟩,
      .of_member (hlookup "potential_members") (hdeclarations _)⟩,
      .of_member (hlookup "members") (ht.list fun r _ => r.read_toData)⟩,
      .of_member (hlookup "dynamic_lookups") (hdeclarations _)⟩,
      .of_member (hlookup "uses") (ht.list fun r _ => r.read_toData)⟩,
      .of_member (hlookup "external_dependencies") (ht.list fun r _ => r.read_toData)⟩
    · exact ht.slot_optional (hlookup "file_fingerprint") nofun ht.fingerprint
    · exact ht.slot_optional (hlookup "source_text") nofun ht.text
  · intro ε missing
    obtain ⟨_, fileFingerprint, sourceText, _, _, _, _, _, _, _, _⟩ := m
    cases fileFingerprint <;> cases sourceText <;> rfl

theorem readText_write {layout : Layout} (hl : layout.Blank) (m : Manifest) :
    readText Manifest.read ((write layout 0 m.toData).map some) = .ok m := by
  have h := Json.readText_write Manifest.read hl m.toData blank_nil
  rw [List.append_nil] at h
  rw [h, m.read_toData]

/-- **The compact text tells a manifest from every other.** -/
theorem canonical_inj {m m' : Manifest} : m.canonical = m'.canonical ↔ m = m' := by
  constructor
  · intro h
    have hwrite : write .compact 0 m.toData = write .compact 0 m'.toData := String.ofList_injective h
    have hm := m.readText_write compact_blank
    rw [hwrite, m'.readText_write compact_blank] at hm
    exact (Except.ok.inj hm).symm
  · exact congrArg canonical

/-- The bytes of the compact text. -/
def canonicalBytes (m : Manifest) : List UInt8 := m.canonical.toUTF8.data.toList

theorem canonicalBytes_inj {m m' : Manifest} : m.canonicalBytes = m'.canonicalBytes ↔ m = m' := by
  rw [← canonical_inj, canonicalBytes, canonicalBytes, Array.toList_inj, ← ByteArray.ext_iff]
  exact String.toByteArray_inj

theorem wholeFileFingerprint_eq {m : Manifest} (hf : m.fileFingerprint = none)
    (hs : m.sourceText = none) : m.wholeFileFingerprint = .ofContent m.canonicalBytes := by
  rw [wholeFileFingerprint, hf, hs]
  rfl

/-- **Round trip of manifests.** The compact and the pretty text of a manifest read back as it. So the
digests that stand for two files without fingerprint and source text are taken of the same bytes just when
the manifests are the same. -/
theorem text_round_trip (m : Manifest) :
    readText Manifest.read (m.canonical.toList.map some) = .ok m ∧
      readText Manifest.read ((pretty m.toData).toList.map some) = .ok m ∧
      ∀ m' : Manifest, m.fileFingerprint = none → m.sourceText = none →
        m'.fileFingerprint = none → m'.sourceText = none →
        m.wholeFileFingerprint = .ofContent m.canonicalBytes ∧
          m'.wholeFileFingerprint = .ofContent m'.canonicalBytes ∧
          (m.canonicalBytes = m'.canonicalBytes ↔ m = m') := by
  refine ⟨?_, ?_, ?_⟩
  · rw [canonical, compact, String.toList_ofList]
    exact m.readText_write compact_blank
  · rw [pretty, String.toList_ofList]
    exact m.readText_write pretty_blank
  · intro m' hf hs hf' hs'
    exact ⟨wholeFileFingerprint_eq hf hs, wholeFileFingerprint_eq hf' hs', canonicalBytes_inj⟩

/-- A manifest with an extension of a nominal. -/
def extending (extended : String) : Manifest :=
  { depsName := "\"\\.deps", nominals := [⟨"A", .extension extended, some "", some .zero⟩] }

theorem text_round_trip_extending : (extending "é").fileFingerprint = none ∧
    (extending "é").sourceText = none ∧ (extending "").fileFingerprint = none ∧
    (extending "").sourceText = none ∧ extending "é" ≠ extending "" ∧
    (extending "é").canonicalBytes ≠ (extending "").canonicalBytes := by
  have hne : extending "é" ≠ extending "" := by decide
  have hbytes := ((text_round_trip (extending "é")).2.2 (extending "") rfl rfl rfl rfl).2.2
  exact ⟨rfl, rfl, rfl, rfl, hne, fun h => hne (hbytes.1 h)⟩

end Manifest

end DepGraph
