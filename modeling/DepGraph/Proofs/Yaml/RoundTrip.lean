import DepGraph.DepsFile.Notation
import DepGraph.Proofs.DepsFile.RoundTrip
import DepGraph.Proofs.Yaml.Node

/-!
# YAML reads back

* `Tree.ofData_faithful`: the trees of data read back as the data.
* `DepsFile.toData_writable`: every deps file can be written.
* `Graph.ofYaml_toYaml`: a graph reads back from its file.
-/

namespace DepGraph.Yaml

variable {styles : Styles}

/-- The tree of data, which needs no anchors. -/
def Tree.ofData (styles : Styles) (d : Data) : Tree := ⟨{}, .ofData styles d⟩

/-! ## Counts -/

theorem toDigits_cons (n : ℕ) : ∃ ch tail, Nat.toDigits 10 n = ch :: tail ∧ ch.isDigit = true := by
  obtain ⟨ch, tail, hcs⟩ := List.exists_cons_of_ne_nil (Nat.toDigits_ne_nil (n := n) (b := 10))
  have hmem : ch ∈ Nat.toDigits 10 n := by rw [hcs]; exact List.mem_cons_self
  exact ⟨ch, tail, hcs, Nat.isDigit_of_mem_toDigits (by decide) (by decide) hmem⟩

theorem toDigits_zero_or (n : ℕ) : Nat.toDigits 10 n = ['0'] ∨
    ∃ ch tail, Nat.toDigits 10 n = ch :: tail ∧ ch ≠ '0' ∧ ch.isDigit = true := by
  rcases Nat.eq_zero_or_pos n with rfl | hn
  · exact Or.inl rfl
  · obtain ⟨ch, tail, hcs, hdigit⟩ := toDigits_cons n
    have hhead := Text.head_toDigits hn
    rw [hcs] at hhead
    exact Or.inr ⟨ch, tail, hcs, fun h => hhead (by rw [h]; rfl), hdigit⟩

theorem unsigned?_toDigits (n : ℕ) : unsigned? (String.ofList (Nat.toDigits 10 n)) = some n := by
  have hnumber := Text.number?_toDigits (by decide : 1 < 10) (by decide) n
  rcases toDigits_zero_or n with hzero | ⟨ch, tail, hcs, hne, hdigit⟩
  · rw [hzero] at hnumber ⊢
    exact hnumber
  · have hminus : ch ≠ '-' := by
      rintro rfl
      cases hdigit
    have hplus : ch ≠ '+' := by
      rintro rfl
      cases hdigit
    have hsigns : dropSign ['-', '+'] (ch :: tail) = ch :: tail := by
      rw [dropSign, if_neg (by simp [hminus, hplus])]
    have hsign : dropSign ['+'] (ch :: tail) = ch :: tail := by
      rw [dropSign, if_neg (by simp [hplus])]
    have hlead : hasLeadingZero (String.ofList (ch :: tail)) = false := by
      rw [hasLeadingZero, String.toList_ofList, hsigns]
      split
      · rename_i heq
        exact absurd (List.cons.inj heq).1 hne
      · rfl
    rw [hcs] at hnumber ⊢
    rw [unsigned?, hlead, String.toList_ofList, hsign]
    change magnitude? (ch :: tail) = some n
    unfold magnitude?
    -- other bases start with a zero
    split
    · rename_i heq
      exact absurd (List.cons.inj heq).1 hne
    · rename_i heq
      exact absurd (List.cons.inj heq).1 hne
    · rename_i heq
      exact absurd (List.cons.inj heq).1 hne
    · exact hnumber

/-! ## Values -/

theorem list_ofData {α : Type} {read : Tree → Decode α} {toData : α → Data} {items : List α}
    (h : ∀ a ∈ items, read (.ofData styles (toData a)) = pure a) :
    (Node.ofItems styles (items.map toData)).mapM (fun item => read ⟨{}, item⟩) = pure items := by
  induction items with
  | nil => rfl
  | cons a items ih =>
    have hfirst : read ⟨{}, .ofData styles (toData a)⟩ = pure a := h a List.mem_cons_self
    rw [List.map_cons, Node.ofItems, List.mapM_cons, hfirst, pure_bind,
      ih fun b hb => h b (List.mem_cons_of_mem _ hb), pure_bind]

/-- Fields that fill a draft are collected into it, from any place in their list on. -/
theorem collect_ofFields {α : Type} {f : Fields Tree Decode α} {draft : f.Draft} (hf : f.names.Nodup) :
    ∀ (rest done : List (String × Data)), ((done ++ rest).map Prod.fst).Nodup →
      (∀ name ∈ (done ++ rest).map Prod.fst, name ∈ f.names) →
      f.Fills ((done ++ rest).map (Prod.map id (Tree.ofData styles))) draft →
      Tree.collect {} f (Node.ofFields styles rest) (f.restrict (done.map Prod.fst) draft) = pure draft := by
  have hfst : ∀ fields : List (String × Data), (fields.map (Prod.map id (Tree.ofData styles))).map Prod.fst =
      fields.map Prod.fst := by
    intro fields
    rw [List.map_map]
    rfl
  intro rest
  induction rest with
  | nil =>
    intro done _ _ hfill
    rw [List.append_nil] at hfill
    rw [← hfst, f.restrict_all hfill fun name => Fields.mem_of_lookup]
    rfl
  | cons first rest ih =>
    -- the draft so far is the final one, with the fields left out that are still to come
    intro done hnd hmem hfill
    obtain ⟨name, value⟩ := first
    set trees := List.map (Prod.map id (Tree.ofData styles)) with htrees
    have hsplit : trees (done ++ (name, value) :: rest) =
        trees done ++ (name, .ofData styles value) :: trees rest := List.map_append
    have hnames : ((trees done ++ (name, .ofData styles value) :: trees rest).map Prod.fst).Nodup := by
      rwa [← hsplit, hfst]
    rw [hsplit] at hfill
    obtain ⟨next, hnext, hv⟩ :=
      f.accept_next (fun _ => Fault.mismatch) hf hfill hnames (hmem name (by simp))
    have hdone : (trees done ++ [(name, Tree.ofData styles value)]).map Prod.fst =
        (done ++ [(name, value)]).map Prod.fst := by
      rw [List.map_append, List.map_append, hfst]
      rfl
    have hkey : Tree.text ⟨{}, .scalar none styles.name name⟩ = pure name := rfl
    have hvalue : next ⟨{}, .ofData styles value⟩ =
        pure (f.restrict ((done ++ [(name, value)]).map Prod.fst) draft) := by
      rw [← hdone]
      exact hv
    rw [hfst] at hnext
    rw [Node.ofFields, Tree.collect, hkey, pure_bind, hnext]
    simp only
    rw [hvalue, pure_bind]
    apply ih
    · rwa [List.append_assoc]
    · rwa [List.append_assoc]
    · rw [List.append_assoc]
      exact hsplit ▸ hfill

theorem target_ofData (d : Data) : Tree.target (.ofData styles d) = pure (.ofData styles d) := by
  cases d with
  | flag b => cases b <;> rfl
  | _ => rfl

theorem isNothing_toDigits (n : ℕ) : Tree.isNothing (String.ofList (Nat.toDigits 10 n)) = false := by
  have hword : ∀ word : String, (word.toList.head?.all fun ch => ch.isDigit = false) = true →
      String.ofList (Nat.toDigits 10 n) ≠ word := by
    rintro word hword rfl
    rw [String.toList_ofList] at hword
    obtain ⟨ch, tail, hcs, hdigit⟩ := toDigits_cons n
    rw [hcs] at hword
    simp [hdigit] at hword
  simp [Tree.isNothing, isNull, hword "" (by decide), hword "~" (by decide), hword "null" (by decide),
    hword "Null" (by decide), hword "NULL" (by decide)]

theorem isNothing_text {text : String} (h : styleOf text = .plain) : Tree.isNothing text = false := by
  have hspec := Scan.styleOf_spec text
  rw [h] at hspec
  have hmeans := hspec.1
  simp only [meansOther, Bool.or_eq_false_iff] at hmeans
  rw [Tree.isNothing, hmeans.1.1.1.1.1, hmeans.1.1.1.1.2]
  rfl

/-- No text is written so that it is taken for nothing. -/
def Styles.Definite (styles : Styles) : Prop :=
  ∀ text, styles.text text = .plain → Tree.isNothing text = false

theorem Styles.block_definite : Styles.block.Definite := fun _ h => isNothing_text h

theorem Styles.quoted_definite : Styles.quoted.Definite := nofun

/-- Nothing but null is taken for nothing. -/
theorem optional_ofData {α : Type} {read : Tree → Decode α} {d : Data} (h : styles.Definite) (hd : d ≠ .null) :
    Tree.optional read (.ofData styles d) = read (.ofData styles d) >>= fun a => pure (some a) := by
  rw [Tree.optional, target_ofData, pure_bind]
  cases d with
  | null => exact absurd rfl hd
  | flag b => cases b <;> rfl
  | count n =>
    rw [Node.ofData]
    simp only [isNothing_toDigits]
    rfl
  | text text =>
    have htree : Tree.ofData styles (.text text) = ⟨{}, .scalar none (styles.text text) text⟩ := rfl
    rw [htree, Node.ofData]
    -- only a plain scalar can mean null, and such a text is not written plainly
    cases hstyle : styles.text text with
    | plain =>
      simp only [h text hstyle]
      rfl
    | _ => rfl
  | list items => rfl
  | record fields => rfl

/-- **YAML is faithful.** -/
theorem Tree.ofData_faithful (h : styles.Definite) : Faithful (Tree.ofData styles) where
  text := fun _ => rfl
  flag := by
    intro b
    cases b <;> rfl
  count := by
    intro limit n kind h _
    change (Tree.orMismatch
      ((unsigned? (String.ofList (Nat.toDigits 10 n))).filter (· ≤ limit)) : Decode ℕ) = _
    rw [unsigned?_toDigits, Option.filter, if_pos (by simpa using h)]
    rfl
  choice := by
    intro α names pick name a h
    change Tree.orMismatch (pick name) = _
    rw [h]
    rfl
  fingerprint := by
    intro f
    have htext : (Tree.ofData styles (.text f.text)).text = pure f.text := rfl
    simp only [DataTree.fingerprint, htext, pure_bind, f.parse_text]
  optional := by
    intro α read d a hd hread
    change Tree.optional read (.ofData styles d) = _
    rw [optional_ofData h hd, hread, pure_bind]
  list := list_ofData
  record := by
    intro α title f draft fields a hf hnd hmem hfill hfinish
    have hcollect := collect_ofFields hf fields [] hnd hmem hfill
    rw [List.map_nil, f.restrict_nil] at hcollect
    change Tree.record f (.ofData styles (.record fields)) = _
    rw [Tree.record, target_ofData, pure_bind, Node.ofData]
    change (Tree.collect {} f (Node.ofFields styles fields) f.blank >>= _) = _
    rw [hcollect, pure_bind, hfinish]
    rfl

end DepGraph.Yaml

namespace DepGraph

open Yaml

/-! ## Deps files can be written -/

namespace Yaml

instance (name : String) : Decidable (Scan.IsName name) :=
  decidable_of_iff
    (name.toList ≠ [] ∧ (name.toList.all fun ch => ch.isAlphanum = true ∨ ch = '_') = true ∧
      name.toList.length + 2 ≤ 1024)
    ⟨fun h => ⟨h.1, by simpa using h.2.1, h.2.2⟩, fun h => ⟨h.nonempty, by simpa using h.word, h.short⟩⟩

theorem Writable.text (s : String) : Writable (.text s) := .atom (.text s)

theorem Writable.count (n : ℕ) : Writable (.count n) := .atom (.count n)

theorem Writable.ofItems {items : List Data} (h : ∀ d ∈ items, IsItem d ∧ Writable d) :
    Writable (.list items) := by
  cases items with
  | nil => exact .atom .empty
  | cons first rest => exact .list (fun d hd => (h d hd).1) fun d hd => (h d hd).2

theorem Writable.ofFields {first : String × Data} {rest : List (String × Data)} (names : List String)
    (hnames : (first :: rest).map Prod.fst = names) (hname : ∀ name ∈ names, Scan.IsName name)
    (h : ∀ d ∈ (first :: rest).map Prod.snd, Writable d) : Writable (.record (first :: rest)) := by
  refine .record (fun f hf => hname f.1 ?_) fun f hf => h f.2 (List.mem_map_of_mem hf)
  rw [← hnames]
  exact List.mem_map_of_mem hf

end Yaml

theorem Key.toData_writable (k : Key) : Writable k.toData := by
  refine .ofFields ["kind", "aspect", "context", "name"] rfl (by decide) ?_
  simp [Writable.text]

theorem Header.toData_writable (h : Header) : Writable h.toData := by
  refine .ofFields ["signature", "major", "minor", "compiler_version"] rfl (by decide) ?_
  simp [Writable.text, Writable.count]

theorem NodeRecord.toData_writable (r : NodeRecord) : Writable r.toData := by
  have hdefinitions : Writable (.list (r.definitions.map .count)) := by
    refine .ofItems fun d hd => ?_
    obtain ⟨n, -, rfl⟩ := List.mem_map.1 hd
    exact ⟨.atom (.count n), .count n⟩
  have hprovides : Writable (.flag r.provides) := .atom (.flag _)
  cases hf : r.fingerprint with
  | none =>
    rw [toData, hf]
    refine .ofFields ["key", "sequence_number", "defs_i_depend_upon", "is_provides"] rfl (by decide) ?_
    simp [Data.optionalField, r.key.toData_writable, Writable.count, hdefinitions, hprovides]
  | some f =>
    rw [toData, hf]
    refine .ofFields ["key", "fingerprint", "sequence_number", "defs_i_depend_upon", "is_provides"] rfl
      (by decide) ?_
    simp [Data.optionalField, Fingerprint.toData, r.key.toData_writable, Writable.text, Writable.count,
      hdefinitions, hprovides]

theorem DepsFile.toData_writable (f : DepsFile) : Writable f.toData := by
  have hnodes : Writable (.list (f.nodes.map NodeRecord.toData)) := by
    refine .ofItems fun d hd => ?_
    obtain ⟨r, -, rfl⟩ := List.mem_map.1 hd
    exact ⟨.record _ _, r.toData_writable⟩
  refine .ofFields ["header", "nodes"] rfl (by decide) ?_
  simp [f.header.toData_writable, hnodes]

namespace Graph

variable {g : Graph}

/-- The text of a graph holds the tree of its file. -/
theorem document_toYaml (g : Graph) : Document.read g.toYaml = some ⟨.ofData .block g.toFile.toData, {}⟩ := by
  have hbanner : yamlBanner = String.ofList ('#' :: (" Fine-grained v0".toList ++ ['\n'])) := by decide
  have htext : g.toYaml = String.ofList ('#' :: (" Fine-grained v0".toList ++ '\n' :: writeFields 0
      [("header", g.toFile.header.toData), ("nodes", .list (g.toFile.nodes.map NodeRecord.toData))])) := by
    rw [toYaml, DepsFile.toData, write, hbanner, ← String.ofList_append, List.cons_append,
      List.append_assoc, List.singleton_append]
  rw [htext]
  exact Document.read_write (clean_of_any (by decide)) (by decide) g.toFile.toData_writable

/-- **YAML round trip.** The text of a graph reads back as the same graph, which has the same text in JSON. -/
theorem ofYaml_toYaml (hg : Reachable g) (hsize : g.nodes.size < 2 ^ 32) :
    ∃ h, ofYaml g.toYaml = .ok h ∧ g.verifySame h = .ok () ∧ h.toJson = g.toJson := by
  obtain ⟨h, hgraph, hsame⟩ := toFile_graph hg.ok
  have hread := DepsFile.read_toData (Tree.ofData_faithful Styles.block_definite) g.toFile
    (toFile_fits hg.ok (by omega))
  refine ⟨h, ?_, hsame.verifySame, ?_⟩
  · rw [ofYaml, readText, document_toYaml]
    change (within _ (orFail .yaml ((DepsFile.read (Tree.ofData .block g.toFile.toData)).run' _)) >>= _) = _
    rw [hread]
    change orFail .file g.toFile.graph = _
    rw [hgraph]
    rfl
  · rw [toJson, toJson, hsame.toFile]

theorem ofYaml_toYaml_awkward : Reachable awkward ∧ awkward.nodes.size < 2 ^ 32 ∧
    ∃ h, ofYaml awkward.toYaml = .ok h ∧ awkward.verifySame h = .ok () ∧ h.toJson = awkward.toJson :=
  ⟨awkward_reachable, awkward_small, ofYaml_toYaml awkward_reachable awkward_small⟩

end Graph

end DepGraph
