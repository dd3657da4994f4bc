import DepGraph.Command
import DepGraph.Proofs.Construction.Anchoring
import DepGraph.Proofs.DepsFile.Reread
import DepGraph.Proofs.Json.RoundTrip
import DepGraph.Proofs.Manifest

/-!
# Builds read back

A build writes JSON whatever the output is called, and reads the output back by its extension. On a file
system that keeps what is written, this succeeds unless the output is read as YAML and some key has a text
that does not last.

* `Files.graphOfBytes_iff`: which graphs read back, by the extension.
* `Command.runBuild_result`: a build succeeds just when its graph reads back.
* `Command.runBuild_reads_back`: the two together, in terms of the manifest.
* `Command.runBuild_nextLine`: a manifest whose build fails, by a next line in the name of the file.
-/

namespace DepGraph

variable {σ : Type} {files : Files (StateM σ)} {s s' : σ} {path output : String} {g : Graph} {m : Manifest}

/-! ## File systems -/

/-- A file system on which every operation succeeds, and a file holds what was last written to it. -/
structure Files.Reliable (files : Files (StateM σ)) : Prop where
  createDirectories : ∀ path s, ((files.createDirectories path).run s).1 = .ok ()
  create : ∀ path s, ((files.create path).run s).1 = .ok ()
  write : ∀ path text s, ((files.write path text).run s).1 = .ok ()
  lookup : ∀ path text s,
    ((files.lookup path).run ((files.write path text).run s).2).1 = .ok (.file text.toUTF8)

section Runs

variable {α β : Type} {x : StateM σ α} {a : α}

theorem run_of_fst (hx : (x.run s).1 = a) : x.run s = (a, (x.run s).2) := Prod.ext hx rfl

theorem run_bind_of_run {f : α → StateM σ β} (hx : x.run s = (a, s')) :
    (x >>= f).run s = (f a).run s' := by
  rw [StateT.run_bind, hx]
  rfl

end Runs

namespace Files

theorem Reliable.createOutput (hfiles : files.Reliable) (path : String) (s : σ) :
    ((files.createOutput path).run s).1 = .ok () := by
  have hcreate : ∀ (s : σ) (task : String),
      ((do return within task (orFail .io (← files.create path)) : StateM σ _).run s).1 = .ok () := by
    intro s task
    rw [run_bind_of_run (run_of_fst (hfiles.create path s))]
    rfl
  unfold Files.createOutput
  simp only
  split_ifs
  · exact hcreate s _
  · rw [run_bind_of_run (run_of_fst (hfiles.createDirectories _ s))]
    exact hcreate _ _

/-- A graph that was saved can be looked up. -/
theorem Reliable.save (hfiles : files.Reliable) (g : Graph) (path : String) (s : σ) :
    ∃ s', (g.save (files.outlet none) path).run s = ((.ok (), []), s') ∧
      ((files.lookup path).run s').1 = .ok (.file (g.toJson ++ "\n").toUTF8) := by
  obtain ⟨s₁, hcreate⟩ : ∃ s₁, ((files.outlet none).create path).run s = (.ok (), s₁) :=
    ⟨_, run_of_fst (hfiles.createOutput path s)⟩
  obtain ⟨s₂, hwrite, hlookup⟩ : ∃ s₂,
      ((files.outlet none).write path (g.toJson ++ "\n")).run s₁ = (.ok (), s₂) ∧
      ((files.lookup path).run s₂).1 = .ok (.file (g.toJson ++ "\n").toUTF8) :=
    ⟨_, run_of_fst (hfiles.write path _ s₁), hfiles.lookup path _ s₁⟩
  refine ⟨s₂, ?_, hlookup⟩
  have hput : ((files.outlet none).put path (g.toJson ++ "\n")).run s = (.ok (), s₂) := by
    rw [Outlet.put, run_bind_of_run hcreate]
    simp only
    rw [run_bind_of_run hwrite]
    rfl
  rw [Graph.save, run_bind_of_run hput]
  rfl

theorem verifyStored_iff {bytes : ByteArray} (hbytes : bytes.isEmpty = false)
    (hlookup : ((files.lookup path).run s).1 = .ok (.file bytes)) :
    ((files.verifyStored g path).run s).1 = .ok () ↔
      ∃ stored, graphOfBytes path bytes = .ok stored ∧ g.verifySame stored = .ok () := by
  have hload : (files.loadGraph path).run s = (graphOfBytes path bytes, ((files.lookup path).run s).2) := by
    rw [loadGraph, run_bind_of_run (run_of_fst hlookup)]
    simp only [hbytes, Bool.false_eq_true, if_false]
    rfl
  rw [verifyStored, run_bind_of_run hload]
  cases hgraph : graphOfBytes path bytes with
  | error failure =>
    change Except.error failure = .ok () ↔ _
    simp
  | ok stored =>
    change within _ (orFail .mismatch (g.verifySame stored)) = .ok () ↔ _
    simp [within_eq_ok, orFail_eq_ok]

/-! ## Notations -/

/-- Whether a path is one of a file in YAML. -/
def IsYaml (path : String) : Prop :=
  Path.extension? path = some "yaml" ∨ Path.extension? path = some "yml"

instance (path : String) : Decidable (IsYaml path) := inferInstanceAs (Decidable (_ ∨ _))

theorem graphOfBytes_yaml (hyaml : IsYaml path) (text : String) :
    graphOfBytes path text.toUTF8 = within s!"Failed to load deps file: {path}" (Graph.ofYaml text) := by
  have htext : Text.ofBytes text.toUTF8 = .ok text := by
    rw [Text.ofBytes, Text.fromUTF8?_toUTF8]
  refine (if_pos hyaml).trans ?_
  rw [htext]
  rfl

theorem graphOfBytes_json (hyaml : ¬ IsYaml path) (bytes : ByteArray) :
    graphOfBytes path bytes = within s!"Failed to load deps file: {path}" (Graph.ofJson bytes) :=
  if_neg hyaml

/-- **What is written reads back** under any name that is not one of YAML, and under those just when the
keys last. -/
theorem graphOfBytes_iff (hg : g.OK) (hsize : g.nodes.size < 2 ^ 64) (path : String) :
    (∃ stored, graphOfBytes path (g.toJson ++ "\n").toUTF8 = .ok stored ∧ g.verifySame stored = .ok ()) ↔
      (IsYaml path → ∀ key ∈ g.keys, key.Lasting) := by
  by_cases hyaml : IsYaml path
  · simp only [graphOfBytes_yaml hyaml, within_eq_ok, Graph.ofYaml_toJson_iff hg hsize, hyaml, forall_const]
  · obtain ⟨stored, hread, hsame⟩ := Graph.ofJson_same hg hsize
    refine ⟨fun _ hyes => absurd hyes hyaml, fun _ => ⟨stored, ?_, hsame.verifySame⟩⟩
    rw [graphOfBytes_json hyaml, within_eq_ok]
    exact hread

end Files

/-! ## Builds -/

/-- The graph of a manifest, under whatever options are left to the command. -/
theorem Manifest.construct_ok (hname : m.depsName ≠ "") : ∃ options c, m.options? = some options ∧
    construct options m.definitions m.useCalls = .ok c ∧ c.graph.OK ∧
    c.graph.keys = m.mentions.eraseDups := by
  obtain ⟨options, hoptions⟩ := Manifest.options_some hname
  obtain ⟨-, hdeps, -, -⟩ := Manifest.options_eq hoptions
  obtain ⟨defined, c, hc, haccount⟩ :=
    construct_account (by rw [hdeps]; exact hname) m.definitions m.useCalls
  exact ⟨options, c, hoptions, hc, haccount.ok, Manifest.keys_eq hoptions haccount⟩

namespace Command

/-- A build succeeds just when the graph that it has written reads back. -/
theorem runBuild_result (hfiles : files.Reliable) (hload : ((files.loadManifest path).run s).1 = .ok m)
    (hname : m.depsName ≠ "") (output : String) (emitDot : Bool) :
    ∃ g : Graph, g.OK ∧ g.keys = m.mentions.eraseDups ∧
      (((runBuild files path output emitDot).run s).1.result = .ok () ↔
        ∃ stored, Files.graphOfBytes output (g.toJson ++ "\n").toUTF8 = .ok stored ∧
          g.verifySame stored = .ok ()) := by
  obtain ⟨options, c, hoptions, hc, hok, hkeys⟩ := Manifest.construct_ok hname
  refine ⟨c.graph, hok, hkeys, ?_⟩
  -- where the output goes is no matter to the construction
  have hplaced : construct { options with outputPath := some output, emitDot } m.definitions m.useCalls
      = .ok c := hc
  obtain ⟨remarks, s₁, hmade, -⟩ :=
    constructInto_run (files.outlet none) hplaced ((files.loadManifest path).run s).2
  obtain ⟨s₂, hsave, hlookup⟩ := hfiles.save c.graph output s₁
  have hbytes : (c.graph.toJson ++ "\n").toUTF8.isEmpty = false := by simp [ByteArray.isEmpty]
  rw [← Files.verifyStored_iff hbytes hlookup, runBuild, run_bind_of_run (run_of_fst hload)]
  simp only [hoptions]
  rw [run_bind_of_run hmade]
  simp only
  rw [run_bind_of_run hsave]
  simp only
  cases hstored : ((files.verifyStored c.graph output).run s₂).1 with
  | error failure =>
    rw [run_bind_of_run (run_of_fst hstored)]
    exact ⟨nofun, nofun⟩
  | ok =>
    rw [run_bind_of_run (run_of_fst hstored)]
    exact ⟨fun _ => rfl, fun _ => rfl⟩

/-- **A build reads back**, on a file system that keeps what is written, just when its output is not taken
for YAML or all keys that the manifest mentions last. -/
theorem runBuild_reads_back (hfiles : files.Reliable)
    (hload : ((files.loadManifest path).run s).1 = .ok m) (hname : m.depsName ≠ "")
    (hsize : m.mentions.eraseDups.length < 2 ^ 64) (output : String) (emitDot : Bool) :
    ((runBuild files path output emitDot).run s).1.result = .ok () ↔
      (Files.IsYaml output → ∀ key ∈ m.mentions, key.Lasting) := by
  obtain ⟨g, hg, hkeys, hresult⟩ := runBuild_result hfiles hload hname output emitDot
  have hnodes : g.nodes.size < 2 ^ 64 := by
    rwa [← hkeys, Graph.length_keys] at hsize
  rw [hresult, Files.graphOfBytes_iff hg hnodes, hkeys]
  simp only [List.mem_eraseDups]

end Command

/-- Files by their paths, without directories. -/
def Files.memory : Files (StateM (String → Option String)) where
  lookup path stored := ((stored path).elim (.error .missing) fun text => .ok (.file text.toUTF8), stored)
  createDirectories _ stored := (.ok (), stored)
  create path stored := (.ok (), Function.update stored path (some ""))
  write path text stored := (.ok (), Function.update stored path (some text))

theorem Files.memory_reliable : memory.Reliable where
  createDirectories _ _ := rfl
  create _ _ := rfl
  write _ _ _ := rfl
  lookup path text stored := by
    change (Function.update stored path (some text) path).elim _ _ = _
    rw [Function.update_self]
    rfl

namespace Command

/-- A manifest with a name that breaks a line, and that would be no text without quotes. -/
def brokenName : String := "\x7b\"deps_name\": \"a\\u2028: #b\"\x7d"

theorem runBuild_reads_back_broken :
    Files.memory.Reliable ∧
    ((Files.memory.loadManifest "m.json").run fun _ => some brokenName).1 =
      .ok { depsName := "a\u2028: #b" } ∧
    ((runBuild Files.memory "m.json" "out.yml" true).run fun _ => some brokenName).1.result = .ok () := by
  have hload : ((Files.memory.loadManifest "m.json").run fun _ => some brokenName).1 =
      .ok { depsName := "a\u2028: #b" } := by decide +kernel
  have hlasting : ∀ key ∈ ({ depsName := "a\u2028: #b" } : Manifest).mentions, key.Lasting := by decide +kernel
  exact ⟨Files.memory_reliable, hload,
    (runBuild_reads_back Files.memory_reliable hload (by decide) (by decide +kernel) "out.yml" true).2
      fun _ => hlasting⟩

/-- A manifest with a next line in its name. -/
def nextLineName : String :=
  "\x7b\"deps_name\": \"a\\u0085b.deps\", \"file_fingerprint\": \"00000000000000000000000000000000\"\x7d"

/-- In YAML a next line is folded into a blank, so the file that is read back has another name. -/
theorem runBuild_nextLine :
    Files.memory.Reliable ∧
    ((Files.memory.loadManifest "m.json").run fun _ => some nextLineName).1 =
      .ok { depsName := "a\u0085b.deps", fileFingerprint := some .zero } ∧
    ((runBuild Files.memory "m.json" "out.yaml" false).run fun _ => some nextLineName).1.result ≠ .ok () := by
  have hload : ((Files.memory.loadManifest "m.json").run fun _ => some nextLineName).1 =
      .ok { depsName := "a\u0085b.deps", fileFingerprint := some .zero } := by decide +kernel
  refine ⟨Files.memory_reliable, hload, ?_⟩
  obtain ⟨g, hg, hkeys, hresult⟩ :=
    runBuild_result Files.memory_reliable hload (by decide) "out.yaml" false
  have hkeys : g.keys = [⟨.sourceFileProvide, .interface, "", "a\u0085b.deps"⟩] := by
    rw [hkeys]
    decide +kernel
  have hnodes : g.nodes.size < 2 ^ 64 := by
    rw [← Graph.length_keys, hkeys]
    decide
  rw [Ne, hresult, Files.graphOfBytes_iff hg hnodes, hkeys]
  intro h
  have hlasting := h (by decide +kernel) _ (List.mem_singleton.2 rfl)
  revert hlasting
  decide +kernel

end Command

end DepGraph
