import DepGraph.Files.Disk
import DepGraph.Proofs.Command.Build
import DepGraph.Proofs.CommandLine.Commands

/-!
# Rejected input leaves no trace

The commands read all their input before they create any output. So a command whose input is turned away
changes nothing, wherever its output was to go, and the commands that only look at files never do
(`Request.run_untouched`). The ways in which input can be bad are listed for each kind of file: `BadManifest`,
`BadYaml`, `BadDeps`. Which argument is the input of a command is told by `Request.parse_command_iff`.
-/

namespace DepGraph

variable {σ : Type} {files : Files (StateM σ)} {s : σ} {path : String} {found : Except IoError Entry}

namespace Files

/-! ## What makes input bad -/

/-- A file system on which looking at a file changes nothing. -/
structure Steady (files : Files (StateM σ)) : Prop where
  lookup : ∀ path s, ((files.lookup path).run s).2 = s

/-- What a path leads to. -/
def look (files : Files (StateM σ)) (s : σ) (path : String) : Except IoError Entry :=
  ((files.lookup path).run s).1

/-- There is no text: nothing that can be read, a directory, or bytes that are not UTF-8. -/
inductive NoText : Except IoError Entry → Prop
  | unreadable (e : IoError) : NoText (.error e)
  | directory : NoText (.ok .directory)
  | notUtf8 {bytes : ByteArray} (h : String.fromUTF8? bytes = none) : NoText (.ok (.file bytes))

/-- A manifest that is turned away. -/
inductive BadManifest : Except IoError Entry → Prop
  | noText {found : Except IoError Entry} (h : NoText found) : BadManifest found
  /-- It is not JSON, or not of the right shape. -/
  | malformed {bytes : ByteArray} {text : String} {fault : Json.Fault}
      (htext : String.fromUTF8? bytes = some text)
      (h : Json.readText Manifest.read (text.toList.map some) = .error fault) :
      BadManifest (.ok (.file bytes))
  | unnamed {bytes : ByteArray} {text : String} {m : Manifest}
      (htext : String.fromUTF8? bytes = some text)
      (h : Json.readText Manifest.read (text.toList.map some) = .ok m) (hname : m.depsName = "") :
      BadManifest (.ok (.file bytes))

/-- A deps file in YAML that is turned away. -/
inductive BadYaml : Except IoError Entry → Prop
  | noText {found : Except IoError Entry} (h : NoText found) : BadYaml found
  /-- It is not YAML, or not of the right shape. -/
  | malformed {bytes : ByteArray} {text : String} {fault : Yaml.Fault}
      (htext : String.fromUTF8? bytes = some text) (h : Yaml.readText DepsFile.read text = .error fault) :
      BadYaml (.ok (.file bytes))
  /-- It holds no graph. -/
  | refused {bytes : ByteArray} {text : String} {file : DepsFile} {problem : DepsFile.Problem}
      (htext : String.fromUTF8? bytes = some text) (h : Yaml.readText DepsFile.read text = .ok file)
      (hfile : file.graph = .error problem) : BadYaml (.ok (.file bytes))

/-- A deps file that is turned away. Its path tells its notation. -/
inductive BadDeps (path : String) : Except IoError Entry → Prop
  | unreadable (e : IoError) : BadDeps path (.error e)
  | directory : BadDeps path (.ok .directory)
  | empty : BadDeps path (.ok (.file .empty))
  | yaml {found : Except IoError Entry} (hyaml : IsYaml path) (h : BadYaml found) : BadDeps path found
  /-- It is not JSON, or not of the right shape. -/
  | malformed {bytes : ByteArray} {fault : Json.Fault} (hyaml : ¬ IsYaml path)
      (h : Json.readText DepsFile.read (Text.glyphs bytes) = .error fault) : BadDeps path (.ok (.file bytes))
  /-- It holds no graph. -/
  | refused {bytes : ByteArray} {file : DepsFile} {problem : DepsFile.Problem} (hyaml : ¬ IsYaml path)
      (h : Json.readText DepsFile.read (Text.glyphs bytes) = .ok file) (hfile : file.graph = .error problem) :
      BadDeps path (.ok (.file bytes))

/-! ## Loading -/

theorem lookup_run (hfiles : files.Steady) (path : String) (s : σ) :
    (files.lookup path).run s = (files.look s path, s) := Prod.ext rfl (hfiles.lookup path s)

theorem ofBytes_cases (bytes : ByteArray) :
    (∃ text, String.fromUTF8? bytes = some text ∧ Text.ofBytes bytes = .ok text) ∨
      ∃ e, Text.ofBytes bytes = .error e := by
  unfold Text.ofBytes
  cases String.fromUTF8? bytes with
  | none => exact Or.inr ⟨_, rfl⟩
  | some text => exact Or.inl ⟨text, rfl, rfl⟩

/-- Reading a text changes nothing, and gives what is in the file. -/
theorem readText_run (hfiles : files.Steady) (path : String) (s : σ) :
    ∃ r, (files.readText path).run s = (r, s) ∧ ∀ text, r = .ok text →
      ∃ bytes, files.look s path = .ok (.file bytes) ∧ String.fromUTF8? bytes = some text := by
  unfold readText
  rw [run_bind_of_run (lookup_run hfiles path s)]
  cases files.look s path with
  | error e => exact ⟨.error e, rfl, fun text h => by cases h⟩
  | ok entry =>
    cases entry with
    | directory => exact ⟨.error .isDirectory, rfl, fun text h => by cases h⟩
    | file bytes =>
      rcases ofBytes_cases bytes with ⟨text, htext, hbytes⟩ | ⟨e, hbytes⟩
      · refine ⟨.ok text, by simp only [hbytes]; rfl, ?_⟩
        intro text' h
        cases h
        exact ⟨bytes, rfl, htext⟩
      · exact ⟨.error .notText, by simp only [hbytes]; rfl, fun text h => by cases h⟩

theorem BadManifest.of_text {bytes : ByteArray} {text : String} (h : BadManifest (.ok (.file bytes)))
    (htext : String.fromUTF8? bytes = some text) :
    (∃ fault, Json.readText Manifest.read (text.toList.map some) = .error fault) ∨
      ∃ m, Json.readText Manifest.read (text.toList.map some) = .ok m ∧ m.depsName = "" := by
  cases h with
  | noText h =>
    cases h with
    | notUtf8 h => rw [htext] at h; cases h
  | malformed htext' h =>
    rw [htext] at htext'
    cases htext'
    exact Or.inl ⟨_, h⟩
  | unnamed htext' h hname =>
    rw [htext] at htext'
    cases htext'
    exact Or.inr ⟨_, h, hname⟩

theorem BadYaml.of_text {bytes : ByteArray} {text : String} (h : BadYaml (.ok (.file bytes)))
    (htext : String.fromUTF8? bytes = some text) : ∃ failure, Graph.ofYaml text = .error failure := by
  unfold Graph.ofYaml
  cases h with
  | noText h =>
    cases h with
    | notUtf8 h => rw [htext] at h; cases h
  | malformed htext' h =>
    rw [htext] at htext'
    cases htext'
    rw [h]
    exact ⟨_, rfl⟩
  | refused htext' h hfile =>
    rw [htext] at htext'
    cases htext'
    rw [h]
    exact ⟨_, congrArg (orFail .file) hfile⟩

/-- What is bad is turned away. -/
theorem graphOfBytes_error {bytes : ByteArray} (h : BadDeps path (.ok (.file bytes)))
    (hempty : bytes.isEmpty = false) : ∃ failure, graphOfBytes path bytes = .error failure := by
  cases h with
  | empty => cases hempty
  | yaml hyaml h =>
    have hgraph : graphOfBytes path bytes = (within s!"YAML deps file is not UTF-8: {path}"
        (orFail .utf8 (Text.ofBytes bytes)) >>= fun text =>
          within s!"Failed to load deps file: {path}" (Graph.ofYaml text)) := if_pos hyaml
    rw [hgraph]
    rcases ofBytes_cases bytes with ⟨text, htext, hbytes⟩ | ⟨e, hbytes⟩
    · obtain ⟨failure, hfailure⟩ := h.of_text htext
      rw [hbytes]
      exact ⟨_, congrArg (within _) hfailure⟩
    · rw [hbytes]
      exact ⟨_, rfl⟩
  | malformed hyaml h =>
    rw [graphOfBytes_json hyaml, Graph.ofJson, h]
    exact ⟨_, rfl⟩
  | refused hyaml h hfile =>
    rw [graphOfBytes_json hyaml, Graph.ofJson, h]
    exact ⟨_, congrArg (fun r => within _ (orFail .file r)) hfile⟩

/-- Loading a deps file changes nothing, and fails if the file is bad. -/
theorem loadGraph_run (hfiles : files.Steady) (path : String) (s : σ) :
    ∃ r, (files.loadGraph path).run s = (r, s) ∧
      (BadDeps path (files.look s path) → ∃ failure, r = .error failure) := by
  unfold loadGraph
  rw [run_bind_of_run (lookup_run hfiles path s)]
  cases files.look s path with
  | error e => exact ⟨_, rfl, fun _ => ⟨_, rfl⟩⟩
  | ok entry =>
    cases entry with
    | directory => exact ⟨_, rfl, fun _ => ⟨_, rfl⟩⟩
    | file bytes =>
      simp only
      cases hempty : bytes.isEmpty with
      | true => exact ⟨_, rfl, fun _ => ⟨_, rfl⟩⟩
      | false => exact ⟨_, rfl, fun h => graphOfBytes_error h hempty⟩

/-- Loading a manifest changes nothing, and one that is bad can only be loaded if it lacks a name. -/
theorem loadManifest_run (hfiles : files.Steady) (path : String) (s : σ) :
    ∃ r, (files.loadManifest path).run s = (r, s) ∧
      (BadManifest (files.look s path) → ∀ m, r = .ok m → m.depsName = "") := by
  obtain ⟨r, hread, htext⟩ := readText_run hfiles path s
  unfold loadManifest
  rw [run_bind_of_run hread]
  cases r with
  | error e => exact ⟨_, rfl, fun _ m hm => by cases hm⟩
  | ok text =>
    refine ⟨_, rfl, fun h m hm => ?_⟩
    obtain ⟨bytes, hlook, hbytes⟩ := htext text rfl
    rw [hlook] at h
    rw [within_eq_ok, orFail_eq_ok] at hm
    rcases h.of_text hbytes with ⟨fault, hfault⟩ | ⟨m', hm', hname⟩
    · rw [hfault] at hm
      cases hm
    · rw [hm'] at hm
      cases hm
      exact hname

end Files

/-! ## Commands -/

namespace Command

open Files

/-- Whether the input of a command is bad, by what paths lead to. -/
def BadInput (look : String → Except IoError Entry) : Command → Prop
  | .build manifest _ _ => BadManifest (look manifest)
  | .toYaml input _ => BadDeps input (look input)
  | .fromYaml input _ => BadYaml (look input)
  | .dump deps => BadDeps deps (look deps)
  | .dot deps _ _ => BadDeps deps (look deps)
  | .verify deps => BadDeps deps (look deps)
  | .diff old new _ => BadDeps old (look old) ∨ BadDeps new (look new)

/-- Whether a command only looks at files. -/
def Inspects : Command → Prop
  | .dump _ | .verify _ | .diff _ _ _ => True
  | .build _ _ _ | .toYaml _ _ | .fromYaml _ _ | .dot _ _ _ => False

/-- What begins by loading a deps file ends there if the file is bad. -/
theorem loadGraph_rejected (hfiles : files.Steady) (h : BadDeps path (files.look s path))
    {next : Except Failure Graph → StateM σ Report}
    (hnext : ∀ failure, next (.error failure) = pure (failed failure)) :
    ∃ failure, (files.loadGraph path >>= next).run s = (failed failure, s) := by
  obtain ⟨r, hload, hbad⟩ := loadGraph_run hfiles path s
  obtain ⟨failure, rfl⟩ := hbad h
  rw [run_bind_of_run hload, hnext]
  exact ⟨failure, rfl⟩

theorem runBuild_rejected (hfiles : files.Steady) {manifest : String}
    (h : BadManifest (files.look s manifest)) (output : String) (emitDot : Bool) :
    ∃ failure, (runBuild files manifest output emitDot).run s = (failed failure, s) := by
  obtain ⟨r, hload, hbad⟩ := loadManifest_run hfiles manifest s
  rw [runBuild, run_bind_of_run hload]
  cases r with
  | error failure => exact ⟨failure, rfl⟩
  | ok m =>
    have hoptions : m.options? = none := if_pos (hbad h m rfl)
    simp only [hoptions]
    exact ⟨_, rfl⟩

theorem runFromYaml_rejected (hfiles : files.Steady) {input : String} (h : BadYaml (files.look s input))
    (output : String) : ∃ failure, (runFromYaml files input output).run s = (failed failure, s) := by
  obtain ⟨r, hread, htext⟩ := readText_run hfiles input s
  rw [runFromYaml, run_bind_of_run hread]
  cases r with
  | error e => exact ⟨_, rfl⟩
  | ok text =>
    obtain ⟨bytes, hlook, hbytes⟩ := htext text rfl
    rw [hlook] at h
    obtain ⟨failure, hfailure⟩ := h.of_text hbytes
    simp only [hfailure]
    exact ⟨failure, rfl⟩

theorem runDiff_rejected (hfiles : files.Steady) {old new : String}
    (h : BadDeps old (files.look s old) ∨ BadDeps new (files.look s new)) (check : Bool) :
    ∃ failure, (runDiff files old new check).run s = (failed failure, s) := by
  obtain ⟨r, hload, hbad⟩ := loadGraph_run hfiles old s
  rw [runDiff, run_bind_of_run hload]
  cases r with
  | error failure => exact ⟨failure, rfl⟩
  | ok before =>
    have hnew : BadDeps new (files.look s new) := by
      refine h.resolve_left fun hold => ?_
      obtain ⟨failure, hfailure⟩ := hbad hold
      cases hfailure
    exact loadGraph_rejected hfiles hnew fun _ => rfl

/-- **Bad input is turned away before anything is created.** -/
theorem run_rejected (hfiles : files.Steady) {c : Command} (h : c.BadInput (files.look s)) :
    ∃ failure, (c.run files).run s = (failed failure, s) := by
  cases c with
  | build manifest output emitDot => exact runBuild_rejected hfiles h output emitDot
  | toYaml input output => exact loadGraph_rejected hfiles h fun _ => rfl
  | fromYaml input output => exact runFromYaml_rejected hfiles h output
  | dump deps => exact loadGraph_rejected hfiles h fun _ => rfl
  | dot deps output options => exact loadGraph_rejected hfiles h fun _ => rfl
  | verify deps => exact loadGraph_rejected hfiles h fun _ => rfl
  | diff old new check => exact runDiff_rejected hfiles h check

/-- What begins by loading a deps file leaves no trace if the rest leaves none. -/
theorem loadGraph_keeps (hfiles : files.Steady) {next : Except Failure Graph → StateM σ Report}
    (hnext : ∀ r, ((next r).run s).2 = s) : ((files.loadGraph path >>= next).run s).2 = s := by
  obtain ⟨r, hload, -⟩ := loadGraph_run hfiles path s
  rw [run_bind_of_run hload, hnext]

/-- **A command that only looks at files changes nothing.** -/
theorem run_inspects (hfiles : files.Steady) {c : Command} (h : c.Inspects) (s : σ) :
    ((c.run files).run s).2 = s := by
  cases c with
  | build manifest output emitDot => cases h
  | toYaml input output => cases h
  | fromYaml input output => cases h
  | dot deps output options => cases h
  | dump deps =>
    refine loadGraph_keeps hfiles fun r => ?_
    cases r <;> rfl
  | verify deps =>
    refine loadGraph_keeps hfiles fun r => ?_
    cases r with
    | error failure => rfl
    | ok g =>
      simp only
      cases within s!"{deps} is not a valid dependency graph" (orFail .flaw g.verify) <;> rfl
  | diff old new check =>
    refine loadGraph_keeps hfiles fun r => ?_
    cases r with
    | error failure => rfl
    | ok before =>
      refine loadGraph_keeps hfiles fun r => ?_
      cases r <;> rfl

end Command

namespace Request

/-- **Rejected input leaves no trace**, wherever the output was to go: the tool ends with exit code 1, it has
printed no output, and the file system is as it was. Commands that only look at files never leave one. -/
theorem run_untouched (hfiles : files.Steady) {arguments : List String} {c : Command}
    (hparse : parse arguments = some (.command c)) (s : σ) :
    (c.BadInput (files.look s) → ∃ remarks, (run files arguments).run s = (⟨1, "", remarks⟩, s)) ∧
      (c.Inspects → ((run files arguments).run s).2 = s) := by
  have hrun : run files arguments = (c.run files >>= fun report => pure report.outcome) := by
    rw [run, hparse]
  rw [hrun]
  constructor
  · intro h
    obtain ⟨failure, hfailure⟩ := Command.run_rejected hfiles h
    rw [run_bind_of_run hfailure]
    exact ⟨_, rfl⟩
  · intro h
    have hkept : (c.run files).run s = (((c.run files).run s).1, s) :=
      Prod.ext rfl (Command.run_inspects hfiles h s)
    rw [run_bind_of_run hkept]
    rfl

end Request

theorem Disk.files_steady : Disk.files.Steady := ⟨fun _ _ => rfl⟩

namespace Request

/-- A manifest without a name. -/
def namelessText : String := "\x7b\"deps_name\": \"\"\x7d"

/-- A disk that holds it, and another file. -/
def namelessDisk : Disk where
  entries := [(["m.json"], .file namelessText.toUTF8), (["out.deps"], .file "kept".toUTF8)]

/-- A build that would write over its own manifest. -/
def overwriting : List String := ["build", "m.json", "--emit-dot", "-om.json"]

/-- A build that would write over the other file. -/
def replacing : List String := ["build", "m.json", "-o", "out.deps"]

theorem run_untouched_overwriting : Disk.files.Steady ∧
    parse overwriting = some (.command (.build "m.json" "m.json" true)) ∧
    parse replacing = some (.command (.build "m.json" "out.deps" false)) ∧
    (Command.build "m.json" "m.json" true).BadInput (Disk.files.look namelessDisk) ∧
    (Command.build "m.json" "out.deps" false).BadInput (Disk.files.look namelessDisk) ∧
    (∃ remarks, (run Disk.files overwriting).run namelessDisk = (⟨1, "", remarks⟩, namelessDisk)) ∧
    ∃ remarks, (run Disk.files replacing).run namelessDisk = (⟨1, "", remarks⟩, namelessDisk) := by
  have hparse : parse overwriting = some (.command (.build "m.json" "m.json" true)) := rfl
  have hparse' : parse replacing = some (.command (.build "m.json" "out.deps" false)) :=
    (parse_writers ⟨Or.inr (by decide), by decide⟩ ⟨Or.inr (by decide), by decide⟩).1
  have hlook : Disk.files.look namelessDisk "m.json" = .ok (.file namelessText.toUTF8) := by decide +kernel
  have hread : Json.readText Manifest.read (namelessText.toList.map some) = .ok { depsName := "" } := by
    decide +kernel
  have hbad : Files.BadManifest (Disk.files.look namelessDisk "m.json") := by
    rw [hlook]
    exact .unnamed (Text.fromUTF8?_toUTF8 namelessText) hread rfl
  exact ⟨Disk.files_steady, hparse, hparse', hbad, hbad,
    (run_untouched Disk.files_steady hparse namelessDisk).1 hbad,
    (run_untouched Disk.files_steady hparse' namelessDisk).1 hbad⟩

end Request

end DepGraph
