import DepGraph.Proofs.Json.RoundTrip

/-!
# Deps files of later versions

A later version of the format may give members in another order and may have members that this one does
not know. `DepsFile.Spelled` says which JSON trees still give a deps file.

* `DepsFile.Spelled.read`: what is read from such a tree is the file.
* `Graph.ofJson_spelled`: a text that spells such a tree gives the graph of the file, or is rejected
  for what is wrong with the file.
-/

namespace DepGraph

open Json

/-! ## The trees of a file -/

/-- An object of four strings spells a key. -/
inductive Key.Spelled (k : Key) (tree : Tree) : Prop where
  | parts {kind aspect context name : Tree} (hkind : kind.Says k.kind.name)
    (haspect : aspect.Says k.aspect.name) (hcontext : context.Says k.context) (hname : name.Says k.name)
    (h : tree.Holds ["kind", "aspect", "context", "name"]
      [("kind", kind), ("aspect", aspect), ("context", context), ("name", name)])

inductive Header.Spelled (header : Header) (tree : Tree) : Prop where
  | parts {signature compilerVersion : Tree} (hsignature : signature.Says header.signature)
    (hcompiler : compilerVersion.Says header.compilerVersion)
    (h : tree.Holds ["signature", "major", "minor", "compiler_version"]
      [("signature", signature), ("major", .ofData (.count header.major)),
        ("minor", .ofData (.count header.minor)), ("compiler_version", compilerVersion)])

/-- A fingerprint is a string of its digits; when there is none, it is left out or null. -/
inductive FingerprintSpelled : Option Fingerprint → Option Tree → Prop where
  | omitted : FingerprintSpelled none none
  | null : FingerprintSpelled none (some .null)
  | text {f : Fingerprint} {s : String} {tree : Tree} (hs : tree.Says s)
    (hf : Fingerprint.parse s = .ok f) : FingerprintSpelled (some f) (some tree)

/-- The definitions are a list of numbers, which may be left out when it is empty. -/
inductive DefinitionsSpelled : List ℕ → Option Tree → Prop where
  | omitted : DefinitionsSpelled [] none
  | list (ds : List ℕ) : DefinitionsSpelled ds (some (.ofData (.list (ds.map .count))))

/-- The members of a record that this version knows. -/
def NodeRecord.members (r : NodeRecord) (key : Tree) (fingerprint definitions : Option Tree) :
    List (String × Option Tree) :=
  [("key", some key), ("fingerprint", fingerprint),
    ("sequence_number", some (.ofData (.count r.number))), ("defs_i_depend_upon", definitions),
    ("is_provides", some (.bool r.provides))]

inductive NodeRecord.Spelled (r : NodeRecord) (tree : Tree) : Prop where
  | parts {key : Tree} {fingerprint definitions : Option Tree} (hkey : r.key.Spelled key)
    (hfingerprint : FingerprintSpelled r.fingerprint fingerprint)
    (hdefinitions : DefinitionsSpelled r.definitions definitions)
    (h : tree.Holds ["key", "fingerprint", "sequence_number", "defs_i_depend_upon", "is_provides"]
      (Fields.present (r.members key fingerprint definitions)))

/-- **A tree spells a deps file.** At each level there may be members that the format does not know. -/
inductive DepsFile.Spelled (file : DepsFile) (tree : Tree) : Prop where
  | parts {header : Tree} {nodes : Items} (hheader : file.header.Spelled header)
    (hnodes : nodes.Each NodeRecord.Spelled file.nodes)
    (h : tree.Holds ["header", "nodes"] [("header", header), ("nodes", .array nodes)])

/-! ## Reading -/

section

variable {tree : Tree}

theorem Key.Spelled.read {k : Key} (h : k.Spelled tree) (hskip : tree.skip = .ok ()) :
    Key.read tree = pure k := by
  obtain ⟨hkind, haspect, hcontext, hname, h⟩ := h
  have hnd : ["kind", "aspect", "context", "name"].Nodup := by decide
  refine Tree.Holds.record "DependencyKey" Key.fields
    (((((), some k.kind), some k.aspect), some k.context), some k.name) h hskip hnd hnd ?_ (fun _ => rfl)
  exact ⟨⟨⟨⟨trivial, _, rfl, hkind.choice _ k.kind.ofName?_name⟩,
    _, rfl, haspect.choice _ k.aspect.ofName?_name⟩, _, rfl, hcontext.read⟩, _, rfl, hname.read⟩

theorem Header.Spelled.read {header : Header} (h : header.Spelled tree) (hskip : tree.skip = .ok ())
    (hmajor : header.major ≤ maxVersion) (hminor : header.minor ≤ maxVersion) :
    Header.read tree = pure header := by
  obtain ⟨hsignature, hcompiler, h⟩ := h
  have hnd : ["signature", "major", "minor", "compiler_version"].Nodup := by decide
  have hmax : maxVersion < 2 ^ 64 := by decide
  refine Tree.Holds.record "FormatHeader" Header.fields
    (((((), some header.signature), some header.major), some header.minor), some header.compilerVersion)
    h hskip hnd hnd ?_ (fun _ => rfl)
  exact ⟨⟨⟨⟨trivial, _, rfl, hsignature.read⟩,
    _, rfl, Tree.ofData_faithful.count _ hmajor (by omega)⟩,
    _, rfl, Tree.ofData_faithful.count _ hminor (by omega)⟩, _, rfl, hcompiler.read⟩

theorem FingerprintSpelled.slot {fingerprint : Option Fingerprint} {value : Option Tree}
    (h : FingerprintSpelled fingerprint value) {members : List (String × Tree)} {name : String}
    (hl : members.lookup name = value) :
    ∃ slot, Fields.Slot members name (DataTree.optional DataTree.fingerprint) slot ∧
      slot.or (some none) = some fingerprint := by
  cases h with
  | omitted => exact ⟨none, .of_absent hl, rfl⟩
  | null => exact ⟨some none, .of_member hl rfl, rfl⟩
  | @text f s tree hs hf =>
    have hread := hs.fingerprint hf
    obtain ⟨hs⟩ := hs
    refine ⟨some (some f), .of_member hl ?_, rfl⟩
    change (DataTree.fingerprint (Tree.text _)).map some = _
    rw [hread]
    rfl

theorem DefinitionsSpelled.slot {ds : List ℕ} {value : Option Tree} (h : DefinitionsSpelled ds value)
    (hfits : ∀ d ∈ ds, d < 2 ^ 64) {members : List (String × Tree)} {name : String}
    (hl : members.lookup name = value) :
    ∃ slot, Fields.Slot members name (DataTree.list (DataTree.count maxCount "usize")) slot ∧
      slot.or (some []) = some ds := by
  cases h with
  | omitted => exact ⟨none, .of_absent hl, rfl⟩
  | list => exact ⟨some ds, .of_member hl (read_numbers Tree.ofData_faithful hfits), rfl⟩

theorem NodeRecord.Spelled.read {r : NodeRecord} (h : r.Spelled tree) (hskip : tree.skip = .ok ())
    (hr : r.Fits) : NodeRecord.read tree = pure r := by
  obtain ⟨hkey, hfingerprint, hdefinitions, h⟩ := h
  rename_i key fingerprint definitions
  have hnd : ["key", "fingerprint", "sequence_number", "defs_i_depend_upon", "is_provides"].Nodup := by
    decide
  have hlookup := Fields.lookup_present (r.members key fingerprint definitions) hnd
  have hkey := hkey.read (h.skip hskip ("key", key) List.mem_cons_self)
  have hnumber := read_number Tree.ofData_faithful hr.number
  -- two slots may be empty, and then have a value all the same
  obtain ⟨fslot, hfslot, hf⟩ := hfingerprint.slot (hlookup "fingerprint")
  obtain ⟨dslot, hdslot, hd⟩ := hdefinitions.slot hr.definitions (hlookup "defs_i_depend_upon")
  refine Tree.Holds.record "SerializedNode" NodeRecord.fields
    ((((((), some r.key), fslot), some r.number), dslot), some r.provides) h hskip hnd
    (hnd.sublist (Fields.present_sublist _)) ?_ ?_
  · exact ⟨⟨⟨⟨⟨trivial, .of_member (hlookup "key") hkey⟩, hfslot⟩,
      .of_member (hlookup "sequence_number") hnumber⟩, hdslot⟩, .of_member (hlookup "is_provides") rfl⟩
  · intro ε missing
    simp only [NodeRecord.fields, Fields.required, Fields.defaulted, Fields.finish, hf, hd, Option.some_or]

/-- **A file is read** from every tree that spells it. -/
theorem DepsFile.Spelled.read {file : DepsFile} (h : file.Spelled tree) (hskip : tree.skip = .ok ())
    (hfits : file.Fits) : DepsFile.read tree = pure file := by
  obtain ⟨hheader, hnodes, h⟩ := h
  rename_i header nodes
  have hnd : ["header", "nodes"].Nodup := by decide
  have hheader := hheader.read (h.skip hskip ("header", header) (by simp)) hfits.major hfits.minor
  have hnodes : DataTree.list NodeRecord.read (Tree.array nodes) = pure file.nodes :=
    hnodes.readAll (h.skip hskip ("nodes", .array nodes) (by simp))
      fun r hr tree hs hskip => hs.read hskip (hfits.nodes r hr)
  exact Tree.Holds.record "SerializedGraph" DepsFile.fields (((), some file.header), some file.nodes) h
    hskip hnd hnd ⟨⟨trivial, _, rfl, hheader⟩, _, rfl, hnodes⟩ (fun _ => rfl)

end

/-- **Later versions can be read.** Whatever the order of members, the blank space, the spelling of
strings and the members that the format does not know, a text gives the graph of the file that it spells,
or is rejected as that file is. -/
theorem Graph.ofJson_spelled {file : DepsFile} {tree : Tree} {before cs after : List Char}
    (hfits : file.Fits) (hspelled : file.Spelled tree) (hwritten : Written tree cs)
    (hbefore : Blank before) (hafter : Blank after) :
    ofJson (String.ofList (before ++ cs ++ after)).toUTF8 = orFail .file file.graph := by
  have hread := readText_written DepsFile.read hbefore hwritten hafter
  rw [hspelled.read hwritten.skip hfits] at hread
  rw [ofJson, Text.glyphs_toUTF8, String.toList_ofList, hread]
  rfl

/-! ## A file of a later version -/

/-- A file of a later minor version. -/
def later : DepsFile :=
  ⟨⟨"DEPS", 1, 7, "later"⟩, [⟨⟨.topLevel, .interface, "", "é"⟩, none, 0, [], true⟩]⟩

def laterKey : Data :=
  .record [("rank", .count 3), ("name", .text "é"), ("context", .text ""), ("aspect", .text "interface"),
    ("kind", .text "topLevel")]

def laterNode : Data :=
  .record [("weight", .list [.null, .record []]), ("is_provides", .flag true),
    ("sequence_number", .count 0), ("fingerprint", .null), ("key", laterKey)]

def laterHeader : Data :=
  .record [("extra", .text ""), ("compiler_version", .text "later"), ("minor", .count 7),
    ("major", .count 1), ("signature", .text "DEPS")]

/-- A number too large for a float, and half of a surrogate pair. -/
def laterValue : Tree :=
  .array (.item (.number ⟨true, ['0'], ['5'], some (false, ['4', '0', '0'])⟩)
    (.item (.text ⟨[.unit 0xD800], none⟩) .closed))

def laterTree : Tree :=
  .object (.member (.text ⟨.unit 0x6E :: "odes".toList.map pieceOf, none⟩)
    (.ofData (.list [laterNode]))
    (.member (.text (.ofString "future")) laterValue (.ofData [("header", laterHeader)])))

def laterText : List Char :=
  ["\x7b\"\\u006eodes\":[\x7b", "\"weight\":[null,\x7b\x7d],", "\"is_provides\":true,", "\"sequence_number\":0,",
    "\"fingerprint\":null,", "\"key\":\x7b\"rank\":3,", "\"name\":\"é\",", "\"context\":\"\",",
    "\"aspect\":\"interface\",", "\"kind\":\"topLevel\"\x7d\x7d],\t", "\"future\":[-0.5E+400,",
    "\t\"\\uD800\"],\"header\":\x7b", "\"extra\":\"\",", "\"compiler_version\":\"later\",",
    "\"minor\":7,\"major\":1,", "\"signature\":\"DEPS\"\x7d\x7d"].flatMap String.toList

theorem later_fits : later.Fits where
  major := by decide
  minor := by decide
  nodes := by
    intro r hr
    rw [List.mem_singleton.1 hr]
    exact ⟨by decide, fun _ h => absurd h List.not_mem_nil⟩

theorem says_ofData (s : String) : (Tree.ofData (.text s)).Says s := .text (says_ofString s)

/-- The tree of a record that has its known members backwards and after all others. -/
theorem holds_backwards {names : List String} {known : List (String × Tree)}
    {fields : List (String × Data)} (others : List (String × Data))
    (hfields : fields.map (Prod.map id .ofData) =
      (known ++ others.map (Prod.map id Tree.ofData)).reverse)
    (hothers : ∀ e ∈ others, e.1 ∉ names) : (Tree.ofData (.record fields)).Holds names known := by
  refine .object (Members.ofData_lists fields) (hfields ▸ List.reverse_perm _) ?_
  intro e he
  obtain ⟨other, hother, rfl⟩ := List.mem_map.1 he
  exact hothers other hother

theorem laterHeader_spelled : later.header.Spelled (.ofData laterHeader) :=
  .parts (says_ofData _) (says_ofData _) (holds_backwards [("extra", .text "")] rfl (by decide))

theorem laterNode_spelled : NodeRecord.Spelled ⟨⟨.topLevel, .interface, "", "é"⟩, none, 0, [], true⟩
    (.ofData laterNode) := by
  have hkey : Key.Spelled ⟨.topLevel, .interface, "", "é"⟩ (.ofData laterKey) :=
    .parts (says_ofData _) (says_ofData _) (says_ofData _) (says_ofData _)
      (holds_backwards [("rank", .count 3)] rfl (by decide))
  exact .parts hkey .null .omitted
    (holds_backwards [("weight", .list [.null, .record []])] rfl (by decide))

theorem later_spelled : later.Spelled laterTree := by
  have hnodes : Spelling.Says ⟨.unit 0x6E :: "odes".toList.map pieceOf, none⟩ "nodes" :=
    ⟨rfl, .unit rfl (pieces_say "odes".toList)⟩
  refine .parts laterHeader_spelled (.item laterNode_spelled .closed)
    (.object (.member hnodes (.member (says_ofString "future") (Members.ofData_lists _)))
      (@List.perm_append_comm _ [_, _] [_]) ?_)
  decide

theorem laterText_written : Written laterTree laterText := by
  have htab : Blank ['\t'] := blank_singleton rfl
  have hnumber : UnsignedText ['0'] ['5'] (some (false, ['4', '0', '0'])) _ :=
    .parts ⟨⟨nofun, by simp [isDigit]⟩, fun _ => rfl⟩ (.digits ⟨nofun, by simp [isDigit]⟩)
      (.plus (.inr rfl) ⟨nofun, by simp [isDigit]⟩)
  have hhalf : PiecesText [.unit 0xD800] "\\uD800".toList := .cons (.unit rfl) .nil
  have hvalue : Written laterValue _ :=
    .array blank_nil (.more (.negative hnumber) blank_nil htab (.last (.text hhalf) blank_nil))
  have hname : PiecesText (.unit 0x6E :: "odes".toList.map pieceOf) "\\u006eodes".toList :=
    .cons (.unit rfl) (piecesText_escape "odes".toList)
  have h : Written laterTree _ := .object blank_nil (.more hname blank_nil blank_nil
    (write_written compact_blank 0 (.list [laterNode])) blank_nil htab
    (writeMembers_written compact_blank 0 "future" [("header", laterHeader)] hvalue))
  convert h using 1
  decide +kernel

theorem Graph.ofJson_spelled_later : later.Fits ∧ later.Spelled laterTree ∧
    Written laterTree laterText ∧ Blank [' '] ∧ Blank ['\n'] ∧
    ofJson (String.ofList ([' '] ++ laterText ++ ['\n'])).toUTF8 = orFail .file later.graph := by
  have hbefore : Blank [' '] := blank_singleton rfl
  have hafter : Blank ['\n'] := blank_singleton rfl
  exact ⟨later_fits, later_spelled, laterText_written, hbefore, hafter,
    ofJson_spelled later_fits later_spelled laterText_written hbefore hafter⟩

end DepGraph
