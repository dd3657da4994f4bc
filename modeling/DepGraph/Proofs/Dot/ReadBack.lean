import DepGraph.Proofs.Dot.Reading
import DepGraph.Proofs.Graph.Run

/-!
# Renderings read back

* `Graph.read_dot`: what the reader finds in the rendering of any graph. No text in a key can end its quotes,
  so none can be taken for a statement.
* `Graph.dot_reads_back`: hence the rendering of a graph shows just the nodes that it is to show and the arcs
  between them (`Depicts`), each node with its label, its shape and its style (`Draws`).
* `Graph.dot_label_displays`: what a label displays. The line break before a fingerprint is written as an
  escape and then escaped once more, so that a backslash and an `n` are displayed in its place.
-/

namespace DepGraph

namespace Dot

/-! ## How nodes are drawn -/

/-- The shape that a kind of node is drawn in. -/
def outline : Kind → String
  | .topLevel => "ellipse"
  | .nominal => "box"
  | .potentialMember => "diamond"
  | .member => "parallelogram"
  | .dynamicLookup => "hexagon"
  | .externalDepend => "folder"
  | .sourceFileProvide => "note"

/-- What people call an entity. Files go by their last component. -/
def entityName (key : Key) : String :=
  match key.kind with
  | .topLevel | .dynamicLookup => key.name
  | .nominal => key.context
  | .potentialMember => key.context ++ ".*"
  | .member => key.context ++ "." ++ key.name
  | .externalDepend | .sourceFileProvide => (Path.fileName? key.name).getD key.name

/-- The aspect of a node and the name of its entity. -/
def caption (node : Node) : List Char :=
  (if node.key.aspect = .interface then "interface " else "implementation ").toList ++
    (entityName node.key).toList

/-- The text of a label: a caption, and a fingerprint behind a backslash and an `n`. -/
def labelText (node : Node) : List Char :=
  caption node ++ node.fingerprint.elim [] fun f => '\\' :: 'n' :: f.text.toList

/-- The statement that draws a node, with a text for its label. The shape tells the kind, and what the file
provides is drawn with a solid line. -/
def nodeStatement (node : Node) (text : List Char) : Statement :=
  .node node.number [("label".toList, .quoted text), ("shape".toList, .word (outline node.key.kind).toList),
    ("style".toList, .word (if node.provides = true then "solid" else "dotted").toList)]

/-- **A statement draws a node**: its number, a text that stands for its label, and the shape and the style
that go with it. -/
def Draws (s : Statement) (node : Node) : Prop :=
  ∃ text, s = nodeStatement node text ∧ unescape text = some (labelText node)

theorem shape_eq (kind : Kind) : shape kind = outline kind := by cases kind <;> rfl

theorem readable_eq (key : Key) : key.readable = entityName key := by
  unfold Key.readable entityName
  cases key.kind <;> rfl

theorem label_eq (node : Node) : (label node).toList = labelText node := by
  have hbase : (node.key.aspect.name ++ " " ++ node.key.readable).toList = caption node := by
    rw [readable_eq, String.toList_append, String.toList_append, caption]
    cases node.key.aspect <;> rfl
  unfold label labelText
  cases node.fingerprint with
  | none => exact hbase.trans (List.append_nil _).symm
  | some f =>
    have hbreak : "\\n".toList = ['\\', 'n'] := rfl
    simp only [String.toList_append, hbreak, Option.elim_some, List.append_assoc] at hbase ⊢
    rw [← hbase]
    simp

/-! ## Lines -/

theorem scan_shape (kind : Kind) : scan .between (shape kind).toList = ([], .inWord (shape kind).toList) := by
  cases kind <;> exact scan_word (by decide) (by decide)

theorem scan_style (node : Node) : scan .between (style node).toList = ([], .inWord (style node).toList) := by
  unfold style
  cases node.provides <;> exact scan_word (by decide) (by decide)

/-- The pieces of the statement of a node, but for its semicolon. -/
def nodeTokens (node : Node) : List Token :=
  [.word (Nat.toDigits 10 node.number), .mark '[', .word "label".toList, .mark '=',
    .quoted (escape (label node).toList), .mark ',', .word "shape".toList, .mark '=',
    .word (shape node.key.kind).toList, .mark ',', .word "style".toList, .mark '=',
    .word (style node).toList, .mark ']']

/-- The pieces of the statement of an arc, but for its semicolon. -/
def arcTokens (arc : Arc) : List Token :=
  [.word (Nat.toDigits 10 arc.definition), .word "->".toList, .word (Nat.toDigits 10 arc.use)]

theorem scan_nodeLine (node : Node) :
    scan .between (nodeLine node) = (nodeTokens node ++ [.mark ';'], .between) := by
  have hindent : scan .between "  ".toList = ([], .between) := rfl
  have hlabel : ∀ w, scan (.inWord w) " [label=\"".toList =
      ([.word w, .mark '[', .word "label".toList, .mark '='], .inQuotes []) := fun w => rfl
  have hshape : scan .between ", shape=".toList =
      ([.mark ',', .word "shape".toList, .mark '='], .between) := rfl
  have hstyle : ∀ w, scan (.inWord w) ", style=".toList =
      ([.word w, .mark ',', .word "style".toList, .mark '='], .between) := fun w => rfl
  have hend : ∀ w, scan (.inWord w) "];\n".toList =
      ([.word w, .mark ']', .mark ';'], .between) := fun w => rfl
  have hline : nodeLine node = "  ".toList ++ (Nat.toDigits 10 node.number ++ (" [label=\"".toList ++
      (escape (label node).toList ++ '"' :: (", shape=".toList ++ ((shape node.key.kind).toList ++
        (", style=".toList ++ ((style node).toList ++ "];\n".toList))))))) := by
    simp [nodeLine]
  have hscan := scan_append hindent <| scan_append (scan_number node.number) <| scan_append (hlabel _) <|
    scan_quoted (label node).toList <| scan_append hshape <| scan_append (scan_shape node.key.kind) <|
    scan_append (hstyle _) <| scan_append (scan_style node) (hend _)
  rw [hline, hscan]
  rfl

theorem scan_arcLine (arc : Arc) :
    scan .between (arcLine arc) = (arcTokens arc ++ [.mark ';'], .between) := by
  have hindent : scan .between "  ".toList = ([], .between) := rfl
  have harrow : ∀ w, scan (.inWord w) " -> ".toList =
      ([.word w, .word "->".toList], .between) := fun w => rfl
  have hend : ∀ w, scan (.inWord w) ";\n".toList = ([.word w, .mark ';'], .between) := fun w => rfl
  have hline : arcLine arc = "  ".toList ++ (Nat.toDigits 10 arc.definition ++ (" -> ".toList ++
      (Nat.toDigits 10 arc.use ++ ";\n".toList))) := by
    simp [arcLine]
  have hscan := scan_append hindent <| scan_append (scan_number arc.definition) <| scan_append (harrow _) <|
    scan_append (scan_number arc.use) (hend _)
  rw [hline, hscan]
  rfl

/-! ## Statements -/

theorem inner_nodeTokens (node : Node) : ∀ token ∈ nodeTokens node, token.Inner := by
  simp [nodeTokens, Token.Inner]

theorem inner_arcTokens (arc : Arc) : ∀ token ∈ arcTokens arc, token.Inner := by
  simp [arcTokens, Token.Inner]

theorem number?_digits (n : ℕ) : Text.number? 10 (Nat.toDigits 10 n) = some n :=
  Text.number?_toDigits (by decide) (by decide) n

theorem statement_nodeTokens (node : Node) :
    statement (nodeTokens node) = some (nodeStatement node (escape (label node).toList)) := by
  rw [nodeTokens, statement, number?_digits, nodeStatement, ← shape_eq]
  rfl

theorem statement_arcTokens (arc : Arc) : statement (arcTokens arc) = some (.arc arc) := by
  rw [arcTokens, statement, number?_digits, number?_digits]
  rfl

theorem unescape_escape (text : List Char) : unescape (escape text) = some text := decode_escape rfl rfl text

end Dot

/-- Whether a rendering is to show a node. -/
def DotOptions.Shown (o : DotOptions) (node : Node) : Prop :=
  (o.externals = true ∨ node.key.kind ≠ .externalDepend) ∧
    (o.implementations = true ∨ node.key.aspect = .interface)

/-- The order of arcs in a rendering: by definition, then by use. -/
def Arc.Precedes (a b : Arc) : Prop :=
  a.definition < b.definition ∨ a.definition = b.definition ∧ a.use < b.use

namespace Graph

variable {g : Graph} {o : DotOptions}

/-- Whether a rendering is to show the node of a number. -/
def ShownAt (g : Graph) (o : DotOptions) (i : ℕ) : Prop := ∃ node, g.get? i = some node ∧ o.Shown node

/-- The pieces of a rendering. -/
theorem scan_dotChars (g : Graph) (o : DotOptions) : Dot.scan .between (g.dotChars o) =
    (.word "digraph".toList :: .quoted (Dot.escape g.dotTitle.toList) :: .mark '\x7b' ::
      ((g.nodes.toList.filter o.shows).flatMap (fun node => Dot.nodeTokens node ++ [.mark ';']) ++
        ((g.dotArcs o).flatMap (fun arc => Dot.arcTokens arc ++ [.mark ';']) ++ [.mark '\x7d'])),
      .between) := by
  have hhead : Dot.scan .between "digraph \"".toList = ([.word "digraph".toList], .inQuotes []) := by decide
  have hbrace : Dot.scan .between " \x7b\n".toList = ([.mark '\x7b'], .between) := rfl
  have hend : Dot.scan .between "\x7d\n".toList = ([.mark '\x7d'], .between) := rfl
  have htext : g.dotChars o = "digraph \"".toList ++ (Dot.escape g.dotTitle.toList ++
      '"' :: (" \x7b\n".toList ++ ((g.nodes.toList.filter o.shows).flatMap Dot.nodeLine ++
        ((g.dotArcs o).flatMap Dot.arcLine ++ "\x7d\n".toList)))) := by
    have hquote : "\" \x7b\n".toList = '"' :: " \x7b\n".toList := rfl
    unfold dotChars
    simp only [List.append_assoc]
    rw [hquote, List.cons_append]
  have hscan := Dot.scan_append hhead <| Dot.scan_quoted g.dotTitle.toList <| Dot.scan_append hbrace <|
    Dot.scan_append (Dot.scan_flatMap Dot.scan_nodeLine (g.nodes.toList.filter o.shows)) <|
    Dot.scan_append (Dot.scan_flatMap Dot.scan_arcLine (g.dotArcs o)) hend
  rw [htext, hscan]
  rfl

/-- **What a rendering says.** -/
theorem read_dot (g : Graph) (o : DotOptions) : Dot.read (g.dot o) = some {
    title := Dot.escape g.dotTitle.toList
    statements := (g.nodes.toList.filter o.shows).map
      (fun node => Dot.nodeStatement node (Dot.escape (Dot.label node).toList)) ++
        (g.dotArcs o).map .arc } := by
  have hend : Dot.statements [] [.mark '\x7d'] = some [] := rfl
  have harcs := Dot.statements_flatMap Dot.inner_arcTokens Dot.statement_arcTokens (g.dotArcs o) hend
  have hnodes := Dot.statements_flatMap Dot.inner_nodeTokens Dot.statement_nodeTokens
    (g.nodes.toList.filter o.shows) harcs
  rw [Dot.read, dot, String.toList_ofList, scan_dotChars, if_pos rfl]
  simp only [Dot.drawing, hnodes, List.append_nil]
  rfl

/-! ## Which nodes and arcs -/

theorem shows_iff {o : DotOptions} {node : Node} : o.shows node = true ↔ o.Shown node := by
  simp [DotOptions.shows, DotOptions.Shown, Key.isInterface]

theorem shownAt_iff {i : ℕ} : g.shownAt o i = true ↔ g.ShownAt o i := by
  unfold shownAt ShownAt get?
  cases g.nodes[i]? with
  | none => simp
  | some node => simp [shows_iff]

/-- Nodes stand in the order of their numbers. -/
theorem OK.nodes_ascending (hg : g.OK) : g.nodes.toList.Pairwise (·.number < ·.number) := by
  rw [List.pairwise_iff_getElem]
  intro i j hi hj hij
  have hnumber : ∀ k (hk : k < g.nodes.toList.length), g.nodes.toList[k].number = k := by
    intro k hk
    exact hg.number k _ (by simp)
  rw [hnumber i hi, hnumber j hj]
  exact hij

theorem mem_dotArcs {arc : Arc} : arc ∈ g.dotArcs o ↔
    arc ∈ g.arcs ∧ g.ShownAt o arc.definition ∧ g.ShownAt o arc.use := by
  rw [dotArcs, List.mem_mergeSort, List.mem_filter, Array.mem_toList_iff, Bool.and_eq_true, shownAt_iff,
    shownAt_iff]

theorem compare_isLE_iff {a b : Arc} :
    (compareLex (compareOn Arc.definition) (compareOn Arc.use) a b).isLE = true ↔
      a.definition < b.definition ∨ a.definition = b.definition ∧ a.use ≤ b.use := by
  have hcases : compareLex (compareOn Arc.definition) (compareOn Arc.use) a b =
      (compare a.definition b.definition).then (compare a.use b.use) := rfl
  rw [hcases, Ordering.isLE_then_iff_or, Nat.compare_eq_lt, Nat.compare_eq_eq, Nat.isLE_compare]

/-- The arcs of a rendering ascend, each of them once. -/
theorem OK.dotArcs_ascending (hg : g.OK) (o : DotOptions) : (g.dotArcs o).Pairwise Arc.Precedes := by
  have hsorted : (g.dotArcs o).Pairwise fun a b =>
      (compareLex (compareOn Arc.definition) (compareOn Arc.use) a b).isLE = true := by
    refine List.pairwise_mergeSort ?_ ?_ _
    · intro a b c hab hbc
      rw [compare_isLE_iff] at hab hbc ⊢
      omega
    · intro a b
      rw [Bool.or_eq_true, compare_isLE_iff, compare_isLE_iff]
      omega
  have hnodup : (g.dotArcs o).Nodup :=
    (List.mergeSort_perm _ _).nodup_iff.2 (hg.arcs_nodup.filter _)
  refine (hsorted.and hnodup).imp ?_
  rintro ⟨d, u⟩ ⟨d', u'⟩ ⟨hle, hne⟩
  rcases compare_isLE_iff.1 hle with hlt | ⟨rfl, hu⟩
  · exact Or.inl hlt
  · exact Or.inr ⟨rfl, Nat.lt_of_le_of_ne hu fun heq => hne (congrArg (Arc.mk d) heq)⟩

/-! ## The rendering as a whole -/

/-- The title of a rendering: the deps file that the first node stands for, if it stands for one. -/
inductive Titled (g : Graph) : String → Prop
  | file {node : Node} (h : g.nodes[0]? = some node) (hkind : node.key.kind = .sourceFileProvide) :
      Titled g node.key.name
  | other (h : ∀ node, g.nodes[0]? = some node → node.key.kind ≠ .sourceFileProvide) :
      Titled g "dependencies"

theorem titled_dotTitle (g : Graph) : g.Titled g.dotTitle := by
  unfold dotTitle depsName?
  cases hfirst : g.nodes[0]? with
  | none => exact .other fun node hnode => by rw [hfirst] at hnode; cases hnode
  | some node =>
    simp only [Key.depsName?]
    by_cases hkind : node.key.kind = .sourceFileProvide
    · rw [if_pos hkind]
      exact .file hfirst hkind
    · rw [if_neg hkind]
      refine .other fun node' hnode => ?_
      rw [hfirst] at hnode
      cases hnode
      exact hkind

/-- **A drawing shows a graph.** After the title come the statements of the nodes that are to be shown, by
number, and then the arcs between them; there is nothing else. -/
structure Depicts (g : Graph) (o : DotOptions) (drawing : Dot.Drawing) (nodes : List Node)
    (arcs : List Arc) : Prop where
  title : ∃ title, Dot.unescape drawing.title = some title.toList ∧ g.Titled title
  statements : ∃ drawn, drawing.statements = drawn ++ arcs.map .arc ∧ List.Forall₂ Dot.Draws drawn nodes
  nodes_ascending : nodes.Pairwise (·.number < ·.number)
  mem_nodes : ∀ node, node ∈ nodes ↔ node ∈ g.nodes ∧ o.Shown node
  arcs_ascending : arcs.Pairwise Arc.Precedes
  mem_arcs : ∀ arc, arc ∈ arcs ↔ arc ∈ g.arcs ∧ g.ShownAt o arc.definition ∧ g.ShownAt o arc.use

/-- **A rendering can be read back**, whatever texts the keys of the graph hold. -/
theorem dot_reads_back (hg : Reachable g) (o : DotOptions) :
    ∃ drawing nodes arcs, Dot.read (g.dot o) = some drawing ∧ g.Depicts o drawing nodes arcs := by
  refine ⟨_, g.nodes.toList.filter o.shows, g.dotArcs o, read_dot g o, ?_⟩
  refine ⟨⟨g.dotTitle, Dot.unescape_escape _, g.titled_dotTitle⟩, ⟨_, rfl, ?_⟩, ?_, ?_,
    hg.ok.dotArcs_ascending o, fun arc => mem_dotArcs⟩
  · rw [List.forall₂_map_left_iff, List.forall₂_same]
    intro node _
    exact ⟨_, rfl, by rw [Dot.unescape_escape, Dot.label_eq]⟩
  · exact hg.ok.nodes_ascending.sublist List.filter_sublist
  · intro node
    rw [List.mem_filter, Array.mem_toList_iff, shows_iff]

/-- Calls with keys that look like statements, quotes and escapes. -/
def hostile : List Call :=
  [.upsert (Key.sourceFile "a\"];\n0 -> 9;\x7d\\") (some .zero) true,
    .pair ⟨.member, .interface, "\\", "\\n\" -> 1;"⟩ none, .arc 0 1,
    .upsert (Key.external "\"\\") none false, .arc 3 0, .arc 3 2]

theorem dot_reads_back_hostile : Reachable (empty.run hostile) ∧
    ∃ drawing nodes arcs, Dot.read ((empty.run hostile).dot ⟨true, false⟩) = some drawing ∧
      (empty.run hostile).Depicts ⟨true, false⟩ drawing nodes arcs :=
  ⟨Reachable.new.run hostile, dot_reads_back (Reachable.new.run hostile) ⟨true, false⟩⟩

end Graph

/-! ## Labels -/

namespace Dot

/-- In a label, an `n` behind a backslash breaks the line. -/
def labelEscapes : List (Char × Char) := ('n', '\n') :: quoteEscapes

/-- What a label displays. -/
def display : List Char → Option (List Char) := decode labelEscapes

/-- What a label should display: a caption, and the fingerprint on a line of its own, if there is one. -/
def intended (node : Node) : List Char :=
  caption node ++ node.fingerprint.elim [] fun f => '\n' :: f.text.toList

theorem display_escape (text : List Char) : display (escape text) = some text := decode_escape rfl rfl text

/-- A label is displayed as it should be just when there is no fingerprint. -/
theorem label_eq_intended_iff (node : Node) :
    (label node).toList = intended node ↔ node.fingerprint = none := by
  rw [label_eq, labelText, intended, List.append_cancel_left_eq]
  cases node.fingerprint <;> simp

end Dot

namespace Graph

variable {g : Graph} {o : DotOptions} {node : Node}

/-- **What a label displays**: the aspect and the readable name, just as they are, and a fingerprint behind a
backslash and an `n`. It is what a label should display just when the node has no fingerprint. -/
theorem dot_label_displays (hnode : node ∈ g.nodes) (hshown : o.Shown node) :
    ∃ drawing text, Dot.read (g.dot o) = some drawing ∧ Dot.nodeStatement node text ∈ drawing.statements ∧
      Dot.display text = some (Dot.caption node ++
        node.fingerprint.elim [] fun f => '\\' :: 'n' :: f.text.toList) ∧
      (Dot.display text = some (Dot.intended node) ↔ node.fingerprint = none) := by
  have hmem : node ∈ g.nodes.toList.filter o.shows :=
    List.mem_filter.2 ⟨Array.mem_toList_iff.2 hnode, shows_iff.2 hshown⟩
  refine ⟨_, Dot.escape (Dot.label node).toList, read_dot g o,
    List.mem_append_left _ (List.mem_map.2 ⟨node, hmem, rfl⟩), ?_, ?_⟩
  · rw [Dot.display_escape, Dot.label_eq, Dot.labelText]
  · rw [Dot.display_escape, Option.some.injEq, Dot.label_eq_intended_iff]

/-- The interface of the pair among the hostile calls. -/
def hostileMember : Node := ⟨⟨.member, .interface, "\\", "\\n\" -> 1;"⟩, none, 1, true⟩

theorem dot_label_displays_hostile : hostileMember ∈ (empty.run hostile).nodes ∧
    (⟨false, true⟩ : DotOptions).Shown hostileMember ∧
    ∃ drawing text, Dot.read ((empty.run hostile).dot ⟨false, true⟩) = some drawing ∧
      Dot.nodeStatement hostileMember text ∈ drawing.statements ∧
      Dot.display text = some "interface \\.\\n\" -> 1;".toList := by
  have hmem : hostileMember ∈ (empty.run hostile).nodes :=
    Array.mem_of_getElem? (by decide +kernel : (empty.run hostile).nodes[1]? = some hostileMember)
  have hshown : (⟨false, true⟩ : DotOptions).Shown hostileMember := ⟨Or.inr (by decide), Or.inl rfl⟩
  obtain ⟨drawing, text, hread, hstatement, hdisplay, -⟩ := dot_label_displays hmem hshown
  refine ⟨hmem, hshown, drawing, text, hread, hstatement, hdisplay.trans ?_⟩
  decide +kernel

/-- A call that provides a file with a fingerprint. -/
def fingerprinting : List Call := [.upsert (Key.sourceFile "a.deps") (some .zero) true]

/-- The node of that file. -/
def fingerprinted : Node := ⟨Key.sourceFile "a.deps", some .zero, 0, true⟩

/-- The fingerprint of a file is not displayed on a line of its own. -/
theorem dot_label_runs_on : (empty.run fingerprinting).nodes = #[fingerprinted] ∧
    (⟨true, true⟩ : DotOptions).Shown fingerprinted ∧
    ∃ text, Dot.read ((empty.run fingerprinting).dot ⟨true, true⟩) =
        some ⟨"a.deps".toList, [Dot.nodeStatement fingerprinted text]⟩ ∧
      Dot.display text = some ("interface a.deps\\n".toList ++ List.replicate 32 '0') ∧
      Dot.display text ≠ some (Dot.intended fingerprinted) := by
  refine ⟨by decide +kernel, ⟨Or.inl rfl, Or.inl rfl⟩, Dot.escape (Dot.label fingerprinted).toList, ?_, ?_, ?_⟩
  · rw [read_dot]
    decide +kernel
  · rw [Dot.display_escape]
    decide +kernel
  · rw [Dot.display_escape, Ne, Option.some.injEq, Dot.label_eq_intended_iff]
    decide

end Graph

end DepGraph
