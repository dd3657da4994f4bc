import DepGraph.Proofs.Yaml.Json
import DepGraph.Proofs.Yaml.Node

/-!
# The tree of JSON texts

The nodes that the tokens of data in brackets make up, whatever tokens come after them.

* `Read.reads_flow`: a value.
* `Document.read_pretty`: a whole text, with what is left of the texts in it.
-/

namespace DepGraph.Yaml

namespace Read

variable {handles : List (String × TagText)} {block : Bool} {fuel : ℕ} {d : Data} {token : Token}
  {ts rest : List Token} {a : Anchors} {r r' : Reading}

/-! ## What the next token tells -/

theorem content_flowItems {items : List Node}
    (h : (flowItems handles true fuel).run ⟨ts, a⟩ = some (items, r)) :
    (content handles block false none none (fuel + 1)).run ⟨.flowSequenceStart :: ts, a⟩ =
      some (.sequence items, r) := by
  change (((flowItems handles true fuel).run ⟨ts, a⟩).bind _) = _
  rw [h]
  rfl

theorem content_flowEntries {entries : List (Node × Node)}
    (h : (flowEntries handles true fuel).run ⟨ts, a⟩ = some (entries, r)) :
    (content handles block false none none (fuel + 1)).run ⟨.flowMappingStart :: ts, a⟩ =
      some (.mapping entries, r) := by
  change (((flowEntries handles true fuel).run ⟨ts, a⟩).bind _) = _
  rw [h]
  rfl

theorem flowItems_end (first : Bool) :
    (flowItems handles first (fuel + 1)).run ⟨.flowSequenceEnd :: ts, a⟩ = some ([], ⟨ts, a⟩) := by
  cases first <;> rfl

theorem flowEntries_end (first : Bool) :
    (flowEntries handles first (fuel + 1)).run ⟨.flowMappingEnd :: ts, a⟩ = some ([], ⟨ts, a⟩) := by
  cases first <;> rfl

theorem flowItems_first {item : Node} {items : List Node} (hstarts : Starts token)
    (hitem : (node handles false false fuel).run ⟨token :: ts, a⟩ = some (item, r))
    (hitems : (flowItems handles false fuel).run r = some (items, r')) :
    (flowItems handles true (fuel + 1)).run ⟨token :: ts, a⟩ = some (item :: items, r') := by
  have hstep : (flowItems handles true (fuel + 1)).run ⟨token :: ts, a⟩ =
      ((node handles false false fuel).run ⟨token :: ts, a⟩).bind fun q =>
        ((flowItems handles false fuel).run q.2).bind fun q' => some (q.1 :: q'.1, q'.2) := by
    cases hstarts <;> rfl
  rw [hstep, hitem, Option.bind_some, hitems, Option.bind_some]

/-- After a comma an item is read as the first one is. -/
theorem flowItems_comma (hstarts : Starts token) :
    (flowItems handles false (fuel + 1)).run ⟨.flowEntry :: token :: ts, a⟩ =
      (flowItems handles true (fuel + 1)).run ⟨token :: ts, a⟩ := by
  cases hstarts <;> rfl

theorem flowValue_starts (hstarts : Starts token) :
    (flowValue handles .flowMappingEnd (fuel + 1)).run ⟨.value :: token :: ts, a⟩ =
      (node handles false false fuel).run ⟨token :: ts, a⟩ := by
  cases hstarts <;> rfl

theorem flowEntries_first {style : Style} {name : String} {value : Node} {entries : List (Node × Node)}
    (hvalue : (flowValue handles .flowMappingEnd (fuel + 2)).run ⟨ts, a⟩ = some (value, r))
    (hentries : (flowEntries handles false (fuel + 2)).run r = some (entries, r')) :
    (flowEntries handles true (fuel + 3)).run ⟨.key :: .scalar style name :: ts, a⟩ =
      some ((.scalar none style name, value) :: entries, r') := by
  change (((flowValue handles .flowMappingEnd (fuel + 2)).run ⟨ts, a⟩).bind _) = _
  rw [hvalue]
  change (((flowEntries handles false (fuel + 2)).run r).bind _) = _
  rw [hentries]
  rfl

/-- After a comma a field is read as the first one is. -/
theorem flowEntries_comma :
    (flowEntries handles false (fuel + 1)).run ⟨.flowEntry :: .key :: ts, a⟩ =
      (flowEntries handles true (fuel + 1)).run ⟨.key :: ts, a⟩ :=
  rfl

/-! ## Data -/

theorem flowTokens_starts (d : Data) : ∃ token ts, flowTokens d = token :: ts ∧ Starts token := by
  cases d with
  | null => exact ⟨_, _, rfl, .scalar _ _⟩
  | flag b => cases b <;> exact ⟨_, _, rfl, .scalar _ _⟩
  | count n => exact ⟨_, _, rfl, .scalar _ _⟩
  | text s => exact ⟨_, _, rfl, .scalar _ _⟩
  | list items => cases items <;> exact ⟨_, _, rfl, .flow⟩
  | record fields => cases fields <;> exact ⟨_, _, rfl, .flowMapping⟩

/-- A value is read, whatever follows. -/
def ReadsFlow (d : Data) : Prop :=
  ∀ (handles : List (String × TagText)) (block : Bool) (fuel : ℕ) (rest : List Token) (a : Anchors),
    4 * (flowTokens d).length + 3 ≤ fuel →
      (node handles block false fuel).run ⟨flowTokens d ++ rest, a⟩ = some (.ofData .quoted d, ⟨rest, a⟩)

/-- The items after the first one are read, up to the bracket. -/
def ReadsItems (items : List Data) : Prop :=
  ∀ (handles : List (String × TagText)) (fuel : ℕ) (rest : List Token) (a : Anchors),
    4 * (laterItems items).length + 1 ≤ fuel →
      (flowItems handles false fuel).run ⟨laterItems items ++ .flowSequenceEnd :: rest, a⟩ =
        some (Node.ofItems .quoted items, ⟨rest, a⟩)

/-- The fields after the first one are read, up to the brace. -/
def ReadsFields (fields : List (String × Data)) : Prop :=
  ∀ (handles : List (String × TagText)) (fuel : ℕ) (rest : List Token) (a : Anchors),
    4 * (laterFields fields).length + 1 ≤ fuel →
      (flowEntries handles false fuel).run ⟨laterFields fields ++ .flowMappingEnd :: rest, a⟩ =
        some (Node.ofFields .quoted fields, ⟨rest, a⟩)

/-- An item and those after it. -/
theorem flowItems_reads {item : Data} {items : List Data} (hitem : ReadsFlow item) (hitems : ReadsItems items)
    (hfuel : 4 * (flowTokens item ++ laterItems items).length + 4 ≤ fuel) :
    (flowItems handles true fuel).run ⟨flowTokens item ++ (laterItems items ++ .flowSequenceEnd :: rest), a⟩ =
      some (Node.ofItems .quoted (item :: items), ⟨rest, a⟩) := by
  obtain ⟨fuel, rfl⟩ : ∃ m, fuel = m + 1 := ⟨fuel - 1, by omega⟩
  rw [List.length_append] at hfuel
  obtain ⟨token, ts, htokens, hstarts⟩ := flowTokens_starts item
  have hfirst := hitem handles false fuel (laterItems items ++ .flowSequenceEnd :: rest) a (by omega)
  have hlater := hitems handles fuel rest a (by omega)
  rw [htokens, List.cons_append] at hfirst ⊢
  exact flowItems_first hstarts hfirst hlater

/-- A field and those after it. -/
theorem flowEntries_reads {name : String} {value : Data} {fields : List (String × Data)}
    (hvalue : ReadsFlow value) (hfields : ReadsFields fields)
    (hfuel : 4 * (flowTokens value ++ laterFields fields).length + 8 ≤ fuel) :
    (flowEntries handles true fuel).run ⟨[.key, .scalar .double name, .value] ++
      (flowTokens value ++ (laterFields fields ++ .flowMappingEnd :: rest)), a⟩ =
      some (Node.ofFields .quoted ((name, value) :: fields), ⟨rest, a⟩) := by
  obtain ⟨fuel, rfl⟩ : ∃ m, fuel = m + 3 := ⟨fuel - 3, by omega⟩
  rw [List.length_append] at hfuel
  obtain ⟨token, ts, htokens, hstarts⟩ := flowTokens_starts value
  have hnode := hvalue handles false (fuel + 1) (laterFields fields ++ .flowMappingEnd :: rest) a (by omega)
  have hlater := hfields handles (fuel + 2) rest a (by omega)
  rw [htokens, List.cons_append] at hnode ⊢
  rw [← flowValue_starts hstarts] at hnode
  exact flowEntries_first hnode hlater

theorem readsFlow_list {first : Data} {items : List Data} (hfirst : ReadsFlow first)
    (hitems : ReadsItems items) : ReadsFlow (.list (first :: items)) := by
  intro handles block fuel rest a hfuel
  obtain ⟨fuel, rfl⟩ : ∃ m, fuel = m + 2 := ⟨fuel - 2, by omega⟩
  rw [flowTokens, List.length_cons, ← List.append_assoc, List.length_append] at hfuel
  rw [flowTokens, List.cons_append, List.append_assoc, List.append_assoc]
  exact (node_starts .flow).trans (content_flowItems (flowItems_reads hfirst hitems (by omega)))

theorem readsFlow_record {name : String} {value : Data} {fields : List (String × Data)}
    (hvalue : ReadsFlow value) (hfields : ReadsFields fields) :
    ReadsFlow (.record ((name, value) :: fields)) := by
  intro handles block fuel rest a hfuel
  obtain ⟨fuel, rfl⟩ : ∃ m, fuel = m + 2 := ⟨fuel - 2, by omega⟩
  rw [flowTokens, List.length_append, ← List.append_assoc (flowTokens value), List.length_append] at hfuel
  simp only [List.length_cons, List.length_nil] at hfuel
  rw [flowTokens, List.append_assoc, List.append_assoc, List.append_assoc, List.cons_append]
  exact (node_starts .flowMapping).trans
    (content_flowEntries (flowEntries_reads hvalue hfields (by omega)))

mutual

/-- **The tokens of data in brackets are read as its node.** -/
theorem reads_flow : (d : Data) → ReadsFlow d
  | .null => fun _ _ _ _ _ hfuel => node_scalar _ _ (by omega)
  | .flag true => fun _ _ _ _ _ hfuel => node_scalar _ _ (by omega)
  | .flag false => fun _ _ _ _ _ hfuel => node_scalar _ _ (by omega)
  | .count _ => fun _ _ _ _ _ hfuel => node_scalar _ _ (by omega)
  | .text _ => fun _ _ _ _ _ hfuel => node_scalar _ _ (by omega)
  | .list [] => by
    intro handles block fuel rest a hfuel
    obtain ⟨fuel, rfl⟩ : ∃ m, fuel = m + 3 := ⟨fuel - 3, by omega⟩
    exact (node_starts .flow).trans (content_flowItems (flowItems_end true))
  | .list (first :: items) => readsFlow_list (reads_flow first) (reads_items items)
  | .record [] => by
    intro handles block fuel rest a hfuel
    obtain ⟨fuel, rfl⟩ : ∃ m, fuel = m + 3 := ⟨fuel - 3, by omega⟩
    exact (node_starts .flowMapping).trans (content_flowEntries (flowEntries_end true))
  | .record ((_, value) :: fields) => readsFlow_record (reads_flow value) (reads_fields fields)

theorem reads_items : (items : List Data) → ReadsItems items
  | [] => by
    intro handles fuel rest a hfuel
    obtain ⟨fuel, rfl⟩ : ∃ m, fuel = m + 1 := ⟨fuel - 1, by omega⟩
    exact flowItems_end false
  | item :: items => by
    intro handles fuel rest a hfuel
    obtain ⟨fuel, rfl⟩ : ∃ m, fuel = m + 1 := ⟨fuel - 1, by omega⟩
    have hitem := reads_flow item
    have hitems := reads_items items
    obtain ⟨token, ts, htokens, hstarts⟩ := flowTokens_starts item
    rw [laterItems, List.length_cons] at hfuel
    rw [laterItems, List.cons_append, List.append_assoc, htokens, List.cons_append, flowItems_comma hstarts,
      ← List.cons_append, ← htokens]
    exact flowItems_reads hitem hitems (by omega)

theorem reads_fields : (fields : List (String × Data)) → ReadsFields fields
  | [] => by
    intro handles fuel rest a hfuel
    obtain ⟨fuel, rfl⟩ : ∃ m, fuel = m + 1 := ⟨fuel - 1, by omega⟩
    exact flowEntries_end false
  | (name, value) :: fields => by
    intro handles fuel rest a hfuel
    obtain ⟨fuel, rfl⟩ : ∃ m, fuel = m + 1 := ⟨fuel - 1, by omega⟩
    have hvalue := reads_flow value
    have hfields := reads_fields fields
    rw [laterFields, List.length_append] at hfuel
    simp only [List.length_cons, List.length_nil] at hfuel
    rw [laterFields, List.append_assoc, List.append_assoc]
    exact flowEntries_comma.trans (flowEntries_reads hvalue hfields (by omega))

end

end Read

variable {first : String × Data} {fields : List (String × Data)}

/-- A document without a mark is read from its first token on. -/
theorem Document.readRoot_starts {token : Token} {ts : List Token} {root : Node} {r : Reading}
    (hstarts : Read.Starts token)
    (hread : (Read.node ([] ++ standardHandles) true false (4 * (token :: ts).length + 4)).run
      { tokens := token :: ts } = some (root, r)) :
    Document.readRoot (token :: ts) = some (⟨root, r.anchors⟩, r.tokens) := by
  have hroot : Document.readRoot (token :: ts) =
      ((Read.node ([] ++ standardHandles) true false (4 * (token :: ts).length + 4)).run
        { tokens := token :: ts }).map fun q => (⟨q.1, q.2.anchors⟩, q.2.tokens) := by
    cases hstarts <;> rfl
  rw [hroot, hread]
  rfl

/-- The one document of data in brackets. -/
theorem Document.ofTokens_flow (d : Data) :
    Document.ofTokens? (flowTokens d ++ [.streamEnd]) = some ⟨.ofData .quoted d, {}⟩ := by
  obtain ⟨token, ts, htokens, hstarts⟩ := Read.flowTokens_starts d
  set tokens := flowTokens d ++ [Token.streamEnd] with hall
  have hread := Read.reads_flow d ([] ++ standardHandles) true (4 * tokens.length + 4) [.streamEnd] {}
    (by rw [hall, List.length_append]; omega)
  rw [← hall] at hread
  have hcons : tokens = token :: (ts ++ [.streamEnd]) := by rw [hall, htokens, List.cons_append]
  rw [hcons] at hread
  rw [Document.ofTokens?, hcons, readRoot_starts hstarts hread]
  rfl

/-- **What YAML makes of a record in JSON.** -/
theorem Document.read_pretty (h : Writable (.record (first :: fields))) :
    Document.read (Json.pretty (.record (first :: fields)) ++ "\n") =
      ((Data.record (first :: fields)).mapText reread).map fun d => ⟨.ofData .quoted d, {}⟩ := by
  rw [Document.read, scan_pretty h]
  cases (Data.record (first :: fields)).mapText reread with
  | none => rfl
  | some d => exact ofTokens_flow d

end DepGraph.Yaml
