import DepGraph.Proofs.Yaml.Written
import DepGraph.Yaml.Decode

/-!
# The tree of written data

The nodes that the tokens of data make up, whatever tokens come after them.

* `Read.reads_writable`: the value of a key and the item of a list.
* `Document.read_write`: a whole text.
-/

namespace DepGraph.Yaml

/-- The styles of texts, and of the names of fields. -/
structure Styles where
  text : String → Style
  name : Style

/-- The styles that are chosen where lines are indented. -/
def Styles.block : Styles := ⟨styleOf, .plain⟩

/-- The styles that are chosen where all texts and names are in double quotes. -/
def Styles.quoted : Styles := ⟨fun _ => .double, .double⟩

mutual

/-- The node of data. -/
def Node.ofData (styles : Styles) : Data → Node
  | .null => .scalar none .plain "null"
  | .flag true => .scalar none .plain "true"
  | .flag false => .scalar none .plain "false"
  | .count n => .scalar none .plain (String.ofList (Nat.toDigits 10 n))
  | .text s => .scalar none (styles.text s) s
  | .list items => .sequence (Node.ofItems styles items)
  | .record fields => .mapping (Node.ofFields styles fields)

def Node.ofItems (styles : Styles) : List Data → List Node
  | [] => []
  | item :: rest => Node.ofData styles item :: Node.ofItems styles rest

def Node.ofFields (styles : Styles) : List (String × Data) → List (Node × Node)
  | [] => []
  | (name, value) :: rest =>
    (.scalar none styles.name name, Node.ofData styles value) :: Node.ofFields styles rest

end

namespace Read

variable {handles : List (String × TagText)} {block indentless : Bool} {fuel : ℕ} {d : Data}
  {token : Token} {ts rest : List Token} {a : Anchors}

/-! ## What the next token tells -/

/-- The tokens that written data starts with. -/
inductive Starts : Token → Prop where
  | scalar (style : Style) (text : String) : Starts (.scalar style text)
  | flow : Starts .flowSequenceStart
  | flowMapping : Starts .flowMappingStart
  | mapping : Starts .blockMappingStart
  | entry : Starts .blockEntry

theorem node_starts (h : Starts token) :
    (node handles block indentless (fuel + 1)).run ⟨token :: ts, a⟩ =
      (content handles block indentless none none fuel).run ⟨token :: ts, a⟩ := by
  cases h <;> rfl

theorem content_scalar (style : Style) (text : String) :
    (content handles block indentless none none (fuel + 1)).run ⟨.scalar style text :: ts, a⟩ =
      some (.scalar none style text, ⟨ts, a⟩) := by
  cases indentless <;> rfl

theorem content_empty :
    (content handles block indentless none none (fuel + 2)).run
        ⟨.flowSequenceStart :: .flowSequenceEnd :: ts, a⟩ =
      some (.sequence [], ⟨ts, a⟩) := by
  cases indentless <;> rfl

theorem content_items {items : List Node} {r : Reading}
    (h : (indentlessItems handles fuel).run ⟨.blockEntry :: ts, a⟩ = some (items, r)) :
    (content handles block true none none (fuel + 1)).run ⟨.blockEntry :: ts, a⟩ =
      some (.sequence items, r) := by
  change (((indentlessItems handles fuel).run ⟨.blockEntry :: ts, a⟩).bind _) = _
  rw [h]
  rfl

theorem content_mapping {entries : List (Node × Node)} {r : Reading}
    (h : (blockEntries handles fuel).run ⟨ts, a⟩ = some (entries, r)) :
    (content handles true indentless none none (fuel + 1)).run ⟨.blockMappingStart :: ts, a⟩ =
      some (.mapping entries, r) := by
  cases indentless <;>
  · change (((blockEntries handles fuel).run ⟨ts, a⟩).bind _) = _
    rw [h]
    rfl

/-- What may follow the value of a key: another key, or the end of the mapping. -/
inductive Follows : List Token → Prop where
  | key (ts : List Token) : Follows (.key :: ts)
  | blockEnd (ts : List Token) : Follows (.blockEnd :: ts)

theorem indentlessItems_end (h : Follows ts) :
    (indentlessItems handles (fuel + 1)).run ⟨ts, a⟩ = some ([], ⟨ts, a⟩) := by
  cases h <;> rfl

theorem indentlessItems_cons {item : Node} {items : List Node} {r r' : Reading} (hstarts : Starts token)
    (hentry : token ≠ .blockEntry)
    (hitem : (node handles true false fuel).run ⟨token :: ts, a⟩ = some (item, r))
    (hitems : (indentlessItems handles fuel).run r = some (items, r')) :
    (indentlessItems handles (fuel + 1)).run ⟨.blockEntry :: token :: ts, a⟩ = some (item :: items, r') := by
  have hstep : (indentlessItems handles (fuel + 1)).run ⟨.blockEntry :: token :: ts, a⟩ =
      ((node handles true false fuel).run ⟨token :: ts, a⟩).bind fun q =>
        ((indentlessItems handles fuel).run q.2).bind fun q' => some (q.1 :: q'.1, q'.2) := by
    cases hstarts with
    | scalar style text => rfl
    | flow => rfl
    | flowMapping => rfl
    | mapping => rfl
    | entry => exact absurd rfl hentry
  rw [hstep, hitem, Option.bind_some, hitems, Option.bind_some]

theorem blockPart_starts (hstarts : Starts token) :
    (blockPart handles (fuel + 1)).run ⟨token :: ts, a⟩ =
      (node handles true true fuel).run ⟨token :: ts, a⟩ := by
  cases hstarts <;> rfl

theorem blockEntries_end : (blockEntries handles (fuel + 1)).run ⟨.blockEnd :: ts, a⟩ = some ([], ⟨ts, a⟩) :=
  rfl

theorem blockEntries_cons {key value : Node} {entries : List (Node × Node)} {r r' : Reading}
    (hkey : (blockPart handles fuel).run ⟨ts, a⟩ = some (key, ⟨.value :: rest, a⟩))
    (hvalue : (blockPart handles fuel).run ⟨rest, a⟩ = some (value, r))
    (hentries : (blockEntries handles fuel).run r = some (entries, r')) :
    (blockEntries handles (fuel + 1)).run ⟨.key :: ts, a⟩ = some ((key, value) :: entries, r') := by
  change (((blockPart handles fuel).run ⟨ts, a⟩).bind _) = _
  rw [hkey]
  change (((blockPart handles fuel).run ⟨rest, a⟩).bind _) = _
  rw [hvalue]
  change (((blockEntries handles fuel).run r).bind _) = _
  rw [hentries]
  rfl

/-! ## Data -/

/-- The value of a key is read, up to the next key or the end of the mapping. -/
def ReadsValue (d : Data) : Prop :=
  ∀ (handles : List (String × TagText)) (fuel : ℕ) (rest : List Token) (a : Anchors),
    4 * (valueTokens d).length + 3 ≤ fuel → Follows rest →
      (node handles true true fuel).run ⟨valueTokens d ++ rest, a⟩ = some (.ofData .block d, ⟨rest, a⟩)

/-- The item of a list is read, whatever follows. -/
def ReadsItem (d : Data) : Prop :=
  ∀ (handles : List (String × TagText)) (fuel : ℕ) (rest : List Token) (a : Anchors),
    4 * (valueTokens d).length + 3 ≤ fuel →
      (node handles true false fuel).run ⟨valueTokens d ++ rest, a⟩ = some (.ofData .block d, ⟨rest, a⟩)

theorem node_scalar (style : Style) (text : String) (hfuel : 2 ≤ fuel) :
    (node handles block indentless fuel).run ⟨.scalar style text :: ts, a⟩ =
      some (.scalar none style text, ⟨ts, a⟩) := by
  obtain ⟨fuel, rfl⟩ : ∃ m, fuel = m + 2 := ⟨fuel - 2, by omega⟩
  rw [node_starts (.scalar style text), content_scalar]

theorem node_atom (h : Atom d) (hfuel : 4 * (valueTokens d).length + 3 ≤ fuel) :
    (node handles block indentless fuel).run ⟨valueTokens d ++ rest, a⟩ = some (.ofData .block d, ⟨rest, a⟩) := by
  cases h with
  | null => exact node_scalar _ _ (by omega)
  | flag b => cases b <;> exact node_scalar _ _ (by omega)
  | count n => exact node_scalar _ _ (by omega)
  | text s => exact node_scalar _ _ (by omega)
  | empty =>
    obtain ⟨fuel, rfl⟩ : ∃ m, fuel = m + 3 := ⟨fuel - 3, by omega⟩
    exact (node_starts .flow).trans content_empty

theorem indentlessItems_items (items : List Data) (h : ∀ d ∈ items, ReadsItem d)
    (hstarts : ∀ d ∈ items, ∃ token ts, valueTokens d = token :: ts ∧ Starts token ∧ token ≠ .blockEntry)
    (hrest : Follows rest) : ∀ fuel, 4 * (itemsTokens items).length + 1 ≤ fuel →
    (indentlessItems handles fuel).run ⟨itemsTokens items ++ rest, a⟩ =
      some (Node.ofItems .block items, ⟨rest, a⟩) := by
  induction items with
  | nil =>
    intro fuel hfuel
    obtain ⟨fuel, rfl⟩ : ∃ m, fuel = m + 1 := ⟨fuel - 1, by omega⟩
    exact indentlessItems_end hrest
  | cons item items ih =>
    intro fuel hfuel
    obtain ⟨fuel, rfl⟩ : ∃ m, fuel = m + 1 := ⟨fuel - 1, by omega⟩
    obtain ⟨token, ts, htokens, htoken, hentry⟩ := hstarts item List.mem_cons_self
    rw [itemsTokens, List.length_cons, List.length_append] at hfuel
    have hitem := h item List.mem_cons_self handles fuel (itemsTokens items ++ rest) a (by omega)
    have hitems := ih (fun d hd => h d (List.mem_cons_of_mem _ hd))
      (fun d hd => hstarts d (List.mem_cons_of_mem _ hd)) fuel (by omega)
    rw [itemsTokens, List.cons_append, List.append_assoc, Node.ofItems]
    rw [htokens, List.cons_append] at hitem ⊢
    exact indentlessItems_cons htoken hentry hitem hitems

theorem blockEntries_fields (fields : List (String × Data)) (h : ∀ f ∈ fields, ReadsValue f.2)
    (hstarts : ∀ f ∈ fields, ∃ token ts, valueTokens f.2 = token :: ts ∧ Starts token) :
    ∀ fuel, 4 * (fieldsTokens fields).length + 1 ≤ fuel →
    (blockEntries handles fuel).run ⟨fieldsTokens fields ++ (.blockEnd :: rest), a⟩ =
      some (Node.ofFields .block fields, ⟨rest, a⟩) := by
  induction fields with
  | nil =>
    intro fuel hfuel
    obtain ⟨fuel, rfl⟩ : ∃ m, fuel = m + 1 := ⟨fuel - 1, by omega⟩
    exact blockEntries_end
  | cons field fields ih =>
    obtain ⟨name, value⟩ := field
    intro fuel hfuel
    obtain ⟨token, ts, htokens, htoken⟩ : ∃ token ts, valueTokens value = token :: ts ∧ Starts token :=
      hstarts (name, value) List.mem_cons_self
    simp only [fieldsTokens, List.length_cons, List.length_append, List.length_nil] at hfuel
    obtain ⟨fuel, rfl⟩ : ∃ m, fuel = m + 2 := ⟨fuel - 2, by omega⟩
    set later := fieldsTokens fields ++ (.blockEnd :: rest) with hlater
    -- a value without brackets ends only because a key or the end of the mapping comes next
    have hfollows : Follows later := by
      rw [hlater]
      cases fields with
      | nil => exact .blockEnd rest
      | cons next fields => exact .key _
    have hkey : (blockPart handles (fuel + 1)).run
        ⟨.scalar .plain name :: .value :: (valueTokens value ++ later), a⟩ =
        some (.scalar none .plain name, ⟨.value :: (valueTokens value ++ later), a⟩) := by
      rw [blockPart_starts (.scalar .plain name), node_scalar _ _ (by omega)]
    have hvalue : (blockPart handles (fuel + 1)).run ⟨valueTokens value ++ later, a⟩ =
        some (.ofData .block value, ⟨later, a⟩) := by
      have hnode : ReadsValue value := h (name, value) List.mem_cons_self
      rw [htokens, List.cons_append, blockPart_starts htoken, ← List.cons_append, ← htokens,
        hnode _ _ _ _ (by omega) hfollows]
    have hentries := ih (fun f hf => h f (List.mem_cons_of_mem _ hf))
      (fun f hf => hstarts f (List.mem_cons_of_mem _ hf)) (fuel + 1) (by omega)
    rw [fieldsTokens, List.append_assoc, List.append_assoc]
    exact blockEntries_cons hkey hvalue hentries

theorem valueTokens_starts (h : Writable d) :
    ∃ token ts, valueTokens d = token :: ts ∧ Starts token ∧ (IsItem d → token ≠ .blockEntry) := by
  cases h with
  | atom h =>
    cases h with
    | null => exact ⟨_, _, rfl, .scalar _ _, fun _ => Token.noConfusion⟩
    | flag b => cases b <;> exact ⟨_, _, rfl, .scalar _ _, fun _ => Token.noConfusion⟩
    | count n => exact ⟨_, _, rfl, .scalar _ _, fun _ => Token.noConfusion⟩
    | text s => exact ⟨_, _, rfl, .scalar _ _, fun _ => Token.noConfusion⟩
    | empty => exact ⟨_, _, rfl, .flow, fun _ => Token.noConfusion⟩
  | list hitem h =>
    -- a list with items is no item
    refine ⟨_, _, rfl, .entry, ?_⟩
    rintro ⟨⟨⟩⟩
  | record hname h => exact ⟨_, _, rfl, .mapping, fun _ => Token.noConfusion⟩

theorem readsValue_list {first : Data} {items : List Data} (h : ∀ d ∈ first :: items, Writable d)
    (hitem : ∀ d ∈ first :: items, IsItem d) (hreads : ∀ d ∈ first :: items, ReadsItem d) :
    ReadsValue (.list (first :: items)) := by
  have hstarts : ∀ d ∈ first :: items, ∃ token ts,
      valueTokens d = token :: ts ∧ Starts token ∧ token ≠ .blockEntry := by
    intro d hd
    obtain ⟨token, ts, htokens, htoken, hentry⟩ := valueTokens_starts (h d hd)
    exact ⟨token, ts, htokens, htoken, hentry (hitem d hd)⟩
  intro handles fuel rest a hfuel hrest
  rw [valueTokens] at hfuel ⊢
  obtain ⟨fuel, rfl⟩ : ∃ m, fuel = m + 2 := ⟨fuel - 2, by omega⟩
  exact (node_starts .entry).trans
    (content_items (indentlessItems_items (first :: items) hreads hstarts hrest fuel (by omega)))

theorem node_record {first : String × Data} {fields : List (String × Data)}
    (h : ∀ f ∈ first :: fields, Writable f.2) (hreads : ∀ f ∈ first :: fields, ReadsValue f.2)
    (hfuel : 4 * (valueTokens (.record (first :: fields))).length + 3 ≤ fuel) :
    (node handles true indentless fuel).run ⟨valueTokens (.record (first :: fields)) ++ rest, a⟩ =
      some (.ofData .block (.record (first :: fields)), ⟨rest, a⟩) := by
  have hstarts : ∀ f ∈ first :: fields, ∃ token ts, valueTokens f.2 = token :: ts ∧ Starts token := by
    intro f hf
    obtain ⟨token, ts, htokens, htoken, -⟩ := valueTokens_starts (h f hf)
    exact ⟨token, ts, htokens, htoken⟩
  rw [valueTokens, List.length_cons, List.length_append] at hfuel
  obtain ⟨fuel, rfl⟩ : ∃ m, fuel = m + 2 := ⟨fuel - 2, by omega⟩
  rw [valueTokens, List.cons_append, List.append_assoc]
  exact (node_starts .mapping).trans
    (content_mapping (blockEntries_fields (first :: fields) hreads hstarts fuel (by omega)))

/-- **The tokens of data are read as its node.** -/
theorem reads_writable (h : Writable d) : ReadsValue d ∧ (IsItem d → ReadsItem d) := by
  induction h with
  | atom h =>
    exact ⟨fun _ _ _ _ hfuel _ => node_atom h hfuel, fun _ _ _ _ _ hfuel => node_atom h hfuel⟩
  | list hitem h ih =>
    refine ⟨readsValue_list h hitem fun d hd => (ih d hd).2 (hitem d hd), ?_⟩
    rintro ⟨⟨⟩⟩
  | record _ h ih =>
    have hreads := fun f hf => (ih f hf).1
    exact ⟨fun _ _ _ _ hfuel _ => node_record h hreads hfuel,
      fun _ _ _ _ _ hfuel => node_record h hreads hfuel⟩

end Read

/-- **A record, written after a comment, is the one document of its text.** -/
theorem Document.read_write {first : String × Data} {rest : List (String × Data)} {comment : List Char}
    (hclean : Clean comment) (hline : comment.any isBreak = false)
    (h : Writable (.record (first :: rest))) :
    Document.read (String.ofList ('#' :: (comment ++ '\n' :: writeFields 0 (first :: rest)))) =
      some ⟨.ofData .block (.record (first :: rest)), {}⟩ := by
  set tokens := valueTokens (.record (first :: rest)) ++ [.streamEnd] with htokens
  -- the root is read as an item is: what comes after it does not matter
  have hread := (Read.reads_writable h).2 (.record first rest) ([] ++ standardHandles)
    (4 * tokens.length + 4) [.streamEnd] {} (by rw [htokens, List.length_append]; omega)
  rw [← htokens] at hread
  have hroot : Document.readRoot tokens =
      some (⟨.ofData .block (.record (first :: rest)), {}⟩, [.streamEnd]) := by
    change ((Read.node ([] ++ standardHandles) true false (4 * tokens.length + 4)).run { tokens }).map _ = _
    rw [hread]
    rfl
  rw [Document.read, scan_write hclean hline h]
  change (Document.readRoot tokens).bind _ = _
  rw [hroot]
  rfl

end DepGraph.Yaml
