import DepGraph.Proofs.Yaml.Flow

/-!
# JSON texts as YAML

What is written as JSON is scanned as YAML, collections in brackets and all strings in double quotes. The
texts in it may change on the way, or have faults: `Data.mapText` says what becomes of the whole.

* `Writable.scansFlow`: a value in front of whatever ends it.
* `scan_pretty`: a whole text.
-/

namespace DepGraph

variable {f : String → Option String} {d : Data}

namespace Data

mutual

/-- The data with other texts, if there is one for each. -/
def mapText (f : String → Option String) : Data → Option Data
  | .null => some .null
  | .flag b => some (.flag b)
  | .count n => some (.count n)
  | .text s => (f s).map .text
  | .list items => (mapItems f items).map .list
  | .record fields => (mapFields f fields).map .record

def mapItems (f : String → Option String) : List Data → Option (List Data)
  | [] => some []
  | item :: rest => (mapText f item).bind fun item => (mapItems f rest).map (item :: ·)

def mapFields (f : String → Option String) : List (String × Data) → Option (List (String × Data))
  | [] => some []
  | (name, value) :: rest =>
    (mapText f value).bind fun value => (mapFields f rest).map ((name, value) :: ·)

end

mutual

/-- The texts of data. -/
def texts : Data → List String
  | .null => []
  | .flag _ => []
  | .count _ => []
  | .text s => [s]
  | .list items => itemTexts items
  | .record fields => fieldTexts fields

def itemTexts : List Data → List String
  | [] => []
  | item :: rest => texts item ++ itemTexts rest

def fieldTexts : List (String × Data) → List String
  | [] => []
  | (_, value) :: rest => texts value ++ fieldTexts rest

end

section

variable (p : String → Bool) (f : String → Option String)

mutual

/-- Texts that have to pass a test first. -/
theorem mapText_guard : ∀ d : Data, d.mapText (fun s => if p s then f s else none) =
    if d.texts.all p then d.mapText f else none
  | .null => rfl
  | .flag _ => rfl
  | .count _ => rfl
  | .text s => by
    rw [mapText, texts, List.all_cons, List.all_nil, Bool.and_true]
    split <;> rfl
  | .list items => by
    rw [mapText, mapItems_guard items, texts]
    split <;> rfl
  | .record fields => by
    rw [mapText, mapFields_guard fields, texts]
    split <;> rfl

theorem mapItems_guard : ∀ items : List Data, mapItems (fun s => if p s then f s else none) items =
    if (itemTexts items).all p then mapItems f items else none
  | [] => rfl
  | item :: rest => by
    rw [mapItems, mapText_guard item, mapItems_guard rest, itemTexts, List.all_append, mapItems]
    cases item.texts.all p
    · rfl
    · cases (itemTexts rest).all p
      · cases item.mapText f <;> rfl
      · rfl

theorem mapFields_guard : ∀ fields : List (String × Data),
    mapFields (fun s => if p s then f s else none) fields =
      if (fieldTexts fields).all p then mapFields f fields else none
  | [] => rfl
  | (name, value) :: rest => by
    rw [mapFields, mapText_guard value, mapFields_guard rest, fieldTexts, List.all_append, mapFields]
    cases value.texts.all p
    · rfl
    · cases (fieldTexts rest).all p
      · cases value.mapText f <;> rfl
      · rfl

end

end

end Data

namespace Yaml

variable {depth k : ℕ} {cs more : List Char} {s : Scan}

mutual

/-- The tokens of data in brackets. -/
def flowTokens : Data → List Token
  | .null => [.scalar .plain "null"]
  | .flag true => [.scalar .plain "true"]
  | .flag false => [.scalar .plain "false"]
  | .count n => [.scalar .plain (String.ofList (Nat.toDigits 10 n))]
  | .text s => [.scalar .double s]
  | .list [] => [.flowSequenceStart, .flowSequenceEnd]
  | .list (first :: rest) =>
    .flowSequenceStart :: (flowTokens first ++ (laterItems rest ++ [.flowSequenceEnd]))
  | .record [] => [.flowMappingStart, .flowMappingEnd]
  | .record ((name, value) :: rest) =>
    [.flowMappingStart, .key, .scalar .double name, .value] ++
      (flowTokens value ++ (laterFields rest ++ [.flowMappingEnd]))

/-- The tokens of the items after the first one. -/
def laterItems : List Data → List Token
  | [] => []
  | item :: rest => .flowEntry :: (flowTokens item ++ laterItems rest)

/-- The tokens of the fields after the first one. -/
def laterFields : List (String × Data) → List Token
  | [] => []
  | (name, value) :: rest =>
    [.flowEntry, .key, .scalar .double name, .value] ++ (flowTokens value ++ laterFields rest)

end

/-- What is read between the quotes of a text. -/
def refolded (s : String) : Option String := (refold [] .none false s.toList).map String.ofList

/-- The characters of a value in JSON, once breaks are unified. -/
def written (depth : ℕ) (d : Data) : List Char := (Json.write .pretty depth d).map unify

/-! ## Pieces of text -/

theorem map_unify_clean (h : Clean cs) : cs.map unify = cs := by
  have hid : ∀ ch ∈ cs, unify ch = ch := by
    intro ch hch
    apply unify_eq
    rintro rfl
    cases h nextLine hch
  exact (List.map_congr_left hid).trans (List.map_id cs)

theorem map_unify_quoted (s : String) : (Json.quoted s).map unify = '"' :: (body s.toList ++ ['"']) := by
  rw [Json.quoted, List.map_append, List.map_cons]
  rfl

theorem isEscaped_word {ch : Char} (h : ch.isAlphanum = true ∨ ch = '_') : isEscaped ch = false := by
  have hquote : ch ≠ '"' := Scan.ne_of_word h (by decide)
  have hslash : ch ≠ '\\' := Scan.ne_of_word h (by decide)
  have hlarge : 0x20 ≤ ch.toNat := by
    have hrange := Scan.range_of_word h
    omega
  simp [isEscaped, hquote, hslash, hlarge]

/-- A name stands between its quotes as it is. -/
theorem map_unify_name {name : String} (h : Scan.IsName name) (more : List Char) :
    (Json.quoted name).map unify ++ more = '"' :: (name.toList ++ '"' :: more) := by
  have hclean : Clean name.toList := fun ch hch => (Scan.plain_of_word (h.word ch hch)).special
  have hescape : ∀ ch ∈ name.toList, Json.escapeChar ch = [ch] := fun ch hch =>
    escapeChar_eq (isEscaped_word (h.word ch hch))
  rw [map_unify_quoted, body, List.flatMap_congr hescape, List.flatMap_singleton', map_unify_clean hclean,
    List.cons_append, List.append_assoc]
  rfl

/-- The blank space before an element. -/
theorem gap_space (depth : ℕ) : ((Json.Layout.pretty.gap depth).map unify).all isSpace = true := by
  rw [Json.Layout.pretty, List.map_cons, List.map_replicate, List.all_cons]
  simp [isSpace, unify, nextLine]

theorem ends_of_cons {ch : Char} (h : ch = ',' ∨ ch = ']' ∨ ch = '\x7d') : Scan.Ends (ch :: cs) := by
  refine ⟨ch, cs, dropWhile_solid ?_, h⟩
  rcases h with rfl | rfl | rfl
  · decide
  · decide
  · decide

theorem ends_gap {gap : List Char} (hgap : gap.all isSpace = true) (h : Scan.Ends cs) :
    Scan.Ends (gap ++ cs) := by
  rwa [Scan.Ends, dropWhile_gap hgap]

/-! ## Values -/

/-- A value is passed, in front of whatever ends it. -/
def ScansFlow (d : Data) : Prop :=
  ∀ (s : Scan) (depth k : ℕ) (more : List Char), Scan.Ends more →
    s.Inside (depth + 1) (written k d ++ more) →
      s.Passes (depth + 1) more ((d.mapText refolded).map flowTokens)

theorem scansFlow_word (word : List Char) (hmap : d.mapText refolded = some d)
    (htokens : flowTokens d = [.scalar .plain (String.ofList word)])
    (hwrite : ∀ k, Json.write .pretty k d = word) (hne : word ≠ [])
    (hall : (word.all fun ch => ch.isAlphanum = true ∨ ch = '_') = true) : ScansFlow d := by
  have hword : ∀ ch ∈ word, Scan.Plain ch := fun ch hch =>
    Scan.plain_of_word (of_decide_eq_true (List.all_eq_true.1 hall ch hch))
  have hclean : Clean word := fun ch hch => (hword ch hch).special
  intro s depth k more hends h
  rw [written, hwrite, map_unify_clean hclean] at h
  rw [hmap, Option.map_some, htokens]
  exact Scan.passes_word h hword hne hends

theorem scansFlow_text (text : String) : ScansFlow (.text text) := by
  intro s depth k more _ h
  rw [written, Json.write, map_unify_quoted, List.cons_append, List.append_assoc] at h
  have hpasses := Scan.passes_text h
  rw [Data.mapText, refolded, Option.map_map, Option.map_map]
  exact hpasses

theorem ends_items (items : List Data) (h : Scan.Ends more) :
    Scan.Ends ((Json.writeItems .pretty k items).map unify ++ more) := by
  cases items with
  | nil => exact h
  | cons item rest => exact ends_of_cons (Or.inl rfl)

theorem ends_fields (fields : List (String × Data)) (h : Scan.Ends more) :
    Scan.Ends ((Json.writeMembers .pretty k fields).map unify ++ more) := by
  cases fields with
  | nil => exact h
  | cons field rest => exact ends_of_cons (Or.inl rfl)

/-- The items after the first one. -/
theorem passes_items (items : List Data) (hscans : ∀ d ∈ items, ScansFlow d) (depth k : ℕ)
    (hends : Scan.Ends more) : ∀ s : Scan,
      s.Inside (depth + 1) ((Json.writeItems .pretty k items).map unify ++ more) →
      s.Passes (depth + 1) more ((Data.mapItems refolded items).map laterItems) := by
  induction items with
  | nil =>
    intro s h
    exact .past (.refl s) h
  | cons item rest ih =>
    intro s h
    have hrest := ih fun d hd => hscans d (List.mem_cons_of_mem _ hd)
    have htext : (Json.writeItems .pretty k (item :: rest)).map unify ++ more =
        ',' :: ((Json.Layout.pretty.gap (k + 1)).map unify ++
          (written (k + 1) item ++ ((Json.writeItems .pretty k rest).map unify ++ more))) := by
      simp only [Json.writeItems, written, List.map_append, List.map_cons, List.cons_append, List.append_assoc]
      rfl
    rw [htext] at h
    obtain ⟨t, hcomma, ht, -⟩ := h.entry
    rw [Scan.Inside.gap (gap_space (k + 1))] at ht
    have hitem := hscans item List.mem_cons_self t depth (k + 1) _ (ends_items rest hends) ht
    have hall := hcomma.passes (hitem.andThen hrest)
    have hfound : (Data.mapItems refolded (item :: rest)).map laterItems =
        (((item.mapText refolded).map flowTokens).bind fun us =>
          ((Data.mapItems refolded rest).map laterItems).map (us ++ ·)).map ([.flowEntry] ++ ·) := by
      rw [Data.mapItems]
      cases item.mapText refolded with
      | none => rfl
      | some item => cases Data.mapItems refolded rest <;> rfl
    rw [hfound]
    exact hall

/-- A list with items. -/
theorem passes_list {first : Data} {rest : List Data} (hscans : ∀ d ∈ first :: rest, ScansFlow d)
    (h : s.Inside depth (written k (.list (first :: rest)) ++ more)) :
    s.Passes depth more (((Data.list (first :: rest)).mapText refolded).map flowTokens) := by
  set gap := (Json.Layout.pretty.gap k).map unify
  have hgap : gap.all isSpace = true := gap_space k
  have htext : written k (.list (first :: rest)) ++ more =
      '[' :: ((Json.Layout.pretty.gap (k + 1)).map unify ++ (written (k + 1) first ++
        ((Json.writeItems .pretty k rest).map unify ++ (gap ++ ']' :: more)))) := by
    simp only [written, Json.write, List.map_append, List.map_cons, List.cons_append, List.append_assoc,
      List.map_nil, List.nil_append]
    rfl
  rw [htext] at h
  obtain ⟨t, hopen, ht, -⟩ := h.opened .bracket
  rw [Scan.Inside.gap (gap_space (k + 1))] at ht
  have hends : Scan.Ends (gap ++ ']' :: more) := ends_gap hgap (ends_of_cons (Or.inr (Or.inl rfl)))
  have hfirst := hscans first List.mem_cons_self t depth (k + 1) _ (ends_items rest hends) ht
  have hrest := passes_items rest (fun d hd => hscans d (List.mem_cons_of_mem _ hd)) depth k hends
  have hclose : ∀ t : Scan, t.Inside (depth + 1) (gap ++ ']' :: more) →
      t.Passes depth more (some [.flowSequenceEnd]) := by
    intro t ht
    rw [Scan.Inside.gap hgap] at ht
    obtain ⟨u, hu, hinside⟩ := ht.closed .bracket
    exact .past hu hinside
  have hall := hopen.passes (hfirst.andThen fun t ht => (hrest t ht).andThen hclose)
  have hfound : ((Data.list (first :: rest)).mapText refolded).map flowTokens =
      (((first.mapText refolded).map flowTokens).bind fun us =>
        (((Data.mapItems refolded rest).map laterItems).bind fun vs =>
          (some [.flowSequenceEnd]).map (vs ++ ·)).map (us ++ ·)).map ([.flowSequenceStart] ++ ·) := by
    rw [Data.mapText, Data.mapItems]
    cases first.mapText refolded with
    | none => rfl
    | some first => cases Data.mapItems refolded rest <;> rfl
  rw [hfound]
  exact hall

/-- A field, up to what ends its value. -/
theorem passes_field {name : String} {value : Data} (hname : Scan.IsName name) (hscans : ScansFlow value)
    (hends : Scan.Ends more) (hka : s.keyAllowed = true)
    (h : s.Inside (depth + 1) ((Json.quoted name).map unify ++ ':' :: ' ' :: (written k value ++ more))) :
    s.Passes (depth + 1) more
      (((value.mapText refolded).map flowTokens).map ([.key, .scalar .double name, .value] ++ ·)) := by
  rw [map_unify_name hname] at h
  obtain ⟨t, hkey, ht⟩ := h.key hka hname
  exact hkey.passes (hscans t depth k more hends ht)

/-- The fields after the first one. -/
theorem passes_fields (fields : List (String × Data)) (hnames : ∀ f ∈ fields, Scan.IsName f.1)
    (hscans : ∀ f ∈ fields, ScansFlow f.2) (depth k : ℕ) (hends : Scan.Ends more) :
    ∀ s : Scan, s.Inside (depth + 1) ((Json.writeMembers .pretty k fields).map unify ++ more) →
      s.Passes (depth + 1) more ((Data.mapFields refolded fields).map laterFields) := by
  induction fields with
  | nil =>
    intro s h
    exact .past (.refl s) h
  | cons field rest ih =>
    obtain ⟨name, value⟩ := field
    intro s h
    have hrest := ih (fun f hf => hnames f (List.mem_cons_of_mem _ hf))
      fun f hf => hscans f (List.mem_cons_of_mem _ hf)
    have htext : (Json.writeMembers .pretty k ((name, value) :: rest)).map unify ++ more =
        ',' :: ((Json.Layout.pretty.gap (k + 1)).map unify ++ ((Json.quoted name).map unify ++ ':' :: ' ' ::
          (written (k + 1) value ++ ((Json.writeMembers .pretty k rest).map unify ++ more)))) := by
      simp only [Json.writeMembers, written, List.map_append, List.map_cons, List.cons_append, List.append_assoc]
      rfl
    rw [htext] at h
    obtain ⟨t, hcomma, ht, hka⟩ := h.entry
    rw [Scan.Inside.gap (gap_space (k + 1))] at ht
    have hfield := passes_field (hnames _ List.mem_cons_self) (hscans _ List.mem_cons_self)
      (ends_fields rest hends) hka ht
    have hall := hcomma.passes (hfield.andThen hrest)
    have hfound : (Data.mapFields refolded ((name, value) :: rest)).map laterFields =
        ((((value.mapText refolded).map flowTokens).map ([.key, .scalar .double name, .value] ++ ·)).bind fun us =>
          ((Data.mapFields refolded rest).map laterFields).map (us ++ ·)).map ([.flowEntry] ++ ·) := by
      rw [Data.mapFields]
      cases value.mapText refolded with
      | none => rfl
      | some value => cases Data.mapFields refolded rest <;> rfl
    rw [hfound]
    exact hall

/-- A record with fields. -/
theorem passes_record {first : String × Data} {rest : List (String × Data)}
    (hnames : ∀ f ∈ first :: rest, Scan.IsName f.1) (hscans : ∀ f ∈ first :: rest, ScansFlow f.2)
    (h : s.Inside depth (written k (.record (first :: rest)) ++ more)) :
    s.Passes depth more (((Data.record (first :: rest)).mapText refolded).map flowTokens) := by
  obtain ⟨name, value⟩ := first
  set gap := (Json.Layout.pretty.gap k).map unify
  have hgap : gap.all isSpace = true := gap_space k
  have htext : written k (.record ((name, value) :: rest)) ++ more =
      '\x7b' :: ((Json.Layout.pretty.gap (k + 1)).map unify ++ ((Json.quoted name).map unify ++
        ':' :: ' ' :: (written (k + 1) value ++
          ((Json.writeMembers .pretty k rest).map unify ++ (gap ++ '\x7d' :: more))))) := by
    simp only [written, Json.write, List.map_append, List.map_cons, List.cons_append, List.append_assoc,
      List.map_nil, List.nil_append]
    rfl
  rw [htext] at h
  obtain ⟨t, hopen, ht, hka⟩ := h.opened .brace
  rw [Scan.Inside.gap (gap_space (k + 1))] at ht
  have hends : Scan.Ends (gap ++ '\x7d' :: more) := ends_gap hgap (ends_of_cons (Or.inr (Or.inr rfl)))
  have hfirst := passes_field (hnames _ List.mem_cons_self) (hscans _ List.mem_cons_self)
    (ends_fields rest hends) hka ht
  have hrest := passes_fields rest (fun f hf => hnames f (List.mem_cons_of_mem _ hf))
    (fun f hf => hscans f (List.mem_cons_of_mem _ hf)) depth k hends
  have hclose : ∀ t : Scan, t.Inside (depth + 1) (gap ++ '\x7d' :: more) →
      t.Passes depth more (some [.flowMappingEnd]) := by
    intro t ht
    rw [Scan.Inside.gap hgap] at ht
    obtain ⟨u, hu, hinside⟩ := ht.closed .brace
    exact .past hu hinside
  have hall := hopen.passes (hfirst.andThen fun t ht => (hrest t ht).andThen hclose)
  have hfound : ((Data.record ((name, value) :: rest)).mapText refolded).map flowTokens =
      ((((value.mapText refolded).map flowTokens).map ([.key, .scalar .double name, .value] ++ ·)).bind fun us =>
        (((Data.mapFields refolded rest).map laterFields).bind fun vs =>
          (some [.flowMappingEnd]).map (vs ++ ·)).map (us ++ ·)).map ([.flowMappingStart] ++ ·) := by
    rw [Data.mapText, Data.mapFields]
    cases value.mapText refolded with
    | none => rfl
    | some value => cases Data.mapFields refolded rest <;> rfl
  rw [hfound]
  exact hall

theorem scansFlow_atom (h : Atom d) : ScansFlow d := by
  cases h with
  | null =>
    exact scansFlow_word ['n', 'u', 'l', 'l'] rfl (by decide) (fun _ => rfl) (by decide) (by decide)
  | flag b =>
    cases b with
    | true => exact scansFlow_word ['t', 'r', 'u', 'e'] rfl (by decide) (fun _ => rfl) (by decide) (by decide)
    | false =>
      exact scansFlow_word ['f', 'a', 'l', 's', 'e'] rfl (by decide) (fun _ => rfl) (by decide) (by decide)
  | count n =>
    refine scansFlow_word (Nat.toDigits 10 n) rfl rfl (fun _ => rfl) Nat.toDigits_ne_nil ?_
    refine List.all_eq_true.2 fun ch hch => ?_
    have hdigit := Nat.isDigit_of_mem_toDigits (by decide) (by decide) hch
    simp [Char.isAlphanum, hdigit]
  | text s => exact scansFlow_text s
  | empty =>
    intro s depth k more _ h
    obtain ⟨t, hopen, ht, -⟩ := Scan.Inside.opened h .bracket
    obtain ⟨u, hclose, hu⟩ := Scan.Inside.closed ht .bracket
    exact .past (hopen.trans hclose) hu

/-- **A value is passed, in front of whatever ends it.** -/
theorem Writable.scansFlow (h : Writable d) : ScansFlow d := by
  induction h with
  | atom h => exact scansFlow_atom h
  | list _ _ ih =>
    intro s depth k more _ h
    exact passes_list ih h
  | record hname _ ih =>
    intro s depth k more _ h
    exact passes_record hname ih h

/-! ## Characters -/

theorem clean_escapeChar {c : Char} (h : isEscaped c = true) : Clean (Json.escapeChar c) := by
  have hdigit : ∀ k < 16, isSpecial (Text.hexDigit k) = false := by decide
  rw [isEscaped] at h
  unfold Json.escapeChar
  split_ifs with h₁ h₂ h₃ h₄ h₅ h₆ h₇ h₈
  iterate 7 exact clean_of_any rfl
  · have hhigh := hdigit (c.toNat / 16) (by omega)
    have hlow := hdigit (c.toNat % 16) (by omega)
    exact clean_cons.2 ⟨rfl, clean_cons.2 ⟨rfl, clean_cons.2 ⟨rfl, clean_cons.2 ⟨rfl,
      clean_cons.2 ⟨hhigh, clean_cons.2 ⟨hlow, clean_nil⟩⟩⟩⟩⟩⟩
  · simp [h₁, h₂, h₈] at h

section

variable {p : Char → Bool} (hp : ∀ ch, isSpecial ch = false → p ch = true)

include hp

theorem all_clean (h : Clean cs) : cs.all p = true := List.all_eq_true.2 fun ch hch => hp ch (h ch hch)

theorem all_gap (k : ℕ) : (Json.Layout.pretty.gap k).all p = true := by
  refine all_clean hp (clean_cons.2 ⟨rfl, ?_⟩)
  exact fun ch hch => by rw [List.eq_of_mem_replicate hch]; rfl

theorem all_escapeChar (c : Char) : (Json.escapeChar c).all p = (isEscaped c || p c) := by
  cases hc : isEscaped c with
  | true =>
    rw [Bool.true_or]
    exact all_clean hp (clean_escapeChar hc)
  | false =>
    rw [escapeChar_eq hc]
    simp

theorem all_quoted (s : String) : (Json.quoted s).all p = s.toList.all fun c => isEscaped c || p c := by
  have hquote : p '"' = true := hp '"' rfl
  rw [Json.quoted, List.all_append, List.all_cons, List.all_flatMap]
  simp only [hquote, all_escapeChar hp, List.all_cons, List.all_nil, Bool.true_and, Bool.and_true]

theorem all_name {name : String} (h : Scan.IsName name) : (Json.quoted name).all p = true := by
  rw [all_quoted hp, List.all_eq_true]
  intro ch hch
  rw [hp ch (Scan.plain_of_word (h.word ch hch)).special, Bool.or_true]

theorem all_items {items : List Data} (k : ℕ) (h : ∀ d ∈ items, ∀ k, (Json.write .pretty k d).all p =
    d.texts.all fun s => s.toList.all fun c => isEscaped c || p c) :
    (Json.writeItems .pretty k items).all p =
      (Data.itemTexts items).all fun s => s.toList.all fun c => isEscaped c || p c := by
  have hcomma : p ',' = true := hp ',' rfl
  induction items with
  | nil => rfl
  | cons item rest ih =>
    rw [Json.writeItems, Data.itemTexts, List.all_append, List.all_append, List.all_append,
      h item List.mem_cons_self, ih fun d hd => h d (List.mem_cons_of_mem _ hd)]
    simp only [List.all_cons, hcomma, all_gap hp, Bool.true_and]

theorem all_colon : (':' :: Json.Layout.pretty.afterColon).all p = true := all_clean hp (clean_of_any rfl)

theorem all_fields {fields : List (String × Data)} (k : ℕ) (hname : ∀ f ∈ fields, Scan.IsName f.1)
    (h : ∀ f ∈ fields, ∀ k, (Json.write .pretty k f.2).all p =
      f.2.texts.all fun s => s.toList.all fun c => isEscaped c || p c) :
    (Json.writeMembers .pretty k fields).all p =
      (Data.fieldTexts fields).all fun s => s.toList.all fun c => isEscaped c || p c := by
  have hcomma : p ',' = true := hp ',' rfl
  induction fields with
  | nil => rfl
  | cons field rest ih =>
    have hrest := ih (fun f hf => hname f (List.mem_cons_of_mem _ hf))
      fun f hf => h f (List.mem_cons_of_mem _ hf)
    rw [Json.writeMembers, Data.fieldTexts, List.all_append, List.all_append, List.all_append, List.all_append,
      List.all_append, h field List.mem_cons_self, hrest, all_name hp (hname field List.mem_cons_self),
      all_colon hp, List.all_cons, hcomma, all_gap hp]
    rfl

/-- **The characters of a text** pass a test if those of all texts in it do, escapes aside. -/
theorem all_write (h : Writable d) : ∀ k, (Json.write .pretty k d).all p =
    d.texts.all fun s => s.toList.all fun c => isEscaped c || p c := by
  induction h with
  | atom h =>
    intro k
    cases h with
    | null => exact all_clean hp (clean_of_any rfl)
    | flag b => cases b <;> exact all_clean hp (clean_of_any rfl)
    | count n =>
      refine all_clean hp fun ch hch => ?_
      have hdigit := Nat.isDigit_of_mem_toDigits (by decide) (by decide) hch
      exact (Scan.plain_of_word (Or.inl (by rw [Char.isAlphanum, hdigit, Bool.or_true]))).special
    | text s =>
      rw [Json.write, all_quoted hp, Data.texts, List.all_cons, List.all_nil, Bool.and_true]
    | empty => exact all_clean hp (clean_of_any rfl)
  | list _ _ ih =>
    intro k
    have hrest := all_items hp k fun d hd => ih d (List.mem_cons_of_mem _ hd)
    have hopen : p '[' = true := hp '[' rfl
    have hclose : [']'].all p = true := all_clean hp (clean_of_any rfl)
    rw [Json.write, Data.texts, Data.itemTexts, List.all_append, List.all_append, List.all_append,
      List.all_append, List.all_append, ih _ List.mem_cons_self, hrest, hclose, List.all_cons, hopen, all_gap hp,
      all_gap hp, Bool.and_true, Bool.and_true]
    rfl
  | @record first rest hname _ ih =>
    intro k
    have hrest := all_fields hp k (fun f hf => hname f (List.mem_cons_of_mem _ hf))
      fun f hf => ih f (List.mem_cons_of_mem _ hf)
    have hopen : p '\x7b' = true := hp '\x7b' rfl
    have hclose : ['\x7d'].all p = true := all_clean hp (clean_of_any rfl)
    rw [Json.write, Data.texts, Data.fieldTexts, List.all_append, List.all_append, List.all_append,
      List.all_append, List.all_append, List.all_append, List.all_append, ih first List.mem_cons_self, hrest,
      hclose, all_name hp (hname first List.mem_cons_self), all_colon hp, List.all_cons, hopen, all_gap hp,
      all_gap hp, Bool.and_true, Bool.and_true]
    rfl

end

/-! ## Texts -/

theorem unifyBreaks_eq (h : '\r' ∉ cs) : unifyBreaks cs = cs.map unify := by
  induction cs with
  | nil => rfl
  | cons ch cs ih =>
    have hch : ch ≠ '\r' := (List.ne_of_not_mem_cons h).symm
    rw [unifyBreaks, List.map_cons, ih (List.not_mem_of_not_mem_cons h), unify]
    · simp [hch]
    · intro rest hch' _
      exact hch hch'

/-- Carriage returns are escaped. -/
theorem return_not_mem (h : Writable d) : '\r' ∉ Json.write .pretty k d := by
  have hclean : ∀ ch, isSpecial ch = false → decide (ch ≠ '\r') = true := by
    intro ch hch
    rw [decide_eq_true_eq]
    rintro rfl
    cases hch
  have hescaped : ∀ c : Char, (isEscaped c || decide (c ≠ '\r')) = true := by
    intro c
    by_cases hc : c = '\r'
    · subst hc
      rfl
    · simp [hc]
  have hall : (Json.write .pretty k d).all (fun ch => ch ≠ '\r') = true := by
    rw [all_write hclean h]
    simp only [hescaped, List.all_eq_true, implies_true]
  intro hmem
  exact of_decide_eq_true (List.all_eq_true.1 hall '\r' hmem) rfl

/-- **A record written as JSON is scanned as YAML**, with the texts that are left of its own, unless one of
them has a fault. -/
theorem scan_pretty {first : String × Data} {rest : List (String × Data)}
    (h : Writable (.record (first :: rest))) : Token.scan (Json.pretty (.record (first :: rest)) ++ "\n") =
      ((Data.record (first :: rest)).mapText reread).map fun d => flowTokens d ++ [.streamEnd] := by
  have hrecord : (∀ f ∈ first :: rest, Scan.IsName f.1) ∧ ∀ f ∈ first :: rest, ScansFlow f.2 := by
    cases h with
    | atom h => cases h
    | record hname h => exact ⟨hname, fun f hf => (h f hf).scansFlow⟩
  set d := Data.record (first :: rest)
  set chars := Json.write .pretty 0 d with hchars
  have hlist : (Json.pretty d ++ "\n").toList = chars ++ ['\n'] := by
    simp [Json.pretty, hchars]
  -- the characters that YAML refuses
  set allowed := d.texts.all fun s => s.toList.all fun c => isEscaped c || isAllowed c with hall
  have hallowed : (chars ++ ['\n']).all isAllowed = allowed := by
    rw [List.all_append, hchars, all_write (fun ch => isAllowed_of_clean) h, ← hall]
    exact Bool.and_true _
  have hguard : d.mapText reread = if allowed then d.mapText refolded else none :=
    Data.mapText_guard _ refolded d
  -- the breaks that YAML unifies
  have hreturn : '\r' ∉ chars ++ ['\n'] := by
    simpa using return_not_mem h
  have hplaced : unifyBreaks (chars ++ ['\n']) = written 0 d ++ ['\n'] := by
    rw [unifyBreaks_eq hreturn, List.map_append]
    rfl
  have hstart : ({ rest := place 0 0 0 (written 0 d ++ ['\n']) } : Scan).Inside 0 (written 0 d ++ ['\n']) :=
    ⟨rfl, rfl, by simp, 0, 0, 0, _, rfl, rfl⟩
  have hyields := (passes_record hrecord.1 hrecord.2 hstart).yields rfl rfl
  rw [Token.scan, hlist, hallowed, hguard]
  cases allowed with
  | false => rfl
  | true =>
    rw [if_pos rfl, if_pos rfl, hplaced, hyields _ (Nat.lt_succ_self _), Option.map_map]
    rfl

end Yaml

end DepGraph
