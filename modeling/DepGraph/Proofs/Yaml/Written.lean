import DepGraph.Proofs.Yaml.Scan

/-!
# Written data is scanned

The tokens of data, and the scan that finds them in what is written for it.

* `Writable`: data whose fields have names and whose lists hold no lists.
* `Writable.scans`: the value of a key, in front of any line that does not belong to it, and the item of a
  list.
* `scan_write`: a whole text.
-/

namespace DepGraph.Yaml

variable {i l col c k : ℕ} {cs more : List Char} {ch : Char} {d : Data} {s : Scan}

mutual

/-- The tokens of a value. -/
def valueTokens : Data → List Token
  | .null => [.scalar .plain "null"]
  | .flag true => [.scalar .plain "true"]
  | .flag false => [.scalar .plain "false"]
  | .count n => [.scalar .plain (String.ofList (Nat.toDigits 10 n))]
  | .text s => [.scalar (styleOf s) s]
  | .list [] => [.flowSequenceStart, .flowSequenceEnd]
  | .list (first :: rest) => itemsTokens (first :: rest)
  | .record fields => .blockMappingStart :: (fieldsTokens fields ++ [.blockEnd])

def itemsTokens : List Data → List Token
  | [] => []
  | item :: rest => .blockEntry :: (valueTokens item ++ itemsTokens rest)

def fieldsTokens : List (String × Data) → List Token
  | [] => []
  | (name, value) :: rest =>
    [.key, .scalar .plain name, .value] ++ (valueTokens value ++ fieldsTokens rest)

end

/-- Data that is written on one line. -/
inductive Atom : Data → Prop where
  | null : Atom .null
  | flag (b : Bool) : Atom (.flag b)
  | count (n : ℕ) : Atom (.count n)
  | text (s : String) : Atom (.text s)
  | empty : Atom (.list [])

/-- Data that can be the item of a list: it stands on one line, or is a record. -/
inductive IsItem : Data → Prop where
  | atom {d : Data} (h : Atom d) : IsItem d
  | record (first : String × Data) (rest : List (String × Data)) : IsItem (.record (first :: rest))

/-- Data that the writer is made for: fields have names, no record is empty, and no list holds another. -/
inductive Writable : Data → Prop where
  | atom {d : Data} (h : Atom d) : Writable d
  | list {first : Data} {rest : List Data} (hitem : ∀ d ∈ first :: rest, IsItem d)
    (h : ∀ d ∈ first :: rest, Writable d) : Writable (.list (first :: rest))
  | record {first : String × Data} {rest : List (String × Data)}
    (hname : ∀ f ∈ first :: rest, Scan.IsName f.1) (h : ∀ f ∈ first :: rest, Writable f.2) :
    Writable (.record (first :: rest))

namespace Scan

/-! ## Values on one line -/

theorem writeItem_atom (h : Atom d) : writeItem c d = writeValue c d := by
  cases h with
  | null => rfl
  | flag b => cases b <;> rfl
  | count n => rfl
  | text s => rfl
  | empty => rfl

theorem leads_atom (h : Atom d) (i l col : ℕ) (ka : Bool) (houter : s.outer = [])
    (hindent : s.indent = c) (hcol : c ≤ col) (hnext : Next c more) : ∃ i' l',
    (s.before ka (place i l col (writeValue c d ++ more))).Leads
      ((s.emitAll (valueTokens d)).before true (resume i' l' more)) := by
  have hword : ∀ word : String, word.toList ≠ [] →
      (word.toList.all fun ch => ch.isAlphanum = true ∨ ch = '_') = true → ∃ i' l',
       (s.before ka (place i l col (' ' :: (word.toList ++ '\n' :: more)))).Leads
        ((s.emit (.scalar .plain word)).before true (resume i' l' more)) := by
    intro word hne hall
    have hword := fun ch hch => of_decide_eq_true (List.all_eq_true.1 hall ch hch)
    obtain ⟨i', l', hlead⟩ :=
      leads_word (i + 1) l (col + 1) ka houter hindent (by omega) hword hne hnext
    rw [String.ofList_toList] at hlead
    exact ⟨i', l', leads_space.trans hlead⟩
  cases h with
  | null => exact hword "null" (by decide) (by decide)
  | flag b =>
    cases b with
    | true => exact hword "true" (by decide) (by decide)
    | false => exact hword "false" (by decide) (by decide)
  | count n =>
    have hdigit : ((Nat.toDigits 10 n).all fun ch => ch.isAlphanum = true ∨ ch = '_') = true := by
      refine List.all_eq_true.2 fun ch hch => ?_
      have hdigit := Nat.isDigit_of_mem_toDigits (by decide) (by decide) hch
      simp [Char.isAlphanum, hdigit]
    have h := hword (String.ofList (Nat.toDigits 10 n))
    rw [String.toList_ofList] at h
    obtain ⟨i', l', hlead⟩ := h Nat.toDigits_ne_nil hdigit
    have hvalue : writeValue c (.count n) ++ more = ' ' :: (Nat.toDigits 10 n ++ '\n' :: more) := by
      change ' ' :: (Nat.toDigits 10 n ++ ['\n'] ++ more) = _
      rw [List.append_assoc]
      rfl
    rw [hvalue]
    exact ⟨i', l', hlead⟩
  | text text =>
    obtain ⟨i', l', hlead⟩ := leads_text (i + 1) l (col + 1) ka houter hindent (by omega) hnext text
    exact ⟨i', l', leads_space.trans hlead⟩
  | empty =>
    obtain ⟨i', l', hlead⟩ :=
      leads_empty (i + 1) l (col + 1) ka houter (by omega) hnext
    exact ⟨i', l', leads_space.trans hlead⟩

/-! ## Collections -/

/-- The value is found after its colon. -/
def ScansValue (d : Data) : Prop :=
  ∀ (s : Scan) (i l col c : ℕ) (more : List Char), s.outer = [] → s.indent = c → c < col →
    Next c more → ∃ i' l', (s.before false (place i l col (writeValue c d ++ more))).Leads
      ((s.emitAll (valueTokens d)).before true (resume i' l' more))

/-- The item is found after its dash. -/
def ScansItem (d : Data) : Prop :=
  ∀ (s : Scan) (i l c : ℕ) (more : List Char), s.outer = [] → s.indent = c → Next c more →
    ∃ i' l', (s.before true (place i l (c + 1) (writeItem c d ++ more))).Leads
      ((s.emitAll (valueTokens d)).before true (resume i' l' more))

theorem writeItem_space (h : IsItem d) : ∃ tail, writeItem c d = ' ' :: tail := by
  cases h with
  | atom h =>
    cases h with
    | null => exact ⟨_, rfl⟩
    | flag b => cases b <;> exact ⟨_, rfl⟩
    | count n => exact ⟨_, rfl⟩
    | text s => exact ⟨_, rfl⟩
    | empty => exact ⟨_, rfl⟩
  | record first rest => exact ⟨_, rfl⟩

theorem blankAhead_writeValue (d : Data) : blankAhead (place i l col (writeValue c d ++ more)) = true := by
  cases d with
  | null => rfl
  | flag b => cases b <;> rfl
  | count n => rfl
  | text s => rfl
  | list items => cases items <;> rfl
  | record fields => cases fields <;> rfl

theorem next_items (hnext : Next c more) (items : List Data) : Next c (writeItems c items ++ more) := by
  cases items with
  | nil => exact hnext
  | cons item rest =>
    rw [writeItems, List.append_assoc, List.append_assoc]
    exact .token (Nat.le_refl c) (by decide)

/-- The fields of a record start a line of their own. -/
theorem fields_line {field : String × Data} (hname : IsName field.1) (rest : List (String × Data)) :
    Next k (pad k ++ (writeFields k (field :: rest) ++ more)) ∧ ∀ i l,
      resume i l (pad k ++ (writeFields k (field :: rest) ++ more)) =
        place (i + k) l k (writeFields k (field :: rest) ++ more) := by
  obtain ⟨name, value⟩ := field
  obtain ⟨ch, letters, hcs⟩ := List.exists_cons_of_ne_nil hname.nonempty
  have hch : Plain ch := plain_of_word (hname.word ch (by rw [hcs]; exact List.mem_cons_self))
  obtain ⟨tail, hhead⟩ : ∃ tail, writeFields k ((name, value) :: rest) = ch :: tail := by
    cases rest with
    | nil => exact ⟨_, by rw [writeFields, hcs]; rfl⟩
    | cons next rest => exact ⟨_, by rw [writeFields, hcs]; rfl⟩
  rw [hhead, List.cons_append]
  exact ⟨.token (Nat.le_refl k) hch.solid, fun i l => resume_pad hch.solid⟩

/-- A key with its value. -/
theorem leads_field {name : String} (hname : IsName name) (hvalue : ScansValue d) (i l : ℕ)
    (houter : s.outer = []) (hindent : s.indent ≤ k) (hnext : Next k more) : ∃ i' l',
    (s.before true (place i l k (name.toList ++ ':' :: (writeValue k d ++ more)))).Leads
      (((s.openBlock k .blockMappingStart).emitAll
        ([.key, .scalar .plain name, .value] ++ valueTokens d)).before true (resume i' l' more)) := by
  obtain ⟨i₁, col₁, hcol, hkey⟩ :=
    leads_key i l houter hindent hname fun _ _ => blankAhead_writeValue d
  have hopened : (s.openBlock k .blockMappingStart).indent = k := openBlock_indent houter hindent _
  obtain ⟨i', l', hlead⟩ := hvalue
    ((s.openBlock k .blockMappingStart).emitAll [.key, .scalar .plain name, .value])
    i₁ l col₁ k more (by simpa using houter) (by simpa using hopened) hcol hnext
  rw [emitAll_append]
  exact ⟨i', l', hkey.trans hlead⟩

theorem leads_fields (fields : List (String × Data)) (hne : fields ≠ [])
    (h : ∀ f ∈ fields, IsName f.1 ∧ ScansValue f.2) : ∀ (s : Scan) (i l : ℕ), s.outer = [] →
    s.indent ≤ k → Next k more → ∃ i' l',
    (s.before true (place i l k (writeFields k fields ++ more))).Leads
      (((s.openBlock k .blockMappingStart).emitAll (fieldsTokens fields)).before true
        (resume i' l' more)) := by
  induction fields with
  | nil => exact absurd rfl hne
  | cons field rest ih =>
    obtain ⟨name, value⟩ := field
    obtain ⟨hname, hvalue⟩ : IsName name ∧ ScansValue value := h _ List.mem_cons_self
    intro s i l houter hindent hnext
    cases rest with
    | nil =>
      obtain ⟨i', l', hlead⟩ := leads_field hname hvalue i l houter hindent hnext
      refine ⟨i', l', ?_⟩
      rw [writeFields, List.append_assoc, fieldsTokens, fieldsTokens, List.append_nil]
      exact hlead
    | cons next rest =>
      have hrest : ∀ f ∈ next :: rest, IsName f.1 ∧ ScansValue f.2 :=
        fun f hf => h f (List.mem_cons_of_mem _ hf)
      obtain ⟨hline, hresume⟩ := fields_line (k := k) (hrest next List.mem_cons_self).1 rest
      obtain ⟨i₁, l₁, hfirst⟩ := leads_field hname hvalue i l houter hindent hline
      rw [hresume] at hfirst
      have hopened : (s.openBlock k .blockMappingStart).indent = k := openBlock_indent houter hindent _
      -- the first key opened the mapping, so the next one finds it open
      set s₁ := (s.openBlock k .blockMappingStart).emitAll
        ([.key, .scalar .plain name, .value] ++ valueTokens value) with hs₁
      have hindent₁ : s₁.indent = k := by rw [hs₁, emitAll_indent, hopened]
      have houter₁ : s₁.outer = [] := by rw [hs₁, emitAll_outer, openBlock_outer, houter]
      obtain ⟨i', l', hlater⟩ :=
        ih (List.cons_ne_nil _ _) hrest s₁ (i₁ + k) l₁ houter₁ (by omega) hnext
      rw [openBlock_same hindent₁, hs₁, ← emitAll_append, List.append_assoc] at hlater
      refine ⟨i', l', ?_⟩
      rw [writeFields, fieldsTokens]
      simp only [List.append_assoc, List.cons_append] at hfirst ⊢
      exact hfirst.trans hlater

theorem leads_items (items : List Data) (h : ∀ d ∈ items, ScansItem d)
    (hspace : ∀ d ∈ items, ∃ tail, writeItem c d = ' ' :: tail) : ∀ (s : Scan) (i l : ℕ), s.outer = [] →
    s.indent = c → Next c more → ∃ i' l',
    (s.before true (resume i l (writeItems c items ++ more))).Leads
      ((s.emitAll (itemsTokens items)).before true (resume i' l' more)) := by
  induction items with
  | nil =>
    intro s i l _ _ _
    exact ⟨i, l, .refl _⟩
  | cons item rest ih =>
    intro s i l houter hindent hnext
    obtain ⟨tail, htail⟩ := hspace item List.mem_cons_self
    -- the dash stands at the column of the key above, and opens nothing
    have hdash : resume i l (writeItems c (item :: rest) ++ more) =
        place (i + c) l c ('-' :: (writeItem c item ++ (writeItems c rest ++ more))) := by
      rw [writeItems, List.append_assoc, List.append_assoc, List.cons_append,
        resume_pad (by decide)]
    have hentry : (s.before true (resume i l (writeItems c (item :: rest) ++ more))).Leads
        ((s.emit .blockEntry).before true
          (place (i + c + 1) l (c + 1) (writeItem c item ++ (writeItems c rest ++ more)))) := by
      rw [hdash, htail, List.cons_append]
      exact leads_entry houter hindent
    obtain ⟨i₁, l₁, hitem⟩ := h item List.mem_cons_self (s.emit .blockEntry) (i + c + 1) l c _ houter
      hindent (next_items hnext rest)
    obtain ⟨i', l', hrest⟩ := ih (fun d hd => h d (List.mem_cons_of_mem _ hd))
      (fun d hd => hspace d (List.mem_cons_of_mem _ hd))
      ((s.emit .blockEntry).emitAll (valueTokens item)) i₁ l₁
      ((emitAll_outer _).trans houter) ((emitAll_indent _).trans hindent) hnext
    refine ⟨i', l', (hentry.trans hitem).trans ?_⟩
    rw [itemsTokens, ← List.singleton_append, emitAll_append, emitAll_append]
    exact hrest

/-- The fields of a record, up to the line after it. -/
theorem leads_record {first : String × Data} {rest : List (String × Data)}
    (h : ∀ f ∈ first :: rest, IsName f.1 ∧ ScansValue f.2) (i l : ℕ) (houter : s.outer = [])
    (hindent : s.indent = c) (hnext : Next c more) : ∃ i' l',
    (s.before true (place i l (c + 2) (writeFields (c + 2) (first :: rest) ++ more))).Leads
      ((s.emitAll (valueTokens (.record (first :: rest)))).before true (resume i' l' more)) := by
  obtain ⟨i', l', hlead⟩ := leads_fields (k := c + 2) (first :: rest) (List.cons_ne_nil _ _) h s i l
    houter (by omega) (hnext.mono (by omega))
  set opened := (s.openBlock (c + 2) .blockMappingStart).emitAll (fieldsTokens (first :: rest)) with hopened
  have houter' : opened.outer = [] := by rw [hopened, emitAll_outer, openBlock_outer, houter]
  -- the line that follows stands further left and closes the record
  have hclose : opened.outdent c = s.emitAll (valueTokens (.record (first :: rest))) := by
    rw [hopened, outdent_opened houter hindent (by omega), valueTokens]
  rw [← hclose]
  exact ⟨i', l', hlead.trans (leads_close houter' hnext)⟩

theorem scansItem_record {first : String × Data} {rest : List (String × Data)}
    (h : ∀ f ∈ first :: rest, IsName f.1 ∧ ScansValue f.2) : ScansItem (.record (first :: rest)) := by
  intro s i l c more houter hindent hnext
  obtain ⟨i', l', hlead⟩ := leads_record h (i + 1) l houter hindent hnext
  exact ⟨i', l', leads_space.trans hlead⟩

theorem scansValue_record {first : String × Data} {rest : List (String × Data)}
    (h : ∀ f ∈ first :: rest, IsName f.1 ∧ ScansValue f.2) : ScansValue (.record (first :: rest)) := by
  intro s i l col c more houter hindent _ hnext
  obtain ⟨hline, hresume⟩ := fields_line (k := c + 2) (h first List.mem_cons_self).1 rest
  have hstart := leads_line (s := s.before false []) i l col houter hline
  rw [hresume] at hstart
  obtain ⟨i', l', hlead⟩ := leads_record h (i + 1 + (c + 2)) (l + 1) houter hindent hnext
  have hvalue : writeValue c (.record (first :: rest)) ++ more =
      '\n' :: (pad (c + 2) ++ (writeFields (c + 2) (first :: rest) ++ more)) :=
    congrArg ('\n' :: ·) (List.append_assoc _ _ _)
  rw [hvalue]
  exact ⟨i', l', hstart.trans hlead⟩

theorem scansValue_list {first : Data} {rest : List Data} (h : ∀ d ∈ first :: rest, ScansItem d)
    (hspace : ∀ c, ∀ d ∈ first :: rest, ∃ tail, writeItem c d = ' ' :: tail) :
    ScansValue (.list (first :: rest)) := by
  intro s i l col c more houter hindent _ hnext
  have hstart := leads_line (s := s.before false []) i l col houter (next_items hnext (first :: rest))
  obtain ⟨i', l', hlead⟩ :=
    leads_items (first :: rest) h (hspace c) s (i + 1) (l + 1) houter hindent hnext
  exact ⟨i', l', hstart.trans hlead⟩

end Scan

open Scan

/-- **Every value is found after its colon, and every item of a list after its dash.** -/
theorem Writable.scans (h : Writable d) : ScansValue d ∧ (IsItem d → ScansItem d) := by
  induction h with
  | @atom d h =>
    have hitem : ScansItem d := by
      intro s i l c more houter hindent hnext
      rw [writeItem_atom h]
      exact leads_atom h i l (c + 1) true houter hindent (by omega) hnext
    refine ⟨?_, fun _ => hitem⟩
    intro s i l col c more houter hindent hcol hnext
    exact leads_atom h i l col false houter hindent (by omega) hnext
  | list hitem _ ih =>
    refine ⟨scansValue_list (fun d hd => (ih d hd).2 (hitem d hd))
      fun c d hd => writeItem_space (hitem d hd), ?_⟩
    rintro ⟨⟨⟩⟩
  | record hname _ ih =>
    have hfields := fun f hf => And.intro (hname f hf) (ih f hf).1
    exact ⟨scansValue_record hfields, fun _ => scansItem_record hfields⟩

/-! ## Characters -/

/-- Only characters that are written as they are, and line feeds. -/
def Clean (cs : List Char) : Prop := ∀ ch ∈ cs, isSpecial ch = false

@[simp] theorem clean_nil : Clean [] := fun _ h => nomatch h

@[simp] theorem clean_cons : Clean (ch :: cs) ↔ isSpecial ch = false ∧ Clean cs := List.forall_mem_cons

@[simp] theorem clean_append : Clean (cs ++ more) ↔ Clean cs ∧ Clean more := List.forall_mem_append

theorem clean_of_any (h : cs.any isSpecial = false) : Clean cs := by
  intro ch hch
  simpa using List.any_eq_false.1 h ch hch

@[simp] theorem clean_pad (k : ℕ) : Clean (pad k) := by
  intro ch hch
  rw [List.eq_of_mem_replicate hch]
  rfl

theorem clean_indentLines (k : ℕ) (lineStart : Bool) (h : Clean cs) :
    Clean (indentLines k lineStart cs) := by
  induction cs generalizing lineStart with
  | nil => exact h
  | cons ch cs ih =>
    obtain ⟨hch, hcs⟩ := clean_cons.1 h
    rw [indentLines]
    split_ifs
    · exact clean_cons.2 ⟨hch, ih true hcs⟩
    · exact clean_append.2 ⟨clean_pad k, clean_cons.2 ⟨hch, ih false hcs⟩⟩
    · exact clean_cons.2 ⟨hch, ih false hcs⟩

theorem clean_hexDigits (width n : ℕ) : Clean (hexDigits width n) := by
  have hdigit : ∀ d < 16, isSpecial d.digitChar.toUpper = false := by decide
  have hdigits : Clean ((Nat.toDigits 16 n).map Char.toUpper) := by
    induction n using Nat.base_induction 16 (by omega) with
    | single d hd =>
      rw [Nat.toDigits_of_lt_base hd, List.map_singleton]
      simp [hdigit d hd]
    | digit n d hd hn ih =>
      rw [← Nat.toDigits_append_toDigits (by omega) hn hd, List.map_append, Nat.toDigits_of_lt_base hd]
      simp [ih, hdigit d hd]
  rw [hexDigits, List.leftpad, clean_append]
  refine ⟨?_, hdigits⟩
  intro ch hch
  rw [List.eq_of_mem_replicate hch]
  rfl

theorem clean_escapeDouble (ch : Char) : Clean (escapeDouble ch) := by
  rw [escapeDouble]
  split
  · split
    · rename_i letter e hfind
      -- a tab has two letters, of which the first is chosen
      have hletters : ∀ p ∈ escapes, isSpecial p.1 = false ∨ p = ('\t', '\t') := by decide
      rcases hletters _ (List.mem_of_find?_eq_some hfind) with hletter | hpair
      · simp [hletter, show isSpecial '\\' = false from rfl]
      · cases hpair
        have hch : '\t' = ch := by simpa using List.find?_some hfind
        rw [← hch] at hfind
        cases hfind
    · split_ifs
      · exact clean_cons.2 ⟨rfl, clean_cons.2 ⟨rfl, clean_hexDigits _ _⟩⟩
      · exact clean_cons.2 ⟨rfl, clean_cons.2 ⟨rfl, clean_hexDigits _ _⟩⟩
      · exact clean_cons.2 ⟨rfl, clean_cons.2 ⟨rfl, clean_hexDigits _ _⟩⟩
  · rename_i hescape
    simp only [not_or, Bool.not_eq_true] at hescape
    exact clean_cons.2 ⟨hescape.2.2.2, clean_nil⟩

theorem clean_indentMark (cs : List Char) : Clean (indentMark cs) := by
  cases cs with
  | nil => exact clean_nil
  | cons ch cs =>
    rw [indentMark]
    split
    · exact clean_cons.2 ⟨rfl, clean_nil⟩
    · exact clean_nil

theorem clean_chompingMark (cs : List Char) : Clean (chompingMark cs) := by
  rw [chompingMark]
  split
  · exact clean_cons.2 ⟨rfl, clean_nil⟩
  · split_ifs
    · exact clean_cons.2 ⟨rfl, clean_nil⟩
    · exact clean_cons.2 ⟨rfl, clean_nil⟩
    · exact clean_nil

theorem clean_lineEnd (cs : List Char) : Clean (lineEnd cs) := by
  rw [lineEnd]
  split
  · exact clean_nil
  · exact clean_cons.2 ⟨rfl, clean_nil⟩

theorem clean_writeText (k : ℕ) (text : String) : Clean (writeText k text) := by
  have hspec := styleOf_spec text
  have hend : Clean ['\n'] := clean_cons.2 ⟨rfl, clean_nil⟩
  rw [writeText]
  cases hstyle : styleOf text with
  | plain =>
    rw [hstyle] at hspec
    have hplain := hspec.2
    simp only [allowsPlain, Bool.and_eq_true, Bool.not_eq_true'] at hplain
    exact clean_append.2 ⟨clean_of_any hplain.1.2, hend⟩
  | single =>
    rw [hstyle] at hspec
    have hsingle := hspec.1
    simp only [allowsSingle, Bool.and_eq_true, Bool.not_eq_true'] at hsingle
    have hdoubled : Clean (text.toList.flatMap doubledQuote) := by
      intro ch hch
      obtain ⟨d, hd, hch⟩ := List.mem_flatMap.1 hch
      have hquote : Clean ['\'', '\''] := clean_cons.2 ⟨rfl, clean_cons.2 ⟨rfl, clean_nil⟩⟩
      rw [doubledQuote] at hch
      split at hch
      · exact hquote ch hch
      · rw [List.mem_singleton.1 hch]
        exact clean_of_any hsingle.2 d hd
    refine clean_append.2 ⟨clean_cons.2 ⟨rfl, clean_indentLines _ _ ?_⟩, hend⟩
    exact clean_append.2 ⟨hdoubled, clean_cons.2 ⟨rfl, clean_nil⟩⟩
  | double =>
    have hescaped : Clean (text.toList.flatMap escapeDouble) := by
      intro ch hch
      obtain ⟨d, -, hch⟩ := List.mem_flatMap.1 hch
      exact clean_escapeDouble d ch hch
    exact clean_append.2 ⟨clean_cons.2 ⟨rfl, hescaped⟩, clean_cons.2 ⟨rfl, hend⟩⟩
  | literal =>
    rw [hstyle] at hspec
    simp only [allowsLiteral, Bool.and_eq_true, Bool.not_eq_true'] at hspec
    have hlines := clean_indentLines k true (clean_of_any hspec.2)
    have hmarks : Clean ('|' :: indentMark text.toList ++ chompingMark text.toList) :=
      clean_append.2 ⟨clean_cons.2 ⟨rfl, clean_indentMark _⟩, clean_chompingMark _⟩
    exact clean_append.2 ⟨clean_append.2 ⟨hmarks, clean_cons.2 ⟨rfl, hlines⟩⟩, clean_lineEnd _⟩
  | folded =>
    rw [hstyle] at hspec
    exact hspec.elim

theorem clean_writeAtom (h : Atom d) : Clean (writeValue c d) := by
  cases h with
  | null => exact clean_of_any rfl
  | flag b => cases b <;> exact clean_of_any rfl
  | count n =>
    have hdigits : Clean (Nat.toDigits 10 n) := by
      intro ch hch
      have hdigit := Nat.isDigit_of_mem_toDigits (by decide) (by decide) hch
      exact (plain_of_word (Or.inl (by rw [Char.isAlphanum, hdigit, Bool.or_true]))).special
    exact clean_cons.2 ⟨rfl, clean_append.2 ⟨hdigits, clean_cons.2 ⟨rfl, clean_nil⟩⟩⟩
  | text s => exact clean_cons.2 ⟨rfl, clean_writeText _ s⟩
  | empty => exact clean_of_any rfl

theorem clean_writeItems {items : List Data} (h : ∀ d ∈ items, Clean (writeItem c d)) :
    Clean (writeItems c items) := by
  induction items with
  | nil => exact clean_nil
  | cons item rest ih =>
    have hitem := h item List.mem_cons_self
    have hrest := ih fun d hd => h d (List.mem_cons_of_mem _ hd)
    rw [writeItems]
    exact clean_append.2 ⟨clean_append.2 ⟨clean_pad c, clean_cons.2 ⟨rfl, hitem⟩⟩, hrest⟩

theorem clean_writeFields {fields : List (String × Data)} (hname : ∀ f ∈ fields, IsName f.1)
    (h : ∀ f ∈ fields, Clean (writeValue k f.2)) : Clean (writeFields k fields) := by
  induction fields with
  | nil => exact clean_nil
  | cons field rest ih =>
    obtain ⟨name, value⟩ := field
    have hletters : Clean name.toList := fun ch hch =>
      (plain_of_word ((hname _ List.mem_cons_self).word ch hch)).special
    have hfield : Clean (name.toList ++ ':' :: writeValue k value) :=
      clean_append.2 ⟨hletters, clean_cons.2 ⟨rfl, h _ List.mem_cons_self⟩⟩
    have hrest := ih (fun f hf => hname f (List.mem_cons_of_mem _ hf))
      fun f hf => h f (List.mem_cons_of_mem _ hf)
    cases rest with
    | nil => exact hfield
    | cons next rest => exact clean_append.2 ⟨clean_append.2 ⟨hfield, clean_pad k⟩, hrest⟩

theorem Writable.clean (h : Writable d) :
    (∀ c, Clean (writeValue c d)) ∧ (IsItem d → ∀ c, Clean (writeItem c d)) := by
  induction h with
  | atom h =>
    refine ⟨fun c => clean_writeAtom h, fun _ c => ?_⟩
    rw [writeItem_atom h]
    exact clean_writeAtom h
  | list hitem _ ih =>
    refine ⟨fun c => clean_cons.2 ⟨rfl, clean_writeItems fun d hd => (ih d hd).2 (hitem d hd) c⟩, ?_⟩
    rintro ⟨⟨⟩⟩
  | record hname _ ih =>
    have hfields := fun k => clean_writeFields hname fun f hf => (ih f hf).1 k
    exact ⟨fun c => clean_cons.2 ⟨rfl, clean_append.2 ⟨clean_pad _, hfields _⟩⟩,
      fun _ c => clean_cons.2 ⟨rfl, hfields _⟩⟩

theorem isAllowed_of_clean (h : isSpecial ch = false) : isAllowed ch = true := by
  have hvalid : ch.toNat < 0xd800 ∨ 0xdfff < ch.toNat ∧ ch.toNat < 0x110000 := ch.valid
  by_cases hfeed : ch = '\n'
  · rw [hfeed]
    rfl
  · simp [isSpecial, hfeed] at h
    simp [isAllowed]
    omega

theorem unifyBreaks_clean (h : Clean cs) : unifyBreaks cs = cs := by
  induction cs with
  | nil => rfl
  | cons ch cs ih =>
    obtain ⟨hch, hcs⟩ := clean_cons.1 h
    have hreturn : ch ≠ '\r' := by
      rintro rfl
      cases hch
    have hnext : ch ≠ nextLine := by
      rintro rfl
      cases hch
    rw [unifyBreaks, if_neg (by simp [hreturn, hnext]), ih hcs]
    intro rest hch' _
    exact hreturn hch'

/-! ## Texts -/

theorem skip_comment (ka : Bool) (more : List Char) (hcs : cs.any isBreak = false) (l : ℕ) :
    ∀ (i col : ℕ), ∃ i',
    skipBlank false ka true (place i l col (cs ++ '\n' :: more)) =
      skipBlank false true false (place i' (l + 1) 0 more) := by
  induction cs with
  | nil =>
    intro i col
    refine ⟨i + 1, ?_⟩
    rw [List.nil_append, place_newline, skipBlank, if_pos (by simp), Bool.not_false, Bool.or_true]
  | cons ch cs ih =>
    intro i col
    rw [List.any_cons, Bool.or_eq_false_iff] at hcs
    obtain ⟨hch, hcs⟩ := hcs
    obtain ⟨i', hskip⟩ := ih hcs (i + ch.utf8Size) (col + 1)
    refine ⟨i', ?_⟩
    rw [List.cons_append, place_cons hch, skipBlank, if_neg (by simp [hch]), if_pos rfl, hskip]

/-- The tokens of a record that is all there is. -/
theorem yields_record {first : String × Data} {rest : List (String × Data)}
    (h : ∀ f ∈ first :: rest, IsName f.1 ∧ ScansValue f.2) (i l : ℕ) :
    ({ rest := place i l 0 (writeFields 0 (first :: rest)) } : Scan).Yields
      (some (valueTokens (.record (first :: rest)) ++ [.streamEnd])) := by
  obtain ⟨i', l', hlead⟩ := leads_fields (k := 0) (first :: rest) (List.cons_ne_nil _ _) h { rest := [] }
    i l rfl (by decide) .done
  rw [List.append_nil] at hlead
  refine hlead _ ?_
  intro fuel hfuel
  obtain ⟨fuel, rfl⟩ : ∃ m, fuel = m + 1 := ⟨fuel - 1, by omega⟩
  -- the end of the text closes the record
  rw [run_end rfl, fetchBoundary, outdent_before, outdent_opened rfl rfl (by decide), ← valueTokens]
  change some ((Token.streamEnd :: (Scan.emitAll { rest := [] } _).tokens.reversed).reverse) = _
  rw [reversed_emitAll, List.reverse_cons, List.reverse_append, List.reverse_reverse]
  rfl

/-- **The tokens of a record, written after a comment, are found in its text.** -/
theorem scan_write {first : String × Data} {rest : List (String × Data)} {comment : List Char}
    (hclean : Clean comment) (hline : comment.any isBreak = false)
    (h : Writable (.record (first :: rest))) :
    Token.scan (String.ofList ('#' :: (comment ++ '\n' :: writeFields 0 (first :: rest)))) =
      some (valueTokens (.record (first :: rest)) ++ [.streamEnd]) := by
  set fields := writeFields 0 (first :: rest) with hfields
  have hrecord : Clean fields ∧ ∀ f ∈ first :: rest, IsName f.1 ∧ ScansValue f.2 := by
    cases h with
    | atom h => cases h
    | record hname h =>
      exact ⟨clean_writeFields hname fun f hf => (h f hf).clean.1 0,
        fun f hf => ⟨hname f hf, (h f hf).scans.1⟩⟩
  obtain ⟨hwritten, hscans⟩ := hrecord
  -- no character is refused, and no line break is changed
  have hall : Clean ('#' :: (comment ++ '\n' :: fields)) :=
    clean_cons.2 ⟨rfl, clean_append.2 ⟨hclean, clean_cons.2 ⟨rfl, hwritten⟩⟩⟩
  have hallowed : ('#' :: (comment ++ '\n' :: fields)).all isAllowed = true :=
    List.all_eq_true.2 fun ch hch => isAllowed_of_clean (hall ch hch)
  obtain ⟨i, hskip⟩ := skip_comment true fields hline 0 1 1
  have hstart : skipBlank false true false (place 0 0 0 ('#' :: (comment ++ '\n' :: fields))) =
      skipBlank false true false (place i 1 0 fields) := hskip
  have hlead := leads_skip (s := { rest := place 0 0 0 ('#' :: (comment ++ '\n' :: fields)) }) hstart (by
    simp only [length_place, List.length_cons, List.length_append]
    omega)
  rw [Token.scan, String.toList_ofList, hallowed, unifyBreaks_clean hall]
  exact hlead _ (yields_record hscans i 1) _ (Nat.lt_succ_self _)

end DepGraph.Yaml
