import DepGraph.Json.Writer
import DepGraph.Proofs.Yaml.Scan

/-!
# JSON strings in YAML

A string of JSON is a double-quoted scalar of YAML, but not always with the same text: JSON shows line
separators and the next-line character as they are, and YAML folds the lines that they end.

`readDouble_refold` says what is read between the quotes, whatever follows them.
-/

namespace DepGraph.Yaml

variable {c ch : Char} {cs more text : List Char} {gap : Gap} {i l col : ℕ}

/-- The characters for which a JSON string has an escape. -/
def isEscaped (c : Char) : Bool := c = '"' || c = '\\' || c.toNat < 0x20

/-- A character, once breaks are unified. -/
def unify (c : Char) : Char := if c = nextLine then '\n' else c

/-- The characters of a JSON string that end a line in YAML. -/
def breaksLine (c : Char) : Bool := c = nextLine || c = lineSeparator || c = paragraphSeparator

/-- The characters of a JSON string that are blank space in YAML. -/
def isFolded (c : Char) : Bool := c = ' ' || breaksLine c

/-- Whether a line that starts so is the mark of a document. -/
def startsMark : List Char → Bool
  | a :: b :: c :: d :: _ => a = b && b = c && (a = '-' || a = '.') && isFolded d
  | _ => false

/-- What YAML makes of the text of a JSON string: blank space is folded, and a mark at the start of a
line is a fault. `text` is in reverse. -/
def refold (text : List Char) (gap : Gap) (start : Bool) : List Char → Option (List Char)
  | [] => some (gap.folded ++ text).reverse
  | c :: rest =>
    if isEscaped c then refold (c :: (gap.folded ++ text)) .none false rest
    else if isFolded c then refold text (gap.extend (unify c)) (breaksLine c) rest
    else if start ∧ startsMark (c :: rest) then none
    else refold (c :: (gap.folded ++ text)) .none false rest

/-! ## Characters -/

theorem breaksLine_iff : breaksLine c = true ↔ c = nextLine ∨ c = lineSeparator ∨ c = paragraphSeparator := by
  simp [breaksLine, or_assoc]

theorem isBreak_unify (h : breaksLine c = true) : isBreak (unify c) = true := by
  rcases breaksLine_iff.1 h with rfl | rfl | rfl <;> rfl

theorem unify_eq (h : c ≠ nextLine) : unify c = c := if_neg h

/-- Escapes hold no line break. -/
theorem isEscaped_not_folded (h : isEscaped c = true) : isFolded c = false := by
  have hne : ∀ d, isEscaped d = false → c ≠ d := by
    rintro d hd rfl
    rw [h] at hd
    cases hd
  simp [isFolded, breaksLine, hne ' ' (by decide), hne nextLine (by decide),
    hne lineSeparator (by decide), hne paragraphSeparator (by decide)]

/-- A character with neither an escape nor a meaning as blank space. -/
structure Raw (c : Char) : Prop where
  escaped : isEscaped c = false
  folded : isFolded c = false

theorem Raw.unify_eq (h : Raw c) : unify c = c := by
  apply Yaml.unify_eq
  rintro rfl
  cases h.folded

theorem Raw.blank (h : Raw c) : isBlank c = false := by
  have hspace : c ≠ ' ' := by
    rintro rfl
    cases h.folded
  have htab : c ≠ '\t' := by
    rintro rfl
    cases h.escaped
  simp [isBlank, hspace, htab]

theorem Raw.newline (h : Raw c) : isBreak c = false := by
  by_contra hb
  rw [Bool.not_eq_false, isBreak_iff] at hb
  rcases hb with rfl | rfl | rfl
  · cases h.escaped
  · cases h.folded
  · cases h.folded

theorem Raw.quote (h : Raw c) : c ≠ '"' ∧ c ≠ '\\' := by
  constructor
  · rintro rfl
    cases h.escaped
  · rintro rfl
    cases h.escaped

theorem escapeChar_eq (h : isEscaped c = false) : Json.escapeChar c = [c] := by
  have hne : ∀ d, isEscaped d = true → c ≠ d := by
    rintro d hd rfl
    rw [hd] at h
    cases h
  have hlarge : ¬ c.toNat < 0x20 := by
    intro hlt
    simp [isEscaped, hlt] at h
  rw [Json.escapeChar, if_neg (hne _ (by decide)), if_neg (hne _ (by decide)), if_neg (hne _ (by decide)),
    if_neg (hne _ (by decide)), if_neg (hne _ (by decide)), if_neg (hne _ (by decide)),
    if_neg (hne _ (by decide)), if_neg hlarge]

/-- An escape starts with a backslash. -/
theorem escapeChar_head (h : isEscaped c = true) : ∃ tail, (Json.escapeChar c).map unify = '\\' :: tail := by
  rw [isEscaped] at h
  unfold Json.escapeChar
  split_ifs with h₁ h₂ h₃ h₄ h₅ h₆ h₇ h₈
  iterate 8 exact ⟨_, rfl⟩
  simp [h₁, h₂, h₈] at h

/-- The characters between the quotes of a JSON string, once breaks are unified. -/
def body (cs : List Char) : List Char := (cs.flatMap Json.escapeChar).map unify

theorem body_cons (c : Char) (cs : List Char) :
    body (c :: cs) = (Json.escapeChar c).map unify ++ body cs := by
  rw [body, List.flatMap_cons, List.map_append]
  rfl

theorem body_raw (h : isEscaped c = false) : body (c :: cs) = unify c :: body cs := by
  rw [body_cons, escapeChar_eq h]
  rfl

theorem unify_hexDigit {n : ℕ} (h : n < 16) : unify (Text.hexDigit n) = Text.hexDigit n := by
  apply unify_eq
  have hall : ∀ k < 16, Text.hexDigit k ≠ nextLine := by decide
  exact hall n h

/-! ## Escapes -/

theorem readDouble_begun :
    readDouble text gap .none (place i l col ('\\' :: more)) =
      readDouble (gap.folded ++ text) .none .begun (place (i + 1) l (col + 1) more) := by
  rw [place_cons rfl, readDouble]
  simp only
  rw [if_neg (by decide), Scan.documentMark_word (by simp) (by simp), if_neg (by simp),
    if_neg (by decide), if_pos trivial]
  rfl

theorem readDouble_letter {letter : Char} (hb : isBreak letter = false)
    (hdigits : escapeDigits.lookup letter = none) (hlookup : escapes.lookup letter = some c) :
    readDouble text .none .begun (place i l col (letter :: more)) =
      readDouble (c :: text) .none .none (place (i + letter.utf8Size) l (col + 1) more) := by
  rw [place_cons hb, readDouble]
  simp only [hb, Bool.false_eq_true, if_false, hdigits, hlookup]

/-- The four digits of a control character. -/
theorem readDouble_control (i l col : ℕ) (text more : List Char) (h : c.toNat < 0x20) : ∃ i',
    readDouble text .none .begun (place i l col
      ('u' :: '0' :: '0' :: Text.hexDigit (c.toNat / 16) :: Text.hexDigit (c.toNat % 16) :: more)) =
      readDouble (c :: text) .none .none (place i' l (col + 5) more) := by
  have hhigh : Text.digit? 16 (Text.hexDigit (c.toNat / 16)) = some (c.toNat / 16) :=
    Text.digit?_hexDigit (by omega)
  have hlow : Text.digit? 16 (Text.hexDigit (c.toNat % 16)) = some (c.toNat % 16) :=
    Text.digit?_hexDigit (by omega)
  have hcode : appendHex 0 ['0', '0', Text.hexDigit (c.toNat / 16), Text.hexDigit (c.toNat % 16)] =
      some c.toNat := by
    have hzero : Text.digit? 16 '0' = some 0 := by decide
    simp only [appendHex, List.foldlM_cons, List.foldlM_nil, hzero, hhigh, hlow, Option.map_some,
      Option.bind_eq_bind, Option.bind_some, Option.pure_def]
    congr 1
    omega
  obtain ⟨i', hread⟩ := readDouble_digits l more text _ 0 (i + 1) (col + 1) (List.cons_ne_nil _ _) hcode
  refine ⟨i', ?_⟩
  rw [place_cons rfl, readDouble]
  exact hread

/-- **A character with an escape is read as itself.** -/
theorem readDouble_escaped (i l col : ℕ) (text : List Char) (gap : Gap) (more : List Char)
    (h : isEscaped c = true) : ∃ i' col', 0 < col' ∧
    readDouble text gap .none (place i l col ((Json.escapeChar c).map unify ++ more)) =
      readDouble (c :: (gap.folded ++ text)) .none .none (place i' l col' more) := by
  have hletter : ∀ letter : Char, unify letter = letter → isBreak letter = false →
      escapeDigits.lookup letter = none → escapes.lookup letter = some c → ∃ i' col', 0 < col' ∧
        readDouble text gap .none (place i l col (['\\', letter].map unify ++ more)) =
          readDouble (c :: (gap.folded ++ text)) .none .none (place i' l col' more) := by
    intro letter hunify hb hdigits hlookup
    refine ⟨i + 1 + letter.utf8Size, col + 1 + 1, Nat.succ_pos _, ?_⟩
    rw [List.map_cons, List.map_singleton, hunify]
    change readDouble text gap .none (place i l col ('\\' :: letter :: more)) = _
    rw [readDouble_begun, readDouble_letter hb hdigits hlookup]
  unfold Json.escapeChar
  split_ifs with h₁ h₂ h₃ h₄ h₅ h₆ h₇ h₈
  · subst h₁; exact hletter '"' rfl rfl rfl rfl
  · subst h₂; exact hletter '\\' rfl rfl rfl rfl
  · subst h₃; exact hletter 'b' rfl rfl rfl rfl
  · subst h₄; exact hletter 'f' rfl rfl rfl rfl
  · subst h₅; exact hletter 'n' rfl rfl rfl rfl
  · subst h₆; exact hletter 'r' rfl rfl rfl rfl
  · subst h₇; exact hletter 't' rfl rfl rfl rfl
  · obtain ⟨i', hread⟩ := readDouble_control (i + 1) l (col + 1) (gap.folded ++ text) more h₈
    refine ⟨i', col + 1 + 5, Nat.succ_pos _, ?_⟩
    simp only [List.map_cons, List.map_nil, unify_hexDigit (show c.toNat / 16 < 16 by omega),
      unify_hexDigit (show c.toNat % 16 < 16 by omega)]
    change readDouble text gap .none (place i l col ('\\' :: 'u' :: '0' :: '0' :: _ :: _ :: more)) = _
    rw [readDouble_begun, hread]
  · -- nothing else has an escape
    rw [isEscaped] at h
    simp [h₁, h₂, h₈] at h

/-! ## Marks -/

theorem blankAhead_body (cs more : List Char) :
    blankAhead (place i l col (body cs ++ '"' :: more)) = cs.head?.any isFolded := by
  cases cs with
  | nil => rfl
  | cons c cs =>
    rw [List.head?_cons, Option.any_some]
    cases hc : isEscaped c with
    | true =>
      obtain ⟨tail, htail⟩ := escapeChar_head hc
      rw [isEscaped_not_folded hc, body_cons, htail]
      rfl
    | false =>
      rw [body_raw hc, List.cons_append, place]
      change (isBlank (unify c) || isBreak (unify c)) = isFolded c
      cases hf : isFolded c with
      | true =>
        rw [isFolded, Bool.or_eq_true, decide_eq_true_eq] at hf
        rcases hf with rfl | hf
        · rfl
        · rw [isBreak_unify hf, Bool.or_true]
      | false =>
        have hraw : Raw c := ⟨hc, hf⟩
        rw [hraw.unify_eq, hraw.blank, hraw.newline]
        rfl

/-- What a string goes on with: one of the characters of a mark, or something else. -/
theorem body_peel (hm : ch = '-' ∨ ch = '.') (cs more : List Char) (i l col : ℕ) :
    (∃ cs', cs = ch :: cs' ∧ place i l col (body cs ++ '"' :: more) =
      ⟨ch, i, l, col⟩ :: place (i + 1) l (col + 1) (body cs' ++ '"' :: more)) ∨
    (cs.head? ≠ some ch ∧ ∃ p rest, place i l col (body cs ++ '"' :: more) = p :: rest ∧ p.char ≠ ch) := by
  have hch : Raw ch ∧ ch ≠ '"' ∧ ch ≠ '\\' ∧ ch ≠ '\n' ∧ ch.utf8Size = 1 := by
    rcases hm with rfl | rfl
    · exact ⟨⟨rfl, rfl⟩, by decide, by decide, by decide, rfl⟩
    · exact ⟨⟨rfl, rfl⟩, by decide, by decide, by decide, rfl⟩
  obtain ⟨hraw, hquote, hslash, hnewline, hsize⟩ := hch
  cases cs with
  | nil => exact Or.inr ⟨by simp, _, _, rfl, hquote.symm⟩
  | cons c cs =>
    by_cases hc : c = ch
    · subst hc
      refine Or.inl ⟨cs, rfl, ?_⟩
      rw [body_raw hraw.escaped, hraw.unify_eq, List.cons_append, place_cons hraw.newline, hsize]
    · refine Or.inr ⟨by simpa using hc, ?_⟩
      cases hcs : isEscaped c with
      | true =>
        obtain ⟨tail, htail⟩ := escapeChar_head hcs
        rw [body_cons, htail]
        exact ⟨_, _, rfl, hslash.symm⟩
      | false =>
        rw [body_raw hcs]
        refine ⟨_, _, rfl, ?_⟩
        change unify c ≠ ch
        unfold unify
        split
        · exact hnewline.symm
        · exact hc

theorem startsMark_eq_true : startsMark cs = true ↔ ∃ m d tail,
    (m = '-' ∨ m = '.') ∧ isFolded d = true ∧ cs = m :: m :: m :: d :: tail := by
  constructor
  · intro h
    unfold startsMark at h
    split at h
    · rename_i a b d e tail
      simp only [Bool.and_eq_true, decide_eq_true_eq, Bool.or_eq_true] at h
      obtain ⟨⟨⟨rfl, rfl⟩, hm⟩, he⟩ := h
      exact ⟨a, e, tail, hm, he, rfl⟩
    · cases h
  · rintro ⟨m, d, tail, hm, hd, rfl⟩
    simp [startsMark, hm, hd]

/-- A mark stands at the start of a line, and is complete before the string ends. -/
theorem documentMark_body (cs more : List Char) (i' : ℕ) :
    (documentMark (⟨c, i, l, col⟩ :: place i' l (col + 1) (body cs ++ '"' :: more))).isSome =
      (decide (col = 0) && startsMark (c :: cs)) := by
  by_cases hm : c = '-' ∨ c = '.'
  · rcases body_peel hm cs more i' l (col + 1) with ⟨cs₁, rfl, h₁⟩ | ⟨hhead, p, rest, h₁, hp⟩
    · rw [h₁]
      rcases body_peel hm cs₁ more (i' + 1) l (col + 1 + 1) with ⟨cs₂, rfl, h₂⟩ | ⟨hhead, p, rest, h₂, hp⟩
      · rw [h₂, documentMark, blankAhead_body]
        have hstart : startsMark (c :: c :: c :: cs₂) = cs₂.head?.any isFolded := by
          cases cs₂ with
          | nil => rfl
          | cons d cs₂ => simp [startsMark, hm]
        rw [hstart]
        by_cases hcol : col = 0
        · cases hany : cs₂.head?.any isFolded with
          | true => simp [hcol, hm]
          | false => simp
        · simp [hcol]
      · -- two characters of a mark, then another one
        rw [h₂]
        have hstart : startsMark (c :: c :: cs₁) = false := by
          rw [Bool.eq_false_iff]
          intro h
          obtain ⟨m, d, tail, -, -, heq⟩ := startsMark_eq_true.1 h
          cases heq
          exact hhead rfl
        rw [hstart, Bool.and_false, documentMark, if_neg (fun h => hp h.2.2.1.symm)]
        rfl
    · rw [h₁]
      have hstart : startsMark (c :: cs) = false := by
        rw [Bool.eq_false_iff]
        intro h
        obtain ⟨m, d, tail, -, -, heq⟩ := startsMark_eq_true.1 h
        cases heq
        exact hhead rfl
      rw [hstart, Bool.and_false]
      cases rest with
      | nil => rfl
      | cons q rest =>
        rw [documentMark, if_neg (fun h => hp h.2.1.symm)]
        rfl
  · obtain ⟨hdash, hdot⟩ := not_or.1 hm
    have hstart : startsMark (c :: cs) = false := by
      rw [Bool.eq_false_iff]
      intro h
      obtain ⟨m, d, tail, hmark, -, heq⟩ := startsMark_eq_true.1 h
      cases heq
      exact hm hmark
    rw [Scan.documentMark_word hdash hdot, hstart, Bool.and_false]
    rfl

/-! ## Strings -/

/-- **What is read between the quotes of a JSON string.** -/
theorem readDouble_refold (more : List Char) : ∀ (cs text : List Char) (gap : Gap) (i l col : ℕ),
    ∃ i' l' col', readDouble text gap .none (place i l col (body cs ++ '"' :: more)) =
      (refold text gap (decide (col = 0)) cs).map fun text => (text, place i' l' col' more) := by
  intro cs
  induction cs with
  | nil =>
    intro text gap i l col
    refine ⟨i + 1, l, col + 1, ?_⟩
    change readDouble text gap .none (⟨'"', i, l, col⟩ :: place (i + 1) l (col + 1) more) = _
    rw [readDouble]
    simp only
    rw [if_neg (by decide), Scan.documentMark_word (by simp) (by simp), if_neg (by simp), if_pos trivial]
    rfl
  | cons c cs ih =>
    intro text gap i l col
    rw [refold]
    by_cases hc : isEscaped c = true
    · rw [if_pos hc, body_cons, List.append_assoc]
      obtain ⟨i₁, col₁, hpos, hread⟩ := readDouble_escaped i l col text gap (body cs ++ '"' :: more) hc
      obtain ⟨i', l', col', hrest⟩ := ih (c :: (gap.folded ++ text)) .none i₁ l col₁
      refine ⟨i', l', col', ?_⟩
      rw [hread, hrest, decide_eq_false (Nat.ne_of_gt hpos)]
    · rw [if_neg hc]
      rw [Bool.not_eq_true] at hc
      rw [body_raw hc, List.cons_append]
      by_cases hf : isFolded c = true
      · rw [if_pos hf]
        -- a blank keeps the line, a break starts the next one
        rw [isFolded, Bool.or_eq_true, decide_eq_true_eq] at hf
        rcases hf with rfl | hf
        · obtain ⟨i', l', col', hrest⟩ := ih text (gap.extend ' ') (i + 1) l (col + 1)
          refine ⟨i', l', col', ?_⟩
          change readDouble text gap .none (⟨' ', i, l, col⟩ :: place (i + 1) l (col + 1) _) = _
          rw [readDouble]
          simp only
          rw [if_pos (by simp), hrest]
          rfl
        · have hb := isBreak_unify hf
          obtain ⟨i', l', col', hrest⟩ := ih text (gap.extend (unify c)) (i + (unify c).utf8Size) (l + 1) 0
          refine ⟨i', l', col', ?_⟩
          rw [place_break hb, readDouble]
          simp only
          rw [if_pos (Or.inr hb), hrest, hf]
          rfl
      · rw [if_neg hf]
        rw [Bool.not_eq_true] at hf
        have hraw : Raw c := ⟨hc, hf⟩
        obtain ⟨i', l', col', hrest⟩ := ih (c :: (gap.folded ++ text)) .none (i + c.utf8Size) l (col + 1)
        refine ⟨i', l', col', ?_⟩
        rw [hraw.unify_eq, place_cons hraw.newline, readDouble]
        simp only
        rw [if_neg (by simp [hraw.blank, hraw.newline]), documentMark_body]
        by_cases hmark : decide (col = 0) = true ∧ startsMark (c :: cs) = true
        · rw [if_pos (by rw [hmark.1, hmark.2]; rfl), if_pos hmark]
          rfl
        · rw [if_neg (by simpa using hmark), if_neg hmark, if_neg hraw.quote.1, if_neg hraw.quote.2, hrest]
          rfl

end DepGraph.Yaml
