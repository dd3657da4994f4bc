import DepGraph.Proofs.Text.Digits
import DepGraph.Yaml.Token
import DepGraph.Yaml.Writer
import Mathlib.Data.List.Basic

/-!
# Scalars read back

What each style writes for a text is read as that text, up to the line that follows. A line that follows
starts no deeper than the collection around the scalar (`Next`), so that it does not continue it.

* `readPlain_text`, `readSingle_text`, `readDouble_text`, `readBlock_text`: one theorem for each style.
-/

namespace DepGraph.Yaml

variable {i l col c indent : ℕ} {cs more : List Char} {ch : Char}

@[simp] theorem isBlank_space : isBlank ' ' = true := rfl

@[simp] theorem isBreak_space : isBreak ' ' = false := rfl

@[simp] theorem isBlank_newline : isBlank '\n' = false := rfl

@[simp] theorem isBreak_newline : isBreak '\n' = true := rfl

/-! ## Places -/

theorem place_cons (h : isBreak ch = false) :
    place i l col (ch :: cs) = ⟨ch, i, l, col⟩ :: place (i + ch.utf8Size) l (col + 1) cs := by
  rw [place, h]
  rfl

theorem place_break (h : isBreak ch = true) :
    place i l col (ch :: cs) = ⟨ch, i, l, col⟩ :: place (i + ch.utf8Size) (l + 1) 0 cs := by
  rw [place, h]
  rfl

theorem length_place : (place i l col cs).length = cs.length := by
  induction cs generalizing i l col with
  | nil => rfl
  | cons ch cs ih =>
    rw [place, List.length_cons, List.length_cons]
    split <;> rw [ih]

/-- A token does not start with such a character by itself. -/
structure Solid (ch : Char) : Prop where
  blank : isBlank ch = false
  newline : isBreak ch = false
  comment : ch ≠ '#'
  mark : ch ≠ byteOrderMark

instance : Decidable (Solid ch) :=
  decidable_of_iff (isBlank ch = false ∧ isBreak ch = false ∧ ch ≠ '#' ∧ ch ≠ byteOrderMark)
    ⟨fun ⟨hblank, hbreak, hcomment, hmark⟩ => ⟨hblank, hbreak, hcomment, hmark⟩,
      fun ⟨hblank, hbreak, hcomment, hmark⟩ => ⟨hblank, hbreak, hcomment, hmark⟩⟩

/-- The lines that may follow a scalar in a collection at column `c`: none, or one that starts no
deeper. -/
inductive Next (c : ℕ) : List Char → Prop where
  | done : Next c []
  | token {k : ℕ} {ch : Char} {tail : List Char} (hk : k ≤ c) (h : Solid ch) : Next c (pad k ++ ch :: tail)

theorem Next.mono {c' : ℕ} (h : Next c more) (hc : c ≤ c') : Next c' more := by
  cases h with
  | done => exact .done
  | token hk h => exact .token (Nat.le_trans hk hc) h

theorem pad_succ (k : ℕ) : pad (k + 1) ++ cs = ' ' :: (pad k ++ cs) := rfl

theorem place_space : place i l col (' ' :: cs) = ⟨' ', i, l, col⟩ :: place (i + 1) l (col + 1) cs :=
  rfl

theorem place_newline : place i l col ('\n' :: cs) = ⟨'\n', i, l, col⟩ :: place (i + 1) (l + 1) 0 cs :=
  rfl

/-- There is no document mark inside a line. -/
theorem documentMark_inside {p : Placed} {rest : List Placed} (h : 0 < p.column) :
    documentMark (p :: rest) = none := by
  unfold documentMark
  split
  · rename_i heq
    injection heq with hp
    subst hp
    rw [if_neg (by omega)]
  · rfl

theorem skip_pad {flow keyAllowed : Bool} (k : ℕ) : ∀ (i col : ℕ),
    Scan.skipBlank flow keyAllowed false (place i l col (pad k ++ cs)) =
      Scan.skipBlank flow keyAllowed false (place (i + k) l (col + k) cs) := by
  induction k with
  | zero => intro i col; rfl
  | succ k ih =>
    intro i col
    rw [pad_succ, place_space, Scan.skipBlank, if_neg (by simp), if_neg (by simp), if_pos (Or.inl rfl),
      ih, Nat.add_right_comm i, Nat.add_right_comm col]
    rfl

theorem skip_newline {keyAllowed : Bool} :
    Scan.skipBlank false keyAllowed false (place i l col ('\n' :: cs)) =
      Scan.skipBlank false true false (place (i + 1) (l + 1) 0 cs) := by
  rw [place_newline, Scan.skipBlank, if_pos (by simp), Bool.not_false, Bool.or_true]

theorem skip_solid {flow keyAllowed : Bool} {p : Placed} {rest : List Placed} (h : Solid p.char) :
    Scan.skipBlank flow keyAllowed false (p :: rest) = (keyAllowed, p :: rest) := by
  have hb := h.blank
  simp only [isBlank, Bool.or_eq_false_iff, decide_eq_false_iff_not] at hb
  rw [Scan.skipBlank]
  simp [h.newline, h.comment, h.mark, hb.1, hb.2]

/-- What is left of the following lines once blank space is passed over. -/
def resume (i l : ℕ) (more : List Char) : List Placed :=
  (Scan.skipBlank false true false (place i l 0 more)).2

theorem resume_pad {k : ℕ} (h : Solid ch) :
    resume i l (pad k ++ ch :: cs) = place (i + k) l k (ch :: cs) := by
  rw [resume, skip_pad, Nat.zero_add, place_cons h.newline, skip_solid h]

/-! ## Plain -/

/-- Blanks after a break are passed over. -/
theorem readPlain_pad {text : List Char} {indent : ℤ} {first : Option Char} {breaks : List Char} (k : ℕ) :
    ∀ (i col : ℕ), readPlain false indent text (.breaks first breaks) (place i l col (pad k ++ cs)) =
      readPlain false indent text (.breaks first breaks) (place (i + k) l (col + k) cs) := by
  induction k with
  | zero => intro i col; rfl
  | succ k ih =>
    intro i col
    rw [pad_succ, place_space, readPlain, if_pos (by simp), if_neg (by simp), Gap.extend,
      if_pos (by simp), ih, Nat.add_right_comm i, Nat.add_right_comm col]
    rfl

/-- A plain scalar ends before a line that starts no deeper than its collection. -/
theorem readPlain_next {text : List Char} (h : Next c more) :
    readPlain false (c + 1) text .none (place i l col ('\n' :: more)) =
      some (text.reverse, true, resume (i + 1) (l + 1) more) := by
  rw [place_newline, readPlain, if_pos (by simp), if_neg (by simp)]
  change readPlain false (c + 1) text (.breaks (some '\n') []) _ = _
  cases h with
  | done => rfl
  | @token k ch tail hk h =>
    rw [readPlain_pad, resume_pad h, Nat.zero_add, place_cons h.newline, readPlain,
      if_neg (by simp [h.blank, h.newline]), if_pos ⟨rfl, Or.inl ⟨rfl, by simp; omega⟩⟩]
    rfl

theorem blankAhead_append (h : blankAhead (place i l col (cs ++ '\n' :: more)) = true) :
    spaceAhead cs = true := by
  cases cs with
  | nil => rfl
  | cons ch cs =>
    simp only [List.cons_append, place, blankAhead] at h
    simp only [spaceAhead, h, Bool.true_or]

/-- The words of a plain scalar are read one character at a time. -/
theorem readPlain_line (indent : ℤ) : ∀ (cs text spaces : List Char) (after : Bool) (i col : ℕ),
    (∀ ch ∈ cs, isBreak ch = false ∧ ch ≠ '\t') → hasInnerIndicator after cs = false →
    (spaces ≠ [] → after = true) → cs.getLast? ≠ some ' ' → (cs = [] → spaces = []) →
    0 < col → indent ≤ col →
    ∃ i', readPlain false indent text (.blanks spaces) (place i l col (cs ++ '\n' :: more)) =
      readPlain false indent (cs.reverse ++ spaces ++ text) .none
        (place i' l (col + cs.length) ('\n' :: more)) := by
  intro cs
  induction cs with
  | nil =>
    intro text spaces after i col _ _ _ _ hnil _ _
    rw [hnil rfl]
    exact ⟨i, rfl⟩
  | cons ch cs ih =>
    intro text spaces after i col hall hin hafter hlast _ hcol hindent
    obtain ⟨hbreak, htab⟩ := hall ch List.mem_cons_self
    have hall' : ∀ ch ∈ cs, isBreak ch = false ∧ ch ≠ '\t' := fun x hx => hall x (List.mem_cons_of_mem _ hx)
    rw [hasInnerIndicator, Bool.or_eq_false_iff, Bool.or_eq_false_iff] at hin
    obtain ⟨⟨hcolon, hcomment⟩, hin⟩ := hin
    rw [List.cons_append, place_cons hbreak]
    -- a blank waits for the next word; it is not the last character, so there is one
    by_cases hspace : ch = ' '
    · subst hspace
      have hne : cs ≠ [] := by
        rintro rfl
        exact hlast rfl
      have hlast' : cs.getLast? ≠ some ' ' := by
        rwa [List.getLast?_cons_of_ne_nil hne] at hlast
      obtain ⟨i', h⟩ := ih text (' ' :: spaces) true (i + 1) (col + 1) hall' hin (fun _ => rfl) hlast'
        (fun h => absurd h hne) (by omega) (by omega)
      refine ⟨i', ?_⟩
      rw [readPlain, if_pos (by simp), if_neg (by simp), Gap.extend, if_pos (by simp)]
      rw [show ' '.utf8Size = 1 from rfl, h]
      simp [Nat.add_assoc, Nat.add_comm 1]
    · have hblank : isBlank ch = false := by simp [isBlank, hspace, htab]
      have hlast' : cs.getLast? ≠ some ' ' := by
        cases cs with
        | nil => simp
        | cons d ds => rwa [List.getLast?_cons_cons] at hlast
      obtain ⟨i', h⟩ := ih (ch :: (spaces ++ text)) [] (spaceAhead [ch]) (i + ch.utf8Size) (col + 1) hall'
        hin (fun h => absurd rfl h) hlast' (fun _ => rfl) (by omega) (by omega)
      refine ⟨i', ?_⟩
      -- nothing on the line ends the scalar: it stands deep enough, and no comment starts after a blank
      have hmark : ¬(Gap.isNone (.blanks spaces) = false ∧ ((false = false ∧ (col : ℤ) < indent) ∨
          (documentMark (⟨ch, i, l, col⟩ :: place (i + ch.utf8Size) l (col + 1)
            (cs ++ '\n' :: more))).isSome ∨ ch = '#')) := by
        rintro ⟨hgap, ⟨-, hlt⟩ | hdoc | rfl⟩
        · omega
        · rw [documentMark_inside hcol] at hdoc
          cases hdoc
        · have : spaces ≠ [] := by
            rintro rfl
            cases hgap
          rw [hafter this] at hcomment
          cases hcomment
      have hvalue : ¬((ch = ':' ∧ blankAhead (place (i + ch.utf8Size) l (col + 1) (cs ++ '\n' :: more))) ∨
          (false = true ∧ isFlowIndicator ch)) := by
        rintro (⟨rfl, hb⟩ | ⟨hf, -⟩)
        · rw [blankAhead_append hb] at hcolon
          cases hcolon
        · cases hf
      rw [readPlain, if_neg (by simp [hblank, hbreak]), if_neg hmark, if_neg (by simp), if_neg hvalue]
      change readPlain false indent (ch :: (spaces ++ text)) (.blanks []) _ = _
      rw [h]
      simp [Nat.add_assoc, Nat.add_comm 1]

theorem hasInnerIndicator_of_hasIndicator (h : hasIndicator cs = false) :
    hasInnerIndicator false cs = false := by
  cases cs with
  | nil => rfl
  | cons ch cs =>
    simp only [hasIndicator, Bool.or_eq_false_iff] at h
    obtain ⟨-, ⟨-, hcolon⟩, hin⟩ := h
    simp only [hasInnerIndicator, hin, Bool.and_false, Bool.or_false]
    cases hs : spaceAhead cs with
    | false => simp
    | true =>
      rw [hs, Bool.and_true] at hcolon
      simp at hcolon ⊢
      exact hcolon.1.2

/-- **Plain scalars.** -/
theorem readPlain_text (hp : allowsPlain cs = true) (hnext : Next c more) (hcol : c < col) :
    ∃ i', readPlain false (c + 1) [] .none (place i l col (cs ++ '\n' :: more)) =
      some (cs, true, resume i' (l + 1) more) := by
  simp only [allowsPlain, Bool.and_eq_true, Bool.not_eq_true', decide_eq_true_eq, List.any_eq_false] at hp
  obtain ⟨⟨⟨⟨-, hlast⟩, hbreak⟩, hspecial⟩, hind⟩ := hp
  have hall : ∀ ch ∈ cs, isBreak ch = false ∧ ch ≠ '\t' := by
    intro ch hch
    refine ⟨by simpa using hbreak ch hch, ?_⟩
    rintro rfl
    exact hspecial _ hch (by decide)
  obtain ⟨i', h⟩ := readPlain_line (c + 1) cs [] [] false i col hall
    (hasInnerIndicator_of_hasIndicator hind) (fun h => absurd rfl h) hlast (fun _ => rfl) (by omega)
    (by omega)
  refine ⟨i' + 1, ?_⟩
  rw [show Gap.none = .blanks [] from rfl, h, readPlain_next hnext]
  simp

/-! ## Double quotes -/

/-- The number that hexadecimal digits append to another. -/
def appendHex (code : ℕ) (ds : List Char) : Option ℕ :=
  ds.foldlM (fun n ch => (Text.digit? 16 ch).map (n * 16 + ·)) code

theorem appendHex_toUpper (n : ℕ) : appendHex 0 ((Nat.toDigits 16 n).map Char.toUpper) = some n := by
  unfold appendHex
  induction n using Nat.base_induction 16 (by omega) with
  | single d hd =>
    rw [Nat.toDigits_of_lt_base hd, List.map_singleton, List.foldlM_cons, Text.digit?_toUpper hd]
    simp
  | digit n d hd hn ih =>
    rw [← Nat.toDigits_append_toDigits (by omega) hn hd, List.map_append, List.foldlM_append, ih,
      Nat.toDigits_of_lt_base hd]
    simp [Text.digit?_toUpper hd, Nat.mul_comm]

theorem appendHex_zeros (k : ℕ) (ds : List Char) :
    appendHex 0 (List.replicate k '0' ++ ds) = appendHex 0 ds := by
  induction k with
  | zero => rfl
  | succ k ih => exact ih

theorem appendHex_hexDigits (width n : ℕ) : appendHex 0 (hexDigits width n) = some n := by
  rw [hexDigits, List.leftpad, appendHex_zeros, appendHex_toUpper]

theorem length_hexDigits {width n : ℕ} (hw : 0 < width) (h : n < 16 ^ width) :
    (hexDigits width n).length = width := by
  have := (Nat.length_toDigits_le_iff (by omega) hw).2 h
  rw [hexDigits, List.length_leftpad, List.length_map]
  omega

theorem charOfCode?_toNat (d : Char) : charOfCode? d.toNat = some d := by
  have hvalid : d.toNat.isValidChar := d.valid
  rw [charOfCode?, if_pos hvalid, Char.ofNat_toNat]

theorem isBreak_iff : isBreak ch = true ↔ ch = '\n' ∨ ch = lineSeparator ∨ ch = paragraphSeparator := by
  simp [isBreak, or_assoc]

theorem isBreak_of_digit {v : ℕ} (h : Text.digit? 16 ch = some v) : isBreak ch = false := by
  by_contra hb
  rw [Bool.not_eq_false, isBreak_iff] at hb
  rcases hb with rfl | rfl | rfl <;> cases h

/-- The digits of an escape stand for its character. -/
theorem readDouble_digits (l : ℕ) (more text : List Char) {d : Char} :
    ∀ (ds : List Char) (code i col : ℕ), ds ≠ [] →
    appendHex code ds = some d.toNat →
    ∃ i', readDouble text .none (.digits ds.length code) (place i l col (ds ++ more)) =
      readDouble (d :: text) .none .none (place i' l (col + ds.length) more) := by
  intro ds
  induction ds with
  | nil => intro code i col hne; exact absurd rfl hne
  | cons ch ds ih =>
    intro code i col _ hcode
    rw [appendHex, List.foldlM_cons] at hcode
    cases hd : Text.digit? 16 ch with
    | none => rw [hd] at hcode; cases hcode
    | some v =>
      rw [hd] at hcode
      change appendHex (code * 16 + v) ds = _ at hcode
      rw [List.cons_append, place_cons (isBreak_of_digit hd), readDouble]
      simp only [hd]
      -- the last digit gives the character
      by_cases hds : ds = []
      · subst hds
        have hv : code * 16 + v = d.toNat := Option.some.inj hcode
        rw [if_neg (by simp), hv, charOfCode?_toNat]
        exact ⟨i + ch.utf8Size, rfl⟩
      · have hlen := List.length_pos_iff.2 hds
        obtain ⟨i', h⟩ := ih (code * 16 + v) (i + ch.utf8Size) (col + 1) hds hcode
        refine ⟨i', ?_⟩
        rw [List.length_cons, if_pos (by omega), Nat.add_sub_cancel, h, Nat.add_assoc, Nat.add_comm 1]

/-- What stands for a letter after a backslash is found by the letter. -/
theorem escapes_find {d letter : Char} {e : Char} (h : escapes.find? (·.2 = d) = some (letter, e)) :
    isBreak letter = false ∧ escapeDigits.lookup letter = none ∧ escapes.lookup letter = some d := by
  have hd : e = d := by simpa using List.find?_some h
  have hmem := List.mem_of_find?_eq_some h
  subst hd
  have key : ∀ p ∈ escapes, isBreak p.1 = false ∧ escapeDigits.lookup p.1 = none ∧
      escapes.lookup p.1 = some p.2 := by decide
  exact key _ hmem

theorem readDouble_slash {text spaces : List Char} (hcol : 0 < col) :
    readDouble text (.blanks spaces) .none (place i l col ('\\' :: more)) =
      readDouble (spaces ++ text) .none .begun (place (i + 1) l (col + 1) more) := by
  rw [place_cons rfl, readDouble]
  simp only
  rw [if_neg (by decide), documentMark_inside hcol, if_neg (by simp), if_neg (by decide), if_pos trivial]
  rfl

/-- A character that is written by its code. -/
theorem readDouble_code (i l col : ℕ) (more text : List Char) {d letter : Char} {width : ℕ}
    (hb : isBreak letter = false) (hletter : escapeDigits.lookup letter = some width) (hw : 0 < width)
    (hlt : d.toNat < 16 ^ width) :
    ∃ i' col', col ≤ col' ∧
      readDouble text .none .begun (place i l col (letter :: hexDigits width d.toNat ++ more)) =
        readDouble (d :: text) .none .none (place i' l col' more) := by
  have hlen := length_hexDigits hw hlt
  have hne : hexDigits width d.toNat ≠ [] := by
    rw [← List.length_pos_iff, hlen]
    exact hw
  obtain ⟨i', hds⟩ := readDouble_digits l more text _ 0 (i + letter.utf8Size) (col + 1) hne
    (appendHex_hexDigits width d.toNat)
  rw [hlen] at hds
  refine ⟨i', col + 1 + width, by omega, ?_⟩
  rw [List.cons_append, place_cons hb, readDouble]
  simp only [hb, Bool.false_eq_true, if_false, hletter]
  exact hds

/-- A character that is written by an escape. -/
theorem readDouble_escape (i l : ℕ) (more text spaces : List Char) {d : Char}
    (h : d = '"' ∨ d = '\\' ∨ isBreak d = true ∨ isSpecial d = true) (hcol : 0 < col) :
    ∃ i' col', col < col' ∧
      readDouble text (.blanks spaces) .none (place i l col (escapeDouble d ++ more)) =
        readDouble (d :: (spaces ++ text)) .none .none (place i' l col' more) := by
  have hcode : ∀ {letter : Char} {width : ℕ}, isBreak letter = false →
      escapeDigits.lookup letter = some width → 0 < width → d.toNat < 16 ^ width →
      ∃ i' col', col < col' ∧
        readDouble text (.blanks spaces) .none
          (place i l col ('\\' :: letter :: hexDigits width d.toNat ++ more)) =
        readDouble (d :: (spaces ++ text)) .none .none (place i' l col' more) := by
    intro letter width hb hletter hw hlt
    obtain ⟨i', col', hle, hread⟩ := readDouble_code (i + 1) l (col + 1) more (spaces ++ text)
      hb hletter hw hlt
    refine ⟨i', col', Nat.lt_of_succ_le hle, ?_⟩
    rw [List.cons_append, readDouble_slash hcol]
    exact hread
  rw [escapeDouble, if_pos h]
  cases hf : escapes.find? (·.2 = d) with
  | some entry =>
    obtain ⟨letter, e⟩ := entry
    obtain ⟨hb, hdigits, hlookup⟩ := escapes_find hf
    refine ⟨i + 1 + letter.utf8Size, col + 1 + 1, by omega, ?_⟩
    simp only [List.cons_append, List.nil_append]
    rw [readDouble_slash hcol, place_cons hb, readDouble]
    simp only [hb, Bool.false_eq_true, if_false, hdigits, hlookup]
  | none =>
    -- two, four or eight digits, as many as the code needs
    simp only
    split
    · exact hcode rfl rfl (by omega) (by omega)
    split
    · exact hcode rfl rfl (by omega) (by omega)
    · exact hcode rfl rfl (by omega) (Nat.lt_trans (Text.toNat_lt_last d) (by decide))

/-- **Double quotes.** -/
theorem readDouble_text (l : ℕ) (more : List Char) : ∀ (cs text spaces : List Char) (i col : ℕ), 0 < col →
    ∃ i' col', readDouble text (.blanks spaces) .none
        (place i l col (cs.flatMap escapeDouble ++ '"' :: more)) =
      some ((spaces ++ text).reverse ++ cs, place i' l col' more) := by
  intro cs
  induction cs with
  | nil =>
    intro text spaces i col hcol
    refine ⟨i + 1, col + 1, ?_⟩
    rw [List.flatMap_nil, List.nil_append, place_cons rfl, readDouble]
    simp only
    rw [if_neg (by decide), documentMark_inside hcol, if_neg (by simp), if_pos trivial, List.append_nil]
    rfl
  | cons ch cs ih =>
    intro text spaces i col hcol
    rw [List.flatMap_cons, List.append_assoc]
    by_cases h : ch = '"' ∨ ch = '\\' ∨ isBreak ch = true ∨ isSpecial ch = true
    · obtain ⟨i', col', hlt, hread⟩ := readDouble_escape i l (cs.flatMap escapeDouble ++ '"' :: more)
        text spaces h hcol
      obtain ⟨i'', col'', hrest⟩ := ih (ch :: (spaces ++ text)) [] i' col' (by omega)
      refine ⟨i'', col'', ?_⟩
      rw [hread, show Gap.none = .blanks [] from rfl, hrest]
      simp
    · rw [escapeDouble, if_neg h, List.singleton_append]
      simp only [not_or, Bool.not_eq_true] at h
      obtain ⟨hquote, hslash, hbreak, hspecial⟩ := h
      rw [place_cons hbreak, readDouble]
      simp only [hbreak, Bool.false_eq_true, or_false]
      by_cases hspace : ch = ' '
      · subst hspace
        obtain ⟨i', col', hrest⟩ := ih text (' ' :: spaces) (i + 1) (col + 1) (by omega)
        refine ⟨i', col', ?_⟩
        rw [if_pos (by simp), Gap.extend, if_pos (by simp)]
        change readDouble text (.blanks (' ' :: spaces)) .none (place (i + 1) l (col + 1) _) = _
        rw [hrest]
        simp
      · obtain ⟨i', col', hrest⟩ := ih (ch :: (spaces ++ text)) [] (i + ch.utf8Size) (col + 1) (by omega)
        refine ⟨i', col', ?_⟩
        have hblank : isBlank ch = false := by
          have htab : ch ≠ '\t' := by
            rintro rfl
            cases hspecial
          simp [isBlank, hspace, htab]
        rw [if_neg (by simp [hblank]), documentMark_inside hcol, if_neg (by simp), if_neg hquote,
          if_neg hslash]
        change readDouble (ch :: (spaces ++ text)) (.blanks []) .none _ = _
        rw [hrest]
        simp

/-! ## Single quotes -/

/-- A character in single quotes. -/
def doubledQuote (ch : Char) : List Char := if ch = '\'' then ['\'', '\''] else [ch]

theorem readSingle_gap {text : List Char} {gap : Gap} {p : Placed} {rest : List Placed}
    (h : isBlank p.char = true ∨ isBreak p.char = true) :
    readSingle text gap (p :: rest) = readSingle text (gap.extend p.char) rest := by
  rw [readSingle.eq_def]
  simp only
  rw [if_pos h]

theorem readSingle_char {text : List Char} {gap : Gap} (hblank : isBlank ch = false)
    (hbreak : isBreak ch = false) (hquote : ch ≠ '\'') (hcol : 0 < col) :
    readSingle text gap (place i l col (ch :: cs)) =
      readSingle (ch :: (gap.folded ++ text)) .none (place (i + ch.utf8Size) l (col + 1) cs) := by
  rw [place_cons hbreak, readSingle.eq_def]
  simp only
  rw [if_neg (by simp [hblank, hbreak]), documentMark_inside hcol, if_neg (by simp), if_pos hquote]

theorem readSingle_quote {text : List Char} {gap : Gap} (hcol : 0 < col) :
    readSingle text gap (place i l col ('\'' :: '\'' :: cs)) =
      readSingle ('\'' :: (gap.folded ++ text)) .none (place (i + 2) l (col + 2) cs) := by
  rw [place_cons rfl, readSingle.eq_def]
  simp only
  rw [if_neg (by decide), documentMark_inside hcol, if_neg (by simp), if_neg (by simp), place_cons rfl]
  rfl

theorem readSingle_close {text : List Char} {gap : Gap} (hcol : 0 < col) :
    readSingle text gap (place i l col ('\'' :: '\n' :: more)) =
      some ((gap.folded ++ text).reverse, place (i + 1) l (col + 1) ('\n' :: more)) := by
  rw [place_cons rfl, readSingle.eq_def]
  simp only
  rw [if_neg (by decide), documentMark_inside hcol, if_neg (by simp), if_neg (by simp), place_newline]
  rfl

theorem readSingle_pad {text : List Char} {first : Option Char} {breaks : List Char} (k : ℕ) :
    ∀ (i col : ℕ), readSingle text (.breaks first breaks) (place i l col (pad k ++ cs)) =
      readSingle text (.breaks first breaks) (place (i + k) l (col + k) cs) := by
  induction k with
  | zero => intro i col; rfl
  | succ k ih =>
    intro i col
    rw [pad_succ, place_space, readSingle_gap (Or.inl rfl), Gap.extend, if_pos (by simp), ih,
      Nat.add_right_comm i, Nat.add_right_comm col]
    rfl

theorem hasSpaceBreak_cons (h : hasSpaceBreak (ch :: cs) = false) :
    (ch = ' ' → ∀ d ∈ cs.head?, isBreak d = false) ∧ hasSpaceBreak cs = false := by
  cases cs with
  | nil => exact ⟨fun _ d hd => (by cases hd), rfl⟩
  | cons d ds =>
    rw [hasSpaceBreak, Bool.or_eq_false_iff] at h
    refine ⟨?_, h.2⟩
    rintro rfl e he
    cases he
    simpa using h.1

theorem hasBreakSpace_cons (h : hasBreakSpace (ch :: cs) = false) :
    (isBreak ch = true → cs.head? ≠ some ' ') ∧ hasBreakSpace cs = false := by
  cases cs with
  | nil => exact ⟨fun _ => by simp, rfl⟩
  | cons d ds =>
    rw [hasBreakSpace, Bool.or_eq_false_iff] at h
    refine ⟨?_, h.2⟩
    intro hb he
    cases he
    simp [hb] at h

/-- What may stand between two words in single quotes: blanks, or breaks that are no line feeds. -/
inductive SingleGap : Bool → Gap → Prop where
  | blanks (spaces : List Char) : SingleGap false (.blanks spaces)
  | breaks {first : Char} (more : List Char) (h : first ≠ '\n') : SingleGap true (.breaks (some first) more)

theorem folded_breaks {first : Char} {breaks : List Char} (h : first ≠ '\n') :
    (Gap.breaks (some first) breaks).folded = breaks ++ [first] := by
  rw [Gap.folded] <;> simp [h]

/-- How many blanks stand before a character of the text. -/
def lead (indent : ℕ) (lineStart : Bool) : ℕ := if lineStart then indent else 0

theorem readSingle_indent {text : List Char} {gap : Gap} {lineStart : Bool} (hgap : SingleGap lineStart gap)
    (hbreak : isBreak ch = false) :
    readSingle text gap (place i l col (indentLines indent lineStart (ch :: cs) ++ more)) =
      readSingle text gap (place (i + lead indent lineStart) l (col + lead indent lineStart)
        (ch :: (indentLines indent false cs ++ more))) := by
  rw [indentLines, if_neg (by simp [hbreak])]
  cases hgap with
  | blanks spaces => rfl
  | breaks breaks h =>
    rw [if_pos rfl, List.append_assoc, readSingle_pad]
    rfl

/-- **Single quotes.** The induction is on the text that is left; the gap and the text before it are what
has been read. -/
theorem readSingle_lines (indent : ℕ) (more : List Char) (hindent : 0 < indent) :
    ∀ (cs text : List Char) (gap : Gap) (lineStart : Bool) (i l col : ℕ), SingleGap lineStart gap →
    0 < col + lead indent lineStart → hasSpaceBreak cs = false → hasBreakSpace cs = false →
    (∀ ch ∈ cs, ch ≠ '\t' ∧ ch ≠ '\n') →
    (gap.isNone = false → lineStart = false → ∀ d ∈ cs.head?, isBreak d = false) →
    (lineStart = true → cs.head? ≠ some ' ') →
    ∃ i' l' col', l ≤ l' ∧
      readSingle text gap
          (place i l col (indentLines indent lineStart (cs.flatMap doubledQuote ++ ['\'']) ++ '\n' :: more)) =
        some ((gap.folded ++ text).reverse ++ cs, place i' l' col' ('\n' :: more)) := by
  intro cs
  induction cs with
  | nil =>
    intro text gap lineStart i l col hgap hcol _ _ _ _ _
    refine ⟨i + lead indent lineStart + 1, l, col + lead indent lineStart + 1, Nat.le_refl l, ?_⟩
    rw [List.flatMap_nil, List.nil_append, readSingle_indent hgap rfl, indentLines, List.nil_append,
      readSingle_close hcol, List.append_nil]
  | cons ch cs ih =>
    intro text gap lineStart i l col hgap hcol hsb hbs hall hspace hstart
    obtain ⟨htab, hfeed⟩ := hall ch List.mem_cons_self
    have hall' : ∀ ch ∈ cs, ch ≠ '\t' ∧ ch ≠ '\n' := fun x hx => hall x (List.mem_cons_of_mem _ hx)
    obtain ⟨hsb, hsb'⟩ := hasSpaceBreak_cons hsb
    obtain ⟨hbs, hbs'⟩ := hasBreakSpace_cons hbs
    rw [List.flatMap_cons, List.append_assoc]
    cases hbreak : isBreak ch with
    | true =>
      have hquote : doubledQuote ch = [ch] := by
        rw [doubledQuote, if_neg]
        rintro rfl
        cases hbreak
      have hgap' : SingleGap true (gap.extend ch) ∧
          (gap.extend ch).folded ++ text = ch :: (gap.folded ++ text) := by
        have hblank : isBlank ch = false := by
          rcases isBreak_iff.1 hbreak with rfl | rfl | rfl <;> rfl
        cases hgap with
        | blanks spaces =>
          -- no blank stands before a break
          have hnil : spaces = [] := by
            cases spaces with
            | nil => rfl
            | cons s spaces =>
              have := hspace rfl rfl ch rfl
              rw [hbreak] at this
              cases this
          subst hnil
          rw [Gap.extend, if_neg (by simp [hblank]), folded_breaks hfeed]
          exact ⟨.breaks [] hfeed, rfl⟩
        | breaks breaks h =>
          rw [Gap.extend, if_neg (by simp [hblank]), folded_breaks h, folded_breaks h]
          exact ⟨.breaks _ h, rfl⟩
      obtain ⟨i', l', col', hl, hread⟩ := ih text (gap.extend ch) true (i + ch.utf8Size) (l + 1) 0 hgap'.1
        (by simpa [lead] using hindent) hsb' hbs' hall' (fun _ h => by cases h) (fun _ => hbs hbreak)
      refine ⟨i', l', col', by omega, ?_⟩
      rw [hquote, List.singleton_append, indentLines, if_pos hbreak, List.cons_append, place_break hbreak,
        readSingle_gap (Or.inr hbreak), hread, hgap'.2]
      simp
    | false =>
      by_cases hsp : ch = ' '
      · subst hsp
        cases hgap with
        -- no blank stands after a break, where it would be taken for indentation
        | breaks breaks h => exact absurd rfl (hstart rfl)
        | blanks spaces =>
          obtain ⟨i', l', col', hl, hread⟩ := ih text (.blanks (' ' :: spaces)) false (i + 1) l (col + 1)
            (.blanks _) (by omega) hsb' hbs' hall' (fun _ _ => hsb rfl) (fun h => by cases h)
          refine ⟨i', l', col', hl, ?_⟩
          rw [doubledQuote, if_neg (by decide), List.singleton_append, readSingle_indent (.blanks spaces) rfl]
          change readSingle text _ (place i l col (' ' :: _)) = _
          rw [place_space, readSingle_gap (Or.inl rfl), Gap.extend, if_pos (by simp), hread]
          simp [Gap.folded]
      · have hblank : isBlank ch = false := by simp [isBlank, hsp, htab]
        by_cases hq : ch = '\''
        · subst hq
          obtain ⟨i', l', col', hl, hread⟩ := ih ('\'' :: (gap.folded ++ text)) .none false
            (i + lead indent lineStart + 2) l (col + lead indent lineStart + 2) (.blanks []) (by omega)
            hsb' hbs' hall' (fun h => by cases h) (fun h => by cases h)
          refine ⟨i', l', col', hl, ?_⟩
          rw [doubledQuote, if_pos rfl, List.cons_append, List.singleton_append, readSingle_indent hgap rfl,
            indentLines, if_neg (by decide), if_neg (by decide), List.cons_append, readSingle_quote hcol, hread]
          simp [Gap.none, Gap.folded]
        · obtain ⟨i', l', col', hl, hread⟩ := ih (ch :: (gap.folded ++ text)) .none false
            (i + lead indent lineStart + ch.utf8Size) l (col + lead indent lineStart + 1) (.blanks [])
            (by omega) hsb' hbs' hall' (fun h => by cases h) (fun h => by cases h)
          refine ⟨i', l', col', hl, ?_⟩
          rw [doubledQuote, if_neg hq, List.singleton_append, readSingle_indent hgap hbreak,
            readSingle_char hblank hbreak hq hcol, hread]
          simp [Gap.none, Gap.folded]

theorem readSingle_text (more : List Char) (i l : ℕ) (hs : allowsSingle cs = true) (hfeed : '\n' ∉ cs)
    (hindent : 0 < indent) (hcol : 0 < col) : ∃ i' l' col', l ≤ l' ∧
      readSingle [] .none
          (place i l col (indentLines indent false (cs.flatMap doubledQuote ++ ['\'']) ++ '\n' :: more)) =
        some (cs, place i' l' col' ('\n' :: more)) := by
  simp only [allowsSingle, Bool.and_eq_true, Bool.not_eq_true', List.any_eq_false] at hs
  obtain ⟨⟨hbs, hsb⟩, hspecial⟩ := hs
  have hall : ∀ ch ∈ cs, ch ≠ '\t' ∧ ch ≠ '\n' := by
    intro ch hch
    refine ⟨?_, ?_⟩
    · rintro rfl
      exact hspecial _ hch (by decide)
    · rintro rfl
      exact hfeed hch
  exact readSingle_lines indent more hindent cs [] .none false i l col (.blanks []) (by omega) hsb hbs hall
    (fun h => by cases h) (fun h => by cases h)

/-! ## Blocks -/

/-- A block after one more character of its text, and whether the next one is on the same line. -/
def Block.feed (state : Block × Bool) (ch : Char) : Block × Bool :=
  let (b, inside) := state
  if isBreak ch then
    (if inside then { b with lastBreak := some ch } else { b with blankLines := ch :: b.blankLines }, false)
  else
    let b := if inside then b else b.beginLine false (isBlank ch)
    ({ b with text := ch :: b.text }, true)

theorem readLines_pad {b : Block} (k : ℕ) : ∀ (i col : ℕ), col + k ≤ indent →
    readLines false indent false b (place i l col (pad k ++ cs)) =
      readLines false indent false b (place (i + k) l (col + k) cs) := by
  induction k with
  | zero => intro i col _; rfl
  | succ k ih =>
    intro i col h
    rw [pad_succ, place_space, readLines, if_neg (by simp), if_pos ⟨rfl, by simp; omega⟩, ih _ _ (by omega),
      Nat.add_right_comm i, Nat.add_right_comm col]
    rfl

/-- The lines of a block are read one character at a time. -/
theorem readLines_lines (indent : ℕ) (tail : List Char) : ∀ (cs : List Char) (b : Block) (inside : Bool)
    (i l col : ℕ), (∀ ch ∈ cs, ch ≠ '\t') → (inside = false → col = 0) →
    ∃ i' l' col', l ≤ l' ∧ ((cs.foldl Block.feed (b, inside)).2 = false → col' = 0) ∧
      readLines false indent inside b (place i l col (indentLines indent (!inside) cs ++ tail)) =
        readLines false indent (cs.foldl Block.feed (b, inside)).2 (cs.foldl Block.feed (b, inside)).1
          (place i' l' col' tail) := by
  intro cs
  induction cs with
  | nil =>
    intro b inside i l col _ hcol
    exact ⟨i, l, col, Nat.le_refl l, hcol, rfl⟩
  | cons ch cs ih =>
    intro b inside i l col htab hcol
    have hch := htab ch List.mem_cons_self
    have htab' : ∀ ch ∈ cs, ch ≠ '\t' := fun x hx => htab x (List.mem_cons_of_mem _ hx)
    rw [List.foldl_cons]
    cases hbreak : isBreak ch with
    | true =>
      -- a break is written without indentation
      have hspace : ch ≠ ' ' := by
        rintro rfl
        cases hbreak
      obtain ⟨i', l', col', hl, hcol', hread⟩ := ih (Block.feed (b, inside) ch).1 false (i + ch.utf8Size)
        (l + 1) 0 htab' (fun _ => rfl)
      have hfeed : Block.feed (b, inside) ch = ((Block.feed (b, inside) ch).1, false) := by
        simp [Block.feed, hbreak]
      rw [hfeed]
      refine ⟨i', l', col', by omega, hcol', ?_⟩
      rw [indentLines, if_pos hbreak, List.cons_append, place_break hbreak, ← hread, readLines]
      cases inside with
      | true => rw [if_pos rfl, if_pos hbreak]; simp [Block.feed, hbreak]
      | false =>
        rw [if_neg (by simp), if_neg (by simp [hspace]), if_neg (by simp [hch]), if_pos hbreak]
        simp [Block.feed, hbreak]
    | false =>
      have hfeed : Block.feed (b, inside) ch = ((Block.feed (b, inside) ch).1, true) := by
        simp [Block.feed, hbreak]
      rw [hfeed, indentLines, if_neg (by simp [hbreak])]
      cases inside with
      | true =>
        obtain ⟨i', l', col', hl, hcol', hread⟩ := ih (Block.feed (b, true) ch).1 true (i + ch.utf8Size) l
          (col + 1) htab' (fun h => by cases h)
        refine ⟨i', l', col', hl, hcol', ?_⟩
        rw [if_neg (by simp), List.cons_append, place_cons hbreak, ← hread, readLines, if_pos rfl,
          if_neg (by simp [hbreak])]
        simp [Block.feed, hbreak]
      | false =>
        obtain ⟨i', l', col', hl, hcol', hread⟩ := ih (Block.feed (b, false) ch).1 true
          (i + indent + ch.utf8Size) l (indent + 1) htab' (fun h => by cases h)
        refine ⟨i', l', col', hl, hcol', ?_⟩
        rw [hcol rfl, if_pos (by simp), List.append_assoc, readLines_pad _ _ _ (by omega), List.cons_append,
          place_cons hbreak, Nat.zero_add, ← hread, readLines, if_neg (by simp), if_neg (by simp),
          if_neg (by simp), if_neg (by simp [hbreak]), if_pos rfl]
        simp [Block.feed, hbreak]

/-- No break is pending inside a line. -/
def Block.Steady (state : Block × Bool) : Prop :=
  state.2 = true → state.1.lastBreak = none ∧ state.1.blankLines = []

/-- What a block holds, the breaks at its end included, grows by each character that is fed to it. -/
theorem feed_keep {state : Block × Bool} (h : Block.Steady state) (ch : Char) :
    (Block.feed state ch).1.finish .keep = state.1.finish .keep ++ [ch] ∧
      Block.Steady (Block.feed state ch) := by
  obtain ⟨b, inside⟩ := state
  cases hbreak : isBreak ch with
  | true =>
    cases inside with
    | true =>
      obtain ⟨hlast, hblank⟩ := h rfl
      simp only at hlast hblank
      refine ⟨?_, fun h => ?_⟩
      · simp [Block.feed, hbreak, Block.finish, hlast, hblank]
      · simp [Block.feed, hbreak] at h
    | false =>
      refine ⟨?_, fun h => ?_⟩
      · simp [Block.feed, hbreak, Block.finish]
      · simp [Block.feed, hbreak] at h
  | false =>
    cases inside with
    | true =>
      obtain ⟨hlast, hblank⟩ := h rfl
      simp only at hlast hblank
      refine ⟨?_, fun _ => ?_⟩
      · simp [Block.feed, hbreak, Block.finish, hlast, hblank]
      · simp [Block.feed, hbreak, hlast, hblank]
    | false =>
      refine ⟨?_, fun _ => ?_⟩
      · simp [Block.feed, hbreak, Block.finish, Block.beginLine]
      · simp [Block.feed, hbreak, Block.beginLine]

theorem foldl_feed_keep (cs : List Char) : ∀ (state : Block × Bool), Block.Steady state →
    (cs.foldl Block.feed state).1.finish .keep = state.1.finish .keep ++ cs ∧
      Block.Steady (cs.foldl Block.feed state) := by
  induction cs with
  | nil => intro state h; exact ⟨by simp, h⟩
  | cons ch cs ih =>
    intro state h
    obtain ⟨hkeep, hsteady⟩ := feed_keep h ch
    obtain ⟨hkeep', hsteady'⟩ := ih _ hsteady
    rw [List.foldl_cons, hkeep', hkeep]
    exact ⟨by simp, hsteady'⟩

/-- The mark of a way to chomp. -/
def Chomping.mark : Chomping → List Char
  | .strip => ['-']
  | .clip => []
  | .keep => ['+']

theorem readBlockHeader_mark (i l col : ℕ) (more : List Char) (chomping : Chomping) :
    ∃ i' col', readBlockHeader (place i l col (chomping.mark ++ '\n' :: more)) =
      some (chomping, none, place i' l col' ('\n' :: more)) := by
  cases chomping with
  | strip => exact ⟨i + 1, col + 1, rfl⟩
  | clip => exact ⟨i, col, rfl⟩
  | keep => exact ⟨i + 1, col + 1, rfl⟩

theorem readBlockHeader_two (i l col : ℕ) (more : List Char) (chomping : Chomping) :
    ∃ i' col', readBlockHeader (place i l col ('2' :: (chomping.mark ++ '\n' :: more))) =
      some (chomping, some 2, place i' l col' ('\n' :: more)) := by
  cases chomping with
  | strip => exact ⟨i + 2, col + 2, rfl⟩
  | clip => exact ⟨i + 1, col + 1, rfl⟩
  | keep => exact ⟨i + 2, col + 2, rfl⟩

theorem readLines_next {b : Block} (h : Next c more) (hc : c < indent) :
    readLines false indent false b (place i l 0 more) = some (b, resume i l more) := by
  cases h with
  | done => rfl
  | @token k ch tail hk h =>
    have hspace : ch ≠ ' ' := by
      rintro rfl
      cases h.blank
    have htab : ch ≠ '\t' := by
      rintro rfl
      cases h.blank
    rw [readLines_pad _ _ _ (by omega), resume_pad h, Nat.zero_add, place_cons h.newline, readLines,
      if_neg (by simp), if_neg (by simp [hspace]), if_neg (by simp [htab]), if_neg (by simp [h.newline]),
      if_neg (by simp; omega)]

theorem feed_snd (state : Block × Bool) (ch : Char) : (Block.feed state ch).2 = !isBreak ch := by
  cases hbreak : isBreak ch <;> simp [Block.feed, hbreak]

/-- The mark for chomping makes a block that was fed a text that text. -/
theorem finish_chomping (before : List Char) (last : Char) (hbreak : isBreak last = true) :
    ∃ chomping, chompingMark (before ++ [last]) = Chomping.mark chomping ∧
      ((before ++ [last]).foldl Block.feed ({}, false)).1.finish chomping = before ++ [last] := by
  obtain ⟨hkeep, -⟩ := foldl_feed_keep (before ++ [last]) ({}, false) (fun h => by cases h)
  rw [show (Block.finish {} .keep) = [] from rfl, List.nil_append] at hkeep
  have hmark : chompingMark (before ++ [last]) = if before.getLast?.all isBreak then ['+'] else [] := by
    simp [chompingMark, hbreak]
  by_cases hall : before.getLast?.all isBreak = true
  · refine ⟨.keep, ?_, hkeep⟩
    rw [hmark, if_pos hall]
    rfl
  · refine ⟨.clip, ?_, ?_⟩
    · rw [hmark, if_neg hall]
      rfl
    · have hne : before ≠ [] := by
        rintro rfl
        exact hall rfl
      obtain ⟨first, prev, rfl⟩ := (List.eq_nil_or_concat' before).resolve_left hne
      have hprev : isBreak prev = false := by simpa using hall
      -- the break ends a line, so it is the only one that is pending
      obtain ⟨-, hsteady⟩ := foldl_feed_keep (first ++ [prev]) ({}, false) (fun h => by cases h)
      rw [List.foldl_append, List.foldl_cons, List.foldl_nil] at hkeep ⊢
      rw [← hkeep]
      generalize hst : (first ++ [prev]).foldl Block.feed ({}, false) = state at hsteady
      have hin : state.2 = true := by
        rw [← hst, List.foldl_append, List.foldl_cons, List.foldl_nil, feed_snd, hprev]
        rfl
      obtain ⟨b, inside⟩ := state
      cases hin
      have hblank : b.blankLines = [] := (hsteady rfl).2
      simp [Block.feed, hbreak, Block.finish, hblank]

/-- The lines of a text and the end of the last one. -/
theorem readLines_text (hne : cs ≠ []) (htab : ∀ ch ∈ cs, ch ≠ '\t') (hnext : Next c more)
    (hc : c < indent) : ∃ b chomping, chompingMark cs = Chomping.mark chomping ∧ b.finish chomping = cs ∧
      ∀ i l, ∃ i' l',
        readLines false indent false {} (place i l 0 (indentLines indent true cs ++ (lineEnd cs ++ more))) =
          some (b, resume i' l' more) := by
  have hread := readLines_lines indent (lineEnd cs ++ more) cs {} false
  obtain ⟨before, last, rfl⟩ := (List.eq_nil_or_concat' cs).resolve_left hne
  have hsnd : ((before ++ [last]).foldl Block.feed ({}, false)).2 = !isBreak last := by
    rw [List.foldl_append, List.foldl_cons, List.foldl_nil, feed_snd]
  -- a text that ends inside a line gets a line feed of its own, which is stripped again
  cases hbreak : isBreak last with
  | true =>
    obtain ⟨chomping, hmark, hfinish⟩ := finish_chomping before last hbreak
    have hend : lineEnd (before ++ [last]) = [] := by simp [lineEnd, hbreak]
    rw [hbreak, Bool.not_true] at hsnd
    refine ⟨_, chomping, hmark, hfinish, ?_⟩
    intro i l
    obtain ⟨i', l', col', -, hcol, hread⟩ := hread i l 0 htab (fun _ => rfl)
    refine ⟨i', l', ?_⟩
    rw [Bool.not_false] at hread
    rw [hread, hsnd, hcol hsnd, hend, List.nil_append]
    exact readLines_next hnext hc
  | false =>
    have hend : lineEnd (before ++ [last]) = ['\n'] := by simp [lineEnd, hbreak]
    obtain ⟨hkeep, hsteady⟩ := foldl_feed_keep (before ++ [last]) ({}, false) (fun h => by cases h)
    rw [hbreak, Bool.not_false] at hsnd
    obtain ⟨hlast, hblank⟩ := hsteady hsnd
    rw [Block.finish, hlast, hblank] at hkeep
    refine ⟨{ ((before ++ [last]).foldl Block.feed ({}, false)).1 with lastBreak := some '\n' }, .strip,
      ?_, by simpa [Block.finish] using hkeep, ?_⟩
    · simp [chompingMark, hbreak, Chomping.mark]
    · intro i l
      obtain ⟨i', l', col', -, -, hread⟩ := hread i l 0 htab (fun _ => rfl)
      refine ⟨i' + 1, l' + 1, ?_⟩
      rw [Bool.not_false] at hread
      rw [hread, hsnd, hend, List.singleton_append, place_newline, readLines, if_pos rfl, if_pos (by simp)]
      exact readLines_next hnext hc

theorem restOfLine_newline :
    restOfLine (place i l col ('\n' :: more)) = some (place (i + 1) (l + 1) 0 more) := by
  rw [place_newline, restOfLine, splitWhile, if_neg (by simp)]
  rfl

theorem leadingLines_pad {deepest : ℕ} {breaks : List Char} (k : ℕ) : ∀ (i col : ℕ),
    leadingLines deepest breaks (place i l col (pad k ++ cs)) =
      leadingLines deepest breaks (place (i + k) l (col + k) cs) := by
  induction k with
  | zero => intro i col; rfl
  | succ k ih =>
    intro i col
    rw [pad_succ, place_space, leadingLines, if_pos rfl, ih, Nat.add_right_comm i, Nat.add_right_comm col]
    rfl

/-- **Literal blocks.** -/
theorem readBlock_text (i l col : ℕ) (hlit : allowsLiteral cs = true) (hnext : Next c more) :
    ∃ i' l', readBlock false c (place i l col (indentMark cs ++ (chompingMark cs ++
        '\n' :: (indentLines (c + 2) true cs ++ (lineEnd cs ++ more))))) = some (cs, resume i' l' more) := by
  simp only [allowsLiteral, Bool.and_eq_true, Bool.not_eq_true', List.any_eq_false, List.isEmpty_eq_false_iff]
    at hlit
  obtain ⟨⟨⟨hne, -⟩, -⟩, hspecial⟩ := hlit
  have htab : ∀ ch ∈ cs, ch ≠ '\t' := by
    rintro ch hch rfl
    exact hspecial _ hch (by decide)
  obtain ⟨b, chomping, hmark, hfinish, hread⟩ := readLines_text hne htab hnext (show c < c + 2 by omega)
  rw [hmark]
  obtain ⟨ch, tail, rfl⟩ := List.exists_cons_of_ne_nil hne
  set lines := indentLines (c + 2) true (ch :: tail) ++ (lineEnd (ch :: tail) ++ more) with hlines
  by_cases hfirst : ch = ' ' ∨ isBreak ch = true
  · -- the first line would mislead, and the header tells the indentation
    obtain ⟨i₁, col₁, hheader⟩ := readBlockHeader_two i l col lines chomping
    obtain ⟨i', l', hread⟩ := hread (i₁ + 1) (l + 1)
    refine ⟨i', l', ?_⟩
    rw [indentMark, if_pos hfirst, List.singleton_append, readBlock, hheader]
    simp only [Option.bind_eq_bind, Option.bind_some, restOfLine_newline]
    rw [show (max (c : ℤ) 0).toNat + 2 = c + 2 by omega, hread]
    exact congrArg (fun text => some (text, _)) hfinish
  · obtain ⟨i₁, col₁, hheader⟩ := readBlockHeader_mark i l col lines chomping
    obtain ⟨i', l', hread⟩ := hread (i₁ + 1) (l + 1)
    refine ⟨i', l', ?_⟩
    rw [not_or, Bool.not_eq_true] at hfirst
    obtain ⟨hspace, hbreak⟩ := hfirst
    -- the first line tells the indentation
    have hpad : lines =
        pad (c + 2) ++ (ch :: indentLines (c + 2) false tail ++ (lineEnd (ch :: tail) ++ more)) := by
      rw [hlines, indentLines, if_neg (by simp [hbreak]), if_pos rfl, List.append_assoc]
    have hleading : leadingLines 0 [] (place (i₁ + 1) (l + 1) 0 lines) =
        some (c + 2, [], place (i₁ + 1 + (c + 2)) (l + 1) (c + 2)
          (ch :: indentLines (c + 2) false tail ++ (lineEnd (ch :: tail) ++ more))) := by
      rw [hpad, leadingLines_pad, Nat.zero_add, List.cons_append, place_cons hbreak, leadingLines,
        if_neg hspace, if_neg (htab ch List.mem_cons_self), if_neg (by simp [hbreak]), Nat.zero_max]
    rw [hpad, readLines_pad _ _ _ (by omega), Nat.zero_add] at hread
    rw [indentMark, if_neg (by simp [hspace, hbreak]), List.nil_append, readBlock, hheader]
    simp only [Option.bind_eq_bind, Option.bind_some, restOfLine_newline, hleading]
    rw [show max (max (c + 2) ((c : ℤ) + 1).toNat) 1 = c + 2 by omega, hread]
    exact congrArg (fun text => some (text, _)) hfinish

end DepGraph.Yaml
