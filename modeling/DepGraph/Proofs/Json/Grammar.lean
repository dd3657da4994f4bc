import DepGraph.Json.Reader
import Mathlib.Data.List.Nodup
import Mathlib.Data.List.ReduceOption
import Mathlib.Tactic.Common

/-!
# The grammar of JSON

`Written tree text` says that a text spells a tree, with whatever blank space and whatever escapes.

* `readValue_written`: the reader gives the tree of every text that spells one, and leaves what follows.
-/

namespace DepGraph.Json

/-! ## The grammar -/

/-- Blank space. -/
def Blank (cs : List Char) : Prop := ∀ c ∈ cs, isBlank (some c) = true

/-- The spellings of a piece of a string. -/
inductive PieceText : Piece → List Char → Prop where
  | plain {c : Char} (h : 0x20 ≤ c.toNat) (hquote : c ≠ '"') (hslash : c ≠ '\\') :
    PieceText (.glyph (some c)) [c]
  | letter {l c : Char} (h : simpleEscape? l = some c) : PieceText (.glyph (some c)) ['\\', l]
  | unit {a b c d : Char} {n : ℕ} (h : hexQuad? (some a) (some b) (some c) (some d) = some n) :
    PieceText (.unit n) ['\\', 'u', a, b, c, d]

/-- The spellings of a string without its quotes. -/
inductive PiecesText : List Piece → List Char → Prop where
  | nil : PiecesText [] []
  | cons {piece : Piece} {pieces : List Piece} {cs ds : List Char} (h : PieceText piece cs)
    (hs : PiecesText pieces ds) : PiecesText (piece :: pieces) (cs ++ ds)

/-- Digits, at least one. -/
structure Digits (cs : List Char) : Prop where
  ne_nil : cs ≠ []
  digit : ∀ c ∈ cs, isDigit (some c) = true

/-- The digits of a whole number, which start with zero only if that is all. -/
structure Whole (cs : List Char) : Prop extends Digits cs where
  zero : cs.head? = some '0' → cs.length = 1

/-- The spellings of the digits after a point, if there are any. -/
inductive FractionText : List Char → List Char → Prop where
  | absent : FractionText [] []
  | digits {cs : List Char} (h : Digits cs) : FractionText cs ('.' :: cs)

/-- The spellings of an exponent, if there is one. -/
inductive ExponentText : Option (Bool × List Char) → List Char → Prop where
  | absent : ExponentText none []
  | plain {mark : Char} {cs : List Char} (hmark : mark = 'e' ∨ mark = 'E') (h : Digits cs) :
    ExponentText (some (false, cs)) (mark :: cs)
  | plus {mark : Char} {cs : List Char} (hmark : mark = 'e' ∨ mark = 'E') (h : Digits cs) :
    ExponentText (some (false, cs)) (mark :: '+' :: cs)
  | minus {mark : Char} {cs : List Char} (hmark : mark = 'e' ∨ mark = 'E') (h : Digits cs) :
    ExponentText (some (true, cs)) (mark :: '-' :: cs)

/-- The spellings of a number without its sign. -/
inductive UnsignedText : List Char → List Char → Option (Bool × List Char) → List Char → Prop where
  | parts {whole fraction fs es : List Char} {exponent : Option (Bool × List Char)} (hw : Whole whole)
    (hf : FractionText fraction fs) (he : ExponentText exponent es) :
    UnsignedText whole fraction exponent (whole ++ (fs ++ es))

mutual

/-- **A text spells a value**, from its first character to its last. -/
inductive Written : Tree → List Char → Prop where
  | null : Written .null ['n', 'u', 'l', 'l']
  | trueWord : Written (.bool true) ['t', 'r', 'u', 'e']
  | falseWord : Written (.bool false) ['f', 'a', 'l', 's', 'e']
  | number {whole fraction cs : List Char} {exponent : Option (Bool × List Char)}
    (h : UnsignedText whole fraction exponent cs) : Written (.number ⟨false, whole, fraction, exponent⟩) cs
  | negative {whole fraction cs : List Char} {exponent : Option (Bool × List Char)}
    (h : UnsignedText whole fraction exponent cs) :
    Written (.number ⟨true, whole, fraction, exponent⟩) ('-' :: cs)
  | text {pieces : List Piece} {cs : List Char} (h : PiecesText pieces cs) :
    Written (.text ⟨pieces, none⟩) ('"' :: cs ++ ['"'])
  | noItems {gap : List Char} (hgap : Blank gap) : Written (.array .closed) ('[' :: gap ++ [']'])
  | array {gap cs : List Char} {items : Items} (hgap : Blank gap) (h : ItemsWritten items cs) :
    Written (.array items) ('[' :: gap ++ cs)
  | noMembers {gap : List Char} (hgap : Blank gap) :
    Written (.object .closed) ('\x7b' :: gap ++ ['\x7d'])
  | object {gap cs : List Char} {members : Members} (hgap : Blank gap) (h : MembersWritten members cs) :
    Written (.object members) ('\x7b' :: gap ++ cs)

/-- A text spells the items of an array from the first one on, up to the bracket. -/
inductive ItemsWritten : Items → List Char → Prop where
  | last {head : Tree} {cs gap : List Char} (h : Written head cs) (hgap : Blank gap) :
    ItemsWritten (.item head .closed) (cs ++ gap ++ [']'])
  | more {head : Tree} {rest : Items} {cs gap gap' ds : List Char} (h : Written head cs)
    (hgap : Blank gap) (hgap' : Blank gap') (hs : ItemsWritten rest ds) :
    ItemsWritten (.item head rest) (cs ++ gap ++ ',' :: gap' ++ ds)

/-- A text spells the members of an object from the first one on, up to the brace. -/
inductive MembersWritten : Members → List Char → Prop where
  | last {pieces : List Piece} {value : Tree} {ns before after cs gap : List Char}
    (hname : PiecesText pieces ns) (hbefore : Blank before) (hafter : Blank after)
    (h : Written value cs) (hgap : Blank gap) :
    MembersWritten (.member (.text ⟨pieces, none⟩) value .closed)
      ('"' :: ns ++ '"' :: before ++ ':' :: after ++ cs ++ gap ++ ['\x7d'])
  | more {pieces : List Piece} {value : Tree} {rest : Members}
    {ns before after cs gap gap' ds : List Char}
    (hname : PiecesText pieces ns) (hbefore : Blank before) (hafter : Blank after)
    (h : Written value cs) (hgap : Blank gap) (hgap' : Blank gap') (hs : MembersWritten rest ds) :
    MembersWritten (.member (.text ⟨pieces, none⟩) value rest)
      ('"' :: ns ++ '"' :: before ++ ':' :: after ++ cs ++ gap ++ ',' :: gap' ++ ds)

end

/-- A whole number is a number without a fraction and an exponent. -/
theorem Whole.written {cs : List Char} (h : Whole cs) : Written (.number ⟨false, cs, [], none⟩) cs := by
  simpa using Written.number (.parts h .absent .absent)

/-! ## Blank space -/

theorem blank_nil : Blank [] := fun _ h => absurd h List.not_mem_nil

theorem blank_singleton {c : Char} (h : isBlank (some c) = true) : Blank [c] := by
  intro d hd
  rw [List.mem_singleton.1 hd]
  exact h

variable {rest : List Glyph} {fuel : ℕ}

theorem skipBlanks_gap {gap : List Char} (h : Blank gap) :
    skipBlanks (gap.map some ++ rest) = skipBlanks rest := by
  unfold skipBlanks
  rw [List.dropWhile_append_of_pos]
  intro g hg
  obtain ⟨c, hc, rfl⟩ := List.mem_map.1 hg
  exact h c hc

/-- Blank space before a value makes no difference. -/
theorem readValue_gap {gap : List Char} (h : Blank gap) :
    readValue fuel (gap.map some ++ rest) = readValue fuel rest := by
  cases fuel with
  | zero => rfl
  | succ fuel => rw [readValue, readValue, skipBlanks_gap h]

/-! ## Strings -/

theorem read_piece {piece : Piece} {cs : List Char} (h : PieceText piece cs) :
    Spelling.read (cs.map some ++ rest) = Spelling.push piece (Spelling.read rest) := by
  cases h with
  | plain h hquote hslash =>
    rw [List.map_cons, List.map_nil, List.singleton_append, Spelling.read, if_neg (by omega)]
    all_goals simp [hquote, hslash]
  | @letter l c h =>
    have hu : l ≠ 'u' := by
      rintro rfl
      cases h
    simp only [List.map_cons, List.map_nil, List.cons_append, List.nil_append]
    rw [Spelling.read, h]
    all_goals simp [hu]
  | unit h =>
    simp only [List.map_cons, List.map_nil, List.cons_append, List.nil_append]
    rw [Spelling.read, h]

theorem read_pieces {pieces : List Piece} {cs : List Char} (h : PiecesText pieces cs) :
    Spelling.read (cs.map some ++ some '"' :: rest) = (⟨pieces, none⟩, some rest) := by
  induction h with
  | nil => rw [List.map_nil, List.nil_append, Spelling.read]
  | cons h _ ih =>
    rw [List.map_append, List.append_assoc, read_piece h, ih]
    rfl

/-! ## Numbers -/

/-- What follows a value does not continue a number. -/
def Ends : List Glyph → Prop
  | [] => True
  | g :: _ => isDigit g = false ∧ g ≠ some '.' ∧ g ≠ some 'e' ∧ g ≠ some 'E'

theorem ends_gap {gap : List Char} (h : Blank gap) (hr : Ends rest) : Ends (gap.map some ++ rest) := by
  cases gap with
  | nil => exact hr
  | cons c gap =>
    have hc := h c List.mem_cons_self
    simp only [isBlank, Option.some.injEq, Bool.or_eq_true, decide_eq_true_eq] at hc
    rcases hc with ((rfl | rfl) | rfl) | rfl <;> exact ⟨by decide, by decide, by decide, by decide⟩

/-- No digit follows. -/
def NoDigit : List Glyph → Prop
  | [] => True
  | g :: _ => isDigit g = false

theorem Ends.noDigit (h : Ends rest) : NoDigit rest := by
  cases rest with
  | nil => trivial
  | cons g rest => exact h.1

theorem digits_append {cs : List Char} (h : ∀ c ∈ cs, isDigit (some c) = true) (hr : NoDigit rest) :
    digits (cs.map some ++ rest) = (cs, rest) := by
  have hcs : ∀ g ∈ cs.map some, isDigit g = true := by
    intro g hg
    obtain ⟨c, hc, rfl⟩ := List.mem_map.1 hg
    exact h c hc
  have hrest : rest.takeWhile isDigit = [] ∧ rest.dropWhile isDigit = rest := by
    cases rest with
    | nil => exact ⟨rfl, rfl⟩
    | cons g rest =>
      have hg : isDigit g = false := hr
      rw [List.takeWhile_cons_of_neg (by simp [hg]), List.dropWhile_cons_of_neg (by simp [hg])]
      exact ⟨rfl, rfl⟩
  rw [digits, List.takeWhile_append_of_pos hcs, List.dropWhile_append_of_pos hcs, hrest.1, hrest.2,
    List.append_nil, List.reduceOption, List.filterMap_map]
  simp

theorem Digits.isEmpty {cs : List Char} (h : Digits cs) : cs.isEmpty = false := by simpa using h.ne_nil

/-- After a sign, or where there is none, the digits of an exponent start. -/
theorem Digits.head {cs : List Char} (h : Digits cs) :
    ∃ c tail, cs = c :: tail ∧ isDigit (some c) = true := by
  cases cs with
  | nil => exact absurd rfl h.ne_nil
  | cons c cs => exact ⟨c, cs, rfl, h.digit c List.mem_cons_self⟩

theorem ExponentText.noDigit {exponent : Option (Bool × List Char)} {es : List Char}
    (h : ExponentText exponent es) (hr : Ends rest) : NoDigit (es.map some ++ rest) := by
  cases h with
  | absent => exact hr.noDigit
  | plain hmark _ | plus hmark _ | minus hmark _ => rcases hmark with rfl | rfl <;> exact rfl

/-- What follows the digits of a fraction, or of a number without one, is no point. -/
theorem ExponentText.no_point {exponent : Option (Bool × List Char)} {es : List Char}
    (h : ExponentText exponent es) (hr : Ends rest) (after : List Glyph) :
    es.map some ++ rest ≠ some '.' :: after := by
  intro heq
  cases h with
  | absent =>
    rw [List.map_nil, List.nil_append] at heq
    rw [heq] at hr
    exact hr.2.1 rfl
  | plain hmark _ | plus hmark _ | minus hmark _ =>
    rcases hmark with rfl | rfl <;> exact absurd (List.cons.inj heq).1 (by decide)

theorem readExponent_text {negative : Bool} {whole fraction es : List Char}
    {exponent : Option (Bool × List Char)} (h : ExponentText exponent es) (hr : Ends rest) :
    readExponent negative whole fraction (es.map some ++ rest) =
      (.number ⟨negative, whole, fraction, exponent⟩, some rest) := by
  cases h with
  | absent =>
    rw [List.map_nil, List.nil_append]
    unfold readExponent
    split
    · exact absurd rfl hr.2.2.1
    · exact absurd rfl hr.2.2.2
    · rfl
  | @plain mark cs hmark h =>
    have hdigits := digits_append h.digit hr.noDigit
    obtain ⟨c, tail, rfl, hc⟩ := h.head
    have hplus : c ≠ '+' := by rintro rfl; exact absurd hc (by decide)
    have hminus : c ≠ '-' := by rintro rfl; exact absurd hc (by decide)
    rcases hmark with rfl | rfl <;> simp_all [readExponent]
  | plus hmark h =>
    have hdigits := digits_append h.digit hr.noDigit
    rcases hmark with rfl | rfl <;> simp [readExponent, hdigits, h.isEmpty]
  | minus hmark h =>
    have hdigits := digits_append h.digit hr.noDigit
    rcases hmark with rfl | rfl <;> simp [readExponent, hdigits, h.isEmpty]

theorem readNumber_text {negative : Bool} {whole fraction cs : List Char}
    {exponent : Option (Bool × List Char)} (h : UnsignedText whole fraction exponent cs) (hr : Ends rest) :
    readNumber negative (cs.map some ++ rest) =
      (.number ⟨negative, whole, fraction, exponent⟩, some rest) := by
  obtain ⟨hw, hf, he⟩ := h
  rename_i fs es
  have hzero : ¬(whole.head? = some '0' ∧ whole.length > 1) := by
    rintro ⟨h0, h1⟩
    rw [hw.zero h0] at h1
    omega
  cases hf with
  | absent =>
    rw [List.nil_append, List.map_append, List.append_assoc, readNumber,
      digits_append hw.digit (he.noDigit hr)]
    simp only [hw.isEmpty, Bool.false_eq_true, if_false, hzero]
    split
    · rename_i after heq
      exact absurd heq (he.no_point hr after)
    · exact readExponent_text he hr
  | digits h =>
    simp only [List.map_append, List.map_cons, List.append_assoc, List.cons_append]
    have hpoint : NoDigit (some '.' :: (fraction.map some ++ (es.map some ++ rest))) := rfl
    rw [readNumber, digits_append hw.digit hpoint]
    simp only [hw.isEmpty, Bool.false_eq_true, if_false, hzero]
    rw [digits_append h.digit (he.noDigit hr)]
    simp only [h.isEmpty, Bool.false_eq_true, if_false]
    exact readExponent_text he hr

/-! ## Values -/

theorem skipBlanks_cons {g : Glyph} (h : isBlank g = false) : skipBlanks (g :: rest) = g :: rest :=
  List.dropWhile_cons_of_neg (by simp [h])

theorem UnsignedText.head {whole fraction cs : List Char} {exponent : Option (Bool × List Char)}
    (h : UnsignedText whole fraction exponent cs) : ∃ c tail, cs = c :: tail ∧ isDigit (some c) = true := by
  obtain ⟨hw, -, -⟩ := h
  obtain ⟨c, tail, rfl, hc⟩ := hw.toDigits.head
  exact ⟨c, _, rfl, hc⟩

theorem Written.head {tree : Tree} {cs : List Char} (h : Written tree cs) :
    ∃ c tail, cs = c :: tail ∧ isBlank (some c) = false ∧ c ≠ ']' ∧ c ≠ '\x7d' := by
  cases h with
  | number h =>
    obtain ⟨c, tail, rfl, hc⟩ := h.head
    refine ⟨c, tail, rfl, ?_, ?_, ?_⟩
    · by_contra hb
      simp only [isBlank, Option.some.injEq, Bool.not_eq_false, Bool.or_eq_true, decide_eq_true_eq] at hb
      rcases hb with ((rfl | rfl) | rfl) | rfl <;> exact absurd hc (by decide)
    all_goals
      rintro rfl
      exact absurd hc (by decide)
  | _ => exact ⟨_, _, rfl, by decide, by decide, by decide⟩

theorem ItemsWritten.head {items : Items} {cs : List Char} (h : ItemsWritten items cs) :
    ∃ c tail, cs = c :: tail ∧ isBlank (some c) = false ∧ c ≠ ']' := by
  cases h with
  | last h _ =>
    obtain ⟨c, tail, rfl, hb, hc, -⟩ := h.head
    exact ⟨c, _, rfl, hb, hc⟩
  | more h _ _ _ =>
    obtain ⟨c, tail, rfl, hb, hc, -⟩ := h.head
    exact ⟨c, _, rfl, hb, hc⟩

theorem MembersWritten.head {members : Members} {cs : List Char} (h : MembersWritten members cs) :
    ∃ tail, cs = '"' :: tail := by
  cases h with
  | last _ _ _ _ _ => exact ⟨_, rfl⟩
  | more _ _ _ _ _ _ _ => exact ⟨_, rfl⟩

theorem readValue_number {whole fraction cs : List Char} {exponent : Option (Bool × List Char)}
    (h : UnsignedText whole fraction exponent cs) (hr : Ends rest) :
    readValue (fuel + 1) (cs.map some ++ rest) =
      (.number ⟨false, whole, fraction, exponent⟩, some rest) := by
  have hnum : readNumber false (cs.map some ++ rest) = _ := readNumber_text h hr
  have hb := (Written.number h).head
  obtain ⟨c, tail, rfl, hc⟩ := h.head
  obtain ⟨c', tail', heq, hb, -, -⟩ := hb
  cases heq
  rw [List.map_cons, List.cons_append] at hnum ⊢
  rw [readValue, skipBlanks_cons hb]
  split
  · contradiction
  -- the seven characters that start another kind of value are no digits
  iterate 7
    · rename_i heq
      injection heq with hg
      rw [hg] at hc
      exact absurd hc (by decide)
  · rename_i heq
    injection heq with hg hrest
    rw [← hg, ← hrest, if_pos hc, hnum]

theorem readValue_negative {whole fraction cs : List Char} {exponent : Option (Bool × List Char)}
    (h : UnsignedText whole fraction exponent cs) (hr : Ends rest) :
    readValue (fuel + 1) (some '-' :: (cs.map some ++ rest)) =
      (.number ⟨true, whole, fraction, exponent⟩, some rest) := by
  rw [readValue, skipBlanks_cons (by decide)]
  exact readNumber_text h hr

theorem readValue_text {pieces : List Piece} {cs : List Char} (h : PiecesText pieces cs) :
    readValue (fuel + 1) (some '"' :: (cs.map some ++ some '"' :: rest)) =
      (.text ⟨pieces, none⟩, some rest) := by
  rw [readValue, skipBlanks_cons (by decide)]
  simp only [read_pieces h]

theorem readValue_array {gap : List Char} {c : Char} {input : List Glyph} (hgap : Blank gap)
    (hb : isBlank (some c) = false) (hc : c ≠ ']') :
    readValue (fuel + 1) (some '[' :: (gap.map some ++ some c :: input)) =
      (.array (readItems fuel (some c :: input)).1, (readItems fuel (some c :: input)).2) := by
  rw [readValue, skipBlanks_cons (by decide)]
  simp only [skipBlanks_gap hgap, skipBlanks_cons hb]
  split
  · rename_i heq
    injection heq with hg
    exact absurd (Option.some.inj hg) hc
  · rfl

theorem readValue_object {gap : List Char} {input : List Glyph} (hgap : Blank gap) :
    readValue (fuel + 1) (some '\x7b' :: (gap.map some ++ some '"' :: input)) =
      (.object (readMembers fuel (some '"' :: input)).1, (readMembers fuel (some '"' :: input)).2) := by
  rw [readValue, skipBlanks_cons (by decide)]
  simp only [skipBlanks_gap hgap]
  rw [skipBlanks_cons (by decide)]
  rfl

theorem readItems_last {head : Tree} {gap : List Char} {input : List Glyph} (hgap : Blank gap)
    (h : readValue fuel input = (head, some (gap.map some ++ some ']' :: rest))) :
    readItems (fuel + 1) input = (.item head .closed, some rest) := by
  rw [readItems, h]
  simp only [skipBlanks_gap hgap]
  rw [skipBlanks_cons (by decide)]
  rfl

theorem readItems_more {head : Tree} {gap : List Char} {input : List Glyph} (hgap : Blank gap)
    (h : readValue fuel input = (head, some (gap.map some ++ some ',' :: rest))) :
    readItems (fuel + 1) input = (.item head (readItems fuel rest).1, (readItems fuel rest).2) := by
  rw [readItems, h]
  simp only [skipBlanks_gap hgap]
  rw [skipBlanks_cons (by decide)]
  rfl

/-- Blank space before an item makes no difference. -/
theorem readItems_gap {gap : List Char} (h : Blank gap) :
    readItems fuel (gap.map some ++ rest) = readItems fuel rest := by
  cases fuel with
  | zero => rfl
  | succ fuel => rw [readItems, readItems, readValue_gap h]

theorem readMembers_gap {gap : List Char} (h : Blank gap) :
    readMembers fuel (gap.map some ++ rest) = readMembers fuel rest := by
  cases fuel with
  | zero => rfl
  | succ fuel => rw [readMembers, readMembers, readValue_gap h]

theorem readMembers_last {pieces : List Piece} {value : Tree} {before gap : List Char}
    {input after : List Glyph} (hbefore : Blank before) (hgap : Blank gap)
    (hname : readValue fuel input = (.text ⟨pieces, none⟩, some (before.map some ++ some ':' :: after)))
    (h : readValue fuel after = (value, some (gap.map some ++ some '\x7d' :: rest))) :
    readMembers (fuel + 1) input =
      (.member (.text ⟨pieces, none⟩) value .closed, some rest) := by
  rw [readMembers, hname]
  simp only [skipBlanks_gap hbefore]
  rw [skipBlanks_cons (by decide)]
  simp only [h, skipBlanks_gap hgap]
  rw [skipBlanks_cons (by decide)]
  rfl

theorem readMembers_more {pieces : List Piece} {value : Tree} {before gap : List Char}
    {input after : List Glyph} (hbefore : Blank before) (hgap : Blank gap)
    (hname : readValue fuel input = (.text ⟨pieces, none⟩, some (before.map some ++ some ':' :: after)))
    (h : readValue fuel after = (value, some (gap.map some ++ some ',' :: rest))) :
    readMembers (fuel + 1) input =
      (.member (.text ⟨pieces, none⟩) value (readMembers fuel rest).1, (readMembers fuel rest).2) := by
  rw [readMembers, hname]
  simp only [skipBlanks_gap hbefore]
  rw [skipBlanks_cons (by decide)]
  simp only [h, skipBlanks_gap hgap]
  rw [skipBlanks_cons (by decide)]
  rfl

theorem ends_close (input : List Glyph) : Ends (some ']' :: input) ∧ Ends (some '\x7d' :: input) ∧
    Ends (some ',' :: input) := by
  refine ⟨⟨?_, ?_, ?_, ?_⟩, ⟨?_, ?_, ?_, ?_⟩, ⟨?_, ?_, ?_, ?_⟩⟩ <;> decide

mutual

/-- **The reader gives the tree that a text spells**, and what follows the text. -/
theorem readValue_written {tree : Tree} {cs : List Char} (h : Written tree cs) {fuel : ℕ}
    {rest : List Glyph} (hfuel : 2 * cs.length ≤ fuel) (hr : Ends rest) :
    readValue fuel (cs.map some ++ rest) = (tree, some rest) := by
  -- a character is worth two steps: one into the list of items, one into the item
  obtain ⟨fuel, rfl⟩ : ∃ n, fuel = n + 1 := by
    obtain ⟨c, tail, rfl, -⟩ := h.head
    rw [List.length_cons] at hfuel
    exact ⟨fuel - 1, by omega⟩
  match h with
  | .null => rfl
  | .trueWord => rfl
  | .falseWord => rfl
  | .number h => exact readValue_number h hr
  | .negative h => exact readValue_negative h hr
  | .text h =>
    simp only [List.map_append, List.map_cons, List.map_nil, List.append_assoc, List.cons_append,
      List.nil_append]
    exact readValue_text h
  | .noItems hgap =>
    simp only [List.map_append, List.map_cons, List.map_nil, List.append_assoc, List.cons_append]
    rw [readValue, skipBlanks_cons (by decide)]
    simp only [skipBlanks_gap hgap]
    rw [skipBlanks_cons (by decide)]
    rfl
  | .array hgap h =>
    obtain ⟨c, tail, hcs, hb, hc⟩ := h.head
    simp only [List.length_append, List.length_cons] at hfuel
    have hitems := readItems_written h (by omega : _ ≤ fuel) rest
    simp only [List.map_append, List.map_cons, List.append_assoc, List.cons_append]
    rw [hcs, List.map_cons, List.cons_append] at hitems ⊢
    rw [readValue_array hgap hb hc, hitems]
  | .noMembers hgap =>
    simp only [List.map_append, List.map_cons, List.map_nil, List.append_assoc, List.cons_append]
    rw [readValue, skipBlanks_cons (by decide)]
    simp only [skipBlanks_gap hgap]
    rw [skipBlanks_cons (by decide)]
    rfl
  | .object hgap h =>
    obtain ⟨tail, hcs⟩ := h.head
    simp only [List.length_append, List.length_cons] at hfuel
    have hmembers := readMembers_written h (by omega : _ ≤ fuel) rest
    simp only [List.map_append, List.map_cons, List.append_assoc, List.cons_append]
    rw [hcs, List.map_cons, List.cons_append] at hmembers ⊢
    rw [readValue_object hgap, hmembers]

theorem readItems_written {items : Items} {cs : List Char} (h : ItemsWritten items cs) {fuel : ℕ}
    (hfuel : 2 * cs.length ≤ fuel) (rest : List Glyph) :
    readItems fuel (cs.map some ++ rest) = (items, some rest) := by
  match h with
  | .last h hgap =>
    simp only [List.length_append, List.length_singleton] at hfuel
    obtain ⟨fuel, rfl⟩ : ∃ n, fuel = n + 1 := ⟨fuel - 1, by omega⟩
    apply readItems_last hgap
    simp only [List.map_append, List.append_assoc]
    exact readValue_written h (by omega) (ends_gap hgap (ends_close rest).1)
  | .more h hgap hgap' hs =>
    simp only [List.length_append, List.length_cons] at hfuel
    obtain ⟨fuel, rfl⟩ : ∃ n, fuel = n + 1 := ⟨fuel - 1, by omega⟩
    simp only [List.map_append, List.map_cons, List.append_assoc, List.cons_append]
    rw [readItems_more hgap (readValue_written h (by omega) (ends_gap hgap (ends_close _).2.2)),
      readItems_gap hgap', readItems_written hs (by omega) rest]

theorem readMembers_written {members : Members} {cs : List Char} (h : MembersWritten members cs)
    {fuel : ℕ} (hfuel : 2 * cs.length ≤ fuel) (rest : List Glyph) :
    readMembers fuel (cs.map some ++ rest) = (members, some rest) := by
  match h with
  | .last hname hbefore hafter h hgap =>
    simp only [List.length_append, List.length_cons, List.length_nil] at hfuel
    -- the name takes a step of its own
    obtain ⟨fuel, rfl⟩ : ∃ n, fuel = n + 1 + 1 := ⟨fuel - 2, by omega⟩
    simp only [List.map_append, List.map_cons, List.map_nil, List.append_assoc, List.cons_append,
      List.nil_append]
    apply readMembers_last hbefore hgap (readValue_text hname)
    rw [readValue_gap hafter]
    exact readValue_written h (by omega) (ends_gap hgap (ends_close rest).2.1)
  | .more hname hbefore hafter h hgap hgap' hs =>
    simp only [List.length_append, List.length_cons] at hfuel
    obtain ⟨fuel, rfl⟩ : ∃ n, fuel = n + 1 + 1 := ⟨fuel - 2, by omega⟩
    simp only [List.map_append, List.map_cons, List.append_assoc, List.cons_append]
    rw [readMembers_more hbefore hgap (readValue_text hname)
      ((readValue_gap hafter).trans
        (readValue_written h (by omega) (ends_gap hgap (ends_close _).2.2))),
      readMembers_gap hgap', readMembers_written hs (by omega) rest]

end

end DepGraph.Json
