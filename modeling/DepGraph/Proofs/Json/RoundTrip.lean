import DepGraph.DepsFile.Notation
import DepGraph.Proofs.DepsFile.RoundTrip
import DepGraph.Proofs.Json.Members
import DepGraph.Proofs.Text.Digits

/-!
# JSON reads back

* `write_written`: what the writer writes spells the tree of the data, in every layout of blank space.
* `Tree.ofData_faithful`: such trees read back as the data.
* `Graph.ofJson_toJson`: a graph reads back from its file.
-/

namespace DepGraph.Json

/-! ## The tree of data -/

/-- A character of a string as it is written: a control character without a letter is given by number. -/
def pieceOf (c : Char) : Piece :=
  if c.toNat < 0x20 ∧ c ∉ ['\x08', '\x0c', '\n', '\r', '\t'] then .unit c.toNat else .glyph (some c)

def Spelling.ofString (s : String) : Spelling := ⟨s.toList.map pieceOf, none⟩

mutual

/-- The tree of data. -/
def Tree.ofData : Data → Tree
  | .null => .null
  | .flag b => .bool b
  | .count n => .number ⟨false, Nat.toDigits 10 n, [], none⟩
  | .text s => .text (.ofString s)
  | .list items => .array (Items.ofData items)
  | .record fields => .object (Members.ofData fields)

def Items.ofData : List Data → Items
  | [] => .closed
  | item :: rest => .item (Tree.ofData item) (Items.ofData rest)

def Members.ofData : List (String × Data) → Members
  | [] => .closed
  | (name, value) :: rest =>
    .member (.text (.ofString name)) (Tree.ofData value) (Members.ofData rest)

end

/-! ## Writing -/

theorem pieceText_escapeChar (c : Char) : PieceText (pieceOf c) (escapeChar c) := by
  unfold escapeChar
  -- seven characters have a letter
  split
  · subst c; exact .letter rfl
  split
  · subst c; exact .letter rfl
  split
  · subst c; exact .letter rfl
  split
  · subst c; exact .letter rfl
  split
  · subst c; exact .letter rfl
  split
  · subst c; exact .letter rfl
  split
  · subst c; exact .letter rfl
  rename_i hquote hslash hb hf hn hr ht
  split
  · rename_i hlt
    have hhigh : hexValue? (some (Text.hexDigit (c.toNat / 16))) = some (c.toNat / 16) :=
      Text.digit?_hexDigit (by omega)
    have hlow : hexValue? (some (Text.hexDigit (c.toNat % 16))) = some (c.toNat % 16) :=
      Text.digit?_hexDigit (by omega)
    have hzero : hexValue? (some '0') = some 0 := rfl
    have hquad : hexQuad? (some '0') (some '0') (some (Text.hexDigit (c.toNat / 16)))
        (some (Text.hexDigit (c.toNat % 16))) = some c.toNat := by
      rw [hexQuad?, hhigh, hlow, hzero]
      simp
      omega
    rw [pieceOf, if_pos (by simp [hb, hf, hn, hr, ht, hlt])]
    exact .unit hquad
  · rename_i hge
    rw [pieceOf, if_neg (by omega)]
    exact .plain (by omega) hquote hslash

theorem piecesText_escape (cs : List Char) : PiecesText (cs.map pieceOf) (cs.flatMap escapeChar) := by
  induction cs with
  | nil => exact .nil
  | cons c cs ih =>
    rw [List.map_cons, List.flatMap_cons]
    exact .cons (pieceText_escapeChar c) ih

theorem whole_toDigits (n : ℕ) : Whole (Nat.toDigits 10 n) where
  ne_nil := Nat.toDigits_ne_nil
  digit := by
    intro c hc
    obtain ⟨h0, h9⟩ := Text.isDigit_toDigits hc
    simp [isDigit, h0, h9]
  zero := by
    intro h
    rcases Nat.eq_zero_or_pos n with rfl | hn
    · rfl
    · exact absurd h (Text.head_toDigits hn)

/-- A layout puts nothing but blank space. -/
structure Layout.Blank (layout : Layout) : Prop where
  gap : ∀ depth, Json.Blank (layout.gap depth)
  afterColon : Json.Blank layout.afterColon

theorem pretty_blank : Layout.pretty.Blank where
  gap := by
    intro depth c hc
    rcases List.mem_cons.1 hc with rfl | hc
    · rfl
    · rw [List.eq_of_mem_replicate hc]; rfl
  afterColon := blank_singleton rfl

theorem compact_blank : Layout.compact.Blank where
  gap := fun _ => blank_nil
  afterColon := blank_nil

section

variable {layout : Layout}

mutual

/-- **The writer's text spells the tree of the data.** -/
theorem write_written (hl : layout.Blank) (depth : ℕ) :
    (d : Data) → Written (.ofData d) (write layout depth d)
  | .null => .null
  | .flag true => .trueWord
  | .flag false => .falseWord
  | .count n => (whole_toDigits n).written
  | .text s => .text (piecesText_escape s.toList)
  | .list [] => .noItems blank_nil
  | .list (first :: rest) => by
    have h := writeItems_written hl depth rest (write_written hl (depth + 1) first)
    simpa [write, Tree.ofData, Items.ofData] using Written.array (hl.gap (depth + 1)) h
  | .record [] => .noMembers blank_nil
  | .record ((name, value) :: rest) => by
    have h := writeMembers_written hl depth name rest (write_written hl (depth + 1) value)
    simpa [write, quoted, Tree.ofData, Members.ofData] using Written.object (hl.gap (depth + 1)) h

/-- After an item the other items follow, and the bracket. -/
theorem writeItems_written (hl : layout.Blank) (depth : ℕ) {head : Tree} {cs : List Char} :
    (rest : List Data) → Written head cs →
      ItemsWritten (.item head (.ofData rest))
        (cs ++ writeItems layout depth rest ++ layout.gap depth ++ [']'])
  | [], h => by
    simpa [writeItems, Items.ofData] using ItemsWritten.last h (hl.gap depth)
  | item :: rest, h => by
    have hs := writeItems_written hl depth rest (write_written hl (depth + 1) item)
    simpa [writeItems, Items.ofData] using
      ItemsWritten.more h blank_nil (hl.gap (depth + 1)) hs

/-- After the value of a member the other members follow, and the brace. -/
theorem writeMembers_written (hl : layout.Blank) (depth : ℕ) (name : String) {value : Tree}
    {cs : List Char} : (rest : List (String × Data)) → Written value cs →
      MembersWritten (.member (.text (.ofString name)) value (.ofData rest))
        (quoted name ++ ':' :: layout.afterColon ++ cs ++ writeMembers layout depth rest
          ++ layout.gap depth ++ ['\x7d'])
  | [], h => by
    simpa [writeMembers, quoted, Members.ofData, Spelling.ofString] using
      MembersWritten.last (piecesText_escape name.toList) blank_nil
        hl.afterColon h (hl.gap depth)
  | (next, value) :: rest, h => by
    have hs := writeMembers_written hl depth next rest (write_written hl (depth + 1) value)
    simpa [writeMembers, quoted, Members.ofData, Spelling.ofString] using
      MembersWritten.more (piecesText_escape name.toList) blank_nil
        hl.afterColon h blank_nil (hl.gap (depth + 1)) hs

end

end

/-! ## Reading -/

theorem pieces_say (cs : List Char) : PiecesSay (cs.map pieceOf) cs := by
  induction cs with
  | nil => exact .nil
  | cons c cs ih =>
    rw [List.map_cons, pieceOf]
    split
    · exact .unit rfl ih
    · exact .glyph ih

theorem says_ofString (s : String) : (Spelling.ofString s).Says s := ⟨rfl, pieces_say s.toList⟩

/-- A number of at most 64 bits is read to its last digit. -/
theorem accumulate_digits : ∀ (cs : List Char) (n : ℕ), Nat.ofDigitChars 10 cs n < 2 ^ 64 →
    Numeral.accumulate n cs = (Nat.ofDigitChars 10 cs n, []) := by
  intro cs
  induction cs with
  | nil => intro n _; rfl
  | cons c cs ih =>
    intro n h
    have hstep : 10 * n + (c.toNat - '0'.toNat) = n * 10 + Numeral.digitValue c := by
      rw [Nat.mul_comm]; rfl
    rw [Nat.ofDigitChars_cons, hstep] at h ⊢
    -- the number only grows, so what is reached on the way fits as well
    have hle : n * 10 + Numeral.digitValue c ≤ Nat.ofDigitChars 10 cs (n * 10 + Numeral.digitValue c) := by
      rw [Nat.ofDigitChars_eq_ofDigitChars_zero]
      have hpow : 0 < 10 ^ cs.length := Nat.pow_pos (by omega)
      have := Nat.le_mul_of_pos_left (n * 10 + Numeral.digitValue c) hpow
      omega
    rw [Numeral.accumulate, if_pos (by omega), ih _ h]

theorem value_toDigits {n : ℕ} (h : n < 2 ^ 64) :
    Numeral.value ⟨false, Nat.toDigits 10 n, [], none⟩ = .ok (.integer n) := by
  have hacc := accumulate_digits (Nat.toDigits 10 n) 0
  rw [Nat.ofDigitChars_ten_toDigits] at hacc
  rw [Numeral.value, hacc h]
  rfl

theorem readAll_ofData {α : Type} {read : Tree → Except Fault α} {toData : α → Data} :
    ∀ {items : List α}, (∀ a ∈ items, read (.ofData (toData a)) = pure a) →
      (Items.ofData (items.map toData)).readAll read = .ok items := by
  intro items
  induction items with
  | nil => intro _; rfl
  | cons a items ih =>
    intro h
    rw [List.map_cons, Items.ofData, Items.readAll, h a List.mem_cons_self]
    change (Items.readAll read _ >>= fun more => pure (a :: more)) = _
    rw [ih fun b hb => h b (List.mem_cons_of_mem _ hb)]
    rfl

theorem Members.ofData_lists (fields : List (String × Data)) :
    (Members.ofData fields).Lists (fields.map (Prod.map id .ofData)) := by
  induction fields with
  | nil => exact .closed
  | cons first rest ih => exact .member (says_ofString first.1) ih

/-- **JSON is faithful.** -/
theorem Tree.ofData_faithful : Faithful Tree.ofData where
  text := fun s => (Tree.Says.text (says_ofString s)).read
  flag := fun _ => rfl
  count := by
    intro limit n kind h hn
    change Tree.count limit kind (.number _) = _
    rw [Tree.count, value_toDigits hn]
    simp only
    rw [if_pos (by omega)]
    rfl
  choice := fun names _ name _ h => (Tree.Says.text (says_ofString name)).choice names h
  fingerprint := fun f => (Tree.Says.text (says_ofString f.text)).fingerprint f.parse_text
  optional := by
    intro α read d a hd h
    have hnull : ∀ tree : Tree, tree ≠ .null → DataTree.optional read tree = (read tree).map some := by
      intro tree ht
      cases tree with
      | null => exact absurd rfl ht
      | _ => rfl
    rw [hnull, h]
    · rfl
    · cases d with
      | null => exact absurd rfl hd
      | _ => exact Tree.noConfusion
  list := readAll_ofData
  record := by
    intro α title f draft fields a hf hnd hmem hfill hfinish
    have hnames : (fields.map (Prod.map id Tree.ofData)).map Prod.fst = fields.map Prod.fst := by
      rw [List.map_map]; rfl
    refine (Members.ofData_lists fields).record title hf ?_ hfill ?_ hfinish
    · intro name _
      rw [hnames]
      exact List.nodup_iff_count_le_one.1 hnd name
    · -- there is no other member
      intro e he hnot
      exact absurd (hmem e.1 (hnames ▸ List.mem_map_of_mem he)) hnot

/-- **What is written reads back**, in every layout and with blank space after it. -/
theorem readText_write {α : Type} (read : Tree → Except Fault α) {layout : Layout} (hl : layout.Blank)
    (d : Data) {after : List Char} (hafter : Json.Blank after) :
    readText read ((write layout 0 d ++ after).map some) = read (.ofData d) :=
  readText_written read blank_nil (write_written hl 0 d) hafter

end DepGraph.Json

namespace DepGraph.Graph

open Json

variable {g : Graph}

theorem ofJson_same (hg : g.OK) (hsize : g.nodes.size < 2 ^ 64) :
    ∃ h, ofJson (g.toJson ++ "\n").toUTF8 = .ok h ∧ g.Same h := by
  obtain ⟨h, hgraph, hsame⟩ := toFile_graph hg
  have hread := DepsFile.read_toData Tree.ofData_faithful g.toFile (toFile_fits hg hsize)
  have hlist : (g.toJson ++ "\n").toList = write .pretty 0 g.toFile.toData ++ ['\n'] := by
    simp [toJson, pretty]
  refine ⟨h, ?_, hsame⟩
  rw [ofJson, Text.glyphs_toUTF8, hlist, readText_write _ pretty_blank _ (blank_singleton rfl), hread]
  change orFail .file g.toFile.graph = _
  rw [hgraph]
  rfl

/-- **JSON round trip.** The text of a graph and a line feed read back as the same graph. -/
theorem ofJson_toJson (hg : Reachable g) (hsize : g.nodes.size < 2 ^ 32) :
    ∃ h, ofJson (g.toJson ++ "\n").toUTF8 = .ok h ∧ g.verifySame h = .ok () := by
  obtain ⟨h, hread, hsame⟩ := ofJson_same hg.ok (by omega)
  exact ⟨h, hread, hsame.verifySame⟩

theorem ofJson_toJson_awkward : Reachable awkward ∧ awkward.nodes.size < 2 ^ 32 ∧
    ∃ h, ofJson (awkward.toJson ++ "\n").toUTF8 = .ok h ∧ awkward.verifySame h = .ok () :=
  ⟨awkward_reachable, awkward_small, ofJson_toJson awkward_reachable awkward_small⟩

end DepGraph.Graph
