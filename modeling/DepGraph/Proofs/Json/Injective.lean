import DepGraph.Proofs.Json.RoundTrip

/-!
# JSON tells data apart

A text in JSON has one tree, whatever its layout, and the tree of data keeps every digit and every character
(`Tree.ofData_inj`). So data with the same text are the same (`write_inj`), also where a number is too long to be
read.
-/

namespace DepGraph.Json

theorem toDigits_inj {n n' : ℕ} (h : Nat.toDigits 10 n = Nat.toDigits 10 n') : n = n' := by
  have hn := Text.number?_toDigits (by omega : 1 < 10) (by omega) n
  rw [h, Text.number?_toDigits (by omega) (by omega)] at hn
  exact (Option.some.inj hn).symm

theorem ofString_inj {s s' : String} (h : Spelling.ofString s = Spelling.ofString s') : s = s' := by
  have hs := (Tree.Says.text (says_ofString s)).read
  rw [h, (Tree.Says.text (says_ofString s')).read] at hs
  exact (Except.ok.inj hs).symm

mutual

/-- **The tree of data keeps all there is.** -/
theorem Tree.ofData_inj : (d : Data) → ∀ {d' : Data}, Tree.ofData d = Tree.ofData d' → d = d'
  | .null, d', h => by
    cases d' with
    | null => rfl
    | _ => exact Tree.noConfusion h
  | .flag b, d', h => by
    cases d' with
    | flag b' => rw [Tree.bool.inj h]
    | _ => exact Tree.noConfusion h
  | .count n, d', h => by
    cases d' with
    | count n' => rw [toDigits_inj (Numeral.mk.inj (Tree.number.inj h)).2.1]
    | _ => exact Tree.noConfusion h
  | .text s, d', h => by
    cases d' with
    | text s' => rw [ofString_inj (Tree.text.inj h)]
    | _ => exact Tree.noConfusion h
  | .list items, d', h => by
    cases d' with
    | list items' => rw [Items.ofData_inj items (Tree.array.inj h)]
    | _ => exact Tree.noConfusion h
  | .record fields, d', h => by
    cases d' with
    | record fields' => rw [Members.ofData_inj fields (Tree.object.inj h)]
    | _ => exact Tree.noConfusion h

theorem Items.ofData_inj : (items : List Data) → ∀ {items' : List Data},
    Items.ofData items = Items.ofData items' → items = items'
  | [], items', h => by
    cases items' with
    | nil => rfl
    | cons item rest => exact Items.noConfusion h
  | item :: rest, items', h => by
    cases items' with
    | nil => exact Items.noConfusion h
    | cons item' rest' =>
      obtain ⟨hitem, hrest⟩ := Items.item.inj h
      rw [Tree.ofData_inj item hitem, Items.ofData_inj rest hrest]

theorem Members.ofData_inj : (fields : List (String × Data)) → ∀ {fields' : List (String × Data)},
    Members.ofData fields = Members.ofData fields' → fields = fields'
  | [], fields', h => by
    cases fields' with
    | nil => rfl
    | cons field rest => exact Members.noConfusion h
  | (name, value) :: rest, fields', h => by
    cases fields' with
    | nil => exact Members.noConfusion h
    | cons field' rest' =>
      obtain ⟨name', value'⟩ := field'
      obtain ⟨hname, hvalue, hrest⟩ := Members.member.inj h
      rw [ofString_inj (Tree.text.inj hname), Tree.ofData_inj value hvalue, Members.ofData_inj rest hrest]

end

/-- **Data with the same text are the same**, in every layout. -/
theorem write_inj {layout : Layout} (hl : layout.Blank) {d d' : Data}
    (h : write layout 0 d = write layout 0 d') : d = d' := by
  -- reading a text for its tree undoes the writing
  have hread : ∀ d, readText .ok ((write layout 0 d ++ []).map some) = .ok (Tree.ofData d) := by
    intro d
    exact readText_write _ hl d blank_nil
  have hd := hread d
  rw [h, hread d'] at hd
  exact Tree.ofData_inj d (Except.ok.inj hd).symm

theorem pretty_inj {d d' : Data} : pretty d = pretty d' ↔ d = d' := by
  constructor
  · intro h
    exact write_inj pretty_blank (String.ofList_injective h)
  · rintro rfl
    rfl

end DepGraph.Json
