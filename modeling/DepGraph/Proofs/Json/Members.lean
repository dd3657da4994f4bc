import DepGraph.Json.Decode
import DepGraph.Proofs.Data.Reading
import DepGraph.Proofs.Json.Grammar

/-!
# The members of objects

What an object says is a list of names with values, however the names are spelled.

* `Members.Lists.collect`: members that fill a draft are collected into it, in whatever order they come
  and whatever stands between them.
* `Written.skip`: a value of right form can be passed over, whatever its size and depth.
* `readText_written`: from a text that spells a tree, what is read is what is read from the tree.
-/

namespace DepGraph.Json

/-! ## Strings -/

/-- Pieces of a string stand for characters: a unit for the character of its number, or two surrogates
together for one character beyond 16 bits. -/
inductive PiecesSay : List Piece → List Char → Prop where
  | nil : PiecesSay [] []
  | glyph {c : Char} {pieces : List Piece} {cs : List Char} (h : PiecesSay pieces cs) :
    PiecesSay (.glyph (some c) :: pieces) (c :: cs)
  | unit {n : ℕ} {c : Char} {pieces : List Piece} {cs : List Char} (hc : c.toNat = n)
    (h : PiecesSay pieces cs) : PiecesSay (.unit n :: pieces) (c :: cs)
  | pair {high low : ℕ} {c : Char} {pieces : List Piece} {cs : List Char}
    (hhigh : 0xD800 ≤ high ∧ high < 0xDC00) (hlow : 0xDC00 ≤ low ∧ low < 0xE000)
    (hc : c.toNat = 0x10000 + (high - 0xD800) * 0x400 + (low - 0xDC00)) (h : PiecesSay pieces cs) :
    PiecesSay (.unit high :: .unit low :: pieces) (c :: cs)

/-- A string is spelled to its end and says a text. -/
structure Spelling.Says (spelling : Spelling) (s : String) : Prop where
  stop : spelling.stop = none
  pieces : PiecesSay spelling.pieces s.toList

theorem decode_say {pieces : List Piece} {cs : List Char} (h : PiecesSay pieces cs) :
    Spelling.decode pieces none = .ok (cs.map some) := by
  induction h with
  | nil => rfl
  | glyph _ ih => rw [Spelling.decode, ih]; rfl
  | @unit n c pieces cs hc _ ih =>
    -- a character is no surrogate
    have hvalid : n < 0xD800 ∨ n > 0xDFFF := by
      rcases c.valid with h | ⟨h, -⟩
      · exact .inl (hc ▸ h)
      · exact .inr (hc ▸ h)
    rw [Spelling.decode.eq_def]
    simp only
    rw [if_pos hvalid, ih, ← hc, Char.ofNat_toNat]
    rfl
  | pair hhigh hlow hc _ ih =>
    rw [Spelling.decode.eq_def]
    simp only
    rw [if_neg (by omega), if_neg (by omega), if_neg (by omega), ih, ← hc, Char.ofNat_toNat]
    rfl

theorem Spelling.Says.heard {spelling : Spelling} {s : String} (h : spelling.Says s) :
    spelling.heard = .ok s := by
  have htext : spelling.text = .ok s := by
    rw [Spelling.text, h.stop, decode_say h.pieces]
    simp [List.reduceOption, List.filterMap_map]
  rw [Spelling.heard, htext]

/-- A value is a string that says a text. -/
inductive Tree.Says : Tree → String → Prop where
  | text {spelling : Spelling} {s : String} (h : spelling.Says s) : Says (.text spelling) s

namespace Tree.Says

variable {tree : Tree} {s : String}

theorem read (h : tree.Says s) : DataTree.text tree = pure s := by
  obtain ⟨h⟩ := h
  exact h.heard

theorem choice {α : Type} (h : tree.Says s) (names : List String) {pick : String → Option α} {a : α}
    (hpick : pick s = some a) : DataTree.choice names pick tree = pure a := by
  obtain ⟨h⟩ := h
  change (Spelling.heard _ >>= fun name => Tree.pickName names pick name) = _
  rw [h.heard]
  change Tree.pickName names pick s = _
  rw [Tree.pickName, hpick]
  rfl

theorem fingerprint (h : tree.Says s) {f : Fingerprint} (hf : Fingerprint.parse s = .ok f) :
    DataTree.fingerprint tree = pure f := by
  have htext : tree.textAs "a string" = .ok s := h.read
  simp only [DataTree.fingerprint, htext, bind, Except.bind, hf]

end Tree.Says

/-! ## Members -/

/-- The names and values of the members of an object that is closed. -/
inductive Members.Lists : Members → List (String × Tree) → Prop where
  | closed : Lists .closed []
  | member {spelling : Spelling} {name : String} {value : Tree} {rest : Members}
    {l : List (String × Tree)} (hname : spelling.Says name) (h : Lists rest l) :
    Lists (.member (.text spelling) value rest) ((name, value) :: l)

/-- **Members that fill a draft are collected into it**, from any place in their list on. Each field is
given once at most; the members that are none go to `other`, in their order. -/
theorem Members.Lists.collect {α σ : Type} {f : Fields Tree (Except Fault) α} {draft : f.Draft}
    {members : Members} {rest : List (String × Tree)} (h : members.Lists rest) (hf : f.names.Nodup)
    (other : σ → String → Tree → Except Fault σ) :
    ∀ (done : List (String × Tree)) {kept kept' : σ},
      (∀ name ∈ f.names, ((done ++ rest).map Prod.fst).count name ≤ 1) → f.Fills (done ++ rest) draft →
      (rest.filter (·.1 ∉ f.names)).foldlM (fun kept e => other kept e.1 e.2) kept = .ok kept' →
      members.collect f other (f.restrict (done.map Prod.fst) draft) kept = .ok (draft, kept') := by
  induction h with
  | closed =>
    intro done kept kept' _ hfill hother
    rw [List.append_nil] at hfill
    cases hother
    rw [f.restrict_all hfill fun name => Fields.mem_of_lookup]
    rfl
  | @member spelling name value more rest hname _ ih =>
    -- the draft so far is the final one, with the fields left out that are still to come
    intro done kept kept' hcount hfill hother
    have hgiven : Tree.memberName (.text spelling) = .ok name := hname.heard
    have hassoc : done ++ (name, value) :: rest = done ++ [(name, value)] ++ rest := by simp
    rw [Members.collect, hgiven]
    by_cases hmem : name ∈ f.names
    · have hnot : name ∉ done.map Prod.fst := by
        have hone := hcount name hmem
        rw [List.map_append, List.count_append, List.map_cons, List.count_cons_self] at hone
        exact List.count_eq_zero.1 (by omega)
      obtain ⟨next, hnext, hv⟩ := f.accept_restrict
        (fun field => Fault.mismatch (.duplicateField field)) hf hfill (Fields.lookup_append hnot) hmem hnot
      rw [List.filter_cons_of_neg (by simpa using hmem)] at hother
      rw [hassoc] at hcount hfill
      have hrest := ih _ hcount hfill hother
      rw [List.map_append] at hrest
      simp only [bind, Except.bind, hnext, hv]
      exact hrest
    · rw [List.filter_cons_of_pos (by simpa using hmem), List.foldlM_cons] at hother
      rw [hassoc] at hcount hfill
      cases hkept : other kept name value with
      | error e => rw [hkept] at hother; cases hother
      | ok next =>
        rw [hkept] at hother
        have hrest := ih _ hcount hfill hother
        rw [List.map_append] at hrest
        simp only [bind, Except.bind, f.accept_other _ _ hmem, hkept]
        rw [← f.restrict_other draft hmem]
        exact hrest

/-- All members of an object are collected. -/
theorem Members.Lists.collect_all {α σ : Type} {members : Members} {l : List (String × Tree)}
    (h : members.Lists l) (f : Fields Tree (Except Fault) α) {draft : f.Draft} (hf : f.names.Nodup)
    (hcount : ∀ name ∈ f.names, (l.map Prod.fst).count name ≤ 1) (hfill : f.Fills l draft)
    (other : σ → String → Tree → Except Fault σ) {kept kept' : σ}
    (hother : (l.filter (·.1 ∉ f.names)).foldlM (fun kept e => other kept e.1 e.2) kept = .ok kept') :
    members.collect f other f.blank kept = .ok (draft, kept') := by
  rw [← f.restrict_nil draft]
  exact h.collect hf other [] hcount hfill hother

/-- **A record is read** from the members of an object: those that are none of its fields have to be of
right form, and nothing more. -/
theorem Members.Lists.record {α : Type} {f : Fields Tree (Except Fault) α} {draft : f.Draft}
    {members : Members} {l : List (String × Tree)} {a : α} (h : members.Lists l) (title : String)
    (hf : f.names.Nodup) (hcount : ∀ name ∈ f.names, (l.map Prod.fst).count name ≤ 1)
    (hfill : f.Fills l draft) (hskip : ∀ e ∈ l, e.1 ∉ f.names → e.2.skip = .ok ())
    (hfinish : ∀ {ε : Type} (missing : String → ε), f.finish missing draft = .ok a) :
    Tree.record title f (.object members) = .ok a := by
  have hother : ∀ l : List (String × Tree), (∀ e ∈ l, e.2.skip = .ok ()) →
      l.foldlM (fun () e => e.2.skip) () = .ok () := by
    intro l hl
    induction l with
    | nil => rfl
    | cons e l ih =>
      rw [List.foldlM_cons, hl e List.mem_cons_self]
      exact ih fun e he => hl e (List.mem_cons_of_mem _ he)
  have hcollect := h.collect_all f hf hcount hfill (fun () _ value => value.skip)
    (hother _ fun e he => hskip e (List.mem_of_mem_filter he) (by simpa using List.of_mem_filter he))
  rw [Tree.record, hcollect]
  exact hfinish _

/-! ## Passing over values -/

mutual

/-- **A value of right form can be passed over.** -/
theorem Written.skip : ∀ {tree : Tree} {cs : List Char}, Written tree cs → tree.skip = .ok ()
  | _, _, .null | _, _, .trueWord | _, _, .falseWord | _, _, .number _ | _, _, .negative _ => rfl
  | _, _, .text _ | _, _, .noItems _ | _, _, .noMembers _ => rfl
  | _, _, .array _ h => h.skip
  | _, _, .object _ h => h.skip

theorem ItemsWritten.skip : ∀ {items : Items} {cs : List Char}, ItemsWritten items cs → items.skip = .ok ()
  | _, _, .last h _ => by rw [Items.skip, h.skip]; rfl
  | _, _, .more h _ _ hs => by rw [Items.skip, h.skip]; exact hs.skip

theorem MembersWritten.skip : ∀ {members : Members} {cs : List Char},
    MembersWritten members cs → members.skip = .ok ()
  | _, _, .last _ _ _ h _ => by rw [Members.skip, Tree.passText, h.skip]; rfl
  | _, _, .more _ _ _ h _ _ hs => by rw [Members.skip, Tree.passText, h.skip]; exact hs.skip

end

/-- The members of an object of right form have values of right form. -/
theorem Members.Lists.skip {members : Members} {l : List (String × Tree)} (h : members.Lists l)
    (hskip : members.skip = .ok ()) : ∀ e ∈ l, e.2.skip = .ok () := by
  induction h with
  | closed => intro e he; cases he
  | @member spelling name value rest l hname _ ih =>
    obtain ⟨pieces, stop⟩ := spelling
    obtain rfl : stop = none := hname.stop
    rw [Members.skip, Tree.passText] at hskip
    cases hvalue : value.skip with
    | error e => rw [hvalue] at hskip; cases hskip
    | ok =>
      rw [hvalue] at hskip
      intro e he
      rcases List.mem_cons.1 he with rfl | he
      · exact hvalue
      · exact ih hskip e he

/-! ## Objects with more members than are asked for -/

/-- An object has certain members, in any order, and others besides that have none of some names. -/
inductive Tree.Holds (names : List String) (known : List (String × Tree)) : Tree → Prop where
  | object {members : Members} {l others : List (String × Tree)} (h : members.Lists l)
    (hperm : l.Perm (known ++ others)) (hothers : ∀ e ∈ others, e.1 ∉ names) :
    Holds names known (.object members)

theorem Tree.Holds.skip {names : List String} {known : List (String × Tree)} {tree : Tree}
    (h : tree.Holds names known) (hskip : tree.skip = .ok ()) : ∀ e ∈ known, e.2.skip = .ok () := by
  obtain ⟨h, hperm, -⟩ := h
  intro e he
  exact h.skip hskip e (hperm.mem_iff.2 (List.mem_append_left _ he))

/-- **A record is read** from an object that holds its fields, whatever else it holds. -/
theorem Tree.Holds.record {α : Type} (title : String) (f : Fields Tree (Except Fault) α)
    (draft : f.Draft) {known : List (String × Tree)} {tree : Tree} {a : α} (h : tree.Holds f.names known)
    (hskip : tree.skip = .ok ()) (hf : f.names.Nodup) (hnd : (known.map Prod.fst).Nodup)
    (hfill : f.Fills known draft)
    (hfinish : ∀ {ε : Type} (missing : String → ε), f.finish missing draft = .ok a) :
    DataTree.record title f tree = pure a := by
  obtain ⟨h, hperm, hothers⟩ := h
  rename_i members l others
  have hnot : ∀ name ∈ f.names, name ∉ others.map Prod.fst := by
    intro name hname hmem
    obtain ⟨e, he, rfl⟩ := List.mem_map.1 hmem
    exact hothers e he hname
  have hcount : ∀ name ∈ f.names, (l.map Prod.fst).count name ≤ 1 := by
    intro name hname
    rw [(hperm.map Prod.fst).count_eq, List.map_append, List.count_append,
      List.count_eq_zero.2 (hnot name hname)]
    exact List.nodup_iff_count_le_one.1 hnd name
  have hlookup : ∀ name ∈ f.names, known.lookup name = l.lookup name := by
    intro name hname
    have hnone : others.lookup name = none := by
      rw [← Option.not_isSome_iff_eq_none]
      exact fun hsome => hnot name hname (Fields.mem_of_lookup hsome)
    rw [Fields.lookup_perm hperm (hcount name hname), List.lookup_append, hnone, Option.or_none]
  exact h.record title hf hcount (hfill.congr hlookup) (fun e he _ => h.skip hskip e he) hfinish

/-- The items of an array stand for the members of a list, one by one. -/
inductive Items.Each {α : Type} (spelled : α → Tree → Prop) : List α → Items → Prop where
  | closed : Each spelled [] .closed
  | item {a : α} {more : List α} {head : Tree} {rest : Items} (h : spelled a head)
    (hs : Each spelled more rest) : Each spelled (a :: more) (.item head rest)

theorem Items.Each.readAll {α : Type} {spelled : α → Tree → Prop} {read : Tree → Except Fault α}
    {items : Items} {l : List α} (h : Items.Each spelled l items) (hskip : items.skip = .ok ())
    (hread : ∀ a ∈ l, ∀ tree, spelled a tree → tree.skip = .ok () → read tree = .ok a) :
    items.readAll read = .ok l := by
  induction h with
  | closed => rfl
  | @item a more head rest h _ ih =>
    rw [Items.skip] at hskip
    cases hhead : head.skip with
    | error e => rw [hhead] at hskip; cases hskip
    | ok =>
      rw [hhead] at hskip
      rw [Items.readAll, hread a List.mem_cons_self head h hhead]
      change (Items.readAll read rest >>= fun more => pure (a :: more)) = _
      rw [ih hskip fun b hb => hread b (List.mem_cons_of_mem _ hb)]
      rfl

/-! ## Whole texts -/

/-- **From a text that spells a tree** what is read is what is read from the tree. -/
theorem readText_written {α : Type} (read : Tree → Except Fault α) {tree : Tree}
    {before cs after : List Char} (hbefore : Blank before) (h : Written tree cs) (hafter : Blank after) :
    readText read ((before ++ cs ++ after).map some) = read tree := by
  have hends : Ends (after.map some ++ []) := ends_gap hafter trivial
  have hrest : skipBlanks (after.map some ++ []) = [] := skipBlanks_gap hafter
  rw [List.append_nil] at hends hrest
  have hread : Tree.read ((before ++ cs ++ after).map some) = (tree, some (after.map some)) := by
    rw [Tree.read, List.map_append, List.map_append, List.append_assoc, readValue_gap hbefore]
    refine readValue_written h ?_ hends
    simp
    omega
  rw [readText, hread]
  simp only [hrest, List.isEmpty_nil, if_true]
  exact bind_pure (read tree)

end DepGraph.Json
