import DepGraph.Data.Basic
import DepGraph.Data.Reading
import Mathlib.Algebra.Ring.Nat
import Mathlib.Data.List.Nodup
import Mathlib.Tactic.Common

/-!
# Records are read in any order

* `Fields.Fills`: the members of a tree fill a draft. Which members there are counts, their order does
  not.
* `Fields.accept_restrict`: the next member is taken into the draft of those before it.
* `Fields.present`: the members of a record, some of which may be left out.
* `Faithful`: the laws by which the trees of a notation read back as the data they were made of.
-/

namespace DepGraph

variable {ν ε α β : Type} {m : Type → Type}

namespace Fields

/-- The fields of a draft that have one of some names. -/
def restrict {α : Type} (seen : List String) : (f : Fields ν m α) → f.Draft → f.Draft
  | .start _, draft => draft
  | @Fields.field _ _ _ β before name _ _, draft =>
    let (earlier, slot) : before.Draft × Option β := draft
    (before.restrict seen earlier, if name ∈ seen then slot else none)

/-- The slot of a field holds what is read from the member of its name, or nothing without one. -/
def Slot [Monad m] (members : List (String × ν)) (name : String) (read : ν → m β) (slot : Option β) :
    Prop :=
  match members.lookup name with
  | some value => ∃ x, slot = some x ∧ read value = pure x
  | none => slot = none

theorem Slot.of_member [Monad m] {members : List (String × ν)} {name : String} {read : ν → m β}
    {value : ν} {x : β} (hl : members.lookup name = some value) (h : read value = pure x) :
    Slot members name read (some x) := by
  rw [Slot, hl]
  exact ⟨x, rfl, h⟩

theorem Slot.of_absent [Monad m] {members : List (String × ν)} {name : String} {read : ν → m β}
    (hl : members.lookup name = none) : Slot members name read none := by
  rw [Slot, hl]

/-- Members fill a draft, slot by slot. -/
def Fills {α : Type} [Monad m] (members : List (String × ν)) : (f : Fields ν m α) → f.Draft → Prop
  | .start _, _ => True
  | @Fields.field _ _ _ β before name read _, draft =>
    let (earlier, slot) : before.Draft × Option β := draft
    before.Fills members earlier ∧ Slot members name read slot

theorem restrict_nil (f : Fields ν m α) (draft : f.Draft) : f.restrict [] draft = f.blank := by
  induction f with
  | start build => rfl
  | field before name read absent ih =>
    obtain ⟨earlier, slot⟩ := draft
    rw [restrict, ih earlier, if_neg List.not_mem_nil]
    rfl

/-- A name that no field has makes no difference. -/
theorem restrict_other {given : String} {seen : List String} (f : Fields ν m α) (draft : f.Draft)
    (h : given ∉ f.names) : f.restrict (seen ++ [given]) draft = f.restrict seen draft := by
  induction f with
  | start build => rfl
  | field before name read absent ih =>
    obtain ⟨earlier, slot⟩ := draft
    rw [names, List.mem_append, List.mem_singleton, not_or] at h
    have hmem : name ∈ seen ++ [given] ↔ name ∈ seen := by simp [Ne.symm h.2]
    rw [restrict, restrict, ih earlier h.1]
    simp only [hmem]
    rfl

/-- Once all members are seen nothing is left out. -/
theorem restrict_all [Monad m] {members : List (String × ν)} {seen : List String} (f : Fields ν m α)
    {draft : f.Draft} (hf : f.Fills members draft)
    (hseen : ∀ name, (members.lookup name).isSome → name ∈ seen) : f.restrict seen draft = draft := by
  induction f with
  | start build => rfl
  | field before name read absent ih =>
    obtain ⟨earlier, slot⟩ := draft
    obtain ⟨hbefore, hslot⟩ := hf
    rw [restrict, ih hbefore]
    by_cases hn : name ∈ seen
    · rw [if_pos hn]
    · have hnone : members.lookup name = none := by
        rw [← Option.not_isSome_iff_eq_none]
        exact fun h => hn (hseen name h)
      rw [Slot, hnone] at hslot
      rw [if_neg hn, show slot = none from hslot]

/-- **The next member is taken** into the draft of the members before it. -/
theorem accept_restrict [Monad m] [LawfulMonad m] [MonadExcept ε m] (duplicate : String → ε)
    {members : List (String × ν)} {given : String} {value : ν} {seen : List String}
    (f : Fields ν m α) {draft : f.Draft} (hnd : f.names.Nodup) (hf : f.Fills members draft)
    (hl : members.lookup given = some value) (hmem : given ∈ f.names) (hseen : given ∉ seen) :
    ∃ next, f.accept duplicate (f.restrict seen draft) given = some next ∧
      next value = pure (f.restrict (seen ++ [given]) draft) := by
  induction f with
  | start build => cases hmem
  | field before name read absent ih =>
    obtain ⟨earlier, slot⟩ := draft
    obtain ⟨hbefore, hslot⟩ := hf
    rw [names, List.nodup_append] at hnd
    obtain ⟨hnd, -, hdis⟩ := hnd
    rw [restrict, accept]
    by_cases hg : given = name
    · -- this field takes it, and no earlier one has the name
      subst hg
      rw [Slot, hl] at hslot
      obtain ⟨x, rfl, hx⟩ := hslot
      have hnot : given ∉ before.names := fun h => hdis given h given List.mem_cons_self rfl
      have hin : given ∈ seen ++ [given] := List.mem_append_right _ List.mem_cons_self
      rw [if_pos rfl, if_neg hseen, restrict, restrict_other before earlier hnot, if_pos hin]
      refine ⟨_, rfl, ?_⟩
      change (read value >>= fun x => pure (before.restrict seen earlier, some x)) = _
      rw [hx, pure_bind]
      rfl
    · rw [names, List.mem_append, List.mem_singleton] at hmem
      obtain ⟨next, hnext, hv⟩ := ih hnd hbefore (hmem.resolve_right hg)
      have hiff : name ∈ seen ++ [given] ↔ name ∈ seen := by simp [Ne.symm hg]
      rw [if_neg hg, hnext, restrict]
      simp only [hiff]
      refine ⟨_, rfl, ?_⟩
      change (next value >>= fun earlier => pure (earlier, if name ∈ seen then slot else none)) = _
      rw [hv, pure_bind]
      rfl

/-- A name that no field has is not taken. -/
theorem accept_other [Monad m] [MonadExcept ε m] (duplicate : String → ε) {given : String}
    (f : Fields ν m α) (draft : f.Draft) (h : given ∉ f.names) : f.accept duplicate draft given = none := by
  induction f with
  | start build => rfl
  | field before name read absent ih =>
    obtain ⟨earlier, slot⟩ := draft
    rw [names, List.mem_append, List.mem_singleton, not_or] at h
    rw [accept, if_neg h.2, ih earlier h.1]
    rfl

/-- What members fill depends on nothing but the members with the names of fields. -/
theorem Fills.congr [Monad m] {members members' : List (String × ν)} {f : Fields ν m α} {draft : f.Draft}
    (h : f.Fills members draft)
    (hl : ∀ name ∈ f.names, members.lookup name = members'.lookup name) : f.Fills members' draft := by
  induction f with
  | start build => trivial
  | field before name read absent ih =>
    obtain ⟨earlier, slot⟩ := draft
    obtain ⟨hbefore, hslot⟩ := h
    rw [Slot, hl name (by simp [names])] at hslot
    exact ⟨ih hbefore fun name hn => hl name (List.mem_append_left _ hn), hslot⟩

/-- The order of members does not matter for a name that only one of them has. -/
theorem lookup_perm {given : String} {members members' : List (String × ν)}
    (hperm : members.Perm members') (h : (members.map Prod.fst).count given ≤ 1) :
    members.lookup given = members'.lookup given := by
  induction hperm with
  | nil => rfl
  | cons first _ ih =>
    rw [List.map_cons, List.count_cons] at h
    rw [List.lookup_cons, List.lookup_cons, ih (by omega)]
  | swap first second rest =>
    simp only [List.map_cons, List.count_cons] at h
    rw [List.lookup_cons, List.lookup_cons, List.lookup_cons, List.lookup_cons]
    -- they do not both have the name
    by_cases h₁ : given = first.1
    · by_cases h₂ : given = second.1
      · simp [← h₁, ← h₂] at h
      · simp [beq_eq_false_iff_ne.2 h₂]
    · simp [beq_eq_false_iff_ne.2 h₁]
  | trans hp _ ih₁ ih₂ =>
    rw [ih₁ h, ih₂ ((hp.map Prod.fst).count_eq given ▸ h)]

theorem lookup_append {given : String} {value : ν} {done rest : List (String × ν)}
    (h : given ∉ done.map Prod.fst) : (done ++ (given, value) :: rest).lookup given = some value := by
  induction done with
  | nil => simp
  | cons first done ih =>
    obtain ⟨name, v⟩ := first
    rw [List.map_cons, List.mem_cons, not_or] at h
    rw [List.cons_append, List.lookup_cons, beq_eq_false_iff_ne.2 h.1]
    exact ih h.2

theorem mem_of_lookup {given : String} {members : List (String × ν)}
    (h : (members.lookup given).isSome) : given ∈ members.map Prod.fst := by
  obtain ⟨value, hv⟩ := Option.isSome_iff_exists.1 h
  obtain ⟨l₁, l₂, hl, -⟩ := List.lookup_eq_some_iff.1 hv
  rw [hl]
  simp

/-! ### Members that may be left out -/

/-- The members that are given, of some that may be left out. -/
def present (members : List (String × Option ν)) : List (String × ν) :=
  members.filterMap fun (name, value) => value.map (name, ·)

theorem present_sublist (members : List (String × Option ν)) :
    ((present members).map Prod.fst).Sublist (members.map Prod.fst) := by
  induction members with
  | nil => exact .slnil
  | cons first rest ih =>
    obtain ⟨name, value⟩ := first
    cases value with
    | none => exact ih.cons name
    | some value => exact ih.cons_cons name

theorem map_present {ν' : Type} (tree : ν → ν') (members : List (String × Option ν)) :
    (present members).map (Prod.map id tree) = present (members.map (Prod.map id (Option.map tree))) := by
  rw [present, present, List.map_filterMap, List.filterMap_map]
  refine congrArg (List.filterMap · members) (funext fun ⟨name, value⟩ => ?_)
  cases value <;> rfl

theorem filter_present (p : String → Bool) (members : List (String × Option ν)) :
    (present members).filter (fun e => p e.1) = present (members.filter fun e => p e.1) := by
  rw [present, present, List.filter_filterMap, List.filterMap_filter]
  refine congrArg (List.filterMap · members) (funext fun ⟨name, value⟩ => ?_)
  cases value with
  | none => simp
  | some value => by_cases hp : p name <;> simp [hp]

theorem lookup_present (members : List (String × Option ν)) (hnd : (members.map Prod.fst).Nodup)
    (given : String) : (present members).lookup given = (members.lookup given).join := by
  induction members with
  | nil => rfl
  | cons first rest ih =>
    obtain ⟨name, value⟩ := first
    rw [List.map_cons, List.nodup_cons] at hnd
    by_cases hgiven : given = name
    · subst hgiven
      cases value with
      | some value => simp [present]
      | none =>
        -- no other member has the name
        have hnone : (present rest).lookup given = none := by
          rw [← Option.not_isSome_iff_eq_none]
          exact fun h => hnd.1 ((present_sublist rest).subset (mem_of_lookup h))
        simpa [present, List.lookup_cons] using hnone
    · rw [List.lookup_cons, beq_eq_false_iff_ne.2 hgiven]
      cases value with
      | none => exact ih hnd.2
      | some value =>
        have hcons : present ((name, some value) :: rest) = (name, value) :: present rest := rfl
        rw [hcons, List.lookup_cons, beq_eq_false_iff_ne.2 hgiven]
        exact ih hnd.2

/-- The member after some others is taken into their draft. -/
theorem accept_next [Monad m] [LawfulMonad m] [MonadExcept ε m] (duplicate : String → ε)
    {done rest : List (String × ν)} {given : String} {value : ν} (f : Fields ν m α) {draft : f.Draft}
    (hnd : f.names.Nodup) (hf : f.Fills (done ++ (given, value) :: rest) draft)
    (hmembers : ((done ++ (given, value) :: rest).map Prod.fst).Nodup) (hmem : given ∈ f.names) :
    ∃ next, f.accept duplicate (f.restrict (done.map Prod.fst) draft) given = some next ∧
      next value = pure (f.restrict ((done ++ [(given, value)]).map Prod.fst) draft) := by
  have hnot : given ∉ done.map Prod.fst := by
    rw [List.map_append, List.nodup_append] at hmembers
    intro h
    exact hmembers.2.2 given h given (by simp) rfl
  rw [List.map_append]
  exact f.accept_restrict duplicate hnd hf (lookup_append hnot) hmem hnot

end Fields

/-- **A notation is faithful** if reading undoes `tree`, by which it represents data. Counts have at most
64 bits. -/
structure Faithful [Monad m] [DataTree ν m] (tree : Data → ν) : Prop where
  text (s : String) : DataTree.text (tree (.text s)) = pure s
  flag (b : Bool) : DataTree.flag (tree (.flag b)) = pure b
  count {limit n : ℕ} (kind : String) (h : n ≤ limit) (hn : n < 2 ^ 64) :
    DataTree.count limit kind (tree (.count n)) = pure n
  choice {α : Type} (names : List String) {pick : String → Option α} {name : String} {a : α}
    (h : pick name = some a) : DataTree.choice names pick (tree (.text name)) = pure a
  fingerprint (f : Fingerprint) : DataTree.fingerprint (tree (.text f.text)) = pure f
  optional {α : Type} {read : ν → m α} {d : Data} {a : α} (hd : d ≠ .null)
    (h : read (tree d) = pure a) : DataTree.optional read (tree d) = pure (some a)
  list {α : Type} {read : ν → m α} {toData : α → Data} {items : List α}
    (h : ∀ a ∈ items, read (tree (toData a)) = pure a) :
    DataTree.list read (tree (.list (items.map toData))) = pure items
  record {α : Type} (title : String) (f : Fields ν m α) (draft : f.Draft)
    {fields : List (String × Data)} {a : α} (hf : f.names.Nodup) (hnd : (fields.map Prod.fst).Nodup)
    (hmem : ∀ name ∈ fields.map Prod.fst, name ∈ f.names)
    (hfill : f.Fills (fields.map (Prod.map id tree)) draft)
    (hfinish : ∀ {ε : Type} (missing : String → ε), f.finish missing draft = .ok a) :
    DataTree.record title f (tree (.record fields)) = pure a

namespace Faithful

variable [Monad m] [DataTree ν m] {tree : Data → ν}

/-- The slot of a value that may be left out. -/
theorem slot_optional (ht : Faithful tree) {members : List (String × ν)} {name : String}
    {read : ν → m β} {toData : β → Data} {o : Option β}
    (hl : members.lookup name = (o.map toData).map tree) (hnull : ∀ x, toData x ≠ .null)
    (h : ∀ x, read (tree (toData x)) = pure x) :
    Fields.Slot members name (DataTree.optional read) (o.map some) := by
  cases o with
  | none => exact .of_absent hl
  | some x => exact .of_member hl (ht.optional (hnull x) (h x))

/-- A record with members that may be left out. -/
theorem record_present (ht : Faithful tree) (title : String) (f : Fields ν m α) (draft : f.Draft)
    {slots : List (String × Option Data)} {a : α} (hf : f.names.Nodup)
    (hslots : slots.map Prod.fst = f.names)
    (hfill : f.Fills (Fields.present (slots.map (Prod.map id (Option.map tree)))) draft)
    (hfinish : ∀ {ε : Type} (missing : String → ε), f.finish missing draft = .ok a) :
    DataTree.record title f (tree (.record (Fields.present slots))) = pure a := by
  have hsub := Fields.present_sublist slots
  rw [hslots] at hsub
  refine ht.record title f draft hf (hf.sublist hsub) (fun name hn => hsub.subset hn) ?_ hfinish
  rw [Fields.map_present]
  exact hfill

end Faithful

end DepGraph
