import DepGraph.Graph.Diff
import DepGraph.Proofs.Graph.Run
import DepGraph.Proofs.KeyOrder
import Mathlib.Logic.Function.Basic

/-!
# What a diff says

A graph says of a key that it has no node, or which fingerprint its node has, if any
(`Graph.fingerprintOf?`). Between two graphs this is all that a diff compares.

* `Diff.Exact`: a diff lists the keys that went, came or changed, in ascending order. There is only one
  such diff (`Exact.unique`), so that all laws of diffs follow: applied to the old fingerprints it gives the
  new ones of the keys that were there (`Exact.apply_eq`), backwards it is the diff with old and new
  exchanged (`Exact.swap`), and it is empty iff nothing differs (`Exact.isEmpty_iff`).
* `Graph.OK.diff_exact`: the diff of two graphs is exact.
-/

namespace DepGraph

/-- What is known of the fingerprints of keys: nothing of a key that is not there, and that there is none or
which it is of others. -/
abbrev Fingerprints := Key → Option (Option Fingerprint)

/-- The fingerprints without a key. -/
def Fingerprints.forget (known : Fingerprints) (key : Key) : Fingerprints := Function.update known key none

/-- The fingerprints after a change. -/
def Fingerprints.overwrite (known : Fingerprints) (change : FingerprintChange) : Fingerprints :=
  Function.update known change.key (some change.new)

namespace Diff

/-- The fingerprints after a diff: keys that were removed go, those that changed are overwritten. -/
def apply (d : Diff) (before : Fingerprints) : Fingerprints :=
  d.changed.foldl Fingerprints.overwrite (d.removed.foldl Fingerprints.forget before)

/-- The diff backwards. -/
def swap (d : Diff) : Diff :=
  ⟨d.removed, d.added, d.changed.map fun change => ⟨change.key, change.new, change.old⟩⟩

/-- **A diff says exactly what differs**, in ascending order of keys. -/
structure Exact (d : Diff) (before after : Fingerprints) : Prop where
  removed : ∀ key, key ∈ d.removed ↔ before key ≠ none ∧ after key = none
  added : ∀ key, key ∈ d.added ↔ before key = none ∧ after key ≠ none
  changed : ∀ change, change ∈ d.changed ↔
    before change.key = some change.old ∧ after change.key = some change.new ∧ change.old ≠ change.new
  removed_ascending : d.removed.Pairwise Key.Before
  added_ascending : d.added.Pairwise Key.Before
  changed_ascending : d.changed.Pairwise fun change change' => change.key.Before change'.key

variable {d d' : Diff} {before after : Fingerprints} {key : Key}

/-- **There is only one exact diff.** -/
theorem Exact.unique (h : d.Exact before after) (h' : d'.Exact before after) : d = d' := by
  have hadded : d.added = d'.added := Key.ascending_ext id h.added_ascending h'.added_ascending
    fun key => by rw [h.added, h'.added]
  have hremoved : d.removed = d'.removed := Key.ascending_ext id h.removed_ascending h'.removed_ascending
    fun key => by rw [h.removed, h'.removed]
  have hchanged : d.changed = d'.changed := Key.ascending_ext FingerprintChange.key h.changed_ascending
    h'.changed_ascending fun change => by rw [h.changed, h'.changed]
  cases d
  cases d'
  simp_all

/-- An exact diff is exact backwards. -/
theorem Exact.swap (h : d.Exact before after) : d.swap.Exact after before where
  removed := by
    intro key
    rw [Diff.swap, h.added, and_comm]
  added := by
    intro key
    rw [Diff.swap, h.removed, and_comm]
  changed := by
    intro change
    simp only [Diff.swap, List.mem_map]
    constructor
    · rintro ⟨c, hc, rfl⟩
      obtain ⟨hold, hnew, hne⟩ := (h.changed c).1 hc
      exact ⟨hnew, hold, hne.symm⟩
    · rintro ⟨hnew, hold, hne⟩
      exact ⟨⟨change.key, change.new, change.old⟩, (h.changed _).2 ⟨hold, hnew, hne.symm⟩, rfl⟩
  removed_ascending := h.added_ascending
  added_ascending := h.removed_ascending
  changed_ascending := by
    rw [Diff.swap, List.pairwise_map]
    exact h.changed_ascending

/-- A diff is empty iff nothing differs. -/
theorem Exact.isEmpty_iff (h : d.Exact before after) : d.isEmpty = true ↔ before = after := by
  simp only [isEmpty, Bool.and_eq_true, List.isEmpty_iff, List.eq_nil_iff_forall_not_mem]
  simp only [h.added, h.removed, h.changed]
  constructor
  · rintro ⟨⟨hadded, hremoved⟩, hchanged⟩
    funext key
    cases hb : before key with
    | none =>
      cases ha : after key with
      | none => rfl
      | some f => exact absurd ⟨hb, by simp [ha]⟩ (hadded key)
    | some f =>
      cases ha : after key with
      | none => exact absurd ⟨by simp [hb], ha⟩ (hremoved key)
      | some f' =>
        by_contra hne
        exact hchanged ⟨key, f, f'⟩ ⟨hb, ha, fun heq => hne (congrArg some heq)⟩
  · rintro rfl
    refine ⟨⟨fun key h => h.2 h.1, fun key h => h.1 h.2⟩, ?_⟩
    rintro change ⟨hold, hnew, hne⟩
    rw [hold] at hnew
    exact hne (Option.some.inj hnew)

/-! ## Application -/

theorem foldl_forget (keys : List Key) (known : Fingerprints) :
    keys.foldl Fingerprints.forget known key = if key ∈ keys then none else known key := by
  induction keys generalizing known with
  | nil => simp
  | cons first rest ih =>
    rw [List.foldl_cons, ih]
    by_cases hk : key = first <;> by_cases hr : key ∈ rest <;> simp [Fingerprints.forget, hk, hr]

/-- When all changes of a key agree, it is overwritten with what they say. -/
theorem foldl_overwrite {f : Option Fingerprint} (changes : List FingerprintChange) (known : Fingerprints)
    (hf : ∀ change ∈ changes, change.key = key → change.new = f) :
    changes.foldl Fingerprints.overwrite known key =
      if ∃ change ∈ changes, change.key = key then some f else known key := by
  induction changes generalizing known with
  | nil => simp
  | cons first rest ih =>
    rw [List.foldl_cons, ih _ fun change hc => hf change (List.mem_cons_of_mem _ hc)]
    simp only [List.exists_mem_cons_iff]
    by_cases hr : ∃ change ∈ rest, change.key = key
    · rw [if_pos hr, if_pos (Or.inr hr)]
    · by_cases hk : first.key = key
      · have hnew := hf first List.mem_cons_self hk
        rw [if_neg hr, if_pos (Or.inl hk), Fingerprints.overwrite, hk, Function.update_self, hnew]
      · rw [if_neg hr, if_neg (not_or.2 ⟨hk, hr⟩), Fingerprints.overwrite,
          Function.update_of_ne (Ne.symm hk)]

theorem Exact.exists_changed (h : d.Exact before after) : (∃ change ∈ d.changed, change.key = key) ↔
    ∃ f f', before key = some f ∧ after key = some f' ∧ f ≠ f' := by
  constructor
  · rintro ⟨change, hc, rfl⟩
    exact ⟨_, _, (h.changed change).1 hc⟩
  · rintro ⟨f, f', hf⟩
    exact ⟨⟨key, f, f'⟩, (h.changed _).2 hf, rfl⟩

/-- **A diff leads from old fingerprints to new ones**, but for the keys that came. -/
theorem Exact.apply_eq (h : d.Exact before after) (key : Key) :
    d.apply before key = if key ∈ d.added then none else after key := by
  have hnew : ∀ change ∈ d.changed, change.key = key → change.new = (after key).getD none := by
    rintro change hc rfl
    rw [((h.changed change).1 hc).2.1]
    rfl
  rw [apply, foldl_overwrite _ _ hnew, foldl_forget]
  by_cases hchanged : ∃ change ∈ d.changed, change.key = key
  · obtain ⟨f, f', hb, ha, -⟩ := h.exists_changed.1 hchanged
    simp [if_pos hchanged, h.added, hb, ha]
  · -- a key that was there and is there has kept its fingerprint
    have hsame : ∀ f f', before key = some f → after key = some f' → f = f' := by
      intro f f' hb ha
      by_contra hne
      exact hchanged (h.exists_changed.2 ⟨f, f', hb, ha, hne⟩)
    rw [if_neg hchanged]
    simp only [h.added, h.removed]
    cases hb : before key with
    | none => cases after key <;> simp
    | some f =>
      cases ha : after key with
      | none => simp
      | some f' => simp [hsame f f' hb ha]

end Diff

/-! ## Graphs -/

namespace Graph

variable {g h old new : Graph} {key : Key}

/-- What a graph says of a key. -/
def fingerprintOf? (g : Graph) : Fingerprints :=
  fun key => (g.nodes.toList.find? (·.key = key)).map Node.fingerprint

/-- The keys of a graph with their fingerprints, in the order of its nodes. -/
def entries (g : Graph) : List (Key × Option Fingerprint) :=
  g.nodes.toList.map fun node => (node.key, node.fingerprint)

/-- Nodes with different keys are all found in a map that they are put into. -/
theorem foldl_insert_get : ∀ (nodes : List Node) (m : Std.TreeMap Key (Option Fingerprint)),
    (nodes.map Node.key).Nodup →
    (nodes.foldl (fun m node => m.insert node.key node.fingerprint) m)[key]? =
      ((nodes.find? (·.key = key)).map Node.fingerprint).or m[key]? := by
  intro nodes
  induction nodes with
  | nil => intro m _; rfl
  | cons node rest ih =>
    intro m hnodup
    obtain ⟨hnew, hrest⟩ := List.nodup_cons.1 hnodup
    rw [List.foldl_cons, ih _ hrest, Std.TreeMap.getElem?_insert, List.find?_cons]
    simp only [Std.LawfulEqOrd.compare_eq_iff_eq]
    by_cases hk : node.key = key
    · -- no later node has this key
      have hnone : rest.find? (·.key = key) = none := by
        rw [List.find?_eq_none]
        intro other ho
        have hne : other.key ≠ key := fun heq => hnew (hk ▸ heq ▸ List.mem_map_of_mem ho)
        simpa using hne
      simp [hk, hnone]
    · simp [hk]

theorem fingerprints_get (hg : g.OK) (key : Key) : g.fingerprints[key]? = g.fingerprintOf? key := by
  rw [fingerprints, ← Array.foldl_toList, foldl_insert_get _ _ hg.keys_nodup,
    Std.TreeMap.getElem?_emptyc, Option.or_none]
  rfl

theorem mem_entries (hg : g.OK) {f : Option Fingerprint} :
    (key, f) ∈ g.entries ↔ g.fingerprintOf? key = some f := by
  simp only [entries, fingerprintOf?, List.mem_map, Option.map_eq_some_iff, Prod.mk.injEq]
  constructor
  · rintro ⟨node, hn, rfl, rfl⟩
    obtain ⟨found, hfound⟩ := Option.isSome_iff_exists.1
      (List.find?_isSome.2 ⟨node, hn, by simp⟩ : (g.nodes.toList.find? (·.key = node.key)).isSome = true)
    have hkey : found.key = node.key := by simpa using List.find?_some hfound
    have heq := List.inj_on_of_nodup_map hg.keys_nodup (List.mem_of_find?_eq_some hfound) hn hkey
    exact ⟨node, heq ▸ hfound, rfl⟩
  · rintro ⟨node, hfound, rfl⟩
    exact ⟨node, List.mem_of_find?_eq_some hfound, by simpa using List.find?_some hfound, rfl⟩

/-- Two graphs say the same iff they have the same entries, in whatever order. -/
theorem entries_perm_iff (hold : old.OK) (hnew : new.OK) :
    old.entries.Perm new.entries ↔ old.fingerprintOf? = new.fingerprintOf? := by
  have hnodup : ∀ {g : Graph}, g.OK → g.entries.Nodup := by
    intro g hg
    refine List.Nodup.of_map Prod.fst ?_
    rw [entries, List.map_map]
    exact hg.keys_nodup
  rw [List.perm_ext_iff_of_nodup (hnodup hold) (hnodup hnew), Prod.forall]
  simp only [mem_entries hold, mem_entries hnew]
  constructor
  · intro h
    funext key
    exact Option.ext (h key)
  · rintro h key f
    rw [h]

theorem contains_fingerprints (hg : g.OK) (key : Key) :
    g.fingerprints.contains key = true ↔ g.fingerprintOf? key ≠ none := by
  rw [Std.TreeMap.contains_eq_isSome_getElem?, fingerprints_get hg, Option.isSome_iff_ne_none]

/-- The keys of one graph that another does not have. -/
theorem mem_filter_keys (hg : g.OK) (hh : h.OK) (key : Key) :
    key ∈ (g.fingerprints.keys.filter fun key => !h.fingerprints.contains key) ↔
      g.fingerprintOf? key ≠ none ∧ h.fingerprintOf? key = none := by
  rw [List.mem_filter, Std.TreeMap.mem_keys, ← Std.TreeMap.contains_iff_mem, contains_fingerprints hg,
    Bool.not_eq_true', ← Bool.not_eq_true, contains_fingerprints hh, not_not]

theorem keys_ascending (m : Std.TreeMap Key (Option Fingerprint)) : m.keys.Pairwise Key.Before :=
  Std.TreeMap.ordered_keys.imp Key.compare_lt_iff.1

/-- The change of a key, given its fingerprint and what another graph says of it. -/
def changeOf? (later : Option (Option Fingerprint)) (entry : Key × Option Fingerprint) :
    Option FingerprintChange :=
  match later with
  | none => none
  | some f => if f = entry.2 then none else some ⟨entry.1, entry.2, f⟩

theorem changeOf?_eq_some {later : Option (Option Fingerprint)} {entry : Key × Option Fingerprint}
    {change : FingerprintChange} : changeOf? later entry = some change ↔
      entry = (change.key, change.old) ∧ later = some change.new ∧ change.old ≠ change.new := by
  obtain ⟨key, f⟩ := entry
  obtain ⟨key', old, new⟩ := change
  cases later with
  | none => simp [changeOf?]
  | some f' =>
    by_cases hf : f' = f
    · subst hf
      simp only [changeOf?, if_pos, Prod.mk.injEq, Option.some.injEq, reduceCtorEq, false_iff]
      rintro ⟨⟨-, rfl⟩, rfl, hne⟩
      exact hne rfl
    · simp only [changeOf?, if_neg hf, Prod.mk.injEq, Option.some.injEq, FingerprintChange.mk.injEq]
      constructor
      · rintro ⟨rfl, rfl, rfl⟩
        exact ⟨⟨rfl, rfl⟩, rfl, Ne.symm hf⟩
      · rintro ⟨⟨rfl, rfl⟩, rfl, -⟩
        exact ⟨rfl, rfl, rfl⟩

theorem diff_changed : (old.diff new).changed =
    old.fingerprints.toList.filterMap fun entry => changeOf? new.fingerprints[entry.1]? entry := rfl

/-- **The diff of two graphs is exact.** -/
theorem OK.diff_exact (hold : old.OK) (hnew : new.OK) :
    (old.diff new).Exact old.fingerprintOf? new.fingerprintOf? where
  removed := mem_filter_keys hold hnew
  added := fun key => (mem_filter_keys hnew hold key).trans and_comm
  changed := by
    intro change
    rw [diff_changed, List.mem_filterMap]
    simp only [changeOf?_eq_some]
    constructor
    · rintro ⟨entry, he, rfl, hlater, hne⟩
      rw [Std.TreeMap.mem_toList_iff_getElem?_eq_some, fingerprints_get hold] at he
      rw [fingerprints_get hnew] at hlater
      exact ⟨he, hlater, hne⟩
    · rintro ⟨hearlier, hlater, hne⟩
      rw [← fingerprints_get hold, ← Std.TreeMap.mem_toList_iff_getElem?_eq_some] at hearlier
      rw [← fingerprints_get hnew] at hlater
      exact ⟨_, hearlier, rfl, hlater, hne⟩
  removed_ascending := (keys_ascending _).filter _
  added_ascending := (keys_ascending _).filter _
  changed_ascending := by
    rw [diff_changed]
    refine List.Pairwise.filterMap _ ?_ Std.TreeMap.ordered_keys_toList
    intro a b hab change hc change' hc'
    obtain ⟨rfl, -⟩ := changeOf?_eq_some.1 hc
    obtain ⟨rfl, -⟩ := changeOf?_eq_some.1 hc'
    exact Key.compare_lt_iff.1 hab

/-- **What a diff says of any two graphs.** It is exact; it leads from the old fingerprints to the new ones,
but for the keys that came; backwards it is the same with old and new exchanged; and it is empty iff the
graphs say the same of all keys, that is, iff they have the same keys with the same fingerprints, whatever the
order of their nodes. -/
theorem diff_of_reachable (hold : Reachable old) (hnew : Reachable new) :
    (old.diff new).Exact old.fingerprintOf? new.fingerprintOf? ∧
    (∀ key, (old.diff new).apply old.fingerprintOf? key =
      if key ∈ (old.diff new).added then none else new.fingerprintOf? key) ∧
    new.diff old = (old.diff new).swap ∧
    ((old.diff new).isEmpty = true ↔ old.fingerprintOf? = new.fingerprintOf?) ∧
    ((old.diff new).isEmpty = true ↔ old.entries.Perm new.entries) := by
  have hexact := hold.ok.diff_exact hnew.ok
  have hback := (hnew.ok.diff_exact hold.ok).unique hexact.swap
  refine ⟨hexact, hexact.apply_eq, hback, hexact.isEmpty_iff, ?_⟩
  rw [hexact.isEmpty_iff, entries_perm_iff hold.ok hnew.ok]

/-- Calls that provide some keys. -/
def firstBuild : List Call :=
  [.upsert ⟨.topLevel, .interface, "", "kept"⟩ (some .zero) true,
    .upsert ⟨.topLevel, .interface, "", "lost"⟩ none true,
    .pair ⟨.nominal, .interface, "1S", ""⟩ none,
    .upsert ⟨.topLevel, .interface, "", "\uffff"⟩ (some .zero) true]

/-- Calls that provide some of these keys in another order, two of them with another fingerprint, and a key
more. -/
def secondBuild : List Call :=
  [.upsert ⟨.topLevel, .interface, "", "😀"⟩ none true,
    .pair ⟨.nominal, .interface, "1S", ""⟩ (some .zero),
    .upsert ⟨.topLevel, .interface, "", "\uffff"⟩ none true,
    .upsert ⟨.topLevel, .interface, "", "kept"⟩ (some .zero) true]

theorem diff_of_reachable_reordered : ∃ old new, old = empty.run firstBuild ∧ new = empty.run secondBuild ∧
    Reachable old ∧ Reachable new ∧
    (old.diff new).Exact old.fingerprintOf? new.fingerprintOf? ∧
    (∀ key, (old.diff new).apply old.fingerprintOf? key =
      if key ∈ (old.diff new).added then none else new.fingerprintOf? key) ∧
    new.diff old = (old.diff new).swap ∧
    ((old.diff new).isEmpty = true ↔ old.fingerprintOf? = new.fingerprintOf?) ∧
    ((old.diff new).isEmpty = true ↔ old.entries.Perm new.entries) := by
  have hold : Reachable (empty.run firstBuild) := Reachable.new.run firstBuild
  have hnew : Reachable (empty.run secondBuild) := Reachable.new.run secondBuild
  exact ⟨_, _, rfl, rfl, hold, hnew, diff_of_reachable hold hnew⟩

end Graph

end DepGraph
