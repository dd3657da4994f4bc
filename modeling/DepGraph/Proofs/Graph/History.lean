import DepGraph.Proofs.Graph.Invariant
import Mathlib.Data.List.Induction

/-!
# What a graph remembers of the calls that made it

* `Tells`: a graph holds what a list of upserts says. Its keys are those of the calls, each at its first
  occurrence, and the contents of a node follow from the calls on its key (`merged`): once provided, a
  key has a fingerprint iff all its provisions agree on it (`agreed_eq_some`).
* `Meets`: mentions of keys that change nothing which is there. A new key has the contents of its first
  mention.
* `Joins`: the arcs of a graph, told by the keys at their ends.
-/

namespace DepGraph.Graph

/-- A call that puts a key into a graph. -/
structure Upsert where
  key : Key
  fingerprint : Option Fingerprint
  provides : Bool
  deriving DecidableEq

/-- The fingerprint that all provisions of a key agree on. -/
def agreed : List (Option Fingerprint) → Option Fingerprint
  | [] => none
  | f :: rest => if ∀ f' ∈ rest, f' = f then f else none

/-- The fingerprints that calls provide. -/
def provided (calls : List Upsert) : List (Option Fingerprint) :=
  (calls.filter (·.provides)).map (·.fingerprint)

/-- What calls on one key make of its node: the fingerprint, and whether the file provides it. -/
def merged (calls : List Upsert) : Option Fingerprint × Bool :=
  if calls.any (·.provides) then (agreed (provided calls), true)
  else (calls.head?.bind (·.fingerprint), false)

/-- The calls on a key. -/
def callsOn (key : Key) (calls : List Upsert) : List Upsert := calls.filter (·.key = key)

/-- **A graph holds what upserts say.** -/
structure Tells (g : Graph) (calls : List Upsert) : Prop where
  keys : g.keys = (calls.map (·.key)).eraseDups
  contents : ∀ node ∈ g.nodes, (node.fingerprint, node.provides) = merged (callsOn node.key calls)

variable {g g' : Graph} {key : Key} {f : Option Fingerprint} {p : Bool} {i j : ℕ} {calls : List Upsert}

/-! ## Merging -/

theorem agreed_eq_some {l : List (Option Fingerprint)} {x : Fingerprint} :
    agreed l = some x ↔ l ≠ [] ∧ ∀ f ∈ l, f = some x := by
  cases l with
  | nil => simp [agreed]
  | cons f rest =>
    rw [agreed]
    constructor
    · intro h
      split at h
      · rename_i hall
        subst h
        refine ⟨by simp, ?_⟩
        intro f' hf'
        rcases List.mem_cons.1 hf' with rfl | hf'
        · rfl
        · exact hall f' hf'
      · cases h
    · rintro ⟨-, h⟩
      have hf := h f List.mem_cons_self
      rw [if_pos (fun f' hf' => (h f' (List.mem_cons_of_mem _ hf')).trans hf.symm)]
      exact hf

/-- One more provision keeps the fingerprint iff it agrees. -/
theorem agreed_concat {l : List (Option Fingerprint)} (hl : l ≠ []) (f : Option Fingerprint) :
    agreed (l ++ [f]) = if f = agreed l then f else none := by
  apply Option.ext
  intro x
  rw [agreed_eq_some]
  constructor
  · rintro ⟨-, h⟩
    have hlx : agreed l = some x := agreed_eq_some.2 ⟨hl, fun f' hf' => h f' (by simp [hf'])⟩
    have hf := h f (by simp)
    rw [hlx, if_pos hf]; exact hf
  · intro h
    split at h
    · rename_i hfl
      subst h
      refine ⟨by simp, ?_⟩
      intro f' hf'
      rcases List.mem_append.1 hf' with hf' | hf'
      · exact (agreed_eq_some.1 hfl.symm).2 f' hf'
      · simpa using hf'
    · cases h

theorem callsOn_concat_self (key : Key) (calls : List Upsert) :
    callsOn key (calls ++ [⟨key, f, p⟩]) = callsOn key calls ++ [⟨key, f, p⟩] := by
  simp [callsOn]

theorem callsOn_concat_other {k : Key} (h : key ≠ k) :
    callsOn k (calls ++ [⟨key, f, p⟩]) = callsOn k calls := by
  simp [callsOn, h]

theorem callsOn_eq_nil (h : key ∉ calls.map (·.key)) : callsOn key calls = [] := by
  unfold callsOn
  rw [List.filter_eq_nil_iff]
  intro c hc hk
  exact h (List.mem_map.2 ⟨c, hc, by simpa using hk⟩)

theorem callsOn_ne_nil (h : key ∈ calls.map (·.key)) : callsOn key calls ≠ [] := by
  obtain ⟨c, hc, rfl⟩ := List.mem_map.1 h
  exact List.ne_nil_of_mem (List.mem_filter.2 ⟨hc, by simp⟩)

theorem merged_single : merged [⟨key, f, p⟩] = (f, p) := by
  cases p <;> simp [merged, provided, agreed]

/-- Calls that provide something agree on a fingerprint iff each of their provisions brings it. -/
theorem agreed_provided {call : Upsert} (hc : call ∈ calls) (hp : call.provides = true)
    {x : Fingerprint} : agreed (provided calls) = some x ↔
      ∀ c ∈ calls, c.provides = true → c.fingerprint = some x := by
  rw [agreed_eq_some]
  constructor
  · rintro ⟨-, hall⟩ c hc hp
    exact hall _ (List.mem_map.2 ⟨c, List.mem_filter.2 ⟨hc, hp⟩, rfl⟩)
  · intro hall
    refine ⟨List.ne_nil_of_mem (List.mem_map.2 ⟨call, List.mem_filter.2 ⟨hc, hp⟩, rfl⟩), ?_⟩
    intro f hf
    obtain ⟨c, hc, rfl⟩ := List.mem_map.1 hf
    obtain ⟨hc, hp⟩ := List.mem_filter.1 hc
    exact hall c hc hp

/-- **A provided key has a fingerprint iff all its provisions agree on it.** -/
theorem merged_eq {key : Key} {calls : List Upsert} {call : Upsert} (hc : call ∈ calls)
    (hk : call.key = key) (hp : call.provides = true) {contents : Option Fingerprint × Bool}
    (h : contents = merged (callsOn key calls)) : contents.2 = true ∧
      ∀ f, contents.1 = some f ↔
        ∀ c ∈ calls, c.key = key → c.provides = true → c.fingerprint = some f := by
  have hmem : call ∈ callsOn key calls := List.mem_filter.2 ⟨hc, by simp [hk]⟩
  have hany : (callsOn key calls).any (·.provides) = true := List.any_eq_true.2 ⟨call, hmem, hp⟩
  rw [merged, if_pos hany] at h
  subst h
  refine ⟨rfl, ?_⟩
  intro f
  rw [agreed_provided hmem hp]
  simp only [callsOn, List.mem_filter, decide_eq_true_eq, and_imp]

/-- A call that does not provide tells nothing new of a key that is known. -/
theorem merged_depends (h : calls ≠ []) :
    merged (calls ++ [⟨key, f, false⟩]) = merged calls := by
  unfold merged
  have hp : provided (calls ++ [⟨key, f, false⟩]) = provided calls := by simp [provided]
  obtain ⟨c, rest, rfl⟩ := List.exists_cons_of_ne_nil h
  rw [hp, List.any_append]
  simp

/-- A provision of a node leads to what the calls with it say. -/
theorem merged_provides {old node : Node}
    (hold : (old.fingerprint, old.provides) = merged calls) (hnode : old.provide f = .ok node) :
    (node.fingerprint, node.provides) = merged (calls ++ [⟨key, f, true⟩]) := by
  have hany : (calls ++ [Upsert.mk key f true]).any (·.provides) = true := by simp
  have hprov : provided (calls ++ [⟨key, f, true⟩]) = provided calls ++ [f] := by simp [provided]
  rw [merged, if_pos hany, hprov]
  unfold merged at hold
  by_cases hc : calls.any (·.provides) = true
  · -- provided before: the fingerprint stays iff it agrees with the one all provisions had
    rw [if_pos hc] at hold
    obtain ⟨hof, hop⟩ := Prod.mk.inj hold
    have hne : provided calls ≠ [] := by
      obtain ⟨c, hcm, hcp⟩ := List.any_eq_true.1 hc
      exact List.ne_nil_of_mem (List.mem_map.2 ⟨c, List.mem_filter.2 ⟨hcm, hcp⟩, rfl⟩)
    rw [agreed_concat hne, ← hof]
    unfold Node.provide at hnode
    rw [if_neg (by simp [hop])] at hnode
    split at hnode
    · rename_i hf
      cases hnode
      rw [if_pos hf, hf]
    · rename_i hf
      cases hnode
      rw [if_neg hf]
  · -- provided for the first time
    rw [if_neg hc] at hold
    obtain ⟨-, hop⟩ := Prod.mk.inj hold
    have hnil : provided calls = [] := by
      unfold provided
      rw [List.map_eq_nil_iff, List.filter_eq_nil_iff]
      intro c hcm hcp
      exact hc (List.any_eq_true.2 ⟨c, hcm, hcp⟩)
    have hag : agreed (provided calls ++ [f]) = f := by simp [hnil, agreed]
    rw [hag]
    unfold Node.provide at hnode
    cases f with
    | none =>
      rw [if_neg (by simp)] at hnode
      split at hnode
      · rename_i hf
        cases hnode
        rw [← hf]
      · cases hnode; rfl
    | some x =>
      rw [if_pos ⟨hop, rfl⟩] at hnode
      split at hnode
      · cases hnode
      · cases hnode; rfl

/-! ## Upserts -/

section EraseDups

variable {α : Type} [BEq α] [LawfulBEq α]

theorem eraseDups_concat (l : List α) (a : α) :
    (l ++ [a]).eraseDups = if a ∈ l.eraseDups then l.eraseDups else l.eraseDups ++ [a] := by
  rw [List.eraseDups_append]
  by_cases h : a ∈ l
  · rw [if_pos (List.mem_eraseDups.2 h)]
    simp [List.removeAll, h]
  · rw [if_neg (fun hm => h (List.mem_eraseDups.1 hm))]
    simp [List.removeAll, h, List.eraseDups_cons]

theorem nodup_eraseDups (l : List α) : l.eraseDups.Nodup := by
  induction l using List.reverseRecOn with
  | nil => exact List.nodup_nil
  | append_singleton l a ih =>
    rw [eraseDups_concat]
    split
    · exact ih
    · rename_i ha
      rw [← List.concat_eq_append]
      exact ih.concat ha

theorem eraseDups_of_nodup : ∀ {l : List α}, l.Nodup → l.eraseDups = l := by
  intro l
  induction l with
  | nil => intro _; rfl
  | cons a l ih =>
    intro h
    obtain ⟨ha, hl⟩ := List.nodup_cons.1 h
    have hf : l.filter (fun b => !b == a) = l := by
      rw [List.filter_eq_self]
      intro b hb
      have hne : b ≠ a := fun hba => ha (hba ▸ hb)
      simp [hne]
    rw [List.eraseDups_cons, hf, ih hl]

/-- Duplicates may be dropped from the front first. -/
theorem eraseDups_eraseDups_append (l l' : List α) :
    (l.eraseDups ++ l').eraseDups = (l ++ l').eraseDups := by
  have hr : l'.removeAll l.eraseDups = l'.removeAll l := by
    unfold List.removeAll
    apply List.filter_congr
    intro a _
    simp only [List.elem_eq_contains, List.contains_eq_mem, List.mem_eraseDups]
  rw [List.eraseDups_append, List.eraseDups_append, hr, eraseDups_of_nodup (nodup_eraseDups l)]

end EraseDups

theorem tells_empty : empty.Tells [] where
  keys := by simp [Graph.keys, empty]
  contents := by intro node h; simp [empty] at h

/-- **One upsert more, one call more.** -/
theorem upsert_tells (hg : g.OK) (ht : g.Tells calls) (hu : g.upsert key f p = .ok (g', i)) :
    g'.Tells (calls ++ [⟨key, f, p⟩]) := by
  constructor
  · rw [(upsert_ok hg hu).2.2.2, ht.keys, List.map_append, List.map_cons, List.map_nil,
      eraseDups_concat]
  have hknown : ∀ node ∈ g.nodes, callsOn node.key calls ≠ [] := by
    intro node hn
    apply callsOn_ne_nil
    rw [← List.mem_eraseDups, ← ht.keys]
    exact mem_keys.2 ⟨node, hn, rfl⟩
  rcases upsert_cases hu with ⟨hf, rfl, -⟩ | ⟨hf, rfl, rfl⟩ | ⟨hf, rfl, old, node', hold, hnode, rfl⟩
  · -- a new node: no call before was on its key
    intro node hn
    have hnew := hg.find_none.1 hf
    rcases Array.mem_push.1 hn with hn | rfl
    · have hne : key ≠ node.key := fun h => hnew (mem_keys.2 ⟨node, hn, h.symm⟩)
      rw [callsOn_concat_other hne]; exact ht.contents node hn
    · have hnil : callsOn key calls = [] := by
        apply callsOn_eq_nil
        rw [← List.mem_eraseDups, ← ht.keys]; exact hnew
      rw [callsOn_concat_self, hnil, List.nil_append, merged_single]
  · -- nothing is provided, so the node stays as it is
    intro node hn
    by_cases hk : key = node.key
    · rw [hk, callsOn_concat_self, merged_depends (hknown node hn)]; exact ht.contents node hn
    · rw [callsOn_concat_other hk]; exact ht.contents node hn
  · -- the node of the key is provided; any other has another key and stays
    intro node hn
    obtain ⟨j, hj⟩ := Array.mem_iff_getElem?.1 hn
    rw [nodes_replace] at hj
    obtain ⟨hkey, -, -⟩ := Node.provide_ok hnode
    have hkold := hg.key_of_find hf hold
    split at hj
    · rw [if_pos (Array.getElem?_eq_some_iff.1 hold).1] at hj
      cases hj
      have hmem := Array.mem_iff_getElem?.2 ⟨i, hold⟩
      rw [hkey, hkold, callsOn_concat_self, ← hkold]
      exact merged_provides (ht.contents old hmem) hnode
    · rename_i hij
      have hne : key ≠ node.key := by
        intro h
        have hjk : g.keys[j]? = some key := by rw [keys_getElem?, hj, h]; rfl
        exact hij (hg.place_unique ((hg.find key i).1 hf) hjk)
      rw [callsOn_concat_other hne]
      exact ht.contents node (Array.mem_iff_getElem?.2 ⟨j, hj⟩)

/-- **When an upsert is refused**: a fingerprint is provided for a node that was only used and has one
already. -/
theorem upsert_error_iff (hg : g.OK) {e : Misuse} : g.upsert key f p = .error e ↔
    e = .fingerprintedPlaceholder ∧ p = true ∧ f.isSome ∧ ∃ node ∈ g.nodes, node.key = key ∧
      node.provides = false ∧ node.fingerprint.isSome := by
  unfold upsert
  cases hf : g.find? key with
  | none =>
    have hnew := hg.find_none.1 hf
    simp only [reduceCtorEq, false_iff]
    rintro ⟨-, -, -, node, hn, hk, -⟩
    exact hnew (mem_keys.2 ⟨node, hn, hk⟩)
  | some i =>
    obtain ⟨old, hold⟩ : ∃ old, g.nodes[i]? = some old := ⟨_, Array.getElem?_eq_getElem (hg.find_lt hf)⟩
    have hk := hg.key_of_find hf hold
    cases p with
    | false => simp
    | true =>
      -- the only node that could stand in the way is the one that the index gives
      have honly : (∃ node ∈ g.nodes, node.key = key ∧ node.provides = false ∧ node.fingerprint.isSome) ↔
          old.provides = false ∧ old.fingerprint.isSome := by
        constructor
        · rintro ⟨node, hn, hnk, h⟩
          obtain ⟨j, hj⟩ := Array.mem_iff_getElem?.1 hn
          have hjk : g.keys[j]? = some key := by rw [keys_getElem?, hj, ← hnk]; rfl
          have hij := hg.place_unique ((hg.find key i).1 hf) hjk
          subst hij
          rw [hold] at hj
          cases hj
          exact h
        · intro h
          exact ⟨old, Array.mem_iff_getElem?.2 ⟨i, hold⟩, hk, h⟩
      simp only [hold, if_true, true_and, honly]
      unfold Node.provide
      constructor
      · intro he
        split at he
        · rename_i e' heq
          split at heq
          · rename_i h
            split at heq
            · rename_i hs
              cases he; cases heq
              exact ⟨rfl, h.2, h.1, hs⟩
            · cases heq
          · split at heq <;> cases heq
        · cases he
      · rintro ⟨rfl, hfs, hop, hos⟩
        rw [if_pos ⟨hop, hfs⟩, if_pos hos]

/-- An upsert that is not refused gives a graph. -/
theorem upsert_total (hg : g.OK) (h : ∀ node ∈ g.nodes, node.key = key → p = true →
    node.provides = true ∨ node.fingerprint = none) : ∃ g' i, g.upsert key f p = .ok (g', i) := by
  cases hu : g.upsert key f p with
  | ok r => exact ⟨r.1, r.2, rfl⟩
  | error e =>
    obtain ⟨-, hp, -, node, hn, hk, hnp, hnf⟩ := (upsert_error_iff hg).1 hu
    rcases h node hn hk hp with h | h
    · rw [h] at hnp; cases hnp
    · rw [h] at hnf; cases hnf

/-! ## Mentions -/

/-- **Mentions change nothing that is there.** `g'` is `g` with the new keys of some mentions, each with
the contents of its first mention. -/
structure Meets (g g' : Graph) (mentions : List Upsert) : Prop where
  keys : g'.keys = (g.keys ++ mentions.map (·.key)).eraseDups
  old : ∀ (i : ℕ) (node : Node), g.nodes[i]? = some node → g'.nodes[i]? = some node
  new : ∀ node ∈ g'.nodes, node.key ∉ g.keys →
    mentions.find? (·.key = node.key) = some ⟨node.key, node.fingerprint, node.provides⟩

variable {mentions : List Upsert}

theorem meets_refl (hg : g.OK) : g.Meets g [] where
  keys := by
    rw [List.map_nil, List.append_nil, eraseDups_of_nodup hg.keys_nodup]
  old := fun _ _ h => h
  new := fun node hn hk => absurd (mem_keys.2 ⟨node, hn, rfl⟩) hk

theorem Meets.mem_keys_iff (h : g.Meets g' mentions) (key : Key) :
    key ∈ g'.keys ↔ key ∈ g.keys ∨ key ∈ mentions.map (·.key) := by
  rw [h.keys, List.mem_eraseDups, List.mem_append]

/-- The node of an old key is the old node. -/
theorem Meets.mem_old (h : g.Meets g' mentions) (hg' : g'.OK) {node : Node} (hn : node ∈ g'.nodes)
    (hk : node.key ∈ g.keys) : node ∈ g.nodes := by
  obtain ⟨i, hi⟩ := Array.mem_iff_getElem?.1 hn
  obtain ⟨old, hold, hkey⟩ := mem_keys.1 hk
  obtain ⟨j, hj⟩ := Array.mem_iff_getElem?.1 hold
  have hik : g'.keys[i]? = some node.key := by rw [keys_getElem?, hi]; rfl
  have hjk : g'.keys[j]? = some node.key := by rw [keys_getElem?, h.old j old hj, ← hkey]; rfl
  have hij := hg'.place_unique hik hjk
  subst hij
  have hj' := h.old i old hj
  rw [hi] at hj'
  cases hj'
  exact hold

/-- Another mention of a key that is there tells nothing. -/
theorem Meets.known (h : g.Meets g' mentions) (hk : key ∈ g'.keys) :
    g.Meets g' (mentions ++ [⟨key, f, p⟩]) where
  keys := by
    rw [List.map_append, List.map_cons, List.map_nil, ← List.append_assoc, eraseDups_concat,
      ← h.keys, if_pos hk]
  old := h.old
  new := by
    intro node hn hnk
    rw [List.find?_append, h.new node hn hnk]; rfl

/-- A mention of a new key adds it. -/
theorem Meets.append (h : g.Meets g' mentions) (hk : key ∉ g'.keys) :
    g.Meets (g'.append key f p) (mentions ++ [⟨key, f, p⟩]) where
  keys := by
    rw [List.map_append, List.map_cons, List.map_nil, ← List.append_assoc, eraseDups_concat,
      ← h.keys, if_neg hk, keys_append]
  old := by
    intro i node hi
    have hi' := h.old i node hi
    have hlt := (Array.getElem?_eq_some_iff.1 hi').1
    simp only [Graph.append, Array.getElem?_push]
    rw [if_neg (by omega)]; exact hi'
  new := by
    intro node hn hnk
    rw [List.find?_append]
    rcases Array.mem_push.1 hn with hn | rfl
    · rw [h.new node hn hnk]; rfl
    · have hnone : mentions.find? (·.key = key) = none := by
        rw [List.find?_eq_none]
        intro m hm hmk
        exact hk ((h.mem_keys_iff key).2 (Or.inr (List.mem_map.2 ⟨m, hm, by simpa using hmk⟩)))
      rw [hnone]
      simp

/-- Arcs do not matter to mentions. -/
theorem Meets.link (h : g.Meets g' mentions) (d u : ℕ) : g.Meets (g'.link d u) mentions where
  keys := by rw [keys_link]; exact h.keys
  old := by intro i node hi; rw [nodes_link]; exact h.old i node hi
  new := by intro node hn hk; rw [nodes_link] at hn; exact h.new node hn hk

theorem Tells.link (h : g.Tells calls) (d u : ℕ) : (g.link d u).Tells calls where
  keys := by rw [keys_link]; exact h.keys
  contents := by intro node hn; rw [nodes_link] at hn; exact h.contents node hn

/-! ## Arcs by key -/

/-- Whether the node of one key depends on the node of another. -/
def HasArc (g : Graph) (definition use : Key) : Prop :=
  ∃ i j, ⟨i, j⟩ ∈ g.arcs ∧ g.keys[i]? = some definition ∧ g.keys[j]? = some use

/-- **The arcs of a graph are those of a list**, reflexive ones aside. -/
def Joins (g : Graph) (arcs : List (Key × Key)) : Prop :=
  ∀ d u, g.HasArc d u ↔ (d, u) ∈ arcs ∧ d ≠ u

variable {arcs : List (Key × Key)}

theorem joins_empty : empty.Joins [] := by
  intro d u
  constructor
  · rintro ⟨i, j, h, -⟩
    simp [empty] at h
  · rintro ⟨h, -⟩
    cases h

/-- More keys do not change the arcs. -/
theorem Joins.upsert (h : g.Joins arcs) (hg : g.OK) (hu : g.upsert key f p = .ok (g', i)) :
    g'.Joins arcs := by
  intro d u
  rw [← h d u]
  obtain ⟨-, -, harcs, hkeys⟩ := upsert_ok hg hu
  -- the ends of arcs are old places, where the keys stay
  have hget : ∀ k, k < g.nodes.size → g'.keys[k]? = g.keys[k]? := by
    intro k hk
    rw [hkeys]
    split
    · rfl
    · exact List.getElem?_append_left (by rw [length_keys]; exact hk)
  unfold HasArc
  rw [harcs]
  constructor
  · rintro ⟨a, b, hab, ha, hb⟩
    obtain ⟨hla, hlb⟩ := hg.arc_lt _ hab
    rw [hget a hla] at ha
    rw [hget b hlb] at hb
    exact ⟨a, b, hab, ha, hb⟩
  · rintro ⟨a, b, hab, ha, hb⟩
    obtain ⟨hla, hlb⟩ := hg.arc_lt _ hab
    rw [← hget a hla] at ha
    rw [← hget b hlb] at hb
    exact ⟨a, b, hab, ha, hb⟩

/-- An arc more, unless both ends are the same. -/
theorem Joins.link (h : g.Joins arcs) (hg : g.OK) {d u : Key} (hd : g.keys[i]? = some d)
    (hu : g.keys[j]? = some u) : (g.link i j).Joins (arcs ++ [(d, u)]) := by
  -- places and keys coincide together, so the arc is reflexive as one of keys iff it is one of places
  have hij : i = j ↔ d = u := by
    constructor
    · rintro rfl
      rw [hd] at hu; cases hu; rfl
    · rintro rfl
      exact hg.place_unique hd hu
  intro d' u'
  unfold HasArc
  rw [keys_link, List.mem_append, List.mem_singleton, Prod.mk.injEq]
  constructor
  · rintro ⟨a, b, hab, ha, hb⟩
    rcases mem_link.1 hab with hab | ⟨hab, hne⟩
    · obtain ⟨hm, hne⟩ := (h d' u').1 ⟨a, b, hab, ha, hb⟩
      exact ⟨Or.inl hm, hne⟩
    · cases hab
      rw [hd] at ha
      rw [hu] at hb
      cases ha
      cases hb
      exact ⟨Or.inr ⟨rfl, rfl⟩, fun h => hne (hij.2 h)⟩
  · rintro ⟨hm | ⟨rfl, rfl⟩, hne⟩
    · obtain ⟨a, b, hab, ha, hb⟩ := (h d' u').2 ⟨hm, hne⟩
      exact ⟨a, b, mem_link.2 (Or.inl hab), ha, hb⟩
    · exact ⟨i, j, mem_link.2 (Or.inr ⟨rfl, fun h => hne (hij.1 h)⟩), hd, hu⟩

theorem arcKeys?_eq_some_iff {arc : Arc} {d u : Key} : g.arcKeys? arc = some (d, u) ↔
    g.keys[arc.definition]? = some d ∧ g.keys[arc.use]? = some u := by
  rw [keys_getElem?, keys_getElem?]
  unfold arcKeys?
  cases g.nodes[arc.definition]? with
  | none => simp
  | some a =>
    cases g.nodes[arc.use]? with
    | none => simp
    | some b => simp

/-- The listed arcs are the arcs there are. -/
theorem mem_arcKeys (g : Graph) (d u : Key) : (d, u) ∈ g.arcKeys ↔ g.HasArc d u := by
  unfold arcKeys HasArc
  rw [List.mem_eraseDups, List.mem_mergeSort, List.mem_filterMap]
  constructor
  · rintro ⟨arc, hm, h⟩
    exact ⟨arc.definition, arc.use, Array.mem_toList_iff.1 hm, arcKeys?_eq_some_iff.1 h⟩
  · rintro ⟨i, j, hm, h⟩
    exact ⟨⟨i, j⟩, Array.mem_toList_iff.2 hm, arcKeys?_eq_some_iff.2 h⟩

end DepGraph.Graph
