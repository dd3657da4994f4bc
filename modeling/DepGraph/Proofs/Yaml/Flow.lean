import DepGraph.Proofs.Yaml.Lasting
import DepGraph.Proofs.Yaml.Written
import Mathlib.Data.List.DropRight

/-!
# Scanning inside brackets

The steps of a scan inside flow collections. There no key is required and no block ends, so that a state is
as good as another one if both are as deep and stand before the same characters, blank space aside
(`Scan.Inside`). A piece of text is then passed, with the tokens that it holds, or it has a fault
(`Scan.Passes`).

* `Scan.passes_text`, `Scan.passes_word`: values without parts.
* `Scan.Inside.opened`, `Scan.Inside.closed`, `Scan.Inside.entry`, `Scan.Inside.key`: what collections are
  made of.
-/

namespace DepGraph.Yaml

variable {i l col depth : ℕ} {cs mid more : List Char} {ch : Char} {found : Option (List Token)}

/-- The blank space between tokens. -/
def isSpace (c : Char) : Bool := c = ' ' || c = '\n'

theorem isSpace_solid (h : Solid ch) : isSpace ch = false := by
  have hspace : ch ≠ ' ' := by
    rintro rfl
    cases h.blank
  have hfeed : ch ≠ '\n' := by
    rintro rfl
    cases h.newline
  simp [isSpace, hspace, hfeed]

theorem dropWhile_solid (h : Solid ch) : (ch :: cs).dropWhile isSpace = ch :: cs := by
  rw [List.dropWhile_cons, isSpace_solid h]
  rfl

theorem dropWhile_gap {gap : List Char} (h : gap.all isSpace = true) :
    (gap ++ cs).dropWhile isSpace = cs.dropWhile isSpace := by
  induction gap with
  | nil => rfl
  | cons d gap ih =>
    rw [List.all_cons, Bool.and_eq_true] at h
    rw [List.cons_append, List.dropWhile_cons, h.1, if_pos rfl, ih h.2]

namespace Scan

variable {s t : Scan} {p : Placed} {rest : List Placed} {r : Option Candidate} {us vs : List Token}

/-! ## States -/

/-- A state inside some flow collections, before some characters. -/
structure Inside (s : Scan) (depth : ℕ) (cs : List Char) : Prop where
  indent : s.indent = -1
  depth : s.outer.length = depth
  idle : ∀ r ∈ s.candidate :: s.outer, ∀ q ∈ r, q.required = false
  rest : ∃ i l col cs', s.rest = place i l col cs' ∧ cs'.dropWhile isSpace = cs.dropWhile isSpace

theorem Inside.gap {gap : List Char} (h : gap.all isSpace = true) :
    Inside s depth (gap ++ cs) ↔ Inside s depth cs := by
  have hdrop : (gap ++ cs).dropWhile isSpace = cs.dropWhile isSpace := dropWhile_gap h
  constructor
  · rintro ⟨hindent, hdepth, hidle, hrest⟩
    exact ⟨hindent, hdepth, hidle, by rwa [hdrop] at hrest⟩
  · rintro ⟨hindent, hdepth, hidle, hrest⟩
    exact ⟨hindent, hdepth, hidle, by rwa [hdrop]⟩

/-- Blank space is passed over; inside brackets a line feed allows no key. -/
theorem skip_spaces (flow : Bool) : ∀ (cs : List Char) (ka : Bool) (i l col : ℕ), ∃ ka' i' l' col',
    skipBlank flow ka false (place i l col cs) =
      skipBlank flow ka' false (place i' l' col' (cs.dropWhile isSpace)) ∧ (flow = true → ka' = ka) := by
  intro cs
  induction cs with
  | nil =>
    intro ka i l col
    exact ⟨ka, i, l, col, rfl, fun _ => rfl⟩
  | cons c cs ih =>
    intro ka i l col
    rw [List.dropWhile_cons]
    by_cases hspace : c = ' '
    · subst hspace
      obtain ⟨ka', i', l', col', hskip, hka⟩ := ih ka (i + 1) l (col + 1)
      refine ⟨ka', i', l', col', ?_, hka⟩
      rw [place_space, skipBlank, if_neg (by simp), if_neg (by simp), if_pos (Or.inl rfl), hskip]
      rfl
    · by_cases hfeed : c = '\n'
      · subst hfeed
        obtain ⟨ka', i', l', col', hskip, hka⟩ := ih (ka || !flow) (i + 1) (l + 1) 0
        refine ⟨ka', i', l', col', ?_, ?_⟩
        · rw [place_newline, skipBlank, if_pos (by simp), hskip]
          rfl
        · intro hflow
          rw [hka hflow, hflow]
          simp
      · have hnot : isSpace c = false := by simp [isSpace, hspace, hfeed]
        rw [hnot]
        exact ⟨ka, i, l, col, rfl, fun _ => rfl⟩

theorem Inside.flow (h : Inside s (depth + 1) cs) : s.flow = true := by
  have hdepth := h.depth
  rw [Scan.flow]
  cases houter : s.outer with
  | nil =>
    rw [houter] at hdepth
    cases hdepth
  | cons r outer => rfl

/-- The candidate, unless it is too far back. -/
def fresh (p : Placed) (candidate : Option Candidate) : Option Candidate :=
  candidate.filter fun c => isStale p c = false

theorem none_idle : ∀ q ∈ (none : Option Candidate), q.required = false := by
  intro q hq
  cases hq

theorem map_fresh_idle {rs : List (Option Candidate)} (h : ∀ r ∈ rs, ∀ q ∈ r, q.required = false) :
    ∀ r ∈ rs.map (fresh p), ∀ q ∈ r, q.required = false := by
  intro r hr q hq
  obtain ⟨r', hr', rfl⟩ := List.mem_map.1 hr
  exact h r' hr' q (Option.filter_eq_some_iff.1 hq).1

theorem Inside.idle_outer (h : Inside s depth cs) : ∀ r ∈ s.outer, ∀ q ∈ r, q.required = false :=
  (List.forall_mem_cons.1 h.idle).2

/-- No candidate that is required is given up. -/
theorem dropStale_idle (h : ∀ r ∈ s.candidate :: s.outer, ∀ q ∈ r, q.required = false) :
    s.dropStale p = some { s with candidate := fresh p s.candidate, outer := s.outer.map (fresh p) } := by
  rw [dropStale, if_neg]
  · rfl
  · rw [Bool.not_eq_true, List.any_eq_false]
    intro r hr
    cases r with
    | none => simp
    | some q => simp [h (some q) hr q rfl]

/-- The next token is looked at, and the candidates that are too far back are given up. -/
theorem Inside.next (h : Inside s depth (ch :: cs)) (hch : Solid ch) : ∃ i l col t,
    Inside t depth (ch :: cs) ∧ t.tokens = s.tokens ∧ (0 < depth → t.keyAllowed = s.keyAllowed) ∧
    (∀ u, t.fetch ⟨ch, i, l, col⟩ (place (i + ch.utf8Size) l (col + 1) cs) = some u →
      u.rest.length ≤ cs.length → s.Leads u) ∧
    (t.fetch ⟨ch, i, l, col⟩ (place (i + ch.utf8Size) l (col + 1) cs) = none → s.Yields none) := by
  obtain ⟨i₀, l₀, col₀, cs', hrest, hdrop⟩ := h.rest
  rw [dropWhile_solid hch] at hdrop
  obtain ⟨ka, i, l, col, hskip, hka⟩ := skip_spaces s.flow cs' s.keyAllowed i₀ l₀ col₀
  rw [hdrop] at hskip
  have hlen : (ch :: cs).length ≤ cs'.length := by
    rw [← hdrop]
    exact (List.dropWhile_sublist isSpace).length_le
  -- the state at the token
  set v : Scan := { s with keyAllowed := ka, rest := place i l col (ch :: cs) } with hv
  have hskipped : s.Leads v := by
    refine leads_skip ?_ ?_
    · rw [hrest, hskip]
    · rw [hrest, length_place, length_place]
      exact hlen
  set p : Placed := ⟨ch, i, l, col⟩ with hp
  set t : Scan := { v with candidate := fresh p v.candidate, outer := v.outer.map (fresh p) } with ht
  have hstale : v.dropStale p = some t := dropStale_idle h.idle
  have hinside : Inside t depth (ch :: cs) := by
    refine ⟨h.indent, ?_, ?_, i, l, col, ch :: cs, rfl, rfl⟩
    · change (s.outer.map (fresh p)).length = depth
      rw [List.length_map]
      exact h.depth
    · exact map_fresh_idle h.idle
  have hdeep : t.outdent p.column = t := by
    refine outdent_deeper ?_
    rw [hinside.indent]
    omega
  have hplace : v.rest = p :: place (i + ch.utf8Size) l (col + 1) cs := place_cons hch.newline
  refine ⟨i, l, col, t, hinside, rfl, ?_, ?_, ?_⟩
  · intro hpos
    obtain ⟨depth, rfl⟩ : ∃ m, depth = m + 1 := ⟨depth - 1, by omega⟩
    exact hka h.flow
  · intro u hfetch hle
    refine hskipped.trans (leads_fetch hplace hch hstale (by rwa [hdeep]) ?_)
    rwa [length_place]
  · intro hfault
    refine hskipped none ?_
    intro fuel hfuel
    obtain ⟨fuel, rfl⟩ : ∃ m, fuel = m + 1 := ⟨fuel - 1, by omega⟩
    rw [run_token hplace hch, hstale, Option.bind_some, hdeep, hfault, Option.bind_none]

theorem Inside.drop (h : Inside s depth cs) : s.dropCandidate = some { s with candidate := none } := by
  rw [dropCandidate, if_neg]
  cases hc : s.candidate with
  | none => simp
  | some q => simp [h.idle (some q) (by rw [hc]; exact List.mem_cons_self) q rfl]

theorem Inside.not_required (h : Inside s depth cs) (p : Placed) : (s.indent == (p.column : ℤ)) = false := by
  rw [h.indent]
  exact beq_eq_false_iff_ne.2 (by omega)

theorem Inside.noted_idle (h : Inside s depth cs) (p : Placed) :
    ∀ q ∈ s.noted true p, q.required = false := by
  intro q hq
  cases hq
  exact h.not_required p

/-- What may be a key is noted, but is not required to be one. -/
theorem Inside.note (h : Inside s depth cs) (p : Placed) : ∃ candidate,
    s.noteCandidate p = some { s with candidate } ∧ (∀ q ∈ candidate, q.required = false) ∧
    (s.keyAllowed = true → candidate = s.noted true p) := by
  rw [noteCandidate]
  by_cases hka : s.keyAllowed = true
  · refine ⟨s.noted true p, ?_, h.noted_idle p, fun _ => rfl⟩
    have hrequired :
        (decide (s.flow = false) && s.indent == (p.column : ℤ)) = (s.indent == (p.column : ℤ)) := by
      rw [h.not_required p, Bool.and_false]
    rw [if_pos hka, h.drop]
    change some { s with candidate := some ⟨s.tokens.count, p.index, p.line, p.column,
      decide (s.flow = false) && s.indent == (p.column : ℤ)⟩ } = _
    rw [hrequired]
    rfl
  · refine ⟨s.candidate, if_neg hka, fun q hq => h.idle _ List.mem_cons_self q hq, fun h => absurd h hka⟩

/-! ## Passing over text -/

/-- A state that the scan comes to, with some more tokens. -/
structure Reaches (s : Scan) (us : List Token) (t : Scan) : Prop where
  leads : s.Leads t
  tokens : t.tokens.reversed = us.reverse ++ s.tokens.reversed

theorem Reaches.refl (s : Scan) : s.Reaches [] s := ⟨.refl s, rfl⟩

theorem Reaches.trans {u : Scan} (hs : s.Reaches us t) (ht : t.Reaches vs u) : s.Reaches (us ++ vs) u where
  leads := hs.leads.trans ht.leads
  tokens := by rw [ht.tokens, hs.tokens, List.reverse_append, List.append_assoc]

/-- The scan passes over some text, to what follows it, or finds a fault in it. -/
inductive Passes (s : Scan) (depth : ℕ) (more : List Char) : Option (List Token) → Prop where
  | fault (h : s.Yields none) : Passes s depth more none
  | past {us : List Token} {t : Scan} (h : s.Reaches us t) (ht : t.Inside depth more) :
    Passes s depth more (some us)

theorem Reaches.passes (h : s.Reaches us t) (ht : t.Passes depth more found) :
    s.Passes depth more (found.map (us ++ ·)) := by
  cases ht with
  | fault hfault => exact .fault (h.leads none hfault)
  | past hpast hinside => exact .past (h.trans hpast) hinside

/-- **One text after another.** -/
theorem Passes.andThen {depth' : ℕ} {later : Option (List Token)} (h : s.Passes depth mid found)
    (hnext : ∀ t : Scan, t.Inside depth mid → t.Passes depth' more later) :
    s.Passes depth' more (found.bind fun us => later.map (us ++ ·)) := by
  cases h with
  | fault hfault => exact .fault hfault
  | past hpast hinside => exact hpast.passes (hnext _ hinside)

/-! ## Collections -/

theorem fetch_brace (hp : p.char = '\x7b') :
    s.fetch p rest = s.fetchFlowStart p .flowMappingStart rest := by
  rw [fetch, if_neg (by simp [hp]), documentMark_word (by simp [hp]) (by simp [hp]), hp]
  rfl

theorem fetch_braceEnd (hp : p.char = '\x7d') :
    s.fetch p rest = s.fetchFlowEnd .flowMappingEnd rest := by
  rw [fetch, if_neg (by simp [hp]), documentMark_word (by simp [hp]) (by simp [hp]), hp]
  rfl

theorem fetch_comma (hp : p.char = ',') : s.fetch p rest = s.fetchFlowEntry rest := by
  rw [fetch, if_neg (by simp [hp]), documentMark_word (by simp [hp]) (by simp [hp]), hp]
  rfl

/-- The starts of flow collections. -/
inductive Opens : Char → Token → Prop where
  | bracket : Opens '[' .flowSequenceStart
  | brace : Opens '\x7b' .flowMappingStart

/-- The ends of flow collections. -/
inductive Closes : Char → Token → Prop where
  | bracket : Closes ']' .flowSequenceEnd
  | brace : Closes '\x7d' .flowMappingEnd

variable {token : Token}

theorem Opens.solid (h : Opens ch token) : Solid ch := by
  cases h
  · decide
  · decide

theorem Opens.fetch (h : Opens p.char token) : s.fetch p rest = s.fetchFlowStart p token rest := by
  obtain ⟨ch, i, l, col⟩ := p
  cases h
  · exact fetch_bracket rfl
  · exact fetch_brace rfl

theorem Closes.solid (h : Closes ch token) : Solid ch := by
  cases h
  · decide
  · decide

theorem Closes.fetch (h : Closes p.char token) : s.fetch p rest = s.fetchFlowEnd token rest := by
  obtain ⟨ch, i, l, col⟩ := p
  cases h
  · exact fetch_bracketEnd rfl
  · exact fetch_braceEnd rfl

/-- A collection starts, and a key may be its first part. -/
theorem Inside.opened (h : s.Inside depth (ch :: cs)) (hopen : Opens ch token) : ∃ t : Scan,
    s.Reaches [token] t ∧ t.Inside (depth + 1) cs ∧ t.keyAllowed = true := by
  obtain ⟨i, l, col, t, ht, htokens, -, hlead, -⟩ := h.next hopen.solid
  obtain ⟨candidate, hnote, hidle, -⟩ := ht.note ⟨ch, i, l, col⟩
  set rest := place (i + ch.utf8Size) l (col + 1) cs with hrest
  set u : Scan := { t.emit token with
    keyAllowed := true, candidate := none, outer := candidate :: t.outer, rest } with hu
  have hfetch : t.fetch ⟨ch, i, l, col⟩ rest = some u := by
    rw [Opens.fetch hopen, fetchFlowStart, hnote]
    rfl
  have hlen : u.rest.length ≤ cs.length := Nat.le_of_eq length_place
  refine ⟨u, ⟨hlead u hfetch hlen, ?_⟩, ⟨ht.indent, ?_, ?_, _, _, _, cs, hrest, rfl⟩, rfl⟩
  · change token :: t.tokens.reversed = _
    rw [htokens]
    rfl
  · change (candidate :: t.outer).length = depth + 1
    rw [List.length_cons, ht.depth]
  · exact List.forall_mem_cons.2 ⟨none_idle, List.forall_mem_cons.2 ⟨hidle, ht.idle_outer⟩⟩

/-- A collection ends. -/
theorem Inside.closed (h : s.Inside (depth + 1) (ch :: cs)) (hclose : Closes ch token) : ∃ t : Scan,
    s.Reaches [token] t ∧ t.Inside depth cs := by
  obtain ⟨i, l, col, t, ht, htokens, -, hlead, -⟩ := h.next hclose.solid
  obtain ⟨candidate, outer, houter⟩ : ∃ candidate outer, t.outer = candidate :: outer :=
    List.exists_cons_of_length_eq_add_one ht.depth
  set rest := place (i + ch.utf8Size) l (col + 1) cs with hrest
  set u : Scan := { t.emit token with keyAllowed := false, candidate, outer, rest } with hu
  have hfetch : t.fetch ⟨ch, i, l, col⟩ rest = some u := by
    rw [Closes.fetch hclose, fetchFlowEnd, ht.drop]
    simp only [Option.bind_eq_bind, Option.bind_some, emit, houter]
    rfl
  have hlen : u.rest.length ≤ cs.length := Nat.le_of_eq length_place
  refine ⟨u, ⟨hlead u hfetch hlen, ?_⟩, ⟨ht.indent, ?_, ?_, _, _, _, cs, hrest, rfl⟩⟩
  · change token :: t.tokens.reversed = _
    rw [htokens]
    rfl
  · have hdepth := ht.depth
    rw [houter, List.length_cons] at hdepth
    exact Nat.succ.inj hdepth
  · have hidle := ht.idle_outer
    rwa [houter] at hidle

/-- A comma, after which a key may stand. -/
theorem Inside.entry (h : s.Inside depth (',' :: cs)) : ∃ t : Scan,
    s.Reaches [.flowEntry] t ∧ t.Inside depth cs ∧ t.keyAllowed = true := by
  obtain ⟨i, l, col, t, ht, htokens, -, hlead, -⟩ := h.next (by decide)
  set rest := place (i + 1) l (col + 1) cs with hrest
  set u : Scan := { t.emit .flowEntry with keyAllowed := true, candidate := none, rest } with hu
  have hfetch : t.fetch ⟨',', i, l, col⟩ rest = some u := by
    rw [fetch_comma rfl, fetchFlowEntry, ht.drop]
    rfl
  have hlen : u.rest.length ≤ cs.length := Nat.le_of_eq length_place
  refine ⟨u, ⟨hlead u hfetch hlen, ?_⟩, ⟨ht.indent, ht.depth, ?_, _, _, _, cs, hrest, rfl⟩, rfl⟩
  · change Token.flowEntry :: t.tokens.reversed = _
    rw [htokens]
    rfl
  · exact List.forall_mem_cons.2 ⟨none_idle, ht.idle_outer⟩

/-- What is between double quotes is read after the first of them is noted. -/
theorem fetchQuoted_noted {candidate : Option Candidate} {read : Option (List Char × List Placed)}
    (hnote : s.noteCandidate p = some { s with candidate }) (hread : readDouble [] .none .none rest = read) :
    s.fetchQuoted p .double rest = read.map fun q =>
      { s.emit (.scalar .double (String.ofList q.1)) with keyAllowed := false, rest := q.2, candidate } := by
  rw [fetchQuoted, hnote]
  change (readDouble [] .none .none rest).bind _ = _
  rw [hread]
  cases read with
  | none => rfl
  | some q => rfl

theorem openBlock_flow (h : s.flow = true) (column : ℕ) (start : Token) : s.openBlock column start = s := by
  rw [openBlock, opensBlock, h]
  rfl

theorem readDouble_name (l : ℕ) (more : List Char) : ∀ (cs text : List Char) (i col : ℕ),
    (∀ ch ∈ cs, ch.isAlphanum = true ∨ ch = '_') →
    readDouble text .none .none (place i l col (cs ++ '"' :: more)) =
      some (text.reverse ++ cs, place (i + cs.length + 1) l (col + cs.length + 1) more) := by
  intro cs
  induction cs with
  | nil =>
    intro text i col _
    rw [List.nil_append, place_cons (by rfl), readDouble]
    simp only
    rw [if_neg (by decide), documentMark_word (by simp) (by simp), if_neg (by simp), if_pos trivial,
      List.append_nil]
    rfl
  | cons ch cs ih =>
    intro text i col hword
    have hch := plain_of_word (hword ch List.mem_cons_self)
    obtain ⟨-, -, hdash, hdot⟩ := hch.indicator
    have hquote : ch ≠ '"' := by
      rintro rfl
      cases hch.lead
    have hslash : ch ≠ '\\' := by
      rintro rfl
      rcases hword '\\' List.mem_cons_self with h | h
      · cases h
      · cases h
    rw [List.cons_append, place_cons hch.solid.newline, readDouble]
    simp only
    rw [if_neg (by simp [hch.solid.blank, hch.solid.newline]), documentMark_word hdash hdot, if_neg (by simp),
      if_neg hquote, if_neg hslash, hch.size, ih _ _ _ fun d hd => hword d (List.mem_cons_of_mem _ hd)]
    simp [Gap.folded, Gap.none, Nat.add_assoc, Nat.add_comm 1]

/-- A name in quotes is noted. -/
theorem Inside.name {name : String} (h : s.Inside (depth + 1) ('"' :: (name.toList ++ '"' :: more)))
    (hka : s.keyAllowed = true) (hname : IsName name) : ∃ (t : Scan) (p : Placed) (i col : ℕ),
    t.Inside (depth + 1) ('"' :: (name.toList ++ '"' :: more)) ∧ t.tokens = s.tokens ∧ i ≤ p.index + 1024 ∧
    s.Leads (t.afterNoted (.scalar .double name) p (place i p.line col more)) := by
  obtain ⟨i, l, col, t, ht, htokens, hallowed, hlead, -⟩ := h.next (by decide)
  have hallowed := (hallowed (Nat.succ_pos depth)).trans hka
  set n := name.toList.length
  have hshort := hname.short
  refine ⟨t, ⟨'"', i, l, col⟩, i + 1 + n + 1, col + 1 + n + 1, ht, htokens, ?_, hlead _ ?_ ?_⟩
  · change i + 1 + n + 1 ≤ i + 1024
    omega
  · obtain ⟨candidate, hnote, -, hnoted⟩ := ht.note ⟨'"', i, l, col⟩
    have hread := readDouble_name l more name.toList [] (i + 1) (col + 1) hname.word
    rw [List.reverse_nil, List.nil_append] at hread
    rw [fetch_double rfl]
    refine (fetchQuoted_noted hnote hread).trans ?_
    rw [Option.map_some, String.ofList_toList, hnoted hallowed]
    rfl
  · change (place _ _ _ _).length ≤ _
    rw [length_place]
    simp only [List.length_append, List.length_cons]
    omega

/-- What was noted on the line of a colon is fresh enough to be a key. -/
theorem fresh_noted (hindex : i ≤ p.index + 1024) (ch : Char) (col : ℕ) :
    fresh ⟨ch, i, p.line, col⟩ (s.noted true p) = s.noted true p := by
  have hstale : ∀ q ∈ s.noted true p, isStale ⟨ch, i, p.line, col⟩ q = false := noted_fresh rfl hindex
  rw [noted, if_pos rfl] at hstale ⊢
  rw [fresh, Option.filter, if_pos (by simpa using hstale _ rfl)]

/-- A colon makes a key of what was noted on its line. -/
theorem Inside.colon {input : List Char} (h : s.Inside (depth + 1) input) (hindex : i ≤ p.index + 1024)
    (col : ℕ) (token : Token) : ∃ t : Scan,
    (s.afterNoted token p (place i p.line col (':' :: ' ' :: cs))).Leads t ∧
    t.tokens.reversed = [.value, token, .key] ++ s.tokens.reversed ∧ t.Inside (depth + 1) cs := by
  set u := s.afterNoted token p (place i p.line col (':' :: ' ' :: cs)) with hu
  set p' : Placed := ⟨':', i, p.line, col⟩ with hp'
  set w : Scan := { s with outer := s.outer.map (fresh p') } with hw
  have hidle : ∀ r ∈ u.candidate :: u.outer, ∀ q ∈ r, q.required = false :=
    List.forall_mem_cons.2 ⟨h.noted_idle p, h.idle_outer⟩
  have hstale : u.dropStale p' = some (w.afterNoted token p u.rest) := by
    rw [dropStale_idle hidle]
    change some { u with candidate := fresh p' (s.noted true p), outer := s.outer.map (fresh p') } = _
    rw [fresh_noted hindex]
    rfl
  have hflow : w.flow = true := by
    rw [Scan.flow]
    change decide ((s.outer.map (fresh p')).isEmpty = false) = true
    rw [List.isEmpty_map]
    exact h.flow
  have hdeep : (w.afterNoted token p u.rest).outdent p'.column = w.afterNoted token p u.rest := by
    refine outdent_deeper ?_
    change s.indent ≤ (col : ℤ)
    rw [h.indent]
    omega
  set rest := place (i + 1) p.line (col + 1) (' ' :: cs) with hrest
  set v := (w.emitAll [.key, token, .value]).before false rest with hv
  have hfetch : (w.afterNoted token p u.rest).fetch p' rest = some v := by
    rw [fetch_colon rfl rfl, fetchValue_noted, openBlock_flow hflow]
  have hsolid : Solid p'.char := (by decide : Solid ':')
  refine ⟨v, leads_fetch rfl hsolid hstale (by rw [hdeep]; exact hfetch) (Nat.le_refl _), ?_, ?_⟩
  · change (w.emitAll _).tokens.reversed = _
    rw [reversed_emitAll]
    rfl
  · refine ⟨?_, ?_, ?_, _, _, _, ' ' :: cs, hrest, rfl⟩
    · change (w.emitAll _).indent = -1
      rw [emitAll_indent]
      exact h.indent
    · change (w.emitAll _).outer.length = depth + 1
      rw [emitAll_outer]
      change (s.outer.map (fresh p')).length = depth + 1
      rw [List.length_map, h.depth]
    · change ∀ r ∈ none :: (w.emitAll _).outer, _
      rw [emitAll_outer]
      exact List.forall_mem_cons.2 ⟨none_idle, map_fresh_idle h.idle_outer⟩

/-- **A name in quotes, and its colon.** -/
theorem Inside.key {name : String} (h : s.Inside (depth + 1) ('"' :: (name.toList ++ '"' :: ':' :: ' ' :: cs)))
    (hka : s.keyAllowed = true) (hname : IsName name) : ∃ t : Scan,
    s.Reaches [.key, .scalar .double name, .value] t ∧ t.Inside (depth + 1) cs := by
  obtain ⟨t, p, i, col, ht, htokens, hindex, hlead⟩ := h.name hka hname
  obtain ⟨u, hcolon, hreversed, hu⟩ := ht.colon hindex col (.scalar .double name)
  refine ⟨u, ⟨hlead.trans hcolon, ?_⟩, hu⟩
  rw [hreversed, htokens]
  rfl

/-! ## Scalars -/

/-- The state after a scalar. -/
theorem Inside.after {candidate : Option Candidate} {ka : Bool} {input : List Char} (h : s.Inside depth input)
    (hidle : ∀ q ∈ candidate, q.required = false) (hcs : cs.dropWhile isSpace = more.dropWhile isSpace)
    (i l col : ℕ) (token : Token) :
    ({ s.emit token with keyAllowed := ka, rest := place i l col cs, candidate } : Scan).Inside depth more := by
  have hidles := List.forall_mem_cons.2 ⟨hidle, h.idle_outer⟩
  exact ⟨h.indent, h.depth, hidles, i, l, col, cs, rfl, hcs⟩

/-- **A text in quotes.** -/
theorem passes_text (h : s.Inside depth ('"' :: (body cs ++ '"' :: more))) :
    s.Passes depth more
      ((refold [] .none false cs).map fun text => [.scalar .double (String.ofList text)]) := by
  obtain ⟨i, l, col, t, ht, htokens, -, hlead, hfault⟩ := h.next (by decide)
  obtain ⟨candidate, hnote, hidle, -⟩ := ht.note ⟨'"', i, l, col⟩
  obtain ⟨i', l', col', hread⟩ := readDouble_refold more cs [] .none (i + 1) l (col + 1)
  have hfetch := (fetch_double (s := t) (p := ⟨'"', i, l, col⟩) rfl).trans (fetchQuoted_noted hnote hread)
  cases hrefold : refold [] .none (decide (col + 1 = 0)) cs with
  | none =>
    rw [hrefold] at hfetch
    have hnone : refold [] .none false cs = none := hrefold
    rw [hnone]
    exact .fault (hfault hfetch)
  | some text =>
    rw [hrefold] at hfetch
    have hsome : refold [] .none false cs = some text := hrefold
    rw [hsome]
    refine .past ⟨hlead _ hfetch ?_, ?_⟩ (ht.after hidle rfl i' l' col' _)
    · change (place _ _ _ more).length ≤ _
      rw [length_place, List.length_append, List.length_cons]
      omega
    · change Token.scalar .double (String.ofList text) :: t.tokens.reversed = _
      rw [htokens]
      rfl

/-- What may follow a value: blank space, and then a comma or the end of a collection. -/
def Ends (cs : List Char) : Prop :=
  ∃ ch tail, cs.dropWhile isSpace = ch :: tail ∧ (ch = ',' ∨ ch = ']' ∨ ch = '\x7d')

theorem readPlain_ends (indent : ℤ) (text : List Char) : ∀ (more : List Char) (gap : Gap) (i l col : ℕ),
    Ends more → ∃ broken i' l' col', readPlain true indent text gap (place i l col more) =
      some (text.reverse, broken, place i' l' col' (more.dropWhile isSpace)) := by
  intro more
  induction more with
  | nil =>
    rintro gap i l col ⟨ch, tail, hdrop, -⟩
    cases hdrop
  | cons c more ih =>
    intro gap i l col hends
    by_cases hspace : isSpace c = true
    · have hdrop : (c :: more).dropWhile isSpace = more.dropWhile isSpace := by
        rw [List.dropWhile_cons, if_pos hspace]
      have hends' : Ends more := by rwa [Ends, hdrop] at hends
      rw [hdrop]
      rw [isSpace, Bool.or_eq_true, decide_eq_true_eq, decide_eq_true_eq] at hspace
      rcases hspace with rfl | rfl
      · obtain ⟨broken, i', l', col', hread⟩ := ih (gap.extend ' ') (i + 1) l (col + 1) hends'
        refine ⟨broken, i', l', col', ?_⟩
        rw [place_space, readPlain, if_pos (by simp), if_neg (by simp), hread]
      · obtain ⟨broken, i', l', col', hread⟩ := ih (gap.extend '\n') (i + 1) (l + 1) 0 hends'
        refine ⟨broken, i', l', col', ?_⟩
        rw [place_newline, readPlain, if_pos (by simp), if_neg (by simp), hread]
    · obtain ⟨ch, tail, hdrop, hch⟩ := hends
      rw [List.dropWhile_cons, if_neg hspace] at hdrop
      obtain ⟨rfl, rfl⟩ := List.cons.inj hdrop
      have hindicator : isBlank c = false ∧ isBreak c = false ∧ isFlowIndicator c = true ∧ c ≠ '-' ∧ c ≠ '.' ∧
          c ≠ '#' ∧ c ≠ ':' := by
        rcases hch with rfl | rfl | rfl
        · decide
        · decide
        · decide
      obtain ⟨hblank, hbreak, hflow, hdash, hdot, hcomment, hcolon⟩ := hindicator
      refine ⟨gap.isBroken, i, l, col, ?_⟩
      rw [List.dropWhile_cons, if_neg hspace, place_cons hbreak, readPlain, if_neg (by simp [hblank, hbreak]),
        documentMark_word hdash hdot, if_neg (by simp [hcomment]), if_neg (by simp [hcolon]),
        if_pos (Or.inr ⟨rfl, hflow⟩)]

theorem readPlain_flow (indent : ℤ) (hends : Ends more) : ∀ (cs text : List Char) (i l col : ℕ),
    (∀ ch ∈ cs, Plain ch) → ∃ broken i' l' col', readPlain true indent text .none (place i l col (cs ++ more)) =
      some (text.reverse ++ cs, broken, place i' l' col' (more.dropWhile isSpace)) := by
  intro cs
  induction cs with
  | nil =>
    intro text i l col _
    rw [List.nil_append, List.append_nil]
    exact readPlain_ends indent text more .none i l col hends
  | cons ch cs ih =>
    intro text i l col hword
    obtain ⟨hch, hlead, ⟨-, hcolon, -⟩, -, -⟩ := hword ch List.mem_cons_self
    rw [isLeadingIndicator, Bool.or_eq_false_iff] at hlead
    obtain ⟨broken, i', l', col', hread⟩ := ih (ch :: text) (i + ch.utf8Size) l (col + 1)
      fun d hd => hword d (List.mem_cons_of_mem _ hd)
    refine ⟨broken, i', l', col', ?_⟩
    rw [List.cons_append, place_cons hch.newline, readPlain, if_neg (by simp [hch.blank, hch.newline]),
      if_neg (by simp [Gap.isNone, Gap.none]), if_neg (by simp [hcolon]), if_neg (by simp [hcolon, hlead.1])]
    simpa [Gap.folded, Gap.none] using hread

/-- **A word without quotes.** -/
theorem passes_word (h : s.Inside (depth + 1) (cs ++ more)) (hword : ∀ ch ∈ cs, Plain ch) (hne : cs ≠ [])
    (hends : Ends more) : s.Passes (depth + 1) more (some [.scalar .plain (String.ofList cs)]) := by
  obtain ⟨ch, tail, rfl⟩ := List.exists_cons_of_ne_nil hne
  have hch := hword ch List.mem_cons_self
  obtain ⟨hquestion, hcolon, hdash, hdot⟩ := hch.indicator
  rw [List.cons_append] at h
  obtain ⟨i, l, col, t, ht, htokens, -, hlead, -⟩ := h.next hch.solid
  obtain ⟨candidate, hnote, hidle, -⟩ := ht.note ⟨ch, i, l, col⟩
  obtain ⟨broken, i', l', col', hread⟩ := readPlain_flow (t.indent + 1) hends (ch :: tail) [] i l col hword
  rw [List.cons_append, place_cons hch.solid.newline, List.reverse_nil, List.nil_append] at hread
  set rest := place (i + ch.utf8Size) l (col + 1) (tail ++ more) with hrest
  set u : Scan := { t.emit (.scalar .plain (String.ofList (ch :: tail))) with
    keyAllowed := broken, rest := place i' l' col' (more.dropWhile isSpace), candidate } with hu
  have hfetch : t.fetch ⟨ch, i, l, col⟩ rest = some u := by
    rw [fetch_plain (documentMark_word hdash hdot) hch.solid hch.lead fun _ => ⟨hquestion, hcolon, hdash⟩,
      fetchPlain, hnote]
    change (readPlain t.flow (t.indent + 1) [] .none (⟨ch, i, l, col⟩ :: rest)).bind _ = _
    rw [ht.flow, hread]
    rfl
  refine .past ⟨hlead u hfetch ?_, ?_⟩ (ht.after hidle (List.dropWhile_idempotent _ _) i' l' col' _)
  · change (place _ _ _ (more.dropWhile isSpace)).length ≤ _
    rw [length_place, List.length_append]
    exact Nat.le_add_left_of_le (List.dropWhile_sublist isSpace).length_le
  · change Token.scalar .plain (String.ofList (ch :: tail)) :: t.tokens.reversed = _
    rw [htokens]
    rfl

/-! ## The end -/

theorem Inside.finish (h : s.Inside 0 cs) (hcs : cs.dropWhile isSpace = []) :
    s.Yields (some (s.tokens.toList ++ [.streamEnd])) := by
  obtain ⟨i, l, col, cs', hrest, hdrop⟩ := h.rest
  obtain ⟨ka, i', l', col', hskip, -⟩ := skip_spaces s.flow cs' s.keyAllowed i l col
  rw [hdrop, hcs] at hskip
  have hskipped : s.Leads { s with keyAllowed := ka, rest := [] } :=
    leads_skip (by rw [hrest, hskip]; rfl) (Nat.zero_le _)
  refine hskipped _ ?_
  intro fuel hfuel
  obtain ⟨fuel, rfl⟩ : ∃ m, fuel = m + 1 := ⟨fuel - 1, by omega⟩
  have hend : ({ s with keyAllowed := ka, rest := [] } : Scan).Inside 0 [] :=
    ⟨h.indent, h.depth, h.idle, 0, 0, 0, [], rfl, rfl⟩
  rw [run_end rfl, fetchBoundary, outdent_deeper (Int.le_of_eq hend.indent), hend.drop]
  change some (Token.streamEnd :: s.tokens.reversed).reverse = _
  rw [List.reverse_cons]
  rfl

/-- **A whole text**, of which only blank space is left. -/
theorem Passes.yields (h : s.Passes 0 more found) (hmore : more.dropWhile isSpace = [])
    (hs : s.tokens.reversed = []) : s.Yields (found.map (· ++ [.streamEnd])) := by
  cases h with
  | fault hfault => exact hfault
  | past hpast hinside =>
    have hyields := hpast.leads _ (hinside.finish hmore)
    rwa [Tokens.toList, hpast.tokens, hs, List.append_nil, List.reverse_reverse] at hyields

end Scan

end DepGraph.Yaml
