import DepGraph.Proofs.Yaml.Scalar

/-!
# The steps of a scan

A scan is followed from state to state: `Scan.Leads s t` says that whatever is found from `t` is found from
`s`. What the writer writes is then found piece by piece, each in front of whatever follows it.

* `Scan.leads_fetch`: one token.
* `Scan.leads_close`: the ends of block collections may be put before the next line is looked at.
* `Scan.leads_text`, `Scan.leads_word`, `Scan.leads_empty`: values that stand on the line of their key.
* `Scan.leads_key`, `Scan.leads_entry`: what stands before a value.
-/

namespace DepGraph.Yaml

variable {i l col c k : ℕ} {cs more : List Char} {ch : Char} {ka : Bool}

theorem Tokens.ext_reversed {a b : Tokens} (h : a.reversed = b.reversed) : a = b := by
  obtain ⟨_, _, rfl⟩ := a
  obtain ⟨_, _, rfl⟩ := b
  cases h
  rfl

namespace Scan

variable {s t : Scan} {p : Placed} {rest : List Placed}

/-! ## Following a scan -/

/-- What the scan finds, tokens or a fault, if it may take a step for each character. -/
def Yields (s : Scan) (found : Option (List Token)) : Prop :=
  ∀ fuel, s.rest.length < fuel → s.run fuel = found

/-- What is found from the second state is found from the first. -/
def Leads (s t : Scan) : Prop := ∀ found, t.Yields found → s.Yields found

theorem Leads.refl (s : Scan) : s.Leads s := fun _ h => h

theorem Leads.trans {u : Scan} (hs : s.Leads t) (ht : t.Leads u) : s.Leads u :=
  fun tokens h => hs tokens (ht tokens h)

theorem length_skipBlank (flow keyAllowed comment : Bool) (input : List Placed) :
    (skipBlank flow keyAllowed comment input).2.length ≤ input.length := by
  induction input generalizing keyAllowed comment with
  | nil => exact Nat.le_refl _
  | cons p rest ih =>
    have hstep := fun keyAllowed comment => Nat.le_succ_of_le (ih keyAllowed comment)
    rw [skipBlank, List.length_cons]
    split_ifs
    · exact hstep _ _
    · exact hstep _ _
    · exact hstep _ _
    · exact hstep _ _
    · exact hstep _ _
    · exact Nat.le_refl _

theorem length_resume : (resume i l more).length ≤ more.length := by
  have h := length_skipBlank false true false (place i l 0 more)
  rwa [length_place] at h

theorem run_token (hrest : s.rest = p :: rest) (hp : Solid p.char) (fuel : ℕ) :
    s.run (fuel + 1) =
      (s.dropStale p).bind fun s => ((s.outdent p.column).fetch p rest).bind (·.run fuel) := by
  obtain ⟨_, tokens, indent, outerIndents, keyAllowed, candidate, outer⟩ := s
  cases hrest
  rw [run, skip_solid hp]
  simp only
  split
  · rename_i h
    rw [h]
    rfl
  · rename_i s' h
    rw [h]
    change _ = ((s'.outdent p.column).fetch p rest).bind _
    split <;> rename_i h <;> rw [h] <;> rfl

theorem run_end (hrest : s.rest = []) (fuel : ℕ) :
    s.run (fuel + 1) = (s.fetchBoundary .streamEnd []).map (·.tokens.toList) := by
  obtain ⟨_, tokens, indent, outerIndents, keyAllowed, candidate, outer⟩ := s
  cases hrest
  rfl

/-- Blank space is passed over. -/
theorem leads_skip (hskip : skipBlank s.flow s.keyAllowed false s.rest = skipBlank s.flow ka false rest)
    (hlen : rest.length ≤ s.rest.length) : s.Leads { s with keyAllowed := ka, rest } := by
  intro tokens h fuel hfuel
  rw [← h fuel (Nat.lt_of_le_of_lt hlen hfuel)]
  cases fuel with
  | zero => rfl
  | succ fuel =>
    rw [run, run, hskip]
    rfl

/-- **One step of a scan.** -/
theorem leads_fetch (hrest : s.rest = p :: rest) (hp : Solid p.char) {u : Scan}
    (hstale : s.dropStale p = some t) (hfetch : (t.outdent p.column).fetch p rest = some u)
    (hlen : u.rest.length ≤ rest.length) : s.Leads u := by
  intro tokens h fuel hfuel
  rw [hrest, List.length_cons] at hfuel
  obtain ⟨fuel, rfl⟩ : ∃ m, fuel = m + 1 := ⟨fuel - 1, by omega⟩
  rw [run_token hrest hp, hstale, Option.bind_some, hfetch, Option.bind_some]
  -- the character at `p` is taken, so one step less is enough
  exact h fuel (by omega)

/-- Two states are as good as each other if they agree once the next token, or the end, is met. -/
theorem leads_alike (hrest : t.rest = s.rest)
    (hend : s.rest = [] → s.fetchBoundary .streamEnd [] = t.fetchBoundary .streamEnd [])
    (htoken : ∀ p rest, s.rest = p :: rest → Solid p.char ∧
      (s.dropStale p).map (·.outdent p.column) = (t.dropStale p).map (·.outdent p.column)) : s.Leads t := by
  intro tokens h fuel hfuel
  obtain ⟨fuel, rfl⟩ : ∃ m, fuel = m + 1 := ⟨fuel - 1, by omega⟩
  rw [← h (fuel + 1) (by rwa [hrest])]
  cases hs : s.rest with
  | nil => rw [run_end hs, run_end (hrest.trans hs), hend hs]
  | cons p rest =>
    obtain ⟨hp, hsame⟩ := htoken p rest hs
    -- a run looks at the state only after the collections that end here are closed
    have hbind : ∀ r : Option Scan, (r.bind fun s => ((s.outdent p.column).fetch p rest).bind (·.run fuel)) =
        (r.map (·.outdent p.column)).bind fun s => (s.fetch p rest).bind (·.run fuel) := by
      intro r
      cases r <;> rfl
    rw [run_token hs hp, run_token (hrest.trans hs) hp, hbind, hbind, hsame]

/-! ## Between tokens -/

/-- The state without a candidate, before some characters. -/
def before (s : Scan) (keyAllowed : Bool) (rest : List Placed) : Scan :=
  { s with keyAllowed, rest, candidate := none }

/-- The state after more tokens. -/
def emitAll (s : Scan) (tokens : List Token) : Scan := tokens.foldl emit s

theorem emitAll_append (us vs : List Token) : s.emitAll (us ++ vs) = (s.emitAll us).emitAll vs :=
  List.foldl_append

theorem emitAll_eq (us : List Token) : ∃ tokens : Tokens,
    tokens.reversed = us.reverse ++ s.tokens.reversed ∧ s.emitAll us = { s with tokens } := by
  induction us generalizing s with
  | nil => exact ⟨s.tokens, rfl, rfl⟩
  | cons u us ih =>
    obtain ⟨tokens, htokens, heq⟩ := ih (s := s.emit u)
    refine ⟨tokens, ?_, heq⟩
    rw [htokens, List.reverse_cons, List.append_assoc]
    rfl

@[simp] theorem emitAll_indent (us : List Token) : (s.emitAll us).indent = s.indent := by
  obtain ⟨_, _, h⟩ := emitAll_eq (s := s) us
  rw [h]

@[simp] theorem emitAll_outer (us : List Token) : (s.emitAll us).outer = s.outer := by
  obtain ⟨_, _, h⟩ := emitAll_eq (s := s) us
  rw [h]

theorem reversed_emitAll (us : List Token) :
    (s.emitAll us).tokens.reversed = us.reverse ++ s.tokens.reversed := by
  obtain ⟨_, ht, h⟩ := emitAll_eq (s := s) us
  rw [h, ht]

theorem flow_eq_false (houter : s.outer = []) : s.flow = false := by
  rw [flow, houter]
  rfl

theorem dropStale_fresh (h : ∀ r ∈ s.candidate :: s.outer, ∀ q ∈ r, isStale p q = false) :
    s.dropStale p = some s := by
  have hkeep : ∀ r ∈ s.candidate :: s.outer, r.filter (fun q => isStale p q = false) = r := by
    intro r hr
    cases r with
    | none => rfl
    | some q => rw [Option.filter, if_pos (by simp [h _ hr q rfl])]
  have hnone : ((s.candidate :: s.outer).any fun r => r.any fun q => q.required && isStale p q) = false := by
    rw [List.any_eq_false]
    intro r hr
    cases r with
    | none => simp
    | some q => simp [h _ hr q rfl]
  have houter : s.outer.map (fun r => r.filter fun q => isStale p q = false) = s.outer :=
    (List.map_congr_left fun r hr => hkeep r (List.mem_cons_of_mem _ hr)).trans (List.map_id _)
  rw [dropStale, hnone]
  simp only [hkeep _ List.mem_cons_self, houter]
  rfl

theorem dropStale_before (houter : s.outer = []) :
    (s.before ka rest).dropStale p = some (s.before ka rest) :=
  dropStale_fresh (by simp [before, houter])

theorem closeBlocks_deeper {column indent : ℤ} (h : indent ≤ column) (tokens : Tokens) (around : List ℤ) :
    closeBlocks column tokens indent around = (tokens, indent, around) := by
  cases around with
  | nil => rfl
  | cons next around => rw [closeBlocks, if_neg (by omega)]

/-- A token that is deep enough ends no collection. -/
theorem outdent_deeper {column : ℤ} (h : s.indent ≤ column) : s.outdent column = s := by
  rw [outdent, closeBlocks_deeper h]
  split <;> rfl

theorem closeBlocks_closeBlocks {column deeper : ℤ} (h : column ≤ deeper) {tokens tokens' : Tokens}
    {indent indent' : ℤ} {around around' : List ℤ}
    (hclose : closeBlocks deeper tokens indent around = (tokens', indent', around')) :
    closeBlocks column tokens' indent' around' = closeBlocks column tokens indent around := by
  -- each collection around is closed by the first call, or neither call gets past it
  induction around generalizing tokens indent with
  | nil => cases hclose; rfl
  | cons next around ih =>
    rw [closeBlocks] at hclose
    split at hclose
    · rw [ih hclose, closeBlocks, if_pos (by omega)]
    · cases hclose
      rfl

/-- Closing in two steps is closing in one. -/
theorem outdent_outdent {column deeper : ℤ} (h : column ≤ deeper) :
    (s.outdent deeper).outdent column = s.outdent column := by
  by_cases hflow : s.flow = true
  · have hdeeper : s.outdent deeper = s := by rw [outdent, if_pos hflow]
    rw [hdeeper]
  · obtain ⟨tokens, indent, around, hclose⟩ : ∃ tokens indent around,
        closeBlocks deeper s.tokens s.indent s.outerIndents = (tokens, indent, around) := ⟨_, _, _, rfl⟩
    have hdeeper : s.outdent deeper = { s with tokens, indent, outerIndents := around } := by
      rw [outdent, if_neg hflow, hclose]
    rw [hdeeper, outdent, outdent, if_neg hflow]
    exact (if_neg hflow).trans (by rw [closeBlocks_closeBlocks h hclose])

/-- What the next line starts with, if there is one. -/
theorem resume_head (h : Next c more) (hrest : resume i l more = p :: rest) :
    Solid p.char ∧ p.line = l ∧ p.column ≤ c := by
  cases h with
  | done => cases hrest
  | token hk hch =>
    rw [resume_pad hch, place_cons hch.newline] at hrest
    injection hrest with hp
    subst hp
    exact ⟨hch, rfl, hk⟩

/-- A candidate of a line before is given up, unless it is required. -/
theorem leads_idle (houter : s.outer = []) (hnext : Next c more)
    (hidle : ∀ q ∈ s.candidate, q.required = false ∧ q.line < l) :
    ({ s with keyAllowed := true, rest := resume i l more } : Scan).Leads
      (s.before true (resume i l more)) := by
  obtain ⟨_, tokens, indent, outerIndents, keyAllowed, candidate, outer⟩ := s
  cases houter
  refine leads_alike (by rfl) ?_ ?_
  · intro hend
    cases candidate with
    | none => rfl
    | some q =>
      obtain ⟨hreq, -⟩ := hidle q rfl
      simp [fetchBoundary, dropCandidate, outdent, before, flow, hreq]
  · intro p rest hrest
    obtain ⟨hp, hl, -⟩ := resume_head hnext hrest
    refine ⟨hp, ?_⟩
    cases candidate with
    | none => rfl
    | some q =>
      obtain ⟨hreq, hline⟩ := hidle q rfl
      -- the next token stands on a later line
      have hstale : isStale p q = true := by simp [isStale, hl, hline]
      simp [dropStale, before, hreq, hstale, Option.filter]

theorem outdent_before {column : ℤ} :
    (s.before ka rest).outdent column = (s.outdent column).before ka rest := by
  rw [outdent, outdent]
  change (if s.flow then _ else _) = _
  split <;> rfl

/-- **The ends of collections may be put before the next line is looked at.** -/
theorem leads_close (houter : s.outer = []) (hnext : Next c more) :
    (s.before true (resume i l more)).Leads ((s.outdent c).before true (resume i l more)) := by
  have houter' : (s.outdent c).outer = [] := by
    rw [outdent]
    split <;> exact houter
  rw [← outdent_before]
  refine leads_alike (by rw [outdent_before]; rfl) ?_ ?_
  · -- the end of the text closes everything, at column -1
    intro hend
    rw [fetchBoundary, fetchBoundary, outdent_outdent (by omega)]
  · intro p rest hrest
    obtain ⟨hp, -, hk⟩ := resume_head hnext hrest
    refine ⟨hp, ?_⟩
    rw [dropStale_before houter, outdent_before, dropStale_before houter', ← outdent_before, Option.map_some,
      Option.map_some, outdent_outdent (by omega)]

theorem leads_space : (s.before ka (place i l col (' ' :: cs))).Leads
    (s.before ka (place (i + 1) l (col + 1) cs)) := by
  refine leads_skip (s := s.before ka (place i l col (' ' :: cs))) (skip_pad 1 i col) ?_
  change (place _ _ _ cs).length ≤ (place _ _ _ (' ' :: cs)).length
  rw [length_place, length_place]
  exact Nat.le_succ _

theorem skip_next (h : Next c more) :
    skipBlank false ka false (place i l 0 more) = skipBlank false ka false (resume i l more) := by
  cases h with
  | done => rfl
  | token hk hch => rw [resume_pad hch, skip_pad, Nat.zero_add]

/-- At the end of a line the next one is looked for. -/
theorem leads_line (i l col : ℕ) (houter : s.outer = []) (hnext : Next c more) :
    ({ s with rest := place i l col ('\n' :: more) } : Scan).Leads
      { s with keyAllowed := true, rest := resume (i + 1) (l + 1) more } := by
  have hflow := flow_eq_false houter
  refine leads_skip (s := { s with rest := place i l col ('\n' :: more) }) ?_ ?_
  · change skipBlank s.flow _ _ _ = skipBlank s.flow _ _ _
    rw [hflow, skip_newline, skip_next hnext]
  · change (resume _ _ more).length ≤ (place _ _ _ ('\n' :: more)).length
    rw [length_place]
    exact Nat.le_succ_of_le length_resume

/-- A token that ends no collection, with candidates that are still fresh. -/
theorem leads_fresh (hrest : s.rest = p :: rest) (hp : Solid p.char)
    (hfresh : ∀ r ∈ s.candidate :: s.outer, ∀ q ∈ r, isStale p q = false) (hdeep : s.outdent p.column = s)
    (hfetch : s.fetch p rest = some t) (hlen : t.rest.length ≤ rest.length) : s.Leads t :=
  leads_fetch hrest hp (dropStale_fresh hfresh) (by rwa [hdeep]) hlen

/-- A token that belongs to the innermost collection. -/
theorem leads_token (houter : s.outer = []) (hindent : s.indent ≤ col) (hch : Solid ch)
    (hfetch : (s.before ka (place i l col (ch :: cs))).fetch ⟨ch, i, l, col⟩
      (place (i + ch.utf8Size) l (col + 1) cs) = some t) (hlen : t.rest.length ≤ cs.length) :
    (s.before ka (place i l col (ch :: cs))).Leads t := by
  refine leads_fresh (place_cons hch.newline) hch (by simp [before, houter]) (outdent_deeper hindent) hfetch ?_
  rwa [length_place]

/-- What starts here, as a candidate if a key may start here. -/
def noted (s : Scan) (keyAllowed : Bool) (p : Placed) : Option Candidate :=
  if keyAllowed then some ⟨s.tokens.count, p.index, p.line, p.column, s.indent == p.column⟩ else none

theorem noteCandidate_before (houter : s.outer = []) :
    (s.before ka rest).noteCandidate p = some { s.before ka rest with candidate := s.noted ka p } := by
  obtain ⟨_, tokens, indent, outerIndents, keyAllowed, candidate, outer⟩ := s
  cases houter
  cases ka <;> rfl

theorem noted_fresh {p' : Placed} (hline : p'.line = p.line) (hindex : p'.index ≤ p.index + 1024) :
    ∀ q ∈ s.noted ka p, isStale p' q = false := by
  intro q hq
  cases ka with
  | false => cases hq
  | true =>
    cases hq
    simp [isStale, hline, hindex]

/-- After a scalar or a flow collection that is deeper than the innermost collection, and no key, the
scan goes on with the next line. -/
theorem leads_noted (hindent : s.indent < p.column) (hline : p.line < l)
    (hnext : Next c more) (u : Scan) (hu : u.outer = []) :
    ({ u with keyAllowed := true, rest := resume i l more, candidate := s.noted ka p } : Scan).Leads
      (u.before true (resume i l more)) := by
  refine leads_idle (s := { u with candidate := s.noted ka p }) hu hnext ?_
  intro q hq
  cases ka with
  | false => cases hq
  | true =>
    cases hq
    -- only what stands at the column of the collection has to be a key
    exact ⟨beq_eq_false_iff_ne.2 (by omega), hline⟩

theorem leads_notedLine (hindent : s.indent < p.column) (hline : p.line ≤ l) (hnext : Next c more) (u : Scan)
    (hu : u.outer = []) :
    ({ u with
        keyAllowed := false
        rest := place i l col ('\n' :: more)
        candidate := s.noted ka p } : Scan).Leads
      (u.before true (resume (i + 1) (l + 1) more)) := by
  have hend := leads_line (s := { u with keyAllowed := false, candidate := s.noted ka p }) i l col hu hnext
  exact hend.trans (leads_noted hindent (Nat.lt_succ_of_le hline) hnext u hu)

/-! ## Which token comes next -/

theorem documentMark_word (hdash : p.char ≠ '-') (hdot : p.char ≠ '.') : documentMark (p :: rest) = none := by
  unfold documentMark
  split
  · rename_i heq
    injection heq with hp
    subst hp
    rw [if_neg (by simp [hdash, hdot])]
  · rfl

theorem fetch_bracket (hp : p.char = '[') :
    s.fetch p rest = s.fetchFlowStart p .flowSequenceStart rest := by
  rw [fetch, if_neg (by simp [hp]), documentMark_word (by simp [hp]) (by simp [hp]), hp]
  rfl

theorem fetch_bracketEnd (hp : p.char = ']') :
    s.fetch p rest = s.fetchFlowEnd .flowSequenceEnd rest := by
  rw [fetch, if_neg (by simp [hp]), documentMark_word (by simp [hp]) (by simp [hp]), hp]
  rfl

theorem fetch_single (hp : p.char = '\'') :
    s.fetch p rest = s.fetchQuoted p .single rest := by
  rw [fetch, if_neg (by simp [hp]), documentMark_word (by simp [hp]) (by simp [hp]), hp]
  rfl

theorem fetch_double (hp : p.char = '"') :
    s.fetch p rest = s.fetchQuoted p .double rest := by
  rw [fetch, if_neg (by simp [hp]), documentMark_word (by simp [hp]) (by simp [hp]), hp]
  rfl

theorem fetch_bar (houter : s.outer = []) (hcol : 0 < p.column) (hp : p.char = '|') :
    s.fetch p rest = s.fetchBlockScalar .literal rest := by
  rw [fetch, if_neg (by simp [hp]), documentMark_inside hcol, hp]
  change (if '|' = '-' ∧ _ then _ else if '|' = '?' ∧ _ then _ else if '|' = ':' ∧ _ then _ else _) = _
  rw [if_neg (by simp), if_neg (by simp), if_neg (by simp), if_pos ⟨rfl, flow_eq_false houter⟩]

theorem fetch_colon (hp : p.char = ':') (hahead : blankAhead rest = true) :
    s.fetch p rest = s.fetchValue p rest := by
  rw [fetch, if_neg (by simp [hp]), documentMark_word (by simp [hp]) (by simp [hp]), hp]
  change (if ':' = '-' ∧ _ then _ else if ':' = '?' ∧ _ then _ else if ':' = ':' ∧ _ then _ else _) = _
  rw [if_neg (by simp), if_neg (by simp), if_pos ⟨rfl, by rw [hahead, Bool.or_true]⟩]

theorem fetch_dash (hmark : documentMark (p :: rest) = none) (hp : p.char = '-')
    (hahead : blankAhead rest = true) :
    s.fetch p rest = s.fetchBlockEntry p rest := by
  rw [fetch, if_neg (by simp [hp]), hmark, hp]
  change (if '-' = '-' ∧ _ then _ else _) = _
  rw [if_pos ⟨rfl, hahead⟩]

/-- Every character that is no indicator starts a plain scalar. -/
theorem fetch_plain (hmark : documentMark (p :: rest) = none) (hp : Solid p.char)
    (hlead : isLeadingIndicator p.char = false)
    (hahead : (s.flow || blankAhead rest) = true → p.char ≠ '?' ∧ p.char ≠ ':' ∧ p.char ≠ '-') :
    s.fetch p rest = s.fetchPlain p rest := by
  obtain ⟨ch, i, l, col⟩ := p
  have hopen : (s.flow = false ∧ blankAhead rest = false) ∨ (ch ≠ '?' ∧ ch ≠ ':' ∧ ch ≠ '-') := by
    cases h : (s.flow || blankAhead rest) with
    | false => exact Or.inl (Bool.or_eq_false_iff.1 h)
    | true => exact Or.inr (hahead h)
  have hne : ∀ d, isLeadingIndicator d = true → ch ≠ d := by
    rintro d hd rfl
    rw [hlead] at hd
    cases hd
  rw [isLeadingIndicator, Bool.or_eq_false_iff] at hlead
  obtain ⟨hinner, hothers⟩ := hlead
  have hstart : startsPlain s.flow ⟨ch, i, l, col⟩ rest = true := by
    rw [startsPlain]
    split_ifs with hdash hmarked
    · obtain ⟨-, hopen⟩ | hopen := hopen
      · cases rest with
        | nil => cases hopen
        | cons q rest =>
          rw [blankAhead, Bool.or_eq_false_iff] at hopen
          simp [hopen.1]
      · exact absurd hdash hopen.2.2
    · obtain hopen | hopen := hopen
      · simp [hopen.1, hopen.2]
      · exact absurd hmarked (by simp [hopen.1, hopen.2.1])
    · simp only [hp.blank, hp.newline, hinner, hothers, decide_true, Bool.and_self]
  rw [fetch, if_neg (fun h => hne '%' (by decide) h.2), hmark]
  simp only
  split
  -- the ten characters that are tokens, or start one, wherever they stand
  iterate 10 exact absurd rfl (hne _ (by decide))
  · have hdash : ¬(ch = '-' ∧ blankAhead rest = true) :=
      fun h => (hahead (by rw [h.2, Bool.or_true])).2.2 h.1
    rw [if_neg hdash, if_neg (fun h => (hahead h.2).1 h.1), if_neg (fun h => (hahead h.2).2.1 h.1),
      if_neg (fun h => hne '|' (by decide) h.1), if_neg (fun h => hne '>' (by decide) h.1), if_pos hstart]

/-! ## Scalars -/

/-- What `allowsPlain` says of the first character. -/
theorem allowsPlain_cons (h : allowsPlain (ch :: cs) = true) : Solid ch ∧ isLeadingIndicator ch = false ∧
    (spaceAhead cs = true → ch ≠ '?' ∧ ch ≠ ':' ∧ ch ≠ '-') := by
  simp only [allowsPlain, hasIndicator, Bool.and_eq_true, Bool.not_eq_true', Bool.or_eq_false_iff,
    decide_eq_true_eq, List.any_eq_false, List.head?_cons, ne_eq, Option.some.injEq] at h
  obtain ⟨⟨⟨⟨hspace, -⟩, hbreak⟩, hspecial⟩, -, ⟨hlead, hmarks⟩, -⟩ := h
  have hbreak := hbreak ch List.mem_cons_self
  have hspecial := hspecial ch List.mem_cons_self
  refine ⟨⟨?_, by simpa using hbreak, ?_, ?_⟩, hlead, ?_⟩
  · simp only [isBlank, Bool.or_eq_false_iff, decide_eq_false_iff_not]
    refine ⟨hspace, ?_⟩
    rintro rfl
    exact hspecial (by decide)
  · rintro rfl
    cases hlead
  · rintro rfl
    exact hspecial (by decide)
  · intro hahead
    rw [hahead, Bool.and_true] at hmarks
    simp at hmarks
    exact ⟨hmarks.1.1, hmarks.1.2, hmarks.2⟩

theorem fetchPlain_before {input rest' : List Placed} {text : List Char} {broken : Bool}
    (houter : s.outer = [])
    (hread : readPlain false (s.indent + 1) [] .none (p :: rest) = some (text, broken, rest')) :
    (s.before ka input).fetchPlain p rest =
      some { s.emit (.scalar .plain (String.ofList text)) with
        keyAllowed := broken, rest := rest', candidate := s.noted ka p } := by
  have hflow : ({ s.before ka input with candidate := s.noted ka p } : Scan).flow = false :=
    flow_eq_false houter
  rw [fetchPlain, noteCandidate_before houter]
  simp only [Option.bind_eq_bind, Option.bind_some, hflow]
  change ((readPlain false (s.indent + 1) [] .none (p :: rest)).bind _) = _
  rw [hread]
  rfl

theorem leads_plain (i l col : ℕ) (ka : Bool) (houter : s.outer = []) (hindent : s.indent = c)
    (hcol : c < col)
    (hcs : allowsPlain cs = true) (hne : cs ≠ []) (hnext : Next c more) : ∃ i' l',
    (s.before ka (place i l col (cs ++ '\n' :: more))).Leads
      ((s.emit (.scalar .plain (String.ofList cs))).before true (resume i' l' more)) := by
  obtain ⟨ch, tail, rfl⟩ := List.exists_cons_of_ne_nil hne
  obtain ⟨hch, hlead, hahead⟩ := allowsPlain_cons hcs
  obtain ⟨i', hread⟩ := readPlain_text (i := i) (l := l) hcs hnext hcol
  rw [List.cons_append, place_cons hch.newline, ← hindent] at hread
  have hmark : documentMark
      (⟨ch, i, l, col⟩ :: place (i + ch.utf8Size) l (col + 1) (tail ++ '\n' :: more)) = none :=
    documentMark_inside (Nat.zero_lt_of_lt hcol)
  have hblock : ∀ {b : Bool}, (s.flow || b) = true → b = true := by
    intro b h
    rwa [flow_eq_false houter, Bool.false_or] at h
  have hfetch := (fetch_plain (s := s.before ka (place i l col (ch :: (tail ++ '\n' :: more)))) hmark hch hlead
    fun h => hahead (blankAhead_append (hblock h))).trans (fetchPlain_before houter hread)
  refine ⟨i', l + 1, (leads_token houter (by omega) hch hfetch ?_).trans
    (leads_noted (by rw [hindent]; exact Int.ofNat_lt.2 hcol) (Nat.lt_succ_self l) hnext _ houter)⟩
  refine Nat.le_trans length_resume ?_
  rw [List.length_append, List.length_cons]
  omega

theorem fetchQuoted_before {input rest' : List Placed} {style : Style} {text : List Char}
    (houter : s.outer = [])
    (hread : (if style = .single then readSingle [] .none rest else readDouble [] .none .none rest) =
      some (text, rest')) :
    (s.before ka input).fetchQuoted p style rest =
      some { s.emit (.scalar style (String.ofList text)) with
        keyAllowed := false, rest := rest', candidate := s.noted ka p } := by
  rw [fetchQuoted, noteCandidate_before houter]
  simp only [Option.bind_eq_bind, Option.bind_some]
  split at hread
  · rename_i hstyle
    rw [if_pos hstyle, hread]
    rfl
  · rename_i hstyle
    rw [if_neg hstyle, hread]
    rfl

/-- A quoted scalar at the end of its line. -/
theorem leads_quoted {style : Style} {text : List Char} {i' l' col' : ℕ} (houter : s.outer = [])
    (hindent : s.indent < col) (hch : Solid ch)
    (hfetch : ∀ s : Scan, ∀ rest, s.fetch ⟨ch, i, l, col⟩ rest = s.fetchQuoted ⟨ch, i, l, col⟩ style rest)
    (hread : (if style = .single then readSingle [] .none (place (i + ch.utf8Size) l (col + 1) cs)
      else readDouble [] .none .none (place (i + ch.utf8Size) l (col + 1) cs)) =
        some (text, place i' l' col' ('\n' :: more)))
    (hl : l ≤ l') (hlen : more.length < cs.length) (hnext : Next c more) :
    (s.before ka (place i l col (ch :: cs))).Leads
      ((s.emit (.scalar style (String.ofList text))).before true (resume (i' + 1) (l' + 1) more)) := by
  have hstep : (s.before ka (place i l col (ch :: cs))).Leads
      { s.emit (.scalar style (String.ofList text)) with
        keyAllowed := false, rest := place i' l' col' ('\n' :: more),
        candidate := s.noted ka ⟨ch, i, l, col⟩ } := by
    refine leads_token houter (by omega) hch ((hfetch _ _).trans (fetchQuoted_before houter hread)) ?_
    rw [length_place]
    exact hlen
  exact hstep.trans (leads_notedLine hindent hl hnext _ houter)

theorem leads_single (i l col : ℕ) (ka : Bool) (houter : s.outer = []) (hindent : s.indent < col)
    (hcs : allowsSingle cs = true) (hfeed : '\n' ∉ cs) (hk : 0 < k) (hnext : Next c more) : ∃ i' l',
    (s.before ka (place i l col
      ('\'' :: (indentLines k false (cs.flatMap doubledQuote ++ ['\'']) ++ '\n' :: more)))).Leads
      ((s.emit (.scalar .single (String.ofList cs))).before true (resume i' l' more)) := by
  obtain ⟨i', l', col', hl, hread⟩ := readSingle_text more (i + 1) l hcs hfeed hk (Nat.succ_pos col)
  refine ⟨_, _, leads_quoted houter hindent (by decide) (fun _ _ => fetch_single rfl)
    hread hl ?_ hnext⟩
  rw [List.length_append, List.length_cons]
  omega

theorem leads_double (cs : List Char) (i l col : ℕ) (ka : Bool) (houter : s.outer = [])
    (hindent : s.indent < col) (hnext : Next c more) : ∃ i' l',
    (s.before ka (place i l col ('"' :: (cs.flatMap escapeDouble ++ '"' :: '\n' :: more)))).Leads
      ((s.emit (.scalar .double (String.ofList cs))).before true (resume i' l' more)) := by
  obtain ⟨i', col', hread⟩ := readDouble_text l ('\n' :: more) cs [] [] (i + 1) (col + 1) (Nat.succ_pos col)
  refine ⟨_, _, leads_quoted houter hindent (by decide) (fun _ _ => fetch_double rfl)
    hread (Nat.le_refl l) ?_ hnext⟩
  rw [List.length_append, List.length_cons, List.length_cons]
  omega

theorem leads_literal (i l col : ℕ) (ka : Bool) (houter : s.outer = []) (hindent : s.indent = c)
    (hcol : c < col)
    (hcs : allowsLiteral cs = true) (hnext : Next c more) : ∃ i' l',
    (s.before ka (place i l col ('|' :: (indentMark cs ++ (chompingMark cs ++
      '\n' :: (indentLines (c + 2) true cs ++ (lineEnd cs ++ more))))))).Leads
      ((s.emit (.scalar .literal (String.ofList cs))).before true (resume i' l' more)) := by
  obtain ⟨i', l', hread⟩ := readBlock_text (i + 1) l (col + 1) hcs hnext
  refine ⟨i', l', leads_token houter (by omega) (by decide) ?_ ?_⟩
  · refine (fetch_bar (s := s.before ka _) houter (Nat.zero_lt_of_lt hcol) rfl).trans ?_
    rw [fetchBlockScalar]
    change ((readBlock false s.indent (place (i + 1) l (col + 1) _)).bind _) = _
    rw [hindent, hread]
    rfl
  · refine Nat.le_trans length_resume ?_
    simp only [List.length_append, List.length_cons]
    omega

/-- What a style needs. -/
theorem styleOf_spec (text : String) :
    match styleOf text with
    | .plain => meansOther text = false ∧ allowsPlain text.toList = true
    | .single => allowsSingle text.toList = true ∧ '\n' ∉ text.toList
    | .literal => allowsLiteral text.toList = true
    | .double => True
    | .folded => False := by
  rw [styleOf]
  split_ifs with hfeed hlit hplain hsingle
  · exact hlit
  · trivial
  · exact hplain
  · exact ⟨hsingle, by simpa using hfeed⟩
  · trivial

/-- **A text, in the style that was chosen for it.** -/
theorem leads_text (i l col : ℕ) (ka : Bool) (houter : s.outer = []) (hindent : s.indent = c)
    (hcol : c < col)
    (hnext : Next c more) (text : String) : ∃ i' l',
    (s.before ka (place i l col (writeText (c + 2) text ++ more))).Leads
      ((s.emit (.scalar (styleOf text) text)).before true (resume i' l' more)) := by
  have hspec := styleOf_spec text
  have hdeep : s.indent < col := by omega
  rw [writeText]
  cases hstyle : styleOf text with
  | plain =>
    rw [hstyle] at hspec
    have hne : text.toList ≠ [] := by
      intro hnil
      have hempty : text = "" := String.toList_injective hnil
      rw [hempty] at hspec
      cases hspec.1
    have h := leads_plain i l col ka houter hindent hcol hspec.2 hne hnext
    rw [String.ofList_toList] at h
    simp only [List.append_assoc, List.cons_append, List.nil_append]
    exact h
  | single =>
    rw [hstyle] at hspec
    have h := leads_single i l col ka houter hdeep hspec.1 hspec.2 (Nat.succ_pos (c + 1)) hnext
    rw [String.ofList_toList] at h
    simp only [List.append_assoc, List.cons_append, List.nil_append]
    exact h
  | double =>
    have h := leads_double text.toList i l col ka houter hdeep hnext
    rw [String.ofList_toList] at h
    simp only [List.append_assoc, List.cons_append, List.nil_append]
    exact h
  | literal =>
    rw [hstyle] at hspec
    have h := leads_literal i l col ka houter hindent hcol hspec hnext
    rw [String.ofList_toList] at h
    simp only [List.append_assoc, List.cons_append]
    exact h
  | folded =>
    rw [hstyle] at hspec
    exact hspec.elim

/-! ## Collections -/

/-- An empty list. -/
theorem leads_empty (i l col : ℕ) (ka : Bool) (houter : s.outer = []) (hindent : s.indent < col)
    (hnext : Next c more) : ∃ i' l',
    (s.before ka (place i l col ('[' :: ']' :: '\n' :: more))).Leads
      ((s.emitAll [.flowSequenceStart, .flowSequenceEnd]).before true (resume i' l' more)) := by
  have hstart : (s.before ka (place i l col ('[' :: ']' :: '\n' :: more))).Leads
      { s.emit .flowSequenceStart with
        keyAllowed := true, rest := place (i + 1) l (col + 1) (']' :: '\n' :: more), candidate := none
        outer := [s.noted ka ⟨'[', i, l, col⟩] } := by
    refine leads_token houter (by omega) (by decide) ?_ ?_
    · refine (fetch_bracket rfl).trans ?_
      rw [fetchFlowStart, noteCandidate_before houter]
      change some _ = some _
      rw [← houter]
      rfl
    · change (place _ _ _ _).length ≤ _
      rw [length_place]
  -- what was noted at the bracket waits among the outer candidates until the list is closed
  have hend : ({ s.emit .flowSequenceStart with
        keyAllowed := true, rest := place (i + 1) l (col + 1) (']' :: '\n' :: more), candidate := none
        outer := [s.noted ka ⟨'[', i, l, col⟩] } : Scan).Leads
      { s.emitAll [.flowSequenceStart, .flowSequenceEnd] with
        keyAllowed := false, rest := place (i + 2) l (col + 2) ('\n' :: more)
        candidate := s.noted ka ⟨'[', i, l, col⟩ } := by
    have hbracket : Solid ']' := by decide
    refine leads_fresh (p := ⟨']', i + 1, l, col + 1⟩) (by rfl) hbracket ?_ ?_
      ((fetch_bracketEnd rfl).trans ?_) ?_
    · intro r hr
      simp only [List.mem_cons, List.not_mem_nil, or_false] at hr
      obtain rfl | rfl := hr
      · simp
      · exact noted_fresh rfl (by simp)
    · rw [outdent]
      exact if_pos rfl
    · change some _ = some _
      rw [← houter]
      rfl
    · exact Nat.le_refl _
  exact ⟨_, _, (hstart.trans hend).trans (leads_notedLine hindent (Nat.le_refl l) hnext _ houter)⟩

/-- A dash before an item of a list. -/
theorem leads_entry (houter : s.outer = []) (hindent : s.indent = c) :
    (s.before true (place i l c ('-' :: ' ' :: cs))).Leads
      ((s.emit .blockEntry).before true (place (i + 1) l (c + 1) (' ' :: cs))) := by
  have hdash : Solid '-' := by decide
  have hmark : documentMark (⟨'-', i, l, c⟩ :: place (i + 1) l (c + 1) (' ' :: cs)) = none := by
    rw [place_space]
    unfold documentMark
    split
    · rename_i heq
      simp only [List.cons.injEq] at heq
      obtain ⟨rfl, rfl, -⟩ := heq
      rw [if_neg (by simp)]
    · rfl
  have hclosed : s.opensBlock c = false := by
    rw [opensBlock, hindent]
    simp
  refine leads_token houter (by omega) hdash ((fetch_dash hmark rfl rfl).trans ?_) ?_
  · rw [fetchBlockEntry, if_neg (by simp [before]), openBlock]
    change (if s.opensBlock c then _ else _ : Scan).dropCandidate >>= _ = _
    rw [hclosed]
    rfl
  · change (place _ _ _ _).length ≤ _
    rw [length_place]

/-- The names of fields: words short enough to be keys, also in quotes. -/
structure IsName (name : String) : Prop where
  nonempty : name.toList ≠ []
  word : ∀ ch ∈ name.toList, ch.isAlphanum = true ∨ ch = '_'
  short : name.toList.length + 2 ≤ 1024

/-- Letters, digits and `_` have no other meaning. -/
structure Plain (ch : Char) : Prop where
  solid : Solid ch
  lead : isLeadingIndicator ch = false
  indicator : ch ≠ '?' ∧ ch ≠ ':' ∧ ch ≠ '-' ∧ ch ≠ '.'
  special : isSpecial ch = false
  size : ch.utf8Size = 1

theorem range_of_alphanum (h : ch.isAlphanum = true) : 48 ≤ ch.toNat ∧ ch.toNat ≤ 122 := by
  have hrange : ∀ low high : UInt32, (decide (ch.val ≥ low) && decide (ch.val ≤ high)) = true →
      low.toNat ≤ ch.toNat ∧ ch.toNat ≤ high.toNat := by
    intro low high h
    rw [Bool.and_eq_true, decide_eq_true_eq, decide_eq_true_eq] at h
    exact h
  have hcases : (ch.isUpper = true ∨ ch.isLower = true) ∨ ch.isDigit = true := by
    rw [← Bool.or_eq_true, ← Bool.or_eq_true]
    exact h
  rcases hcases with (h | h) | h
  · have hupper : 65 ≤ ch.toNat ∧ ch.toNat ≤ 90 := hrange 65 90 ((Bool.decide_and _ _).symm.trans h)
    omega
  · have hlower : 97 ≤ ch.toNat ∧ ch.toNat ≤ 122 := hrange 97 122 h
    omega
  · have hdigit : 48 ≤ ch.toNat ∧ ch.toNat ≤ 57 := hrange 48 57 h
    omega

theorem range_of_word (h : ch.isAlphanum = true ∨ ch = '_') : 48 ≤ ch.toNat ∧ ch.toNat ≤ 122 := by
  rcases h with h | rfl
  · exact range_of_alphanum h
  · decide

/-- A character of a word is none of the others. -/
theorem ne_of_word {d : Char} (h : ch.isAlphanum = true ∨ ch = '_') (hd : ¬(d.isAlphanum = true ∨ d = '_')) :
    ch ≠ d := by
  rintro rfl
  exact hd h

theorem plain_of_word (h : ch.isAlphanum = true ∨ ch = '_') : Plain ch := by
  have hlead : isLeadingIndicator ch = true → ¬(ch.isAlphanum = true ∨ ch = '_') := by
    intro hch
    simp only [isLeadingIndicator, isFlowIndicator, Bool.or_eq_true, decide_eq_true_eq,
      List.contains_iff_mem] at hch
    rcases hch with ((((rfl | rfl) | rfl) | rfl) | rfl) | hch
    · decide
    · decide
    · decide
    · decide
    · decide
    · have hall : ("#&*!|>'\"%@\x60".toList.all fun d => ¬(d.isAlphanum = true ∨ d = '_')) = true := by decide
      exact of_decide_eq_true (List.all_eq_true.1 hall ch hch)
  have hrange := range_of_word h
  have hascii : ch.val ≤ 127 := by
    rw [UInt32.le_iff_toNat_le]
    change ch.toNat ≤ 127
    omega
  have hsolid : Solid ch := by
    refine ⟨?_, ?_, ne_of_word h (by decide), ne_of_word h (by decide)⟩
    · have hspace : ch ≠ ' ' := ne_of_word h (by decide)
      have htab : ch ≠ '\t' := ne_of_word h (by decide)
      simp [isBlank, hspace, htab]
    · have hfeed : ch ≠ '\n' := ne_of_word h (by decide)
      have hline : ch ≠ lineSeparator := ne_of_word h (by decide)
      have hparagraph : ch ≠ paragraphSeparator := ne_of_word h (by decide)
      simp [isBreak, hfeed, hline, hparagraph]
  refine ⟨hsolid, ?_, ⟨ne_of_word h (by decide), ne_of_word h (by decide), ne_of_word h (by decide),
    ne_of_word h (by decide)⟩, ?_, Char.utf8Size_eq_one_iff.2 hascii⟩
  · rw [← Bool.not_eq_true]
    intro hch
    exact hlead hch h
  · simp [isSpecial]
    omega

theorem readPlain_name (indent : ℤ) {tail : List Char}
    (hahead : ∀ i col, blankAhead (place i l col tail) = true) :
    ∀ (cs text : List Char) (i col : ℕ), (∀ ch ∈ cs, Plain ch) →
    readPlain false indent text .none (place i l col (cs ++ ':' :: tail)) =
      some (text.reverse ++ cs, false, place (i + cs.length) l (col + cs.length) (':' :: tail)) := by
  intro cs
  induction cs with
  | nil =>
    intro text i col _
    rw [List.nil_append, place_cons (by rfl), readPlain,
      if_neg (show ¬(isBlank ':' = true ∨ isBreak ':' = true) by decide), if_neg (by simp [Gap.isNone, Gap.none]),
      if_neg (by simp), if_pos (Or.inl ⟨rfl, hahead _ _⟩), List.append_nil]
    rfl
  | cons ch cs ih =>
    intro text i col hword
    obtain ⟨hch, -, ⟨-, hcolon, -⟩, -, hsize⟩ := hword ch List.mem_cons_self
    rw [List.cons_append, place_cons hch.newline, readPlain, if_neg (by simp [hch.blank, hch.newline]),
      if_neg (by simp [Gap.isNone, Gap.none]), if_neg (by simp), if_neg (by simp [hcolon]), hsize,
      ih _ _ _ fun d hd => hword d (List.mem_cons_of_mem _ hd)]
    simp [Gap.folded, Gap.none, Nat.add_assoc, Nat.add_comm 1]

/-- The state after something that was noted as a candidate. -/
def afterNoted (s : Scan) (token : Token) (p : Placed) (rest : List Placed) : Scan :=
  { s.emit token with keyAllowed := false, rest, candidate := s.noted true p }

/-- A colon makes a key of what was noted, and starts the mapping that it belongs to if need be. -/
theorem fetchValue_noted {p' : Placed} {input : List Placed} (token : Token) :
    (s.afterNoted token p input).fetchValue p' rest =
      some (((s.openBlock p.column .blockMappingStart).emitAll [.key, token, .value]).before false rest) := by
  -- all that came after the candidate was noted is the token itself
  have hinsert : ∀ inserted : List Token, ((s.tokens.push token).insertAt s.tokens.count inserted).reversed =
      token :: (inserted ++ s.tokens.reversed) := by
    intro inserted
    simp [Tokens.insertAt, Tokens.push]
  have hfirst : (s.afterNoted token p input).tokens.insertAt s.tokens.count [.key, .blockMappingStart] =
      ((s.tokens.push .blockMappingStart).push .key).push token := Tokens.ext_reversed (hinsert _)
  have hlater : (s.afterNoted token p input).tokens.insertAt s.tokens.count [.key] =
      (s.tokens.push .key).push token := Tokens.ext_reversed (hinsert _)
  rw [openBlock, fetchValue]
  change some (if (s.afterNoted token p input).opensBlock p.column = true then _ else _) = _
  cases hopen : s.opensBlock p.column with
  | true =>
    have hopens : (s.afterNoted token p input).opensBlock p.column = true := hopen
    simp only [hopens, if_true, hfirst]
    rfl
  | false =>
    have hopens : (s.afterNoted token p input).opensBlock p.column = false := hopen
    simp only [hopens, Bool.false_eq_true, if_false, hlater]
    rfl

/-- **A key.** -/
theorem leads_key {name : String} {tail : List Char} (i l : ℕ) (houter : s.outer = [])
    (hindent : s.indent ≤ c)
    (hname : IsName name) (hahead : ∀ i col, blankAhead (place i l col tail) = true) : ∃ i' col', c < col' ∧
    (s.before true (place i l c (name.toList ++ ':' :: tail))).Leads
      (((s.openBlock c .blockMappingStart).emitAll [.key, .scalar .plain name, .value]).before false
        (place i' l col' tail)) := by
  have hplain : ∀ d ∈ name.toList, Plain d := fun d hd => plain_of_word (hname.word d hd)
  have hread := readPlain_name (s.indent + 1) hahead name.toList [] i c hplain
  have hshort := hname.short
  obtain ⟨ch, letters, hcs⟩ := List.exists_cons_of_ne_nil hname.nonempty
  have hch : Plain ch := hplain ch (by rw [hcs]; exact List.mem_cons_self)
  obtain ⟨hquestion, hcolon, hdash, hdot⟩ := hch.indicator
  set n := name.toList.length
  have hword : (s.before true (place i l c (name.toList ++ ':' :: tail))).Leads
      (s.afterNoted (.scalar .plain name) ⟨ch, i, l, c⟩ (place (i + n) l (c + n) (':' :: tail))) := by
    rw [hcs, List.cons_append, place_cons hch.solid.newline, List.reverse_nil, List.nil_append,
      ← hcs] at hread
    have hfetch : ∀ input, (s.before true input).fetch ⟨ch, i, l, c⟩
        (place (i + ch.utf8Size) l (c + 1) (letters ++ ':' :: tail)) = some
          (s.afterNoted (.scalar .plain name) ⟨ch, i, l, c⟩ (place (i + n) l (c + n) (':' :: tail))) := by
      intro input
      rw [fetch_plain (documentMark_word hdash hdot) hch.solid hch.lead
        fun _ => ⟨hquestion, hcolon, hdash⟩, fetchPlain_before houter hread, String.ofList_toList]
      rfl
    rw [hcs, List.cons_append]
    refine leads_token houter hindent hch.solid (hfetch _) ?_
    change (place _ _ _ _).length ≤ _
    rw [length_place]
    simp
  -- the colon stands on the same line, so the name is still a candidate, and becomes the key
  have hvalue : (s.afterNoted (.scalar .plain name) ⟨ch, i, l, c⟩
      (place (i + n) l (c + n) (':' :: tail))).Leads
      (((s.openBlock c .blockMappingStart).emitAll [.key, .scalar .plain name, .value]).before false
        (place (i + n + 1) l (c + n + 1) tail)) := by
    have hsolid : Solid ':' := by decide
    refine leads_fresh (p := ⟨':', i + n, l, c + n⟩) (place_cons hsolid.newline) hsolid ?_ (outdent_deeper ?_)
      ((fetch_colon rfl (hahead _ _)).trans
        (fetchValue_noted (.scalar .plain name))) (Nat.le_refl _)
    · intro r hr
      change r ∈ s.noted true ⟨ch, i, l, c⟩ :: s.outer at hr
      rw [houter, List.mem_singleton] at hr
      rw [hr]
      exact noted_fresh rfl (show i + n ≤ i + 1024 by omega)
    · change s.indent ≤ ((c + n : ℕ) : ℤ)
      omega
  exact ⟨_, _, by omega, hword.trans hvalue⟩

/-! ## Words -/

theorem hasInnerIndicator_word (h : ∀ ch ∈ cs, Plain ch) (after : Bool) :
    hasInnerIndicator after cs = false := by
  induction cs generalizing after with
  | nil => rfl
  | cons ch cs ih =>
    have hch := h ch List.mem_cons_self
    rw [hasInnerIndicator, ih fun d hd => h d (List.mem_cons_of_mem _ hd)]
    simp [hch.indicator.2.1, hch.solid.comment]

theorem allowsPlain_word (h : ∀ ch ∈ cs, Plain ch) : allowsPlain cs = true := by
  have hspace : ∀ d : Option Char, (∀ ch ∈ d, ch ∈ cs) → d ≠ some ' ' := by
    rintro d hd rfl
    have hblank := (h _ (hd ' ' rfl)).solid.blank
    cases hblank
  have hbreak : cs.any isBreak = false := List.any_eq_false.2 fun ch hch => by simp [(h ch hch).solid.newline]
  have hspecial : cs.any isSpecial = false := List.any_eq_false.2 fun ch hch => by simp [(h ch hch).special]
  have hind : hasIndicator cs = false := by
    cases cs with
    | nil => rfl
    | cons ch cs =>
      obtain ⟨-, hlead, ⟨hquestion, hcolon, hdash, hdot⟩, -⟩ := h ch List.mem_cons_self
      have hin := hasInnerIndicator_word (fun d hd => h d (List.mem_cons_of_mem _ hd)) (spaceAhead [ch])
      simp [hasIndicator, List.isPrefixOf, hlead, hin, hquestion, hcolon, hdash, Ne.symm hdash, Ne.symm hdot]
  rw [allowsPlain, hbreak, hspecial, hind]
  simp [hspace cs.head? fun ch hch => List.mem_of_mem_head? hch,
    hspace cs.getLast? fun ch hch => List.mem_of_mem_getLast? hch]

/-- A word that is no text. -/
theorem leads_word (i l col : ℕ) (ka : Bool) (houter : s.outer = []) (hindent : s.indent = c)
    (hcol : c < col)
    (hcs : ∀ ch ∈ cs, ch.isAlphanum = true ∨ ch = '_') (hne : cs ≠ []) (hnext : Next c more) : ∃ i' l',
    (s.before ka (place i l col (cs ++ '\n' :: more))).Leads
      ((s.emit (.scalar .plain (String.ofList cs))).before true (resume i' l' more)) :=
  leads_plain i l col ka houter hindent hcol (allowsPlain_word fun ch hch => plain_of_word (hcs ch hch)) hne hnext

/-! ## Block collections -/

@[simp] theorem openBlock_outer (start : Token) : (s.openBlock k start).outer = s.outer := by
  rw [openBlock]
  split <;> rfl

theorem openBlock_indent (houter : s.outer = []) (h : s.indent ≤ k) (start : Token) :
    (s.openBlock k start).indent = k := by
  rw [openBlock, opensBlock, flow_eq_false houter]
  split
  · rfl
  · rename_i hopen
    simp at hopen
    omega

theorem openBlock_same (h : s.indent = k) (start : Token) : s.openBlock k start = s := by
  rw [openBlock, opensBlock, h]
  simp

/-- A collection is closed where a line starts at the column around it. -/
theorem outdent_opened {column : ℤ} (houter : s.outer = []) (hindent : s.indent = column) (hk : column < k)
    (start : Token) (us : List Token) :
    ((s.openBlock k start).emitAll us).outdent column = s.emitAll (start :: (us ++ [.blockEnd])) := by
  have hopens : s.opensBlock k = true := by
    rw [opensBlock, flow_eq_false houter, hindent]
    simp [hk]
  rw [openBlock, if_pos hopens]
  obtain ⟨tokens, htokens, hopened⟩ := emitAll_eq
    (s := { s with tokens := s.tokens.push start, indent := k, outerIndents := s.indent :: s.outerIndents }) us
  obtain ⟨tokens', htokens', hclosed⟩ := emitAll_eq (s := s) (start :: (us ++ [.blockEnd]))
  have hpush : tokens.push .blockEnd = tokens' := by
    apply Tokens.ext_reversed
    rw [htokens']
    simp [Tokens.push, htokens]
  -- one collection is closed, and the one around it reaches as far as the column
  have hclose : closeBlocks column tokens k (s.indent :: s.outerIndents) =
      (tokens', s.indent, s.outerIndents) := by
    rw [closeBlocks, if_pos (by omega), hpush, closeBlocks_deeper (by omega)]
  have hflow : ({ s with tokens, indent := k, outerIndents := s.indent :: s.outerIndents } : Scan).flow = false :=
    flow_eq_false houter
  rw [hopened, hclosed, outdent, hflow]
  simp only [hclose]
  rfl

end Scan

end DepGraph.Yaml
