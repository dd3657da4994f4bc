import DepGraph.Proofs.Yaml.Folding
import Mathlib.Data.List.Infix

/-!
# Texts that last

The strings that are the same text in JSON and in YAML.

* `reread`: what YAML makes of the text of a JSON string.
* `reread_eq_some_iff`: the texts that stay what they are, `Lasting`.
-/

namespace DepGraph.Yaml

variable {c ch : Char} {cs : List Char} {gap : Gap}

/-! ## What does not last -/

def separators : List Char := [lineSeparator, paragraphSeparator]

/-- What does not stay as it is: a blank at either end of a line, and a line that is the mark of a
document. -/
def unstable : List (List Char) :=
  separators.flatMap fun b =>
    [[' ', b], [b, ' ']] ++ ['-', '.'].flatMap fun m => (' ' :: separators).map fun x => [b, m, m, m, x]

/-- **The texts that stay what they are** when JSON is read as YAML: all characters may occur in YAML or
have an escape in JSON, none is the next-line character, and nothing unstable occurs. -/
structure Lasting (s : String) : Prop where
  chars : ∀ c ∈ s.toList, (c.toNat < 0x20 ∨ isAllowed c = true) ∧ c ≠ nextLine
  stable : ∀ w ∈ unstable, ¬ w <:+: s.toList

/-- Nothing unstable stands at the start. -/
def Fine (cs : List Char) : Prop := ∀ w ∈ unstable, ¬ w <+: cs

/-- Nothing unstable stands anywhere. -/
def Stable (cs : List Char) : Prop := ∀ w ∈ unstable, ¬ w <:+: cs

theorem stable_cons : Stable (c :: cs) ↔ Fine (c :: cs) ∧ Stable cs := by
  unfold Stable Fine
  constructor
  · intro h
    exact ⟨fun w hw hp => h w hw (List.infix_cons_iff.2 (Or.inl hp)),
      fun w hw hp => h w hw (List.infix_cons_iff.2 (Or.inr hp))⟩
  · rintro ⟨hfine, hstable⟩ w hw hp
    rcases List.infix_cons_iff.1 hp with hp | hp
    · exact hfine w hw hp
    · exact hstable w hw hp

theorem stable_nil : Stable [] := by
  intro w hw hp
  rw [List.eq_nil_of_infix_nil hp] at hw
  revert hw
  decide

theorem mem_unstable {w : List Char} : w ∈ unstable ↔ ∃ b ∈ separators, w = [' ', b] ∨ w = [b, ' '] ∨
    ∃ m ∈ ['-', '.'], ∃ x ∈ ' ' :: separators, w = [b, m, m, m, x] := by
  unfold unstable
  rw [List.mem_flatMap]
  apply exists_congr
  intro b
  apply and_congr_right
  intro _
  rw [List.mem_append, List.mem_cons, List.mem_singleton, or_assoc, List.mem_flatMap]
  apply or_congr_right
  apply or_congr_right
  apply exists_congr
  intro m
  apply and_congr_right
  intro _
  rw [List.mem_map]
  apply exists_congr
  intro x
  rw [eq_comm]

theorem space_not_separator : ' ' ∉ separators := by decide

theorem fine_other (hspace : c ≠ ' ') (hsep : c ∉ separators) : Fine (c :: cs) := by
  intro w hw hp
  obtain ⟨b, hb, rfl | rfl | ⟨m, -, x, -, rfl⟩⟩ := mem_unstable.1 hw
  · exact hspace (List.cons_prefix_cons.1 hp).1.symm
  · exact hsep ((List.cons_prefix_cons.1 hp).1 ▸ hb)
  · exact hsep ((List.cons_prefix_cons.1 hp).1 ▸ hb)

theorem singleton_prefix_iff : [ch] <+: cs ↔ cs.head? = some ch := by
  cases cs with
  | nil => simp
  | cons d cs => simp [List.cons_prefix_cons, eq_comm]

theorem fine_space : Fine (' ' :: cs) ↔ ∀ b ∈ separators, cs.head? ≠ some b := by
  constructor
  · intro h b hb hhead
    refine h [' ', b] (mem_unstable.2 ⟨b, hb, Or.inl rfl⟩) ?_
    exact List.cons_prefix_cons.2 ⟨rfl, singleton_prefix_iff.2 hhead⟩
  · intro h w hw hp
    obtain ⟨b, hb, rfl | rfl | ⟨m, -, x, -, rfl⟩⟩ := mem_unstable.1 hw
    · exact h b hb (singleton_prefix_iff.1 (List.cons_prefix_cons.1 hp).2)
    · exact space_not_separator ((List.cons_prefix_cons.1 hp).1 ▸ hb)
    · exact space_not_separator ((List.cons_prefix_cons.1 hp).1 ▸ hb)

/-- What a line of a text starts with that is the mark of a document. -/
def Marked (cs : List Char) : Prop :=
  ∃ m ∈ ['-', '.'], ∃ x ∈ ' ' :: separators, [m, m, m, x] <+: cs

theorem fine_break (hc : c ∈ separators) : Fine (c :: cs) ↔ cs.head? ≠ some ' ' ∧ ¬ Marked cs := by
  constructor
  · intro h
    constructor
    · intro hhead
      refine h [c, ' '] (mem_unstable.2 ⟨c, hc, Or.inr (Or.inl rfl)⟩) ?_
      exact List.cons_prefix_cons.2 ⟨rfl, singleton_prefix_iff.2 hhead⟩
    · rintro ⟨m, hm, x, hx, hp⟩
      refine h [c, m, m, m, x] (mem_unstable.2 ⟨c, hc, Or.inr (Or.inr ⟨m, hm, x, hx, rfl⟩)⟩) ?_
      exact List.cons_prefix_cons.2 ⟨rfl, hp⟩
  · rintro ⟨hhead, hmark⟩ w hw hp
    obtain ⟨b, hb, rfl | rfl | ⟨m, hm, x, hx, rfl⟩⟩ := mem_unstable.1 hw
    · exact space_not_separator ((List.cons_prefix_cons.1 hp).1 ▸ hc)
    · exact hhead (singleton_prefix_iff.1 (List.cons_prefix_cons.1 hp).2)
    · exact hmark ⟨m, hm, x, hx, (List.cons_prefix_cons.1 hp).2⟩

theorem mem_separators : c ∈ separators ↔ c = lineSeparator ∨ c = paragraphSeparator := by
  simp [separators]

/-- Where the next-line character does not occur, the blank space of a text is that of its lines. -/
theorem isFolded_iff (h : c ≠ nextLine) : isFolded c = true ↔ c ∈ ' ' :: separators := by
  simp [isFolded, breaksLine, separators, h]

theorem startsMark_iff (h : nextLine ∉ cs) : startsMark cs = true ↔ Marked cs := by
  rw [startsMark_eq_true]
  constructor
  · rintro ⟨m, x, tail, hm, hx, rfl⟩
    have hne : x ≠ nextLine := by
      rintro rfl
      exact h (by simp)
    exact ⟨m, by simpa using hm, x, (isFolded_iff hne).1 hx, tail, rfl⟩
  · rintro ⟨m, hm, x, hx, tail, rfl⟩
    have hne : x ≠ nextLine := by
      rintro rfl
      exact h (by simp)
    exact ⟨m, x, tail, by simpa using hm, (isFolded_iff hne).2 hx, rfl⟩

/-! ## What folding keeps -/

/-- The characters that a gap is made of. -/
def Gap.chars : Gap → List Char
  | .blanks reversed => reversed
  | .breaks first more => first.toList ++ more

theorem mem_folded (h : ch ∈ gap.folded) : ch = ' ' ∨ ch ∈ gap.chars := by
  unfold Gap.folded at h
  split at h
  · exact Or.inr h
  · exact Or.inl (by simpa using h)
  · exact Or.inr (List.mem_append_right _ h)
  · refine Or.inr ?_
    rcases List.mem_append.1 h with h | h
    · exact List.mem_append_right _ h
    · exact List.mem_append_left _ (by simpa using h)
  · exact Or.inr h

theorem mem_extend (h : ch ∈ (gap.extend c).chars) : ch = c ∨ ch ∈ gap.chars := by
  cases gap with
  | blanks before =>
    rw [Gap.extend] at h
    split at h
    · exact List.mem_cons.1 h
    · exact Or.inl (by simpa [Gap.chars] using h)
  | breaks first more =>
    rw [Gap.extend] at h
    split at h
    · exact Or.inr h
    · rcases List.mem_append.1 h with h | h
      · exact Or.inr (List.mem_append_left _ h)
      · rcases List.mem_cons.1 h with h | h
        · exact Or.inl h
        · exact Or.inr (List.mem_append_right _ h)

theorem unify_ne (c : Char) : unify c ≠ nextLine := by
  unfold unify
  split
  · decide
  · assumption

/-- The next-line character is no part of what is read. -/
theorem refold_nextLine : ∀ (cs : List Char) {text : List Char} {gap : Gap} {start : Bool}
    {result : List Char}, refold text gap start cs = some result → nextLine ∉ gap.chars →
    nextLine ∉ text → nextLine ∉ result := by
  have hjoin : ∀ {text : List Char} {gap : Gap}, nextLine ∉ gap.chars → nextLine ∉ text →
      nextLine ∉ gap.folded ++ text := by
    intro text gap hgap htext hmem
    rcases List.mem_append.1 hmem with hmem | hmem
    · rcases mem_folded hmem with hspace | hmem
      · exact absurd hspace (by decide)
      · exact hgap hmem
    · exact htext hmem
  intro cs
  induction cs with
  | nil =>
    intro text gap start result h hgap htext
    cases h
    rw [List.mem_reverse]
    exact hjoin hgap htext
  | cons c cs ih =>
    intro text gap start result h hgap htext
    have hnone : nextLine ∉ Gap.none.chars := List.not_mem_nil
    have htaken : c ≠ nextLine → nextLine ∉ c :: (gap.folded ++ text) := by
      intro hc hmem
      rcases List.mem_cons.1 hmem with hmem | hmem
      · exact hc hmem.symm
      · exact hjoin hgap htext hmem
    rw [refold] at h
    split_ifs at h with hescaped hfolded hmark
    · refine ih h hnone (htaken ?_)
      rintro rfl
      cases hescaped
    · refine ih h ?_ htext
      intro hmem
      rcases mem_extend hmem with hmem | hmem
      · exact unify_ne c hmem.symm
      · exact hgap hmem
    · refine ih h hnone (htaken ?_)
      rintro rfl
      exact hfolded rfl

/-- The gaps of a text without next-line characters. -/
inductive Tidy : Gap → Prop where
  | blanks {spaces : List Char} (h : ∀ d ∈ spaces, d = ' ') : Tidy (.blanks spaces)
  | breaks {first : Char} {more : List Char} (h : ∀ d ∈ first :: more, d ∈ separators) :
    Tidy (.breaks (some first) more)

theorem tidy_none : Tidy .none := .blanks fun _ h => nomatch h

theorem folded_separators {first : Char} (h : first ∈ separators) (more : List Char) :
    Gap.folded (.breaks (some first) more) = more ++ [first] := by
  rcases mem_separators.1 h with rfl | rfl
  · cases more <;> rfl
  · cases more <;> rfl

theorem isBlank_separator (h : c ∈ separators) : isBlank c = false := by
  rcases mem_separators.1 h with rfl | rfl <;> rfl

/-- Blank space that stays apart from line breaks is kept, and nothing else of a gap is lost. -/
theorem Tidy.extend (h : Tidy gap) (hc : c ∈ ' ' :: separators) : Tidy (gap.extend c) ∧
    (gap.extend c).folded.length ≤ gap.folded.length + 1 := by
  cases h with
  | @blanks spaces hspaces =>
    rcases List.mem_cons.1 hc with rfl | hc
    · exact ⟨.blanks (List.forall_mem_cons.2 ⟨rfl, hspaces⟩), Nat.le_refl _⟩
    · rw [Gap.extend, if_neg (by simp [isBlank_separator hc])]
      refine ⟨.breaks (by simpa using hc), ?_⟩
      rw [folded_separators hc]
      simp
  | @breaks first more hall =>
    have hfirst := hall first List.mem_cons_self
    rcases List.mem_cons.1 hc with rfl | hc
    · exact ⟨.breaks hall, Nat.le_succ _⟩
    · rw [Gap.extend, if_neg (by simp [isBlank_separator hc])]
      refine ⟨.breaks ?_, ?_⟩
      · intro d hd
        simp only [List.mem_cons] at hd hall
        rcases hd with rfl | rfl | hd
        · exact hfirst
        · exact hc
        · exact hall d (Or.inr hd)
      · rw [folded_separators hfirst, folded_separators hfirst]
        simp

theorem unify_of_mem (h : c ∈ ' ' :: separators) : unify c = c := by
  apply unify_eq
  rintro rfl
  revert h
  decide

/-- Folding makes no text longer. -/
theorem length_refold : ∀ (cs : List Char) {text : List Char} {gap : Gap} {start : Bool}
    {result : List Char}, refold text gap start cs = some result → Tidy gap → nextLine ∉ cs →
    result.length ≤ gap.folded.length + text.length + cs.length := by
  intro cs
  induction cs with
  | nil =>
    intro text gap start result h _ _
    cases h
    rw [List.length_reverse, List.length_append]
    exact Nat.le_refl _
  | cons c cs ih =>
    intro text gap start result h htidy hnext
    have hc : c ≠ nextLine := List.ne_of_not_mem_cons hnext |>.symm
    have hcs : nextLine ∉ cs := List.not_mem_of_not_mem_cons hnext
    rw [refold] at h
    split_ifs at h with hescaped hfolded hmark
    · have hle := ih h tidy_none hcs
      simp only [Gap.none, Gap.folded, List.length_nil, List.length_cons, List.length_append] at hle ⊢
      omega
    · have hmem := (isFolded_iff hc).1 hfolded
      rw [unify_of_mem hmem] at h
      obtain ⟨htidy', hlen⟩ := htidy.extend hmem
      have hle := ih h htidy' hcs
      rw [List.length_cons]
      omega
    · have hle := ih h tidy_none hcs
      simp only [Gap.none, Gap.folded, List.length_nil, List.length_cons, List.length_append] at hle ⊢
      omega

/-- The last character of a gap. -/
def Gap.last : Gap → List Char
  | .blanks [] => []
  | .blanks (d :: _) => [d]
  | .breaks (some first) [] => [first]
  | .breaks Option.none [] => []
  | .breaks _ (d :: _) => [d]

theorem last_breaks {first : Char} {rest : List Char} (h : ∀ d ∈ first :: rest, d ∈ separators) :
    ∃ d ∈ separators, Gap.last (.breaks (some first) rest) = [d] := by
  cases rest with
  | nil => exact ⟨first, h first List.mem_cons_self, rfl⟩
  | cons d rest => exact ⟨d, h d (by simp), rfl⟩

theorem not_marked_nil : ¬ Marked [] := by
  rintro ⟨m, -, x, -, hp⟩
  cases List.prefix_nil.1 hp

/-- A mark starts with a character of its own. -/
theorem not_marked_cons (hdash : c ≠ '-') (hdot : c ≠ '.') : ¬ Marked (c :: cs) := by
  rintro ⟨m, hm, x, -, hp⟩
  rw [(List.cons_prefix_cons.1 hp).1] at hm
  simp [hdash, hdot] at hm

theorem stable_single (c : Char) : Stable [c] := by
  rw [stable_cons]
  refine ⟨?_, stable_nil⟩
  by_cases hspace : c = ' '
  · subst hspace
    exact fine_space.2 fun b _ => nofun
  · by_cases hsep : c ∈ separators
    · exact (fine_break hsep).2 ⟨nofun, not_marked_nil⟩
    · exact fine_other hspace hsep

theorem Tidy.stable_last (h : Tidy gap) : Stable gap.last := by
  cases h with
  | @blanks spaces _ =>
    cases spaces with
    | nil => exact stable_nil
    | cons d _ => exact stable_single d
  | breaks hall =>
    obtain ⟨d, -, hlast⟩ := last_breaks hall
    rw [hlast]
    exact stable_single d

/-- After a gap, any character but blank space is fine, unless a mark starts with it. -/
theorem Tidy.stable_other (h : Tidy gap) (hspace : c ≠ ' ') (hsep : c ∉ separators) :
    Stable (gap.last ++ c :: cs) ↔ ¬ (gap.isBroken = true ∧ Marked (c :: cs)) ∧ Stable cs := by
  have hrest : Stable (c :: cs) ↔ Stable cs := by
    rw [stable_cons, and_iff_right (fine_other hspace hsep)]
  cases h with
  | @blanks spaces hspaces =>
    have hbroken : ¬ (Gap.isBroken (.blanks spaces) = true ∧ Marked (c :: cs)) := by
      rintro ⟨hb, -⟩
      cases hb
    rw [and_iff_right hbroken]
    cases spaces with
    | nil => exact hrest
    | cons d spaces =>
      have hd : d = ' ' := hspaces d List.mem_cons_self
      subst hd
      have hfine : Fine (' ' :: c :: cs) := by
        rw [fine_space]
        rintro b hb hhead
        cases hhead
        exact hsep hb
      change Stable (' ' :: c :: cs) ↔ _
      rw [stable_cons, and_iff_right hfine, hrest]
  | @breaks first rest hall =>
    obtain ⟨d, hd, hlast⟩ := last_breaks hall
    have hbroken : Gap.isBroken (.breaks (some first) rest) = true := rfl
    have hhead : (c :: cs).head? ≠ some ' ' := by simpa using hspace
    rw [hlast]
    change Stable (d :: c :: cs) ↔ _
    rw [stable_cons, fine_break hd, hrest, and_iff_right hhead, hbroken]
    simp only [true_and]

theorem breaksLine_separator (h : c ∈ separators) : breaksLine c = true :=
  breaksLine_iff.2 (Or.inr (mem_separators.1 h))

/-- Blank space that a gap takes up is either kept, and fine, or partly lost, and unstable. -/
theorem Tidy.extend_cases (h : Tidy gap) (hc : c ∈ ' ' :: separators) (cs : List Char) :
    ((gap.extend c).folded = c :: gap.folded ∧ (gap.extend c).isBroken = breaksLine c ∧
      (Stable (gap.last ++ c :: cs) ↔ Stable ((gap.extend c).last ++ cs))) ∨
    ((gap.extend c).folded.length ≤ gap.folded.length ∧ ¬ Stable (gap.last ++ c :: cs)) := by
  cases h with
  | @blanks spaces hspaces =>
    rcases List.mem_cons.1 hc with rfl | hc
    · refine Or.inl ⟨rfl, rfl, ?_⟩
      change _ ↔ Stable (' ' :: cs)
      cases spaces with
      | nil => exact Iff.rfl
      | cons d spaces =>
        have hd : d = ' ' := hspaces d List.mem_cons_self
        subst hd
        have hfine : Fine (' ' :: ' ' :: cs) := by
          rw [fine_space]
          rintro b hb hhead
          cases hhead
          exact space_not_separator hb
        change Stable (' ' :: ' ' :: cs) ↔ _
        rw [stable_cons, and_iff_right hfine]
    · have hextend : Gap.extend (.blanks spaces) c = .breaks (some c) [] := by
        rw [Gap.extend, if_neg (by simp [isBlank_separator hc])]
      rw [hextend, folded_separators hc]
      cases spaces with
      | nil => exact Or.inl ⟨rfl, (breaksLine_separator hc).symm, Iff.rfl⟩
      | cons d spaces =>
        -- the spaces before the end of a line are lost
        have hd : d = ' ' := hspaces d List.mem_cons_self
        subst hd
        refine Or.inr ⟨by simp [Gap.folded], fun hstable => ?_⟩
        exact fine_space.1 (stable_cons.1 hstable).1 c hc rfl
  | @breaks first more hall =>
    obtain ⟨d, hd, hlast⟩ := last_breaks hall
    rw [hlast]
    rcases List.mem_cons.1 hc with rfl | hc
    · -- a space at the start of a line is lost
      refine Or.inr ⟨Nat.le_refl _, fun hstable => ?_⟩
      exact ((fine_break hd).1 (stable_cons.1 hstable).1).1 rfl
    · have hfirst := hall first List.mem_cons_self
      have hextend : Gap.extend (.breaks (some first) more) c = .breaks (some first) (c :: more) := by
        rw [Gap.extend, if_neg (by simp [isBlank_separator hc])]
      rw [hextend, folded_separators hfirst, folded_separators hfirst]
      refine Or.inl ⟨rfl, (breaksLine_separator hc).symm, ?_⟩
      have hfine : Fine (d :: c :: cs) := by
        rw [fine_break hd]
        rcases mem_separators.1 hc with rfl | rfl
        · exact ⟨by simp [lineSeparator], not_marked_cons (by decide) (by decide)⟩
        · exact ⟨by simp [paragraphSeparator], not_marked_cons (by decide) (by decide)⟩
      change Stable (d :: c :: cs) ↔ Stable (c :: cs)
      rw [stable_cons, and_iff_right hfine]

/-- **A text is read as it is just when nothing in it is unstable.** The gap before it counts. -/
theorem refold_eq_iff : ∀ (cs text : List Char) {gap : Gap}, Tidy gap → nextLine ∉ cs →
    (refold text gap gap.isBroken cs = some ((gap.folded ++ text).reverse ++ cs) ↔
      Stable (gap.last ++ cs)) := by
  intro cs
  induction cs with
  | nil =>
    intro text gap htidy _
    rw [List.append_nil, List.append_nil]
    exact iff_of_true rfl htidy.stable_last
  | cons c cs ih =>
    intro text gap htidy hnext
    have hc : c ≠ nextLine := (List.ne_of_not_mem_cons hnext).symm
    have hcs : nextLine ∉ cs := List.not_mem_of_not_mem_cons hnext
    -- a character that is taken leaves no gap
    have htaken : refold (c :: (gap.folded ++ text)) .none false cs =
        some ((gap.folded ++ text).reverse ++ c :: cs) ↔ Stable cs := by
      have h := ih (c :: (gap.folded ++ text)) tidy_none hcs
      simpa [Gap.none, Gap.folded, Gap.isBroken, Gap.last] using h
    rw [refold]
    by_cases hescaped : isEscaped c = true
    · rw [if_pos hescaped, htaken]
      have hf := isEscaped_not_folded hescaped
      have hout : c ∉ ' ' :: separators := by
        rw [← isFolded_iff hc, hf]
        exact Bool.false_ne_true
      rw [htidy.stable_other (List.ne_of_not_mem_cons hout) (List.not_mem_of_not_mem_cons hout)]
      have hmark : ¬ Marked (c :: cs) := by
        apply not_marked_cons
        · rintro rfl
          cases hescaped
        · rintro rfl
          cases hescaped
      exact (and_iff_right fun h => hmark h.2).symm
    · rw [if_neg hescaped]
      by_cases hfolded : isFolded c = true
      · rw [if_pos hfolded]
        have hmem := (isFolded_iff hc).1 hfolded
        rw [unify_of_mem hmem]
        have htidy' := (htidy.extend hmem).1
        rcases htidy.extend_cases hmem cs with
          ⟨hkept, hbroken, hiff⟩ | ⟨hless, hunstable⟩
        · rw [hiff, ← ih text htidy' hcs, hkept, hbroken, List.cons_append, List.reverse_cons,
            List.append_assoc]
          rfl
        · refine iff_of_false (fun h => ?_) hunstable
          have hle := length_refold cs h htidy' hcs
          simp only [List.length_append, List.length_reverse, List.length_cons] at hle
          omega
      · rw [if_neg hfolded]
        have hout : c ∉ ' ' :: separators := by rwa [← isFolded_iff hc]
        rw [htidy.stable_other (List.ne_of_not_mem_cons hout) (List.not_mem_of_not_mem_cons hout),
          ← startsMark_iff hnext]
        split_ifs with hmark
        · exact iff_of_false not_false fun h => h.1 hmark
        · rw [htaken, and_iff_right hmark]

/-- What YAML makes of the text of a JSON string. -/
def reread (s : String) : Option String :=
  if s.toList.all fun c => isEscaped c || isAllowed c then
    (refold [] .none false s.toList).map String.ofList
  else none

theorem isEscaped_or_isAllowed :
    (isEscaped c || isAllowed c) = true ↔ c.toNat < 0x20 ∨ isAllowed c = true := by
  by_cases hquote : c = '"'
  · subst hquote
    decide
  · by_cases hslash : c = '\\'
    · subst hslash
      decide
    · simp [isEscaped, hquote, hslash]

/-- **The texts that stay what they are.** -/
theorem reread_eq_some_iff {s : String} : reread s = some s ↔ Lasting s := by
  have hallowed : (s.toList.all fun c => isEscaped c || isAllowed c) = true ↔
      ∀ c ∈ s.toList, c.toNat < 0x20 ∨ isAllowed c = true := by
    simp only [List.all_eq_true, isEscaped_or_isAllowed]
  unfold reread
  by_cases hall : (s.toList.all fun c => isEscaped c || isAllowed c) = true
  · rw [if_pos hall, Option.map_eq_some_iff]
    have hlist : (∃ t, refold [] .none false s.toList = some t ∧ String.ofList t = s) ↔
        refold [] .none false s.toList = some s.toList := by
      constructor
      · rintro ⟨t, ht, hs⟩
        rw [ht, ← hs, String.toList_ofList]
      · exact fun h => ⟨_, h, String.ofList_toList⟩
    rw [hlist]
    by_cases hnext : nextLine ∈ s.toList
    · refine iff_of_false (fun h => ?_) fun h => (h.chars nextLine hnext).2 rfl
      exact refold_nextLine _ h List.not_mem_nil List.not_mem_nil hnext
    · refine (refold_eq_iff s.toList [] tidy_none hnext).trans ⟨fun h => ⟨?_, h⟩, fun h => h.stable⟩
      intro c hc
      refine ⟨hallowed.1 hall c hc, ?_⟩
      rintro rfl
      exact hnext hc
  · rw [if_neg hall]
    exact iff_of_false nofun fun h => hall (hallowed.2 fun c hc => (h.chars c hc).1)

instance (s : String) : Decidable (Lasting s) := decidable_of_iff _ reread_eq_some_iff

/-- Nothing happens to a text of one line. -/
theorem lasting_of_line {s : String}
    (h : (s.toList.all fun c => (isEscaped c || isAllowed c) && !breaksLine c) = true) : Lasting s := by
  have hchar : ∀ c ∈ s.toList, (c.toNat < 0x20 ∨ isAllowed c = true) ∧ breaksLine c = false := by
    intro c hc
    have hc := List.all_eq_true.1 h c hc
    rw [Bool.and_eq_true, isEscaped_or_isAllowed, Bool.not_eq_true'] at hc
    exact hc
  constructor
  · intro c hc
    refine ⟨(hchar c hc).1, ?_⟩
    rintro rfl
    cases (hchar nextLine hc).2
  · -- whatever is unstable has the end of a line in it
    intro w hw hfactor
    obtain ⟨b, hb, hw⟩ := mem_unstable.1 hw
    have hmem : b ∈ w := by
      rcases hw with rfl | rfl | ⟨m, -, x, -, rfl⟩
      · simp
      · simp
      · simp
    have hline := (hchar b (hfactor.subset hmem)).2
    rw [breaksLine_separator hb] at hline
    cases hline

end DepGraph.Yaml
