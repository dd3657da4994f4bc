import DepGraph.Proofs.CommandLine.Notation
import Mathlib.Data.List.TakeDrop

/-!
# Arguments as they are read

* `Taken.ofArgument_iff`: what one argument gives.
* `Arguments.parse_iff`: what all of them give, and hence what a command gets (`Arguments.parse_collect`).
-/

namespace DepGraph

/-- Names that can be told apart on a command line. -/
structure Usage.Plain (u : Usage) : Prop where
  options : ∀ name ∈ u.options, name ≠ "" ∧ '=' ∉ name.toList ∧ name ≠ "verbose"
  flags : ∀ name ∈ u.flags, name ≠ "" ∧ '=' ∉ name.toList ∧ name ≠ "help" ∧ name ∉ u.options

variable {u : Usage} {a b : Arguments} {argument name value : String} {ps qs : List Piece}
  {waiting : Option String} {rest : List String}

/-! ## One argument -/

/-- Nothing stands behind the dash of an operand. -/
theorem IsOperand.toList_ne (h : IsOperand argument) (c : Char) (cs : List Char) :
    argument.toList ≠ '-' :: c :: cs := by
  intro heq
  rcases h with rfl | h
  · cases heq
  · rw [heq] at h
    exact h rfl

theorem Usage.Plain.name_of_flag (hu : u.Plain) (h : name = "verbose" ∨ name ∈ u.flags) :
    name ≠ "" ∧ '=' ∉ name.toList := by
  rcases h with rfl | h
  · decide
  · exact ⟨(hu.flags _ h).1, (hu.flags _ h).2.1⟩

namespace Taken

/-- What an argument leaves: more arguments, or an option that waits for its value. -/
def after (a : Arguments) : Option String → Taken
  | none => .more a
  | some name => .pending name a

theorem ofArguments_eq {x : Option Arguments} :
    ofArguments x = some (after b waiting) ↔ waiting = none ∧ x = some b := by
  cases waiting <;> cases x <;> simp [ofArguments, after]

theorem ofLetters_verbose (hu : u.Plain) {letters : List Char} : ofLetters u a ('v' :: letters) =
    (a.addFlag verboseFlag).bind fun a => ofLetters u a letters := by
  have hoptions : u.options.contains verboseFlag = false := by
    rw [List.contains_eq_mem, decide_eq_false_iff_not]
    intro h
    exact (hu.options _ h).2.2 rfl
  have hletter : u.ofLetter? 'v' = some verboseFlag := rfl
  rw [ofLetters, if_neg (by decide), hletter]
  simp only [hoptions, Bool.false_eq_true, if_false]

theorem ofLetters_output (hu : "output" ∈ u.options) : ofLetters u a ['o'] = some (.pending "output" a) ∧
    (∀ value, ofLetters u a ('o' :: '=' :: value) = ofArguments (a.addOption "output" (String.ofList value))) ∧
    ∀ value, value ≠ [] → value.head? ≠ some '=' →
      ofLetters u a ('o' :: value) = ofArguments (a.addOption "output" (String.ofList value)) := by
  have hletter : u.ofLetter? 'o' = some "output" := by
    change u.options.find? (· = "output") = _
    cases hfind : u.options.find? (· = "output") with
    | none => exact absurd (decide_eq_true rfl) (List.find?_eq_none.1 hfind _ hu)
    | some name =>
      have hname : name = "output" := by simpa using List.find?_some hfind
      rw [hname]
  have hcontains : u.options.contains "output" = true := List.contains_iff_mem.2 hu
  refine ⟨?_, ?_, ?_⟩
  · rw [ofLetters, if_neg (by decide), hletter]
    simp only [hcontains, if_true]
  · intro value
    rw [ofLetters, if_neg (by decide), hletter]
    simp only [hcontains, if_true]
  · intro value hne hhead
    rw [ofLetters, if_neg (by decide), hletter]
    simp only [hcontains, if_true]
    cases value with
    | nil => exact absurd rfl hne
    | cons c value =>
      have hc : c ≠ '=' := fun h => hhead (by rw [h]; rfl)
      split
      · contradiction
      · rename_i heq
        cases heq
        exact absurd rfl hc
      · rfl

/-- Other letters are help or nothing. -/
theorem ofLetters_other {letter : Char} {letters : List Char} (hverbose : letter ≠ 'v')
    (houtput : letter = 'o' → "output" ∉ u.options) :
    ofLetters u a (letter :: letters) ≠ some (after b waiting) := by
  rw [ofLetters]
  split
  · cases waiting <;> simp [after]
  · have hletter : u.ofLetter? letter = none := by
      unfold Usage.ofLetter?
      rw [if_neg hverbose]
      split
      · rename_i ho
        rw [List.find?_eq_none]
        intro name hname heq
        rw [of_decide_eq_true heq] at hname
        exact houtput ho hname
      · rfl
    rw [hletter]
    simp

theorem ofLetters_iff (hu : u.Plain) {letters : List Char} : ofLetters u a letters = some (after b waiting) ↔
    ∃ ps, Letters u letters ps waiting ∧ a.addAll u ps = some b := by
  induction letters generalizing a with
  | nil =>
    constructor
    · intro h
      cases waiting <;> cases h
      exact ⟨[], .done, rfl⟩
    · rintro ⟨ps, h, hadd⟩
      cases h
      rw [Arguments.addAll_nil.1 hadd]
      rfl
  | cons letter letters ih =>
    constructor
    · intro h
      by_cases hverbose : letter = 'v'
      · subst hverbose
        rw [ofLetters_verbose hu] at h
        obtain ⟨c, hc, h⟩ := Option.bind_eq_some_iff.1 h
        obtain ⟨ps, hps, hadd⟩ := ih.1 h
        exact ⟨_, .verbose hps, Arguments.addAll_cons.2 ⟨c, hc, hadd⟩⟩
      · by_cases houtput : letter = 'o' ∧ "output" ∈ u.options
        · obtain ⟨rfl, ho⟩ := houtput
          obtain ⟨hwaiting, hassigned, hattached⟩ := ofLetters_output (a := a) ho
          cases letters with
          | nil =>
            rw [hwaiting] at h
            cases waiting <;> cases h
            exact ⟨[], .output ho, rfl⟩
          | cons c value =>
            by_cases hc : c = '='
            · subst hc
              rw [hassigned, ofArguments_eq] at h
              obtain ⟨rfl, h⟩ := h
              exact ⟨_, .assigned ho, Arguments.addAll_single.2 h⟩
            · have hhead : (c :: value).head? ≠ some '=' := fun h => hc (Option.some.inj h)
              rw [hattached _ (List.cons_ne_nil _ _) hhead, ofArguments_eq] at h
              obtain ⟨rfl, h⟩ := h
              exact ⟨_, .attached ho (List.cons_ne_nil _ _) hhead, Arguments.addAll_single.2 h⟩
        · exact absurd h (ofLetters_other hverbose fun hl ho => houtput ⟨hl, ho⟩)
    · rintro ⟨ps, h, hadd⟩
      cases h with
      | verbose h =>
        obtain ⟨c, hc, hadd⟩ := Arguments.addAll_cons.1 hadd
        rw [ofLetters_verbose hu]
        exact Option.bind_eq_some_iff.2 ⟨c, hc, ih.2 ⟨_, h, hadd⟩⟩
      | output ho =>
        rw [(ofLetters_output ho).1, Arguments.addAll_nil.1 hadd]
        rfl
      | attached ho hne hhead =>
        rw [(ofLetters_output ho).2.2 _ hne hhead, ofArguments_eq]
        exact ⟨rfl, Arguments.addAll_single.1 hadd⟩
      | assigned ho =>
        rw [(ofLetters_output ho).2.1, ofArguments_eq]
        exact ⟨rfl, Arguments.addAll_single.1 hadd⟩

/-- A long option is cut at its first `=`. -/
theorem span_name (h : '=' ∉ name.toList) {tail : List Char} (htail : ∀ c ∈ tail.head?, c = '=') :
    (name.toList ++ tail).span (· ≠ '=') = (name.toList, tail) := by
  have hall : ∀ c ∈ name.toList, decide (c ≠ '=') = true := by
    intro c hc
    rw [decide_eq_true_eq]
    rintro rfl
    exact h hc
  rw [List.span_eq_takeWhile_dropWhile, List.takeWhile_append_of_pos hall, List.dropWhile_append_of_pos hall]
  cases tail with
  | nil => simp
  | cons c tail =>
    rw [htail c rfl]
    simp

theorem splitLong_name (h : '=' ∉ name.toList) : splitLong name.toList = (name, none) := by
  have hspan : (name.toList ++ []).span (· ≠ '=') = (name.toList, []) := span_name h (by simp)
  rw [List.append_nil] at hspan
  rw [splitLong, hspan]
  simp only [String.ofList_toList, List.head?_nil, Option.map_none]

theorem splitLong_value (h : '=' ∉ name.toList) :
    splitLong (name.toList ++ '=' :: value.toList) = (name, some value) := by
  rw [splitLong, span_name h (by simp)]
  simp only [String.ofList_toList, List.head?_cons, Option.map_some, List.tail_cons]

theorem long_eq (name : String) : "--" ++ name = String.ofList ('-' :: '-' :: name.toList) := by
  apply String.ext
  simp

/-- An argument is long, without or with a value, or short, or an operand. -/
theorem argument_cases (argument : String) : (∃ name, '=' ∉ name.toList ∧ argument = "--" ++ name) ∨
    (∃ name value, '=' ∉ name.toList ∧ argument = "--" ++ name ++ "=" ++ value) ∨
    (∃ letter letters, letter ≠ '-' ∧ argument = String.ofList ('-' :: letter :: letters)) ∨
    IsOperand argument := by
  have hargument : argument = String.ofList argument.toList := String.ofList_toList.symm
  cases hcs : argument.toList with
  | nil => exact Or.inr (Or.inr (Or.inr (Or.inr (by rw [hcs]; simp))))
  | cons c cs =>
    rw [hcs] at hargument
    by_cases hc : c = '-'
    · subst hc
      cases cs with
      | nil => exact Or.inr (Or.inr (Or.inr (Or.inl hargument)))
      | cons d long =>
        by_cases hd : d = '-'
        · subst hd
          by_cases hassigned : '=' ∈ long
          · obtain ⟨before, value, rfl, hbefore⟩ := List.eq_append_cons_of_mem hassigned
            refine Or.inr (Or.inl ⟨String.ofList before, String.ofList value, by simpa using hbefore, ?_⟩)
            rw [hargument]
            apply String.ext
            simp
          · refine Or.inl ⟨String.ofList long, by simpa using hassigned, ?_⟩
            rw [hargument, long_eq, String.toList_ofList]
        · exact Or.inr (Or.inr (Or.inl ⟨d, long, hd, hargument⟩))
    · refine Or.inr (Or.inr (Or.inr (Or.inr ?_)))
      rw [hcs]
      simpa using hc

theorem ofArgument_operand (h : IsOperand argument) :
    ofArgument u a argument = ofArguments (a.addOperand u argument) := by
  unfold ofArgument
  split
  · rename_i heq
    exact absurd heq (h.toList_ne _ _)
  · rename_i heq
    exact absurd heq (h.toList_ne _ _)
  · rfl

theorem ofArgument_letters {letter : Char} {letters : List Char} (h : letter ≠ '-') :
    ofArgument u a (String.ofList ('-' :: letter :: letters)) = ofLetters u a (letter :: letters) := by
  unfold ofArgument
  rw [String.toList_ofList]
  split
  · rename_i heq
    cases heq
    exact absurd rfl h
  · rename_i heq
    cases heq
    rfl
  · rename_i hshort
    exact absurd rfl (hshort letter letters)

theorem ofArgument_name (h : '=' ∉ name.toList) : ofArgument u a ("--" ++ name) = ofName u a name none := by
  rw [long_eq]
  unfold ofArgument
  rw [String.toList_ofList]
  simp only [splitLong_name h]

theorem ofArgument_value (h : '=' ∉ name.toList) :
    ofArgument u a ("--" ++ name ++ "=" ++ value) = ofName u a name (some value) := by
  have hlong : (name ++ ("=" ++ value)).toList = name.toList ++ '=' :: value.toList := by simp
  rw [String.append_assoc, String.append_assoc, long_eq, hlong]
  unfold ofArgument
  rw [String.toList_ofList]
  simp only [splitLong_value h]

theorem ofName_none (hu : u.Plain) : ofName u a name none = some (after b waiting) ↔
    (name ∈ u.options ∧ waiting = some name ∧ b = a) ∨
      ((name = "verbose" ∨ name ∈ u.flags) ∧ waiting = none ∧ a.addFlag name = some b) := by
  -- flags are no options, and none of them asks for help
  have hflag : name = "verbose" ∨ name ∈ u.flags → name ∉ u.options ∧ name ≠ "help" := by
    rintro (rfl | h)
    · exact ⟨fun h => (hu.options _ h).2.2 rfl, by decide⟩
    · obtain ⟨-, -, hhelp, hoption⟩ := hu.flags _ h
      exact ⟨hoption, hhelp⟩
  unfold ofName
  simp only [List.contains_iff_mem, Option.isSome_none, Bool.false_eq_true, if_false, verboseFlag]
  split_ifs with hoption hhelp hname
  · constructor
    · intro h
      cases waiting <;> cases h
      exact Or.inl ⟨hoption, rfl, rfl⟩
    · rintro (⟨-, rfl, rfl⟩ | ⟨h, -⟩)
      · rfl
      · exact absurd hoption (hflag h).1
  · constructor
    · intro h
      cases waiting <;> cases h
    · rintro (⟨h, -⟩ | ⟨h, -⟩)
      · exact absurd h hoption
      · exact absurd hhelp (hflag h).2
  · rw [ofArguments_eq]
    constructor
    · exact fun h => Or.inr ⟨hname, h⟩
    · rintro (⟨h, -⟩ | ⟨-, h⟩)
      · exact absurd h hoption
      · exact h
  · constructor
    · intro h
      cases h
    · rintro (⟨h, -⟩ | ⟨h, -⟩)
      · exact absurd h hoption
      · exact absurd h hname

theorem ofName_some : ofName u a name (some value) = some (after b waiting) ↔
    name ∈ u.options ∧ waiting = none ∧ a.addOption name value = some b := by
  unfold ofName
  simp only [List.contains_iff_mem, Option.isSome_some, if_true]
  split_ifs with hoption
  · rw [ofArguments_eq]
    exact ⟨fun h => ⟨hoption, h⟩, fun h => h.2⟩
  · constructor
    · intro h
      cases h
    · exact fun h => absurd h.1 hoption

/-- **What an argument gives.** -/
theorem ofArgument_iff (hu : u.Plain) : ofArgument u a argument = some (after b waiting) ↔
    ∃ ps, Says u argument ps waiting ∧ a.addAll u ps = some b := by
  constructor
  · intro h
    rcases argument_cases argument with
      ⟨name, hname, rfl⟩ | ⟨name, value, hname, rfl⟩ | ⟨letter, letters, hdash, rfl⟩ | hoperand
    · rw [ofArgument_name hname, ofName_none hu] at h
      rcases h with ⟨hoption, rfl, rfl⟩ | ⟨hflag, rfl, h⟩
      · exact ⟨[], .option hoption, rfl⟩
      · exact ⟨_, .flag hflag, Arguments.addAll_single.2 h⟩
    · rw [ofArgument_value hname, ofName_some] at h
      obtain ⟨hoption, rfl, h⟩ := h
      exact ⟨_, .assigned hoption, Arguments.addAll_single.2 h⟩
    · rw [ofArgument_letters hdash, ofLetters_iff hu] at h
      obtain ⟨ps, hps, hadd⟩ := h
      exact ⟨ps, .letters hdash hps, hadd⟩
    · rw [ofArgument_operand hoperand, ofArguments_eq] at h
      obtain ⟨rfl, h⟩ := h
      exact ⟨_, .operand hoperand, Arguments.addAll_single.2 h⟩
  · rintro ⟨ps, h, hadd⟩
    cases h with
    | operand h =>
      rw [ofArgument_operand h, ofArguments_eq]
      exact ⟨rfl, Arguments.addAll_single.1 hadd⟩
    | letters hdash h =>
      rw [ofArgument_letters hdash, ofLetters_iff hu]
      exact ⟨_, h, hadd⟩
    | flag h =>
      have hname : '=' ∉ _ := (hu.name_of_flag h).2
      rw [ofArgument_name hname, ofName_none hu]
      exact Or.inr ⟨h, rfl, Arguments.addAll_single.1 hadd⟩
    | option h =>
      rw [ofArgument_name (hu.options _ h).2.1, ofName_none hu]
      exact Or.inl ⟨h, rfl, Arguments.addAll_nil.1 hadd⟩
    | assigned h =>
      rw [ofArgument_value (hu.options _ h).2.1, ofName_some]
      exact ⟨h, rfl, Arguments.addAll_single.1 hadd⟩

end Taken

/-! ## All arguments -/

theorem Says.ne_end (hu : u.Plain) (h : Says u argument ps waiting) : argument ≠ "--" := by
  cases h with
  | operand h =>
    rintro rfl
    exact h.toList_ne '-' [] rfl
  | flag h =>
    intro heq
    have hname := congrArg String.toList heq
    simp [(hu.name_of_flag h).1] at hname
  | option h =>
    intro heq
    have hname := congrArg String.toList heq
    simp [(hu.options _ h).1] at hname
  | assigned h =>
    intro heq
    have hname := congrArg String.toList heq
    simp at hname
  | letters hdash h =>
    intro heq
    have hname := congrArg String.toList heq
    simp [hdash] at hname

theorem isValue_iff : Arguments.isValue argument = true ↔ IsOperand argument := by
  rw [Arguments.isValue, Bool.or_eq_true, decide_eq_true_eq, decide_eq_true_eq]
  rfl

namespace Arguments

theorem addAll_operands {operands : List String} : a.addAll u (operands.map .operand) =
    operands.foldlM (fun a operand => a.addOperand u operand) a := by
  rw [addAll, List.foldlM_map]
  rfl

theorem parse_waiting : parse u (some name) a (argument :: rest) = some (some b) ↔
    IsOperand argument ∧ ∃ c, a.addOption name argument = some c ∧ parse u none c rest = some (some b) := by
  rw [← isValue_iff, ← Option.bind_eq_some_iff, parse]
  split_ifs with hvalue
  · exact ⟨fun h => ⟨hvalue, h⟩, fun h => h.2⟩
  · constructor
    · intro h
      cases h
    · exact fun h => absurd h.1 hvalue

theorem parse_end : parse u none a ("--" :: rest) = some (some b) ↔
    a.addAll u (rest.map .operand) = some b ∧ b.complete u = true := by
  rw [parse, if_pos rfl, ← addAll_operands]
  cases a.addAll u (rest.map .operand) with
  | none => simp
  | some c =>
    simp only [Option.some_inj]
    split_ifs with hcomplete
    · rw [Option.some_inj, Option.some_inj]
      constructor
      · rintro rfl
        exact ⟨rfl, hcomplete⟩
      · exact fun h => h.1
    · constructor
      · intro h
        cases h
      · rintro ⟨rfl, h⟩
        exact absurd h hcomplete

/-- An argument, and what follows it. -/
theorem parse_argument (hend : argument ≠ "--") : parse u none a (argument :: rest) = some (some b) ↔
    ∃ c waiting, Taken.ofArgument u a argument = some (Taken.after c waiting) ∧
      parse u waiting c rest = some (some b) := by
  rw [parse, if_neg hend]
  cases Taken.ofArgument u a argument with
  | none => simp
  | some taken =>
    cases taken with
    | help =>
      simp only [Option.some_inj]
      constructor
      · intro h
        cases h
      · rintro ⟨c, waiting, h, -⟩
        cases waiting <;> cases h
    | more c =>
      constructor
      · exact fun h => ⟨c, none, rfl, h⟩
      · rintro ⟨c', waiting, h, hrest⟩
        cases waiting <;> cases h
        exact hrest
    | pending name c =>
      constructor
      · exact fun h => ⟨c, some name, rfl, h⟩
      · rintro ⟨c', waiting, h, hrest⟩
        cases waiting <;> cases h
        exact hrest

/-- **What arguments give.** -/
theorem parse_iff (hu : u.Plain) {arguments : List String} : parse u waiting a arguments = some (some b) ↔
    ∃ ps, Spells u waiting arguments ps ∧ a.addAll u ps = some b ∧ b.complete u = true := by
  induction arguments generalizing waiting a with
  | nil =>
    rw [parse]
    constructor
    · intro h
      split_ifs at h with hdone
      cases h
      rw [Option.isNone_iff_eq_none] at hdone
      obtain ⟨rfl, hcomplete⟩ := hdone
      exact ⟨[], .done, rfl, hcomplete⟩
    · rintro ⟨ps, h, hadd, hcomplete⟩
      cases h
      rw [addAll_nil.1 hadd] at hcomplete ⊢
      rw [if_pos ⟨rfl, hcomplete⟩]
  | cons argument rest ih =>
    cases waiting with
    | some name =>
      rw [parse_waiting]
      constructor
      · rintro ⟨hvalue, c, hc, h⟩
        obtain ⟨ps, hps, hadd, hcomplete⟩ := ih.1 h
        exact ⟨_, .value hvalue hps, addAll_cons.2 ⟨c, hc, hadd⟩, hcomplete⟩
      · rintro ⟨ps, h, hadd, hcomplete⟩
        cases h with
        | value hvalue hps =>
          obtain ⟨c, hc, hadd⟩ := addAll_cons.1 hadd
          exact ⟨hvalue, c, hc, ih.2 ⟨_, hps, hadd, hcomplete⟩⟩
    | none =>
      constructor
      · intro h
        by_cases hend : argument = "--"
        · subst hend
          obtain ⟨hadd, hcomplete⟩ := parse_end.1 h
          exact ⟨_, .ended rest, hadd, hcomplete⟩
        · obtain ⟨c, waiting, htaken, h⟩ := (parse_argument hend).1 h
          obtain ⟨ps, hps, hadd⟩ := (Taken.ofArgument_iff hu).1 htaken
          obtain ⟨qs, hqs, hadd', hcomplete⟩ := ih.1 h
          exact ⟨_, .argument hps hqs, addAll_append.2 ⟨c, hadd, hadd'⟩, hcomplete⟩
      · rintro ⟨ps, h, hadd, hcomplete⟩
        cases h with
        | argument hps hqs =>
          obtain ⟨c, hadd, hadd'⟩ := addAll_append.1 hadd
          refine (parse_argument (hps.ne_end hu)).2 ⟨c, _, (Taken.ofArgument_iff hu).2 ⟨_, hps, hadd⟩, ?_⟩
          exact ih.2 ⟨_, hqs, hadd', hcomplete⟩
        | ended => exact parse_end.2 ⟨hadd, hcomplete⟩

/-- Arguments are those of a command just when they give all that it needs. -/
theorem parse_collect (hu : u.Plain) {arguments : List String} : parse u none {} arguments = some (some b) ↔
    ∃ ps, Spells u none arguments ps ∧ u.Fits ps ∧ b = collect ps := by
  rw [parse_iff hu]
  simp only [addAll_complete]

end Arguments

end DepGraph
