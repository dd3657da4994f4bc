import DepGraph.Proofs.CommandLine.Arguments

/-!
# Commands as they are read

* `Request.parse_command_iff`: arguments are read as a command just when they ask for it.
* `Request.parse_writers`: so each command that writes a file reads the one path and writes the other.
-/

namespace DepGraph

variable {u : Usage} {argument name : String} {ps : List Piece} {rest arguments : List String} {c : Command}
  {build : Arguments → Command}

/-! ## What commands take -/

theorem mem_table (h : Command.table.lookup name = some (u, build)) : (name, u, build) ∈ Command.table := by
  obtain ⟨before, after, htable, -⟩ := List.lookup_eq_some_iff.1 h
  rw [htable]
  exact List.mem_append_right _ List.mem_cons_self

theorem plain_usage (h : Command.table.lookup name = some (u, build)) : u.Plain := by
  have hmem := mem_table h
  simp only [Command.table, List.mem_cons, Prod.mk.injEq, List.not_mem_nil, or_false] at hmem
  rcases hmem with ⟨-, rfl, -⟩ | ⟨-, rfl, -⟩ | ⟨-, rfl, -⟩ | ⟨-, rfl, -⟩ | ⟨-, rfl, -⟩ | ⟨-, rfl, -⟩ |
    ⟨-, rfl, -⟩ <;> exact ⟨by decide, by decide⟩

namespace Command

open Arguments

/-- What a command takes is what the table makes of the pieces. -/
theorem Takes.lookup (h : c.Takes ps name u) (honce : Piece.Once ps) :
    ∃ build, table.lookup name = some (u, build) ∧ c = build (collect ps) := by
  cases h with
  | build hinput houtput =>
    refine ⟨_, rfl, ?_⟩
    rw [operand_collect hinput, option_collect honce houtput, contains_collect]
    rfl
  | toYaml hinput houtput =>
    refine ⟨_, rfl, ?_⟩
    rw [option_collect honce hinput, option_collect honce houtput]
  | fromYaml hinput houtput =>
    refine ⟨_, rfl, ?_⟩
    rw [option_collect honce hinput, option_collect honce houtput]
  | dump hinput =>
    refine ⟨_, rfl, ?_⟩
    rw [operand_collect hinput]
    rfl
  | dot hinput houtput =>
    refine ⟨_, rfl, ?_⟩
    rw [operand_collect hinput, option_collect honce houtput, contains_collect, contains_collect, decide_not,
      decide_not]
    rfl
  | verify hinput =>
    refine ⟨_, rfl, ?_⟩
    rw [operand_collect hinput]
    rfl
  | diff hinput =>
    refine ⟨_, rfl, ?_⟩
    rw [operand_collect hinput, operand_collect hinput, contains_collect]
    rfl

/-- No command looks like an option, or like a request for help. -/
theorem Takes.isOperand (h : c.Takes ps name u) : IsOperand name ∧ name ≠ "help" := by
  unfold IsOperand
  cases h <;> decide

/-- A command that is given all that it needs can take it. -/
theorem exists_takes (h : table.lookup name = some (u, build)) (hfits : u.Fits ps) :
    ∃ c : Command, c.Takes ps name u := by
  have hmem := mem_table h
  simp only [table, List.mem_cons, Prod.mk.injEq, List.not_mem_nil, or_false] at hmem
  rcases hmem with ⟨rfl, rfl, -⟩ | ⟨rfl, rfl, -⟩ | ⟨rfl, rfl, -⟩ | ⟨rfl, rfl, -⟩ | ⟨rfl, rfl, -⟩ |
    ⟨rfl, rfl, -⟩ | ⟨rfl, rfl, -⟩
  · obtain ⟨manifest, hinput⟩ := List.length_eq_one_iff.1 hfits.operands
    obtain ⟨output, houtput⟩ := hfits.options "output" (by simp)
    exact ⟨_, .build hinput houtput⟩
  · obtain ⟨input, hinput⟩ := hfits.options "input-filename" (by simp)
    obtain ⟨output, houtput⟩ := hfits.options "output-filename" (by simp)
    exact ⟨_, .toYaml hinput houtput⟩
  · obtain ⟨input, hinput⟩ := hfits.options "input-filename" (by simp)
    obtain ⟨output, houtput⟩ := hfits.options "output-filename" (by simp)
    exact ⟨_, .fromYaml hinput houtput⟩
  · obtain ⟨deps, hinput⟩ := List.length_eq_one_iff.1 hfits.operands
    exact ⟨_, .dump hinput⟩
  · obtain ⟨deps, hinput⟩ := List.length_eq_one_iff.1 hfits.operands
    obtain ⟨output, houtput⟩ := hfits.options "output" (by simp)
    exact ⟨_, .dot hinput houtput⟩
  · obtain ⟨deps, hinput⟩ := List.length_eq_one_iff.1 hfits.operands
    exact ⟨_, .verify hinput⟩
  · obtain ⟨old, new, hinput⟩ := List.length_eq_two.1 hfits.operands
    exact ⟨_, .diff hinput⟩

end Command

/-! ## What requests ask for -/

namespace Request

theorem parseCommand_eq : parseCommand name arguments = some (.command c) ↔
    ∃ u build b, Command.table.lookup name = some (u, build) ∧
      Arguments.parse u none {} arguments = some (some b) ∧ c = build b := by
  unfold parseCommand
  cases Command.table.lookup name with
  | none => simp
  | some entry =>
    obtain ⟨u, build⟩ := entry
    change (Arguments.parse u none {} arguments >>= _) = _ ↔ _
    cases hparse : Arguments.parse u none {} arguments with
    | none => simp [hparse]
    | some parsed =>
      cases parsed with
      | none => simp [hparse]
      | some b => simp [hparse, eq_comm]

theorem parseCommand_iff : parseCommand name arguments = some (.command c) ↔ Asks (name :: arguments) c := by
  rw [parseCommand_eq]
  constructor
  · rintro ⟨u, build, b, hname, hparse, rfl⟩
    obtain ⟨ps, hps, hfits, rfl⟩ := (Arguments.parse_collect (plain_usage hname)).1 hparse
    obtain ⟨c, hc⟩ := Command.exists_takes hname hfits
    obtain ⟨build', hname', rfl⟩ := hc.lookup hfits.once
    rw [hname] at hname'
    cases hname'
    exact .command hps hfits hc
  · rintro ⟨hps, hfits, hc⟩
    obtain ⟨build, hname, rfl⟩ := hc.lookup hfits.once
    exact ⟨_, build, _, hname, (Arguments.parse_collect (plain_usage hname)).2 ⟨_, hps, hfits, rfl⟩, rfl⟩

theorem parseHelp_ne : parseHelp arguments ≠ some (.command c) := by
  unfold parseHelp
  split
  · simp
  · split_ifs <;> simp
  · simp

theorem parseLetters_ne {verbose : Bool} {letters : List Char} :
    parseLetters verbose letters ≠ some (.inl (.command c)) := by
  induction letters generalizing verbose with
  | nil => simp [parseLetters]
  | cons letter letters ih =>
    rw [parseLetters]
    split_ifs
    · simp
    · simp
    · exact ih
    · simp

/-- Verbosity is asked for once. -/
theorem parseLetters_verbose {verbose more : Bool} {letter : Char} {letters : List Char}
    (h : parseLetters verbose (letter :: letters) = some (.inr more)) :
    verbose = false ∧ more = true ∧ letter = 'v' ∧ letters = [] := by
  rw [parseLetters] at h
  split_ifs at h with hhelp hversion hverbose
  · simp at h
  · simp at h
  · obtain ⟨rfl, rfl⟩ := hverbose
    cases letters with
    | nil =>
      cases h
      exact ⟨rfl, rfl, rfl, rfl⟩
    | cons letter letters =>
      rw [parseLetters] at h
      split_ifs at h with hhelp' hversion' hagain
      · simp at h
      · simp at h
      · cases hagain.2

theorem parseFrom_operand {verbose : Bool} (h : IsOperand argument) (hhelp : argument ≠ "help") :
    parseFrom verbose (argument :: rest) = parseCommand argument rest := by
  rw [parseFrom]
  split
  · rename_i heq
    exact absurd heq (h.toList_ne _ _)
  · rename_i heq
    exact absurd heq (h.toList_ne _ _)
  · rw [if_neg hhelp]

/-- A command comes first, or verbosity is asked for before it. -/
theorem parseFrom_cases {verbose : Bool} (h : parseFrom verbose (argument :: rest) = some (.command c)) :
    Asks (argument :: rest) c ∨ verbose = false ∧ (argument = "-v" ∨ argument = "--verbose") ∧
      parseFrom true rest = some (.command c) := by
  have hargument : argument = String.ofList argument.toList := String.ofList_toList.symm
  rw [parseFrom] at h
  split at h
  · rename_i long heq
    rw [heq] at hargument
    simp only at h
    split_ifs at h with hhelp hversion hverbose
    · cases h
    · cases h
    · refine Or.inr ⟨hverbose.2, Or.inr ?_, h⟩
      rw [hargument, ← String.toList_ofList (l := long), hverbose.1]
      rfl
  · rename_i letter letters _ heq
    rw [heq] at hargument
    cases hletters : parseLetters verbose (letter :: letters) with
    | none =>
      rw [hletters] at h
      cases h
    | some result =>
      rw [hletters] at h
      cases result with
      | inl request =>
        cases h
        exact absurd hletters parseLetters_ne
      | inr more =>
        obtain ⟨rfl, rfl, rfl, rfl⟩ := parseLetters_verbose hletters
        exact Or.inr ⟨rfl, Or.inl hargument, h⟩
  · split_ifs at h with hhelp
    · exact absurd h parseHelp_ne
    · exact Or.inl (parseCommand_iff.1 h)

theorem parseFrom_of_asks {verbose : Bool} (h : Asks arguments c) :
    parseFrom verbose arguments = some (.command c) := by
  obtain ⟨hps, hfits, htakes⟩ := h
  have hname : IsOperand _ ∧ _ ≠ "help" := htakes.isOperand
  rw [parseFrom_operand hname.1 hname.2, parseCommand_iff]
  exact .command hps hfits htakes

/-- **Arguments are read as a command just when they ask for it**, perhaps with a wish for verbosity first. -/
theorem parse_command_iff : parse arguments = some (.command c) ↔
    Asks arguments c ∨ ∃ rest, (arguments = "-v" :: rest ∨ arguments = "--verbose" :: rest) ∧ Asks rest c := by
  have hverbose : ∀ {arguments}, parseFrom true arguments = some (.command c) → Asks arguments c := by
    intro arguments h
    cases arguments with
    | nil => cases h
    | cons argument rest =>
      rcases parseFrom_cases h with h | ⟨h, -⟩
      · exact h
      · cases h
  constructor
  · intro h
    cases arguments with
    | nil => cases h
    | cons argument rest =>
      rcases parseFrom_cases h with h | ⟨-, rfl | rfl, h⟩
      · exact Or.inl h
      · exact Or.inr ⟨rest, Or.inl rfl, hverbose h⟩
      · exact Or.inr ⟨rest, Or.inr rfl, hverbose h⟩
  · rintro (h | ⟨rest, rfl | rfl, h⟩)
    · exact parseFrom_of_asks h
    · exact (parseFrom_of_asks h : parseFrom true rest = _)
    · exact (parseFrom_of_asks h : parseFrom true rest = _)

/-- An operand, and an output behind its letter. -/
theorem spells_output {input output : String} (hu : "output" ∈ u.options) (hinput : IsOperand input)
    (houtput : IsOperand output) :
    Spells u none [input, "-o", output] [.operand input, .option "output" output] :=
  .argument (.operand hinput) (.argument (.letters (by decide) (.output hu)) (.value houtput .done))

/-- An input and an output, each behind the name of its option. -/
theorem spells_filenames {input output : String}
    (hu : "input-filename" ∈ u.options ∧ "output-filename" ∈ u.options) (hinput : IsOperand input)
    (houtput : IsOperand output) :
    Spells u none ["--input-filename", input, "--output-filename", output]
      [.option "input-filename" input, .option "output-filename" output] := by
  have hin : Says u "--input-filename" [] (some "input-filename") := .option hu.1
  have hout : Says u "--output-filename" [] (some "output-filename") := .option hu.2
  exact .argument hin (.value hinput (.argument hout (.value houtput .done)))

/-- **Which path is the input and which the output** of a command that writes a file. -/
theorem parse_writers {input output : String} (hinput : IsOperand input ∧ input ≠ "")
    (houtput : IsOperand output ∧ output ≠ "") :
    parse ["build", input, "-o", output] = some (.command (.build input output false)) ∧
    parse ["to-yaml", "--input-filename", input, "--output-filename", output] =
      some (.command (.toYaml input output)) ∧
    parse ["from-yaml", "--input-filename", input, "--output-filename", output] =
      some (.command (.fromYaml input output)) ∧
    parse ["dot", input, "-o", output] = some (.command (.dot input output ⟨true, true⟩)) := by
  have honce : Piece.Once [.operand input, .option "output" output] := by
    simp [Piece.once_iff, Piece.operands, Piece.options, Piece.flags, hinput.2.symm, houtput.2.symm]
  have honce' : Piece.Once [.option "input-filename" input, .option "output-filename" output] := by
    simp [Piece.once_iff, Piece.operands, Piece.options, Piece.flags, hinput.2.symm, houtput.2.symm]
  refine ⟨?_, ?_, ?_, ?_⟩
  · refine parse_command_iff.2 (Or.inl (.command (spells_output (by simp) hinput.1 houtput.1) ⟨honce, rfl, ?_⟩
      (.build rfl (by simp))))
    simp
  · refine parse_command_iff.2 (Or.inl (.command (spells_filenames (by simp) hinput.1 houtput.1)
      ⟨honce', rfl, ?_⟩ (.toYaml (by simp) (by simp))))
    simp
  · refine parse_command_iff.2 (Or.inl (.command (spells_filenames (by simp) hinput.1 houtput.1)
      ⟨honce', rfl, ?_⟩ (.fromYaml (by simp) (by simp))))
    simp
  · refine parse_command_iff.2 (Or.inl (.command (spells_output (by simp) hinput.1 houtput.1) ⟨honce, rfl, ?_⟩
      (.dot rfl (by simp))))
    simp

end Request

end DepGraph
