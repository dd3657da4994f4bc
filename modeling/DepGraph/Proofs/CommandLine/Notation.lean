import DepGraph.CommandLine
import Mathlib.Data.List.Induction
import Mathlib.Data.List.Nodup
import Mathlib.Tactic.Common

/-!
# The notation of the command line

Which operands, options and flags arguments stand for (`Says`, `Spells`), and what a command takes from them
(`Command.Takes`, `Asks`). A value can stand behind its option or be attached to it; `--` ends the options.

Pieces can be added one by one as long as nothing is empty or there twice, and come to what was given
(`Arguments.addAll_complete`).
-/

namespace DepGraph

/-! ## The notation -/

/-- One thing that arguments give to a command. -/
inductive Piece where
  | operand (value : String)
  | option (name value : String)
  | flag (name : String)
  deriving DecidableEq

namespace Piece

def operands (ps : List Piece) : List String :=
  ps.filterMap fun
    | operand value => some value
    | _ => none

def options (ps : List Piece) : List (String × String) :=
  ps.filterMap fun
    | option name value => some (name, value)
    | _ => none

def flags (ps : List Piece) : List String :=
  ps.filterMap fun
    | flag name => some name
    | _ => none

end Piece

/-- An argument that is no option: it starts with no dash, or is nothing else. -/
def IsOperand (argument : String) : Prop := argument = "-" ∨ argument.toList.head? ≠ some '-'

/-- What letters behind a dash give, and the option that waits for its value, if one does. -/
inductive Letters (u : Usage) : List Char → List Piece → Option String → Prop
  | done : Letters u [] [] none
  | verbose {letters : List Char} {ps : List Piece} {waiting : Option String}
      (h : Letters u letters ps waiting) : Letters u ('v' :: letters) (.flag "verbose" :: ps) waiting
  | output (hu : "output" ∈ u.options) : Letters u ['o'] [] (some "output")
  | attached {value : List Char} (hu : "output" ∈ u.options) (hne : value ≠ []) (h : value.head? ≠ some '=') :
      Letters u ('o' :: value) [.option "output" (String.ofList value)] none
  | assigned {value : List Char} (hu : "output" ∈ u.options) :
      Letters u ('o' :: '=' :: value) [.option "output" (String.ofList value)] none

/-- What an argument gives, and the option that waits for its value, if one does. -/
inductive Says (u : Usage) : String → List Piece → Option String → Prop
  | operand {argument : String} (h : IsOperand argument) : Says u argument [.operand argument] none
  | flag {name : String} (h : name = "verbose" ∨ name ∈ u.flags) : Says u ("--" ++ name) [.flag name] none
  | option {name : String} (h : name ∈ u.options) : Says u ("--" ++ name) [] (some name)
  | assigned {name value : String} (h : name ∈ u.options) :
      Says u ("--" ++ name ++ "=" ++ value) [.option name value] none
  | letters {letter : Char} {letters : List Char} {ps : List Piece} {waiting : Option String}
      (hdash : letter ≠ '-') (h : Letters u (letter :: letters) ps waiting) :
      Says u (String.ofList ('-' :: letter :: letters)) ps waiting

/-- What arguments give when an option may be waiting for its value. -/
inductive Spells (u : Usage) : Option String → List String → List Piece → Prop
  | done : Spells u none [] []
  | value {name value : String} {rest : List String} {ps : List Piece} (hvalue : IsOperand value)
      (h : Spells u none rest ps) : Spells u (some name) (value :: rest) (.option name value :: ps)
  | argument {argument : String} {rest : List String} {ps qs : List Piece} {waiting : Option String}
      (h : Says u argument ps waiting) (hrest : Spells u waiting rest qs) :
      Spells u none (argument :: rest) (ps ++ qs)
  | ended (operands : List String) : Spells u none ("--" :: operands) (operands.map .operand)

/-- Nothing is empty, and no option or flag is there twice. -/
@[mk_iff]
structure Piece.Once (ps : List Piece) : Prop where
  operands : "" ∉ operands ps
  values : "" ∉ (options ps).map Prod.snd
  options : ((options ps).map Prod.fst).Nodup
  flags : (flags ps).Nodup

/-- **What a command needs**: all of its operands and options. -/
structure Usage.Fits (u : Usage) (ps : List Piece) : Prop where
  once : Piece.Once ps
  operands : (Piece.operands ps).length = u.operands
  options : ∀ name ∈ u.options, ∃ value, Piece.option name value ∈ ps

/-- **What a command takes from its arguments**, its input and its output above all. -/
inductive Command.Takes (ps : List Piece) : String → Usage → Command → Prop
  | build {manifest output : String} (hinput : Piece.operands ps = [manifest])
      (houtput : .option "output" output ∈ ps) : Takes ps "build" ⟨1, ["output"], ["emit-dot"]⟩
        (.build manifest output (decide (.flag "emit-dot" ∈ ps)))
  | toYaml {input output : String} (hinput : .option "input-filename" input ∈ ps)
      (houtput : .option "output-filename" output ∈ ps) :
      Takes ps "to-yaml" ⟨0, ["input-filename", "output-filename"], []⟩ (.toYaml input output)
  | fromYaml {input output : String} (hinput : .option "input-filename" input ∈ ps)
      (houtput : .option "output-filename" output ∈ ps) :
      Takes ps "from-yaml" ⟨0, ["input-filename", "output-filename"], []⟩ (.fromYaml input output)
  | dump {deps : String} (hinput : Piece.operands ps = [deps]) : Takes ps "dump" ⟨1, [], []⟩ (.dump deps)
  | dot {deps output : String} (hinput : Piece.operands ps = [deps])
      (houtput : .option "output" output ∈ ps) :
      Takes ps "dot" ⟨1, ["output"], ["no-externals", "no-implementations"]⟩ (.dot deps output
        ⟨decide (.flag "no-externals" ∉ ps), decide (.flag "no-implementations" ∉ ps)⟩)
  | verify {deps : String} (hinput : Piece.operands ps = [deps]) : Takes ps "verify" ⟨1, [], []⟩ (.verify deps)
  | diff {old new : String} (hinput : Piece.operands ps = [old, new]) :
      Takes ps "diff" ⟨2, [], ["check"]⟩ (.diff old new (decide (.flag "check" ∈ ps)))

/-- **What arguments ask for**: a command by its name, with all that it needs. -/
inductive Asks : List String → Command → Prop
  | command {name : String} {arguments : List String} {u : Usage} {ps : List Piece} {c : Command}
      (hspells : Spells u none arguments ps) (hfits : u.Fits ps) (htakes : c.Takes ps name u) :
      Asks (name :: arguments) c

variable {u : Usage} {a b : Arguments} {name value : String} {ps qs : List Piece}

/-! ## Pieces -/

namespace Piece

@[simp] theorem operands_append : operands (ps ++ qs) = operands ps ++ operands qs := List.filterMap_append

@[simp] theorem options_append : options (ps ++ qs) = options ps ++ options qs := List.filterMap_append

@[simp] theorem flags_append : flags (ps ++ qs) = flags ps ++ flags qs := List.filterMap_append

theorem mem_options : (name, value) ∈ options ps ↔ option name value ∈ ps := by
  rw [options, List.mem_filterMap]
  constructor
  · rintro ⟨p, hp, h⟩
    cases p <;> cases h
    exact hp
  · intro h
    exact ⟨_, h, rfl⟩

theorem mem_flags : name ∈ flags ps ↔ flag name ∈ ps := by
  rw [flags, List.mem_filterMap]
  constructor
  · rintro ⟨p, hp, h⟩
    cases p <;> cases h
    exact hp
  · intro h
    exact ⟨_, h, rfl⟩

theorem once_nil : Once [] := ⟨List.not_mem_nil, List.not_mem_nil, List.nodup_nil, List.nodup_nil⟩

theorem once_operand : Once (ps ++ [operand value]) ↔ Once ps ∧ value ≠ "" := by
  have hoperands : operands [operand value] = [value] := rfl
  have hoptions : options [operand value] = [] := rfl
  have hflags : flags [operand value] = [] := rfl
  simp only [once_iff, operands_append, options_append, flags_append, hoperands, hoptions, hflags,
    List.append_nil, List.mem_append, List.mem_singleton]
  tauto

theorem once_option : Once (ps ++ [option name value]) ↔
    Once ps ∧ value ≠ "" ∧ name ∉ (options ps).map Prod.fst := by
  have hoperands : operands [option name value] = [] := rfl
  have hoptions : options [option name value] = [(name, value)] := rfl
  have hflags : flags [option name value] = [] := rfl
  simp only [once_iff, operands_append, options_append, flags_append, hoperands, hoptions, hflags,
    List.append_nil, List.map_append, List.map_cons, List.map_nil, List.mem_append, List.mem_singleton,
    List.nodup_middle, List.nodup_cons]
  tauto

theorem once_flag : Once (ps ++ [flag name]) ↔ Once ps ∧ name ∉ flags ps := by
  have hoperands : operands [flag name] = [] := rfl
  have hoptions : options [flag name] = [] := rfl
  have hflags : flags [flag name] = [name] := rfl
  simp only [once_iff, operands_append, options_append, flags_append, hoperands, hoptions, hflags,
    List.append_nil, List.nodup_middle, List.nodup_cons]
  tauto

end Piece

/-! ## Adding pieces -/

namespace Arguments

/-- Adds a piece. -/
def add (u : Usage) (a : Arguments) : Piece → Option Arguments
  | .operand value => a.addOperand u value
  | .option name value => a.addOption name value
  | .flag name => a.addFlag name

/-- Adds pieces one by one. -/
def addAll (u : Usage) (a : Arguments) (ps : List Piece) : Option Arguments := ps.foldlM (add u) a

/-- All pieces together, the last option and the last flag first. -/
def collect (ps : List Piece) : Arguments :=
  ⟨Piece.operands ps, (Piece.options ps).reverse, (Piece.flags ps).reverse⟩

theorem addAll_nil : a.addAll u [] = some b ↔ b = a := by
  rw [addAll, List.foldlM_nil]
  exact Option.some_inj.trans eq_comm

theorem addAll_append :
    a.addAll u (ps ++ qs) = some b ↔ ∃ c, a.addAll u ps = some c ∧ c.addAll u qs = some b := by
  rw [addAll, List.foldlM_append]
  exact Option.bind_eq_some_iff

theorem addAll_single {p : Piece} : a.addAll u [p] = some b ↔ a.add u p = some b := by
  simp [addAll]

theorem addAll_cons {p : Piece} :
    a.addAll u (p :: ps) = some b ↔ ∃ c, a.add u p = some c ∧ c.addAll u ps = some b := by
  rw [← List.singleton_append, addAll_append]
  simp only [addAll_single]

theorem lookup_collect (h : Piece.Once ps) :
    (collect ps).options.lookup name = some value ↔ Piece.option name value ∈ ps := by
  change (Piece.options ps).reverse.lookup name = some value ↔ _
  rw [← Piece.mem_options, ← List.mem_reverse, List.lookup_eq_some_iff]
  constructor
  · rintro ⟨before, after, heq, -⟩
    rw [heq]
    exact List.mem_append_right _ List.mem_cons_self
  · intro hmem
    obtain ⟨before, after, heq⟩ := List.append_of_mem hmem
    refine ⟨before, after, heq, ?_⟩
    -- the name stands nowhere else
    have hnodup := List.nodup_reverse.2 h.options
    rw [← List.map_reverse, heq, List.map_append, List.map_cons, List.nodup_middle, List.nodup_cons,
      List.mem_append, not_or] at hnodup
    intro p hp
    rw [bne_iff_ne]
    intro hname
    exact hnodup.1.1 (List.mem_map.2 ⟨p, hp, hname.symm⟩)

theorem lookup_collect_none :
    (collect ps).options.lookup name = none ↔ name ∉ (Piece.options ps).map Prod.fst := by
  change (Piece.options ps).reverse.lookup name = none ↔ _
  simp only [List.lookup_eq_none_iff, List.mem_reverse, bne_iff_ne, List.mem_map, not_exists, not_and]
  exact ⟨fun h p hp heq => h p hp heq.symm, fun h p hp heq => h p hp heq.symm⟩

/-- One piece more. -/
theorem add_collect {p : Piece} :
    (Piece.Once ps ∧ (Piece.operands ps).length ≤ u.operands) ∧ (collect ps).add u p = some b ↔
      Piece.Once (ps ++ [p]) ∧ (Piece.operands (ps ++ [p])).length ≤ u.operands ∧ b = collect (ps ++ [p]) := by
  cases p with
  | operand value =>
    have hcollect : collect (ps ++ [.operand value]) =
        { collect ps with operands := Piece.operands ps ++ [value] } := by
      simp [collect, Piece.operands, Piece.options, Piece.flags]
    have hlength : (Piece.operands (ps ++ [.operand value])).length = (Piece.operands ps).length + 1 := by
      simp [Piece.operands]
    have hadd : (collect ps).add u (.operand value) = some b ↔
        (value ≠ "" ∧ (Piece.operands ps).length < u.operands) ∧ b = collect (ps ++ [.operand value]) := by
      rw [hcollect, add, addOperand, Option.ite_none_left_eq_some, not_or, Nat.not_le, Option.some_inj]
      exact and_congr_right fun _ => eq_comm
    rw [hadd, Piece.once_operand, hlength]
    constructor
    · rintro ⟨⟨honce, -⟩, ⟨hne, hlt⟩, hb⟩
      exact ⟨⟨honce, hne⟩, hlt, hb⟩
    · rintro ⟨⟨honce, hne⟩, hlt, hb⟩
      exact ⟨⟨honce, by omega⟩, ⟨hne, hlt⟩, hb⟩
  | option name value =>
    have hcollect : collect (ps ++ [.option name value]) =
        { collect ps with options := (name, value) :: (Piece.options ps).reverse } := by
      simp [collect, Piece.operands, Piece.options, Piece.flags]
    have hlength : (Piece.operands (ps ++ [.option name value])).length = (Piece.operands ps).length := by
      simp [Piece.operands]
    have hadd : (collect ps).add u (.option name value) = some b ↔
        (value ≠ "" ∧ name ∉ (Piece.options ps).map Prod.fst) ∧ b = collect (ps ++ [.option name value]) := by
      rw [hcollect, add, addOption, Option.ite_none_left_eq_some, not_or, Bool.not_eq_true,
        Option.isSome_eq_false_iff, Option.isNone_iff_eq_none, lookup_collect_none, Option.some_inj]
      exact and_congr_right fun _ => eq_comm
    rw [hadd, Piece.once_option, hlength]
    tauto
  | flag name =>
    have hcollect : collect (ps ++ [.flag name]) =
        { collect ps with flags := name :: (Piece.flags ps).reverse } := by
      simp [collect, Piece.operands, Piece.options, Piece.flags]
    have hlength : (Piece.operands (ps ++ [.flag name])).length = (Piece.operands ps).length := by
      simp [Piece.operands]
    have hadd : (collect ps).add u (.flag name) = some b ↔
        name ∉ Piece.flags ps ∧ b = collect (ps ++ [.flag name]) := by
      have hmem : name ∈ (collect ps).flags ↔ name ∈ Piece.flags ps := List.mem_reverse
      rw [hcollect, add, addFlag, Option.ite_none_left_eq_some, List.contains_iff_mem, hmem, Option.some_inj]
      exact and_congr_right fun _ => eq_comm
    rw [hadd, Piece.once_flag, hlength]
    tauto

/-- **What pieces come to**, as long as there is room for them. -/
theorem addAll_collect : ({} : Arguments).addAll u ps = some b ↔
    Piece.Once ps ∧ (Piece.operands ps).length ≤ u.operands ∧ b = collect ps := by
  induction ps using List.reverseRecOn generalizing b with
  | nil =>
    rw [addAll_nil]
    exact ⟨fun h => ⟨Piece.once_nil, Nat.zero_le _, h⟩, fun h => h.2.2⟩
  | append_singleton ps p ih =>
    rw [addAll_append, ← add_collect]
    simp only [ih, addAll_single]
    constructor
    · rintro ⟨c, ⟨honce, hroom, rfl⟩, hadd⟩
      exact ⟨⟨honce, hroom⟩, hadd⟩
    · rintro ⟨⟨honce, hroom⟩, hadd⟩
      exact ⟨_, ⟨honce, hroom, rfl⟩, hadd⟩

/-- Pieces that are all that a command needs. -/
theorem addAll_complete :
    ({} : Arguments).addAll u ps = some b ∧ b.complete u = true ↔ u.Fits ps ∧ b = collect ps := by
  have hcomplete : Piece.Once ps → ((collect ps).complete u = true ↔
      (Piece.operands ps).length = u.operands ∧ ∀ name ∈ u.options, ∃ value, Piece.option name value ∈ ps) := by
    intro honce
    rw [complete, Bool.and_eq_true, decide_eq_true_eq, List.all_eq_true]
    simp only [Option.isSome_iff_exists, lookup_collect honce]
    rfl
  rw [addAll_collect]
  constructor
  · rintro ⟨⟨honce, -, rfl⟩, h⟩
    obtain ⟨hoperands, hoptions⟩ := (hcomplete honce).1 h
    exact ⟨⟨honce, hoperands, hoptions⟩, rfl⟩
  · rintro ⟨⟨honce, hoperands, hoptions⟩, rfl⟩
    exact ⟨⟨honce, Nat.le_of_eq hoperands, rfl⟩, (hcomplete honce).2 ⟨hoperands, hoptions⟩⟩

theorem option_collect (h : Piece.Once ps) (hvalue : .option name value ∈ ps) :
    (collect ps).option name = value := by
  rw [option, (lookup_collect h).2 hvalue]
  rfl

theorem contains_collect : (collect ps).flags.contains name = decide (.flag name ∈ ps) := by
  rw [Bool.eq_iff_iff, List.contains_iff_mem, decide_eq_true_eq, ← Piece.mem_flags]
  exact List.mem_reverse

theorem operand_collect {operands : List String} (h : Piece.operands ps = operands) (i : ℕ) :
    (collect ps).operand i = operands.getD i "" := by
  rw [← h]
  rfl

end Arguments

end DepGraph
