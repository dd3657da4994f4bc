import DepGraph.Path
import DepGraph.Text.Quoted
import Std.Data.TreeMap

/-!
# Dependency keys

A key says what a node of a dependency graph stands for: its kind, whether it is the interface or the
implementation, the context that a member lives in, and a name. Two keys are equal exactly when all
four parts are.

* `Key.readable`, `Key.display`: how messages call it.
* `Key.verify`: which parts a key of each kind must have.
-/

namespace DepGraph

/-- What kind of entity a key describes. -/
inductive Kind where
  | topLevel
  | nominal
  | potentialMember
  | member
  | dynamicLookup
  | externalDepend
  | sourceFileProvide
  deriving DecidableEq, Repr, Inhabited

namespace Kind

/-- Every kind, in order. -/
def all : List Kind :=
  [topLevel, nominal, potentialMember, member, dynamicLookup, externalDepend, sourceFileProvide]

/-- The name in files and messages. -/
def name : Kind → String
  | topLevel => "topLevel"
  | nominal => "nominal"
  | potentialMember => "potentialMember"
  | member => "member"
  | dynamicLookup => "dynamicLookup"
  | externalDepend => "externalDepend"
  | sourceFileProvide => "sourceFileProvide"

/-- The name with a capital, as the full form of a key has it. -/
def title : Kind → String
  | topLevel => "TopLevel"
  | nominal => "Nominal"
  | potentialMember => "PotentialMember"
  | member => "Member"
  | dynamicLookup => "DynamicLookup"
  | externalDepend => "ExternalDepend"
  | sourceFileProvide => "SourceFileProvide"

/-- The place in `all`. -/
def rank : Kind → Nat
  | topLevel => 0
  | nominal => 1
  | potentialMember => 2
  | member => 3
  | dynamicLookup => 4
  | externalDepend => 5
  | sourceFileProvide => 6

theorem all_rank (k : Kind) : all[k.rank]? = some k := by cases k <;> rfl

theorem eq_of_rank_eq {j k : Kind} (h : j.rank = k.rank) : j = k := by
  have hsome : some j = some k := by rw [← all_rank j, h, all_rank k]
  exact Option.some.inj hsome

/-- The kind of that name. -/
def ofName? (s : String) : Option Kind :=
  all.find? (·.name = s)

end Kind

/-- The two sides of a declaration. -/
inductive Aspect where
  | interface
  | implementation
  deriving DecidableEq, Repr, Inhabited

namespace Aspect

/-- Both aspects, in order. -/
def all : List Aspect := [interface, implementation]

/-- The name in files and messages. -/
def name : Aspect → String
  | interface => "interface"
  | implementation => "implementation"

/-- The name with a capital, as the full form of a key has it. -/
def title : Aspect → String
  | interface => "Interface"
  | implementation => "Implementation"

/-- The place in `all`. -/
def rank : Aspect → Nat
  | interface => 0
  | implementation => 1

/-- The other side. -/
def flipped : Aspect → Aspect
  | interface => implementation
  | implementation => interface

theorem all_rank (a : Aspect) : all[a.rank]? = some a := by cases a <;> rfl

theorem eq_of_rank_eq {a b : Aspect} (h : a.rank = b.rank) : a = b := by
  have hsome : some a = some b := by rw [← all_rank a, h, all_rank b]
  exact Option.some.inj hsome

/-- The aspect of that name. -/
def ofName? (s : String) : Option Aspect :=
  all.find? (·.name = s)

end Aspect

/-- What a graph node stands for. Keys are ordered by kind, aspect, context and name. -/
structure Key where
  kind : Kind
  aspect : Aspect
  context : String
  name : String
  deriving DecidableEq, Repr, Inhabited

namespace Key

/-- The order of keys. -/
def order : Key → Key → Ordering :=
  compareLex (compareOn (·.kind.rank)) <| compareLex (compareOn (·.aspect.rank)) <|
    compareLex (compareOn Key.context) (compareOn Key.name)

instance : Ord Key := ⟨order⟩

instance : Std.TransOrd Key :=
  inferInstanceAs (Std.TransCmp <|
    compareLex (compareOn fun k : Key => k.kind.rank) <|
      compareLex (compareOn fun k : Key => k.aspect.rank) <|
        compareLex (compareOn Key.context) (compareOn Key.name))

instance : Std.LawfulEqOrd Key where
  eq_of_compare {a b} h := by
    change order a b = .eq at h
    simp only [order, compareLex, compareOn, Ordering.then_eq_eq] at h
    obtain ⟨hk, ha, hc, hn⟩ := h
    have hk := Kind.eq_of_rank_eq (Std.LawfulEqOrd.eq_of_compare hk)
    have ha := Aspect.eq_of_rank_eq (Std.LawfulEqOrd.eq_of_compare ha)
    have hc := Std.LawfulEqOrd.eq_of_compare hc
    have hn := Std.LawfulEqOrd.eq_of_compare hn
    cases a
    cases b
    simp_all

/-- The key of the node that anchors everything one file provides. -/
def sourceFile (depsName : String) : Key :=
  ⟨.sourceFileProvide, .interface, "", depsName⟩

/-- The key of a dependency on something compiled elsewhere: always an interface. -/
def external (path : String) : Key :=
  ⟨.externalDepend, .interface, "", path⟩

def isInterface (k : Key) : Bool := k.aspect = .interface

def isImplementation (k : Key) : Bool := k.aspect = .implementation

/-- The interface side of the same entity. -/
def interface (k : Key) : Key := { k with aspect := .interface }

/-- The implementation side of the same entity. -/
def implementation (k : Key) : Key := { k with aspect := .implementation }

/-- The deps file name that a source file's key holds. -/
def depsName? (k : Key) : Option String :=
  if k.kind = .sourceFileProvide then some k.name else none

/-- A short name for people. -/
def readable (k : Key) : String :=
  match k.kind with
  | .member => k.context ++ "." ++ k.name
  | .externalDepend | .sourceFileProvide => (Path.fileName? k.name).getD k.name
  | .potentialMember => k.context ++ ".*"
  | .nominal => k.context
  | .topLevel | .dynamicLookup => k.name

/-- Kind, aspect and readable name. -/
def display (k : Key) : String :=
  s!"{k.kind.name} aspect: {k.aspect.name}, {k.readable}"

/-- The key with all its parts. -/
def full (k : Key) : String :=
  let context := Text.quoted k.context
  let name := Text.quoted k.name
  s!"DependencyKey \x7b kind: {k.kind.title}, aspect: {k.aspect.title}, context: {context}, name: {name} \x7d"

/-- What is wrong with the parts of a key. -/
inductive Flaw where
  | externalImplementation (key : Key)
  | onlyName (key : Key)
  | onlyContext (key : Key)
  | contextAndName (key : Key)
  deriving DecidableEq

def Flaw.message : Flaw → String
  | .externalImplementation key => s!"external dependency {key.display} must be an interface"
  | .onlyName key => s!"key {key.full} must only have a name"
  | .onlyContext key => s!"key {key.full} must only have a context"
  | .contextAndName key => s!"key {key.full} must have both a context and a name"

/-- Checks which parts a key of this kind must have. -/
def verify (k : Key) : Except Flaw Unit :=
  if k.kind = .externalDepend ∧ ¬ k.isInterface then .error (.externalImplementation k)
  else
    match k.kind with
    | .topLevel | .dynamicLookup | .externalDepend | .sourceFileProvide =>
      if k.context ≠ "" ∨ k.name = "" then .error (.onlyName k) else .ok ()
    | .nominal | .potentialMember =>
      if k.context = "" ∨ k.name ≠ "" then .error (.onlyContext k) else .ok ()
    | .member =>
      if k.context = "" ∨ k.name = "" then .error (.contextAndName k) else .ok ()

/-- Keys in ascending order, each once. -/
def sortedSet (keys : List Key) : List Key :=
  (keys.mergeSort fun a b => (compare a b).isLE).eraseDups

end Key

end DepGraph
