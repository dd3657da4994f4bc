import DepGraph.Fingerprint

/-!
# Reading records

A notation gives trees of data; `DataTree` says how the basic kinds of value are read from its trees.
What a record looks like is then said once for every notation, as `Fields`: the fields in order, each
with its name, its reader and the value it has when absent.

Fields are collected in the order in which a tree gives them. A `Draft` holds what has been read so
far, `accept` takes the next member, and `finish` builds the record or names the first field that is
missing. Readers are steps of a monad `m` of the notation's choice, which can fail.
-/

namespace DepGraph

variable {ν ε α : Type} {m : Type → Type}

/-- The fields of a record, the last one outermost; `start` is what builds the record from them. -/
inductive Fields (ν : Type) (m : Type → Type) : Type → Type 1 where
  | start {α : Type} (build : α) : Fields ν m α
  | field {α β : Type} (before : Fields ν m (β → α)) (name : String) (read : ν → m β)
      (absent : Option β) : Fields ν m α

namespace Fields

/-- A field that has to be there. -/
def required {β : Type} (before : Fields ν m (β → α)) (name : String) (read : ν → m β) :
    Fields ν m α :=
  .field before name read none

/-- A field that may be left out. -/
def defaulted {β : Type} (before : Fields ν m (β → α)) (name : String) (read : ν → m β)
    (absent : β) : Fields ν m α :=
  .field before name read (some absent)

/-- The names, in order. -/
def names {α : Type} : Fields ν m α → List String
  | .start _ => []
  | .field before name _ _ => before.names ++ [name]

/-- What has been read so far: a value or nothing for each field. -/
def Draft {α : Type} : Fields ν m α → Type
  | .start _ => Unit
  | @Fields.field _ _ _ β before _ _ _ => before.Draft × Option β

/-- The draft before anything is read. -/
def blank {α : Type} : (f : Fields ν m α) → f.Draft
  | .start _ => ()
  | .field before _ _ _ => (before.blank, none)

/-- How a member of a given name changes a draft: `none` when no field has that name. -/
def accept {α : Type} [Monad m] [MonadExcept ε m] (duplicate : String → ε) :
    (f : Fields ν m α) → f.Draft → String → Option (ν → m f.Draft)
  | .start _, _, _ => none
  | @Fields.field _ _ _ β before name read _, draft, given =>
    let (earlier, slot) : before.Draft × Option β := draft
    if given = name then
      some fun value =>
        if slot.isSome then throw (duplicate name) else do return (earlier, some (← read value))
    else
      (before.accept duplicate earlier given).map fun next value => do
        return (← next value, slot)

/-- The record of a draft, or the first field that is missing. -/
def finish {α : Type} (missing : String → ε) : (f : Fields ν m α) → f.Draft → Except ε α
  | .start build, _ => .ok build
  | @Fields.field _ _ _ β before name _ absent, draft =>
    let (earlier, slot) : before.Draft × Option β := draft
    match before.finish missing earlier with
    | .error e => .error e
    | .ok build =>
      match slot.or absent with
      | some value => .ok (build value)
      | none => .error (missing name)

end Fields

/-- Trees from which values can be read. -/
class DataTree (ν : Type) (m : outParam (Type → Type)) where
  text : ν → m String
  flag : ν → m Bool
  /-- A number up to a limit; the name of its kind appears in faults. -/
  count : (limit : Nat) → (kind : String) → ν → m Nat
  /-- One of several names. -/
  choice : {α : Type} → (names : List String) → (pick : String → Option α) → ν → m α
  fingerprint : ν → m Fingerprint
  optional : {α : Type} → (ν → m α) → ν → m (Option α)
  list : {α : Type} → (ν → m α) → ν → m (List α)
  /-- A record with a title that appears in faults. -/
  record : {α : Type} → (title : String) → Fields ν m α → ν → m α

end DepGraph
