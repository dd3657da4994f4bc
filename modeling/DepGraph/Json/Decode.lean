import DepGraph.Data.Reading
import DepGraph.Json.Reader
import DepGraph.Text.Quoted

/-!
# Values from JSON

How texts, counts, choices, lists and records are read from a JSON tree. Reading goes from left to
right, so that the first problem of the text is the one reported. A record is an object, whose unknown
members are skipped, or an array of its fields in order.
-/

namespace DepGraph.Json

/-- What was found in place of what was expected. -/
inductive Found where
  | null
  | bool (b : Bool)
  | quantity (q : Quantity)
  | text (s : String)
  | sequence
  | map
  deriving DecidableEq

/-- How floats are written in messages. -/
def floatFormat : Binary64.TextFormat := ⟨-5, 15⟩

def Found.describe : Found → String
  | .null => "null"
  | .bool b => s!"boolean `{b}`"
  | .quantity (.integer i) => s!"integer `{i}`"
  | .quantity (.float x) =>
    let shown := x.text floatFormat
    s!"floating point `{shown}`"
  | .text s => "string " ++ Text.quoted s
  | .sequence => "sequence"
  | .map => "map"

/-- Why well-formed JSON is not the value asked for. -/
inductive Mismatch where
  | type (found : Found) (expected : String)
  | value (found : Found) (expected : String)
  | length (found : Nat) (expected : String)
  | missingField (name : String)
  | duplicateField (name : String)
  | unknownName (found : String) (names : List String)
  | fingerprint (error : Fingerprint.ParseError)
  deriving DecidableEq

/-- A choice of names in words. -/
def namesInWords (names : List String) : String :=
  let ticked := names.map fun name => "`" ++ name ++ "`"
  match ticked with
  | [] => "there are no variants"
  | [one] => "expected " ++ one
  | [one, two] => "expected " ++ one ++ " or " ++ two
  | many => "expected one of " ++ ", ".intercalate many

def Mismatch.message : Mismatch → String
  | .type found expected => s!"invalid type: {found.describe}, expected {expected}"
  | .value found expected => s!"invalid value: {found.describe}, expected {expected}"
  | .length found expected => s!"invalid length {found}, expected {expected}"
  | .missingField name => s!"missing field `{name}`"
  | .duplicateField name => s!"duplicate field `{name}`"
  | .unknownName found names => s!"unknown variant `{found}`, {namesInWords names}"
  | .fingerprint error => error.message

/-- What goes wrong when a value is read from JSON. -/
inductive Fault where
  | stop (stop : Stop)
  | mismatch (mismatch : Mismatch)
  deriving DecidableEq

variable {α : Type}

def Spelling.heard (s : Spelling) : Except Fault String :=
  match s.text with
  | .ok text => .ok text
  | .error stop => .error (.stop stop)

namespace Tree

/-- The fault of finding this tree where something else was expected. -/
def unexpected (expected : String) : Tree → Fault
  | .null => .mismatch (.type .null expected)
  | .bool b => .mismatch (.type (.bool b) expected)
  | .number n =>
    match n.value with
    | .ok q => .mismatch (.type (.quantity q) expected)
    | .error stop => .stop stop
  | .text s =>
    match s.text with
    | .ok said => .mismatch (.type (.text said) expected)
    | .error stop => .stop stop
  | .array _ => .mismatch (.type .sequence expected)
  | .object _ => .mismatch (.type .map expected)
  | .brokenWord stop | .brokenNumber stop | .nothing stop => .stop stop

/-- A text, which messages call `expected`. -/
def textAs (expected : String) : Tree → Except Fault String
  | .text s => s.heard
  | other => .error (other.unexpected expected)

/-- The name of a member: nothing but a string can be one. -/
def memberName : Tree → Except Fault String
  | .text s => s.heard
  | .nothing stop => .error (.stop stop)
  | _ => .error (.stop .malformed)

/-- Whether a spelled name or text can be passed over. -/
def passText : Tree → Except Fault Unit
  | .text ⟨_, none⟩ => .ok ()
  | .text ⟨_, some stop⟩ => .error (.stop stop)
  | .nothing stop => .error (.stop stop)
  | _ => .error (.stop .malformed)

end Tree

mutual

/-- Passes over a value: only its form counts. -/
def Tree.skip : Tree → Except Fault Unit
  | .null | .bool _ | .number _ => .ok ()
  | .text s => Tree.passText (.text s)
  | .array items => items.skip
  | .object members => members.skip
  | .brokenWord stop | .nothing stop => .error (.stop stop)
  | .brokenNumber _ => .error (.stop .malformed)

/-- Passes over the items of an array. -/
def Items.skip : Items → Except Fault Unit
  | .closed => .ok ()
  | .stopped stop => .error (.stop stop)
  | .item head rest =>
    match head.skip with
    | .error e => .error e
    | .ok () => rest.skip

/-- Passes over the members of an object. -/
def Members.skip : Members → Except Fault Unit
  | .closed => .ok ()
  | .stopped stop => .error (.stop stop)
  | .member name value rest =>
    match name.passText with
    | .error e => .error e
    | .ok () =>
      match value.skip with
      | .error e => .error e
      | .ok () => rest.skip

end

mutual

/-- Checks that a value makes sense throughout and that it nests no more than `room` containers. -/
def Tree.settle (room : Nat) : Tree → Except Fault Unit
  | .null | .bool _ => .ok ()
  | .number n =>
    match n.value with
    | .ok _ => .ok ()
    | .error stop => .error (.stop stop)
  | .text s => s.heard.map fun _ => ()
  | .array items => if room = 0 then .error (.stop .malformed) else items.settle (room - 1)
  | .object members => if room = 0 then .error (.stop .malformed) else members.settle (room - 1)
  | .brokenWord stop | .brokenNumber stop | .nothing stop => .error (.stop stop)

/-- Checks the items of an array. -/
def Items.settle (room : Nat) : Items → Except Fault Unit
  | .closed => .ok ()
  | .stopped stop => .error (.stop stop)
  | .item head rest =>
    match head.settle room with
    | .error e => .error e
    | .ok () => rest.settle room

/-- Checks the members of an object. -/
def Members.settle (room : Nat) : Members → Except Fault Unit
  | .closed => .ok ()
  | .stopped stop => .error (.stop stop)
  | .member name value rest =>
    match name.memberName with
    | .error e => .error e
    | .ok _ =>
      match value.settle room with
      | .error e => .error e
      | .ok () => rest.settle room

end

/-- Reads the items of an array. -/
def Items.readAll (read : Tree → Except Fault α) : Items → Except Fault (List α)
  | .closed => .ok []
  | .stopped stop => .error (.stop stop)
  | .item head rest => do
    let first ← read head
    let more ← rest.readAll read
    return first :: more

/-- Reads the members of an object into the draft of a record; members that are none of its fields go
to `other` with their names. -/
def Members.collect {σ : Type} (fields : Fields Tree (Except Fault) α)
    (other : σ → String → Tree → Except Fault σ) :
    Members → fields.Draft → σ → Except Fault (fields.Draft × σ)
  | .closed, draft, rest => .ok (draft, rest)
  | .stopped stop, _, _ => .error (.stop stop)
  | .member name value more, draft, rest => do
    let given ← name.memberName
    match fields.accept (fun field => .mismatch (.duplicateField field)) draft given with
    | some next => more.collect fields other (← next value) rest
    | none => more.collect fields other draft (← other rest given value)

/-- Reads the fields of a record from the items of an array: the record, how many fields it has, and
the items that are left. -/
def Fields.inOrder {α : Type} (expected : String) :
    Fields Tree (Except Fault) α → Items → Except Fault (α × Nat × Items)
  | .start build, items => .ok (build, 0, items)
  | .field before _ read absent, items => do
    let (build, n, items) ← Fields.inOrder expected before items
    match items with
    | .item head rest => return (build (← read head), n + 1, rest)
    | .stopped stop => throw (.stop stop)
    | .closed =>
      match absent with
      | some value => return (build value, n + 1, .closed)
      | none => throw (.mismatch (.length n expected))

namespace Tree

/-- A record from an object or an array. -/
def record (title : String) (fields : Fields Tree (Except Fault) α) : Tree → Except Fault α
  | .object members => do
    let (draft, ()) ← members.collect fields (fun () _ value => value.skip) fields.blank ()
    fields.finish (fun field => .mismatch (.missingField field)) draft
  | .array items => do
    let expected := s!"struct {title} with {fields.names.length} elements"
    let (value, _, rest) ← Fields.inOrder expected fields items
    match rest with
    | .closed => return value
    | .stopped stop => throw (.stop stop)
    | .item _ _ => throw (.stop .malformed)
  | other => .error (other.unexpected s!"struct {title}")

/-- The value of a name. -/
def pickName (names : List String) (pick : String → Option α) (name : String) : Except Fault α :=
  match pick name with
  | some value => .ok value
  | none => .error (.mismatch (.unknownName name names))

/-- One of several names: a string, or an object with the name as its one member and null for the
value. -/
def choice (names : List String) (pick : String → Option α) : Tree → Except Fault α
  | .text s => do pickName names pick (← s.heard)
  | .object (.member name value rest) => do
    let picked ← pickName names pick (← name.memberName)
    match value with
    | .null => pure ()
    | other => throw (other.unexpected "unit")
    match rest with
    | .closed => return picked
    | .stopped stop => throw (.stop stop)
    | .member _ _ _ => throw (.stop .malformed)
  | .object (.stopped stop) | .nothing stop => .error (.stop stop)
  | _ => .error (.stop .malformed)

/-- A number up to a limit. -/
def count (limit : Nat) (kind : String) : Tree → Except Fault Nat
  | .number n =>
    match n.value with
    | .error stop => .error (.stop stop)
    | .ok (.integer i) =>
      if 0 ≤ i ∧ i ≤ limit then .ok i.toNat
      else .error (.mismatch (.value (.quantity (.integer i)) kind))
    | .ok q => .error (.mismatch (.type (.quantity q) kind))
  | other => .error (other.unexpected kind)

instance : DataTree Tree (Except Fault) where
  text := textAs "a string"
  flag := fun
    | .bool b => .ok b
    | other => .error (other.unexpected "a boolean")
  count := count
  choice := choice
  fingerprint := fun tree => do
    match Fingerprint.parse (← tree.textAs "a string") with
    | .ok f => return f
    | .error e => throw (.mismatch (.fingerprint e))
  optional := fun read => fun
    | .null => .ok none
    | other => (read other).map some
  list := fun read => fun
    | .array items => items.readAll read
    | other => .error (other.unexpected "a sequence")
  record := record

end Tree

/-- Reads a text that holds one value and nothing else. -/
def readText (read : Tree → Except Fault α) (input : List Glyph) : Except Fault α := do
  let (tree, after) := Tree.read input
  let value ← read tree
  match after with
  | none => throw (.stop .malformed)
  | some rest => if (skipBlanks rest).isEmpty then return value else throw (.stop .malformed)

end DepGraph.Json
