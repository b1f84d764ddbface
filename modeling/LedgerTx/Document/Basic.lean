import LedgerTx.Address
import LedgerTx.Json.Form

/-!
# Documents

A document is JSON that people and tools can exchange without loss: numbers
of up to 32 bits are JSON numbers, longer ones are decimal strings, and bytes
are hexadecimal.  The order of members does not matter, and a member that is
absent counts as null.
-/

namespace LedgerTx

inductive DocumentError where
  | shape
  | name
  | key (cause : KeyError)
  | address (cause : Address.Error)
  | block (cause : Hex.Error)
deriving DecidableEq

class Document (α : Type) where
  read : Json → Except DocumentError α
  write : α → Json

namespace Document

variable {α β σ τ φ : Type}

def orShape : Option α → Except DocumentError α
  | some a => .ok a
  | none => .error .shape

def orName : Option α → Except DocumentError α
  | some a => .ok a
  | none => .error .name

/-! ## Members -/

/-- The last member of an object with the given name, or null. -/
def member (name : String) : Json → Json
  | .object members => ((Json.named name members).getLast?).getD .null
  | _ => .null

def get [Document α] (json : Json) (name : String) : Except DocumentError α :=
  read (member name json)

def via [Document α] (wrap : α → σ) (json : Json) : Except DocumentError σ :=
  (read json).map wrap

def one [Document α] (name : String) (a : α) : Json := .object [(name, write a)]

/-- Reads the first alternative whose member is present. -/
def oneOf (choices : List (String × (Json → Except DocumentError σ))) (json : Json) :
    Except DocumentError σ :=
  match choices.find? fun (name, _) => !(member name json matches .null) with
  | some (name, read) => read (member name json)
  | none => .error .shape

/-! ## Records -/

class Row (τ : Type) where
  members : List String → τ → List (String × Json)

instance (priority := low) [Document α] : Row α where
  members names a := [(names.headD "", write a)]

instance [Document α] [Row τ] : Row (α × τ) where
  members names row := (names.headD "", write row.1) :: Row.members names.tail row.2

/-- Functions that are applied to members one after the other. -/
class Build (φ : Type) (σ : outParam Type) where
  build : List String → φ → Json → Except DocumentError σ

instance (priority := low) : Build σ σ where
  build _ a _ := .ok a

instance [Document α] [Build φ σ] : Build (α → φ) σ where
  build names f json := do Build.build names.tail (f (← get json (names.headD ""))) json

def words (names : String) : List String := names.splitOn " "

def object [Row τ] (names : String) (row : τ) : Json := .object (Row.members (words names) row)

/-- A structure as an object: how it is made of its fields, and what these are. -/
@[reducible]
def record [Build φ σ] [Row τ] (names : String) (make : φ) (fields : σ → τ) : Document σ where
  read := Build.build (words names) make
  write s := object names (fields s)

def tagged [Document α] (kind : String) (a : α) : Json :=
  match write a with
  | .object members => .object (("kind", .string kind) :: members)
  | json => json

end Document

end LedgerTx
