import LedgerTx.Document.Transaction
import LedgerTx.Layout.Table
import LedgerTx.Transaction.Payload

/-!
# Documents of schemas and field sets

A schema is an object of its name and its fields, or a text that names one
of the schemas of this library.  A field is an array of its name, its kind
and what the kind needs.  A value is an object whose only member is its kind.
-/

namespace LedgerTx.Layout

open Document (read write via one get member orShape object)

/-- The schema that a text names: a header, or the body of a kind. -/
def Schema.ofName (name : String) : Except DocumentError Schema :=
  match name.toList with
  | '@' :: rest =>
      match String.ofList rest with
      | "header" => .ok transactionHeader
      | "embedded" => .ok embeddedHeader
      | kind => via TransactionKind.schema (Json.string kind)
  | _ => .error .shape

def Length.ofDocument : Json → Except DocumentError Length
  | .string "rest" => .ok .rest
  | .array [.string scalar] => .ok (.named scalar 0)
  | .array [.string scalar, bias] => do .ok (.named scalar (← read bias))
  | _ => .error .shape

def Count.ofDocument : Json → Except DocumentError Count
  | .string "rest" => .ok .rest
  | .array [.string scalar] => .ok (.named scalar)
  | _ => .error .shape

mutual

/-- Reads a field, tables being nested at most `depth` deep. -/
def FieldSpec.ofDocument (depth : Nat) : Json → Except DocumentError FieldSpec
  | .array [.string name, .string "u8"] => .ok (.u8 name)
  | .array [.string name, .string "u16"] => .ok (.u16 name)
  | .array [.string name, .string "u32"] => .ok (.u32 name)
  | .array [.string name, .string "u64"] => .ok (.u64 name)
  | .array [.string name, .string "array", size] => do .ok (.array name (← read size))
  | .array [.string name, .string "vector", length] => do
      .ok ⟨name, .vector (← Length.ofDocument length)⟩
  | .array [.string name, .string "table", inner] => do
      .ok (.table name (← Schema.ofDocument depth inner))
  | .array [.string name, .string "table_array", inner, count] => do
      .ok ⟨name, .tableArray (← Schema.ofDocument depth inner) (← Count.ofDocument count)⟩
  | _ => .error .shape

def Schema.ofDocument : (depth : Nat) → Json → Except DocumentError Schema
  | 0, _ => .error .shape
  | depth + 1, json =>
      match json with
      | .string name => Schema.ofName name
      | _ => do
          let name ← get json "name"
          let fields ← orShape (member "fields" json).items?
          .ok ⟨name, ← fields.mapM (FieldSpec.ofDocument depth)⟩

end

def Length.toDocument : Length → Json
  | .rest => .string "rest"
  | .named scalar bias => .array [.string scalar, write bias]

def Count.toDocument : Count → Json
  | .rest => .string "rest"
  | .named scalar => .array [.string scalar]

mutual

def Kind.toDocument : Kind → List Json
  | .scalar width => [.string s!"u{8 * width.bytes}"]
  | .array size => [.string "array", write size]
  | .vector length => [.string "vector", Length.toDocument length]
  | .table schema => [.string "table", Schema.toDocument schema]
  | .tableArray schema count =>
      [.string "table_array", Schema.toDocument schema, Count.toDocument count]

def fieldDocuments : List FieldSpec → List Json
  | [] => []
  | ⟨name, kind⟩ :: rest => .array (.string name :: Kind.toDocument kind) :: fieldDocuments rest

def Schema.toDocument : Schema → Json
  | ⟨name, fields⟩ =>
      object "name fields inline_size"
        (name, Json.array (fieldDocuments fields), inlineSize fields)

end

instance : Document Schema := ⟨fun json => Schema.ofDocument json.depth json, Schema.toDocument⟩

mutual

def Value.ofDocument : Json → Except DocumentError Value
  | .object [("scalar", value)] => (read value).map .scalar
  | .object [("array", bytes)] => (read bytes).map .array
  | .object [("vector", bytes)] => (read bytes).map .vector
  | .object [("table", .object members)] => do .ok (.table (← FieldSet.ofMembers [] members))
  | .object [("table_array", .array items)] => do .ok (.tableArray (← FieldSet.ofItems items))
  | _ => .error .shape

def FieldSet.ofMembers (fields : FieldSet) : List (String × Json) → Except DocumentError FieldSet
  | [] => .ok fields
  | (name, value) :: rest => do
      FieldSet.ofMembers (FieldSet.insert fields name (← Value.ofDocument value)) rest

def FieldSet.ofItems : List Json → Except DocumentError (List FieldSet)
  | [] => .ok []
  | .object members :: rest => do
      .ok ((← FieldSet.ofMembers [] members) :: (← FieldSet.ofItems rest))
  | _ :: _ => .error .shape

end

mutual

def Value.toDocument : Value → Json
  | .scalar value => one "scalar" value
  | .array bytes => one "array" bytes
  | .vector bytes => one "vector" bytes
  | .table fields => one "table" (Json.object (fieldMembers fields))
  | .tableArray tables => one "table_array" (Json.array (tableDocuments tables))

def fieldMembers : List (String × Value) → List (String × Json)
  | [] => []
  | (name, value) :: rest => (name, Value.toDocument value) :: fieldMembers rest

def tableDocuments : List (List (String × Value)) → List Json
  | [] => []
  | fields :: rest => .object (fieldMembers fields) :: tableDocuments rest

end

instance : Document Value := ⟨Value.ofDocument, Value.toDocument⟩

instance : Document FieldSet where
  read json := do FieldSet.ofMembers [] (← orShape json.members?)
  write fields := .object (fieldMembers fields)

instance : Document Decoded :=
  Document.record "fields extent" Decoded.mk fun ⟨fields, extent⟩ => (fields, extent)

end LedgerTx.Layout
