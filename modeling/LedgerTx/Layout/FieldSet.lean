import LedgerTx.Bytes
import LedgerTx.Layout.Schema

/-!
# Field sets

The values of a table by field name.  A name has one value: inserting under
a name that is present replaces its value.  Reading a value as one of the
five kinds fails when it is absent or of another kind.
-/

namespace LedgerTx.Layout

-- Powers are taken with the core operation.
attribute [local instance (high)] instPowNat instNatPowNat

inductive Error where
  | truncated (needed available : Nat)
  | stray (field : String) (target : Nat)
  | missing (field : String)
  | kind (field : String)
  | length (field : String) (expected actual : Nat)
  | range (field : String) (value : UInt64)
  | tooLarge
  | belowBias (field scalar : String) (value : UInt64) (bias : Nat)
  | emptyElement (field : String)
deriving DecidableEq

def invalidMessage (field reason : String) : String :=
  s!"invalid value in field `{field}`: {reason}"

def Error.message : Error → String
  | truncated needed available => s!"buffer truncated: need {needed} bytes, have {available}"
  | stray field target => s!"field `{field}` points to offset {target}, outside its table"
  | missing field => s!"missing value for field `{field}`"
  | kind field => s!"value for field `{field}` does not match its schema kind"
  | length field expected actual => s!"field `{field}` expects {expected} bytes, got {actual}"
  | range field value => s!"value {value} does not fit field `{field}`"
  | tooLarge => "content exceeds the 32-bit offset range"
  | belowBias field scalar value bias =>
      invalidMessage field s!"`{scalar}` is {value}, below its minimum of {bias}"
  | emptyElement field => invalidMessage field "element occupies no bytes"

inductive Value where
  | scalar (value : UInt64)
  | array (bytes : Bytes)
  | vector (bytes : Bytes)
  | table (fields : List (String × Value))
  | tableArray (tables : List (List (String × Value)))

abbrev FieldSet := List (String × Value)

namespace FieldSet

def get? (fields : FieldSet) (name : String) : Option Value :=
  fields.lookup name

/-- Puts a value under a name, in place of the value that is there. -/
def insert (fields : FieldSet) (name : String) (value : Value) : FieldSet :=
  match fields with
  | [] => [(name, value)]
  | (other, old) :: rest =>
      if other = name then (name, value) :: rest else (other, old) :: insert rest name value

def merge (fields other : FieldSet) : FieldSet :=
  other.foldl (fun acc (name, value) => insert acc name value) fields

def get (fields : FieldSet) (name : String) : Except Error Value :=
  match get? fields name with
  | some value => .ok value
  | none => .error (.missing name)

def scalar (fields : FieldSet) (name : String) : Except Error UInt64 :=
  match get? fields name with
  | some (.scalar value) => .ok value
  | some _ => .error (.kind name)
  | none => .error (.missing name)

/-- The integer under a name, which must be below `bound`. -/
def scalarBelow (fields : FieldSet) (bound : Nat) (name : String) : Except Error UInt64 := do
  let value ← scalar fields name
  if value.toNat < bound then .ok value else .error (.range name value)

def scalar8 (fields : FieldSet) (name : String) : Except Error UInt8 :=
  (scalarBelow fields (2 ^ (8 : Nat)) name).map UInt64.toUInt8

def scalar16 (fields : FieldSet) (name : String) : Except Error UInt16 :=
  (scalarBelow fields (2 ^ (16 : Nat)) name).map UInt64.toUInt16

def scalar32 (fields : FieldSet) (name : String) : Except Error UInt32 :=
  (scalarBelow fields (2 ^ (32 : Nat)) name).map UInt64.toUInt32

def array (fields : FieldSet) (name : String) : Except Error Bytes :=
  match get? fields name with
  | some (.array bytes) => .ok bytes
  | some _ => .error (.kind name)
  | none => .error (.missing name)

def block (size : Nat) (fields : FieldSet) (name : String) : Except Error (Block size) := do
  let bytes ← array fields name
  if h : bytes.length = size then .ok ⟨bytes, h⟩ else .error (.length name size bytes.length)

def vector (fields : FieldSet) (name : String) : Except Error Bytes :=
  match get? fields name with
  | some (.vector bytes) => .ok bytes
  | some _ => .error (.kind name)
  | none => .error (.missing name)

def table (fields : FieldSet) (name : String) : Except Error FieldSet :=
  match get? fields name with
  | some (.table table) => .ok table
  | some _ => .error (.kind name)
  | none => .error (.missing name)

def tableArray (fields : FieldSet) (name : String) : Except Error (List FieldSet) :=
  match get? fields name with
  | some (.tableArray tables) => .ok tables
  | some _ => .error (.kind name)
  | none => .error (.missing name)

end FieldSet

/-- The little-endian bytes of an integer, which must fit its width. -/
def writeScalar (field : String) (width : Width) (value : UInt64) : Except Error Bytes :=
  if value.toNat < 256 ^ width.bytes then .ok (LittleEndian.encode width.bytes value.toNat)
  else .error (.range field value)

def writeArray (field : String) (size : Nat) (bytes : Bytes) : Except Error Bytes :=
  if bytes.length = size then .ok bytes else .error (.length field size bytes.length)

end LedgerTx.Layout
