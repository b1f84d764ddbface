import LedgerTx.Layout.Table

/-!
# The flat form

Fields follow each other in schema order with nothing in between: vectors as
their bytes, nested tables in place, arrays of tables as the tables.  The
scalars that tell a length or a number are ordinary fields, looked up in the
table at hand and then in the enclosing ones; writing checks that they agree
with the content, reading uses them to find its end.
-/

namespace LedgerTx.Layout

/-- The tables that a length or number can be named in, the nearest first. -/
abbrev Scope := List FieldSet

/-- The scalar with a name in the nearest table that has the name. -/
def Scope.lookup : Scope → String → Except Error UInt64
  | [], name => .error (.missing name)
  | fields :: outer, name =>
      match fields.get? name with
      | none => Scope.lookup outer name
      | some (.scalar value) => .ok value
      | some _ => .error (.kind name)

def Scope.length (scope : Scope) (field scalar : String) (bias : Nat) : Except Error Nat := do
  let value ← scope.lookup scalar
  if value.toNat < bias then .error (.belowBias field scalar value bias)
  else .ok (value.toNat - bias)

/-! ## Writing -/

def checkDeclared (field : String) (declared actual : Nat) : Except Error Unit :=
  if declared = actual then .ok () else .error (.length field declared actual)

def joinTables (write : FieldSet → Except Error Bytes) : List FieldSet → Except Error Bytes
  | [] => .ok []
  | table :: rest => do
      let bytes ← write table
      let more ← joinTables write rest
      .ok (bytes ++ more)

mutual

def Schema.flat (outer : Scope) (values : FieldSet) : Schema → Except Error Bytes
  | ⟨_, fields⟩ => flatFields outer values fields

def flatFields (outer : Scope) (values : FieldSet) : List FieldSpec → Except Error Bytes
  | [] => .ok []
  | ⟨name, kind⟩ :: rest => do
      let value ← values.get name
      let bytes ← Kind.flat (values :: outer) name value kind
      let more ← flatFields outer values rest
      .ok (bytes ++ more)

def Kind.flat (scope : Scope) (field : String) (value : Value) : Kind → Except Error Bytes
  | .scalar width =>
      match value with
      | .scalar n => writeScalar field width n
      | _ => .error (.kind field)
  | .array size =>
      match value with
      | .array bytes => writeArray field size bytes
      | _ => .error (.kind field)
  | .vector length =>
      match length, value with
      | .named scalar bias, .vector bytes => do
          checkDeclared field (← scope.length field scalar bias) bytes.length
          .ok bytes
      | .rest, .vector bytes => .ok bytes
      | _, _ => .error (.kind field)
  | .table schema =>
      match value with
      | .table nested => Schema.flat scope nested schema
      | _ => .error (.kind field)
  | .tableArray schema count =>
      match count, value with
      | .named scalar, .tableArray tables => do
          checkDeclared field (← scope.lookup scalar).toNat tables.length
          joinTables (fun nested => Schema.flat scope nested schema) tables
      | .rest, .tableArray tables =>
          joinTables (fun nested => Schema.flat scope nested schema) tables
      | _, _ => .error (.kind field)

end

/-- Turns the offset table at the start of a buffer into the flat form. -/
def flatten (fields : List FieldSpec) (table : Bytes) : Except Error Bytes := do
  let decoded ← decode fields table
  Schema.flat [] decoded.fields ⟨"", fields⟩

/-! ## Reading -/

/-- A place in a buffer: the number of bytes before it and the bytes after it. -/
structure Cursor where
  position : Nat
  rest : Bytes

namespace Cursor

def take (cursor : Cursor) (count : Nat) : Except Error (Bytes × Cursor) :=
  if positionLimit ≤ cursor.position + count then .error .tooLarge
  else if cursor.rest.length < count then
    .error (.truncated (cursor.position + count) (cursor.position + cursor.rest.length))
  else .ok (cursor.rest.take count, ⟨cursor.position + count, cursor.rest.drop count⟩)

end Cursor

def parseMany (read : Cursor → Except Error (FieldSet × Cursor)) :
    (count : Nat) → Cursor → Except Error (List FieldSet × Cursor)
  | 0, cursor => .ok ([], cursor)
  | count + 1, cursor => do
      let (table, next) ← read cursor
      let (tables, last) ← parseMany read count next
      .ok (table :: tables, last)

/-- Reads tables to the end; each of them must take some bytes. -/
def parseToEnd (read : Cursor → Except Error (FieldSet × Cursor)) (field : String)
    (cursor : Cursor) : Except Error (List FieldSet × Cursor) :=
  if cursor.rest.isEmpty then .ok ([], cursor)
  else
    match read cursor with
    | .error e => .error e
    | .ok (table, next) =>
        if _shorter : next.rest.length < cursor.rest.length then
          match parseToEnd read field next with
          | .error e => .error e
          | .ok (tables, last) => .ok (table :: tables, last)
        else .error (.emptyElement field)
termination_by cursor.rest.length

mutual

def Schema.parse (outer : Scope) (cursor : Cursor) :
    Schema → Except Error (FieldSet × Cursor)
  | ⟨_, fields⟩ => parseFields outer [] cursor fields

/-- Reads fields after those already in `values`. -/
def parseFields (outer : Scope) (values : FieldSet) (cursor : Cursor) :
    List FieldSpec → Except Error (FieldSet × Cursor)
  | [] => .ok (values, cursor)
  | ⟨name, kind⟩ :: rest => do
      let (value, next) ← Kind.parse (values :: outer) name cursor kind
      parseFields outer (values.insert name value) next rest

def Kind.parse (scope : Scope) (field : String) (cursor : Cursor) :
    Kind → Except Error (Value × Cursor)
  | .scalar width => do
      let (bytes, next) ← cursor.take width.bytes
      .ok (.scalar (LittleEndian.decode bytes).toUInt64, next)
  | .array size => do
      let (bytes, next) ← cursor.take size
      .ok (.array bytes, next)
  | .vector length =>
      match length with
      | .named scalar bias => do
          let (bytes, next) ← cursor.take (← scope.length field scalar bias)
          .ok (.vector bytes, next)
      | .rest => do
          let (bytes, next) ← cursor.take cursor.rest.length
          .ok (.vector bytes, next)
  | .table schema => do
      let (table, next) ← Schema.parse scope cursor schema
      .ok (.table table, next)
  | .tableArray schema count =>
      match count with
      | .named scalar => do
          let number ← scope.lookup scalar
          let (tables, next) ←
            parseMany (fun c => Schema.parse scope c schema) number.toNat cursor
          .ok (.tableArray tables, next)
      | .rest => do
          let (tables, next) ← parseToEnd (fun c => Schema.parse scope c schema) field cursor
          .ok (.tableArray tables, next)

end

def parse (fields : List FieldSpec) (buffer : Bytes) : Except Error Decoded := do
  let (values, cursor) ← Schema.parse [] ⟨0, buffer⟩ ⟨"", fields⟩
  .ok ⟨values, cursor.position⟩

end LedgerTx.Layout
