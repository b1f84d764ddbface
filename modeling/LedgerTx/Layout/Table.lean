import LedgerTx.Layout.FieldSet

/-!
# Offset tables

A table starts with its inline region.  The contents of its slots follow in
field order, each padded to a multiple of four bytes from the start of the
buffer: a vector as its length and bytes, an array of tables as its number,
one slot for each table and the tables.  A slot holds the distance to its
content: from the start of the buffer for a vector, from the start of the
table that holds the slot otherwise.
-/

namespace LedgerTx.Layout

-- Powers are taken with the core operation.
attribute [local instance (high)] instPowNat instNatPowNat

/-- One past the largest number that positions may reach. -/
def positionLimit : Nat := 2 ^ (64 : Nat)

/-- One past the largest offset, length and number that a slot can hold. -/
def slotLimit : Nat := 2 ^ (32 : Nat)

/-! ## Writing -/

def slotNumber (n : Nat) : Except Error Nat :=
  if n < slotLimit then .ok n else .error .tooLarge

def alignment : Nat := 4

def padding (position : Nat) : Nat := (alignment - position % alignment) % alignment

def slotBytes (n : Nat) : Bytes := LittleEndian.encode 4 n

/-- A piece of the inline region: finished bytes or a slot to be filled. -/
inductive Cell where
  | ready (bytes : Bytes)
  | slot

def inlineCell (field : String) (kind : Kind) (value : Value) : Except Error Cell :=
  match kind, value with
  | .scalar width, .scalar n => (writeScalar field width n).map .ready
  | .array size, .array bytes => (writeArray field size bytes).map .ready
  | .vector _, .vector _ => .ok .slot
  | .table _, .table _ => .ok .slot
  | .tableArray _ _, .tableArray _ => .ok .slot
  | _, _ => .error (.kind field)

def inlineCells (fields : FieldSet) : List FieldSpec → Except Error (List Cell)
  | [] => .ok []
  | field :: rest => do
      let cell ← inlineCell field.name field.kind (← fields.get field.name)
      let cells ← inlineCells fields rest
      .ok (cell :: cells)

def fillCells : List Cell → List Nat → Bytes
  | [], _ => []
  | .ready bytes :: cells, slots => bytes ++ fillCells cells slots
  | .slot :: cells, slot :: slots => slotBytes slot ++ fillCells cells slots
  | .slot :: cells, [] => slotBytes 0 ++ fillCells cells []

/-- Written content: the numbers for the slots that refer to it, and its bytes. -/
structure Tail where
  slots : List Nat
  bytes : Bytes

/--
Writes tables one after the other, each at the next aligned position, and
notes their distances from `origin`.
-/
def writeTables (write : Nat → FieldSet → Except Error Bytes) (origin position : Nat) :
    List FieldSet → Except Error Tail
  | [] => .ok ⟨[], []⟩
  | table :: rest => do
      let gap := padding position
      let start := position + gap
      let content ← write start table
      let slot ← slotNumber (start - origin)
      let tail ← writeTables write origin (start + content.length) rest
      .ok ⟨slot :: tail.slots, List.replicate gap 0 ++ content ++ tail.bytes⟩

mutual

def Schema.write (start : Nat) (values : FieldSet) : Schema → Except Error Bytes
  | ⟨_, fields⟩ => do
      let cells ← inlineCells values fields
      let tail ← writeTails start (start + inlineSize fields) values fields
      .ok (fillCells cells tail.slots ++ tail.bytes)

def writeTails (origin position : Nat) (values : FieldSet) :
    List FieldSpec → Except Error Tail
  | [] => .ok ⟨[], []⟩
  | ⟨name, kind⟩ :: rest => do
      let value ← values.get name
      let head ← Kind.writeTail origin position name value kind
      let tail ← writeTails origin (position + head.bytes.length) values rest
      .ok ⟨head.slots ++ tail.slots, head.bytes ++ tail.bytes⟩

def Kind.writeTail (origin position : Nat) (field : String) (value : Value) :
    Kind → Except Error Tail
  | .scalar _ => .ok ⟨[], []⟩
  | .array _ => .ok ⟨[], []⟩
  | .vector _ =>
      match value with
      | .vector bytes => do
          let gap := padding position
          let length ← slotNumber bytes.length
          let slot ← slotNumber (position + gap)
          .ok ⟨[slot], List.replicate gap 0 ++ slotBytes length ++ bytes⟩
      | _ => .error (.kind field)
  | .table schema =>
      match value with
      | .table nested => do
          let gap := padding position
          let content ← Schema.write (position + gap) nested schema
          let slot ← slotNumber (position + gap - origin)
          .ok ⟨[slot], List.replicate gap 0 ++ content⟩
      | _ => .error (.kind field)
  | .tableArray schema _ =>
      match value with
      | .tableArray tables => do
          let gap := padding position
          let start := position + gap
          let number ← slotNumber tables.length
          let tail ← writeTables (fun position nested => Schema.write position nested schema) origin
            (start + 4 + 4 * tables.length) tables
          let slot ← slotNumber (start - origin)
          .ok ⟨[slot], List.replicate gap 0 ++ slotBytes number
            ++ tail.slots.flatMap slotBytes ++ tail.bytes⟩
      | _ => .error (.kind field)

end

def encode (fields : List FieldSpec) (values : FieldSet) : Except Error Bytes :=
  Schema.write 0 values ⟨"", fields⟩

/-! ## Reading -/

/-- Values that were read, and one past the last byte that they were read from. -/
structure Decoded where
  fields : FieldSet
  extent : Nat

/-- Something read, and one past the last byte that it was read from. -/
structure Seen (α : Type) where
  value : α
  extent : Nat

def bytesAt (buffer : Bytes) (position count : Nat) : Except Error (Seen Bytes) :=
  if positionLimit ≤ position + count then .error .tooLarge
  else if buffer.length < position + count then
    .error (.truncated (position + count) buffer.length)
  else .ok ⟨(buffer.drop position).take count, position + count⟩

def numberAt (buffer : Bytes) (position width : Nat) : Except Error (Seen Nat) := do
  let bytes ← bytesAt buffer position width
  .ok ⟨LittleEndian.decode bytes.value, bytes.extent⟩

/--
Follows a slot: its number counts from `base` and must lead past `floor` and
inside the buffer.
-/
def follow (buffer : Bytes) (field : String) (slot base floor : Nat) :
    Except Error (Seen Nat) := do
  let raw ← numberAt buffer slot 4
  let target := base + raw.value
  if positionLimit ≤ target then .error .tooLarge
  else if target < floor ∨ buffer.length ≤ target then .error (.stray field target)
  else .ok ⟨target, raw.extent⟩

/-- Reads `count` tables through as many slots, the first at `slot`. -/
def readTables (read : Nat → Except Error (Seen FieldSet)) (buffer : Bytes) (field : String)
    (origin floor : Nat) : (slot count : Nat) → Except Error (Seen (List FieldSet))
  | _, 0 => .ok ⟨[], 0⟩
  | slot, count + 1 => do
      let target ← follow buffer field slot origin floor
      let table ← read target.value
      let rest ← readTables read buffer field origin floor (slot + 4) count
      .ok ⟨table.value :: rest.value, max (max target.extent table.extent) rest.extent⟩

mutual

def Schema.readAt (buffer : Bytes) (start : Nat) : Schema → Except Error (Seen FieldSet)
  | ⟨_, fields⟩ => do
      let inline ← bytesAt buffer start (inlineSize fields)
      let read ← readFields buffer start inline.extent start [] fields
      .ok ⟨read.value, max inline.extent read.extent⟩

/--
Reads fields from the position `cursor` of the inline region on; `floor` is
the end of that region.
-/
def readFields (buffer : Bytes) (origin floor cursor : Nat) (values : FieldSet) :
    List FieldSpec → Except Error (Seen FieldSet)
  | [] => .ok ⟨values, 0⟩
  | ⟨name, kind⟩ :: rest => do
      let value ← Kind.readAt buffer origin floor cursor name kind
      let read ← readFields buffer origin floor (cursor + kind.inlineSize)
        (values.insert name value.value) rest
      .ok ⟨read.value, max value.extent read.extent⟩

def Kind.readAt (buffer : Bytes) (origin floor cursor : Nat) (field : String) :
    Kind → Except Error (Seen Value)
  | .scalar width => do
      let n ← numberAt buffer cursor width.bytes
      .ok ⟨.scalar n.value.toUInt64, n.extent⟩
  | .array size => do
      let bytes ← bytesAt buffer cursor size
      .ok ⟨.array bytes.value, bytes.extent⟩
  | .vector _ => do
      let target ← follow buffer field cursor 0 floor
      let length ← numberAt buffer target.value 4
      let bytes ← bytesAt buffer (target.value + 4) length.value
      .ok ⟨.vector bytes.value, max (max target.extent length.extent) bytes.extent⟩
  | .table schema => do
      let target ← follow buffer field cursor origin floor
      let table ← Schema.readAt buffer target.value schema
      .ok ⟨.table table.value, max target.extent table.extent⟩
  | .tableArray schema _ => do
      let target ← follow buffer field cursor origin floor
      let number ← numberAt buffer target.value 4
      let slots ← bytesAt buffer (target.value + 4) (4 * number.value)
      let tables ← readTables (fun start => Schema.readAt buffer start schema) buffer field
        origin slots.extent (target.value + 4) number.value
      .ok ⟨.tableArray tables.value,
        max (max (max target.extent number.extent) slots.extent) tables.extent⟩

end

def decode (fields : List FieldSpec) (buffer : Bytes) : Except Error Decoded := do
  let read ← Schema.readAt buffer 0 ⟨"", fields⟩
  .ok ⟨read.value, read.extent⟩

end LedgerTx.Layout
