/-!
# Schemas

A schema is an ordered list of named fields.  A scalar or an array sits
inline; a vector, a nested table and an array of tables take a four-byte
slot there.  The flat form finds the length of a vector and the number of
tables in an array through a scalar of the same or an enclosing table, or
lets them run to the end.
-/

namespace LedgerTx.Layout

inductive Width where
  | u8
  | u16
  | u32
  | u64
deriving DecidableEq

def Width.bytes : Width → Nat
  | u8 => 1
  | u16 => 2
  | u32 => 4
  | u64 => 8

/-- Where the flat form finds the length of a vector. -/
inductive Length where
  | named (scalar : String) (bias : Nat)
  | rest
deriving DecidableEq

/-- Where the flat form finds the number of tables in an array. -/
inductive Count where
  | named (scalar : String)
  | rest
deriving DecidableEq

mutual

inductive Kind where
  | scalar (width : Width)
  | array (size : Nat)
  | vector (length : Length)
  | table (schema : Schema)
  | tableArray (schema : Schema) (count : Count)

structure FieldSpec where
  name : String
  kind : Kind

structure Schema where
  name : String
  fields : List FieldSpec

end

def Kind.inlineSize : Kind → Nat
  | scalar width => width.bytes
  | array size => size
  | vector _ | table _ | tableArray _ _ => 4

def inlineSize : List FieldSpec → Nat
  | [] => 0
  | field :: rest => field.kind.inlineSize + inlineSize rest

namespace Schema

def size (schema : Schema) : Nat := inlineSize schema.fields

/-- The inline position of the first field with the given name among `fields`. -/
def offsetAmong (name : String) : List FieldSpec → Option Nat
  | [] => none
  | field :: rest =>
      if field.name = name then some 0
      else (offsetAmong name rest).map (field.kind.inlineSize + ·)

def offset? (schema : Schema) (name : String) : Option Nat :=
  offsetAmong name schema.fields

/-- The fields of several schemas laid out as one table. -/
def join (schemas : List Schema) : List FieldSpec :=
  schemas.flatMap Schema.fields

end Schema

namespace FieldSpec

def u8 (name : String) : FieldSpec := ⟨name, .scalar .u8⟩

def u16 (name : String) : FieldSpec := ⟨name, .scalar .u16⟩

def u32 (name : String) : FieldSpec := ⟨name, .scalar .u32⟩

def u64 (name : String) : FieldSpec := ⟨name, .scalar .u64⟩

def array (name : String) (size : Nat) : FieldSpec := ⟨name, .array size⟩

def vector (name scalar : String) : FieldSpec := ⟨name, .vector (.named scalar 0)⟩

def table (name : String) (schema : Schema) : FieldSpec := ⟨name, .table schema⟩

def tables (name : String) (schema : Schema) (scalar : String) : FieldSpec :=
  ⟨name, .tableArray schema (.named scalar)⟩

/-- An array of tables that runs to the end. -/
def tablesToEnd (name : String) (schema : Schema) : FieldSpec :=
  ⟨name, .tableArray schema .rest⟩

end FieldSpec

end LedgerTx.Layout
