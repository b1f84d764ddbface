import LedgerTx.Kind
import LedgerTx.Layout.FieldSet
import LedgerTx.Recipient

/-!
# Contents of payloads

The causes for which a payload is refused, and the readers that turn the
values of a parsed table into members of enumerations, texts, keys,
addresses and recipients.
-/

namespace LedgerTx

open Layout (FieldSet Value)

inductive ContentFault where
  | unknownCode (code : Nat)
  | text
  | key (cause : KeyError)
  | address (cause : Address.Error)
  | recipient (cause : Recipient.Error)
  | network (byte : UInt8)
  | messageType (type : UInt8)
  | mosaicProperty (id : UInt8)
  | metadataType (type : UInt8) (kind : TransactionKind)
  | modificationSize (declared needed : Nat)
  | innerSize (size : Nat)
  | nestedAggregate
deriving DecidableEq

def ContentFault.message : ContentFault → String
  | unknownCode code => s!"unknown code {code}"
  | text => "not valid UTF-8"
  | key cause => cause.message
  | address cause => cause.fault.message
  | recipient cause => cause.fault.message
  | network byte => s!"unknown network type 0x{Hex.encode [byte]}"
  | messageType type => s!"unknown message type {type}"
  | mosaicProperty id => s!"unknown mosaic property {id}"
  | metadataType type kind => s!"{type} does not match {kind.label}"
  | modificationSize declared needed =>
      s!"modification size {declared}, content needs {needed}"
  | innerSize size => s!"embedded size {size} is smaller than its header"
  | nestedAggregate => "aggregate transactions cannot be embedded"

/-- Why a payload cannot be written or read. -/
inductive PayloadError where
  | layout (cause : Layout.Error)
  | size (declared actual : Nat)
  | unknownKind (code : Nat)
  | trailing (count : Nat)
  | content (field : String) (cause : ContentFault)
deriving DecidableEq

def PayloadError.message : PayloadError → String
  | layout cause => cause.message
  | size declared actual => s!"declared size {declared} does not match buffer length {actual}"
  | unknownKind code => s!"unknown transaction type 0x{Hex.ofNat 4 code}"
  | trailing count => s!"{count} unexpected trailing bytes"
  | content field cause => Layout.invalidMessage field cause.message

instance : MonadLift (Except Layout.Error) (Except PayloadError) where
  monadLift
    | .ok value => .ok value
    | .error cause => .error (.layout cause)

namespace Layout.Value

def number (n : Nat) : Value := scalar n.toUInt64

def coded {α : Type} [Coded α] (a : α) : Value := number (Coded.code a)

def block {size : Nat} (b : Block size) : Value := array b.bytes

def text (s : String) : Value := vector (Utf8.encode s)

end Layout.Value

namespace Content

def coded (α : Type) [Coded α] (fields : FieldSet) (field : String) : Except PayloadError α := do
  let n ← fields.scalar field
  match Coded.ofCode? n.toNat with
  | some a => .ok a
  | none => .error (.content field (.unknownCode n.toNat))

/-- The text whose UTF-8 form the bytes are; `field` is named when there is none. -/
def text (field : String) (bytes : Bytes) : Except PayloadError String :=
  match Utf8.decode? bytes with
  | some s => .ok s
  | none => .error (.content field .text)

/-- The public key whose bytes are given; `field` is named when they encode no point. -/
def key (field : String) (block : Block 32) : Except PayloadError PublicKey :=
  match PublicKey.ofBlock block with
  | .ok key => .ok key
  | .error cause => .error (.content field (.key cause))

def keyIn (fields : FieldSet) (field : String) : Except PayloadError PublicKey := do
  key field (← fields.block 32 field)

def address (fields : FieldSet) (field : String) : Except PayloadError Address := do
  match Address.ofBlock (← fields.block 25 field) with
  | .ok address => .ok address
  | .error cause => .error (.content field (.address cause))

def recipient (fields : FieldSet) (field : String) : Except PayloadError Recipient := do
  match Recipient.ofBlock (← fields.block 25 field) with
  | .ok recipient => .ok recipient
  | .error cause => .error (.content field (.recipient cause))

end Content

end LedgerTx
