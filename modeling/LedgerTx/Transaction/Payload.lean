import LedgerTx.Layout.Flat
import LedgerTx.Transaction.Basic

/-!
# Payloads

A payload is a header and a body in the flat form.  The header starts with
the size of the whole payload; after the body of an aggregate follow its
cosignatures, 96 bytes each.  An embedded payload has a shorter header.
Reading checks the size, leaves no byte over, and refuses what no body of
the kind can be.
-/

namespace LedgerTx

open Layout (FieldSet Schema FieldSpec Value)

-- Powers are taken with the core operation.
attribute [local instance (high)] instPowNat instNatPowNat

/-! ## Headers -/

def transactionHeader : Schema :=
  ⟨"transaction_header", [.u32 "size", .array "signature" 64, .array "signer" 32, .u32 "reserved",
    .u16 "version", .u16 "type", .u64 "max_fee", .u64 "deadline"]⟩

def embeddedHeader : Schema :=
  ⟨"embedded_header", [.u32 "size", .u32 "reserved", .u16 "version", .u16 "type"]⟩

namespace Payload

def headerSize : Nat := 124

def embeddedHeaderSize : Nat := 12

def signaturePosition : Nat := 4

/-- The position of what the signer signs. -/
def signedPosition : Nat := 100

def kindPosition : Nat := 106

def embeddedKindPosition : Nat := 10

def cosignatureSize : Nat := 96

/-! ## Writing -/

/-- Values as a flat table, by way of their offset table. -/
def flat (schemas : List Schema) (values : FieldSet) : Except PayloadError Bytes := do
  let fields := Schema.join schemas
  let table ← Layout.encode fields values
  Layout.flatten fields table

def withSize (payload : Bytes) : Except PayloadError Bytes :=
  if payload.length < 2 ^ (32 : Nat) then
    .ok (LittleEndian.encode 4 payload.length ++ payload.drop 4)
  else .error (.layout .tooLarge)

/-- The bytes of a cosignature: the signer, then the signature. -/
def cosignatureBytes (cosignature : Cosignature) : Bytes :=
  cosignature.signer.bytes ++ cosignature.signature.bytes

def commonValues (version : Nat) (kind : TransactionKind) : FieldSet :=
  [("size", .scalar 0), ("reserved", .scalar 0), ("version", .number version),
    ("type", .coded kind)]

def aggregateValues (joined : Bytes) : FieldSet :=
  [("transactions_size", .number joined.length), ("transactions", .vector joined)]

/-- The signature and signer as written; zero bytes when there are none. -/
def signatureValues (info : Option SignatureInfo) : FieldSet :=
  match info with
  | some info => [("signature", .block info.signature.block), ("signer", .block info.signer.block)]
  | none =>
      [("signature", .block (.zero : Block 64)), ("signer", .block (.zero : Block 32))]

end Payload

/-- The payload of an embedded transaction, which cannot be an aggregate. -/
def Embedded.write (embedded : Embedded) : Except PayloadError Bytes :=
  match embedded.body with
  | .aggregate _ _ _ => .error (.content "type" .nestedAggregate)
  | .operation operation => do
      let values := Payload.commonValues embedded.versionWord operation.kind
        ++ operation.fields embedded.network
      Payload.withSize (← Payload.flat [embeddedHeader, operation.kind.schema] values)

namespace Transaction

def bodyValues (network : Network) : Body → Except PayloadError FieldSet
  | .operation operation => .ok (operation.fields network)
  | .aggregate _ inner _ => do
      .ok (Payload.aggregateValues (← inner.mapM Embedded.write).flatten)

def write (tx : Transaction) : Except PayloadError Bytes := do
  let body ← bodyValues tx.network tx.body
  let values := Payload.commonValues tx.versionWord tx.kind
    ++ Payload.signatureValues tx.signature
    ++ [("max_fee", .scalar tx.maxFee), ("deadline", .scalar tx.deadline.millis)] ++ body
  let bytes ← Payload.flat [transactionHeader, tx.kind.schema] values
  Payload.withSize (bytes ++ tx.body.cosignatures.flatMap Payload.cosignatureBytes)

end Transaction

/-! ## Reading -/

namespace Payload

/-- The kind at a position of a payload that is at least as long as its header. -/
def kindAt (position header : Nat) (bytes : Bytes) : Except PayloadError TransactionKind :=
  if bytes.length < header then .error (.layout (.truncated header bytes.length))
  else
    let code := LittleEndian.decode ((bytes.drop position).take 2)
    match Coded.ofCode? code with
    | some kind => .ok kind
    | none => .error (.unknownKind code)

def kind (bytes : Bytes) : Except PayloadError TransactionKind :=
  kindAt kindPosition headerSize bytes

def declaredSize (bytes : Bytes) : Nat := LittleEndian.decode (bytes.take 4)

def checkSize (bytes : Bytes) : Except PayloadError Unit :=
  if declaredSize bytes = bytes.length then .ok ()
  else .error (.size (declaredSize bytes) bytes.length)

def networkVersion (fields : FieldSet) : Except PayloadError (Network × UInt8) := do
  let word ← fields.scalar16 "version"
  let byte := (word >>> 8).toUInt8
  match Network.ofByte? byte with
  | some network => .ok (network, word.toUInt8)
  | none => .error (.content "version" (.network byte))

/-- The signature of a header; when all its bytes are zero there is none. -/
def signatureInfo (fields : FieldSet) : Except PayloadError (Option SignatureInfo) := do
  let signature ← fields.block 64 "signature"
  let signer ← fields.block 32 "signer"
  if signature.bytes.all (· == 0) && signer.bytes.all (· == 0) then .ok none
  else .ok (some ⟨⟨signature⟩, ← Content.key "signer" signer⟩)

def cosignatureOf (bytes : Bytes) : Except PayloadError Cosignature :=
  match Block.ofBytes? (bytes.take 32), Block.ofBytes? (bytes.drop 32) with
  | some signer, some signature => do .ok ⟨← Content.key "cosignatures" signer, ⟨signature⟩⟩
  | _, _ => .error (.trailing bytes.length)

/-- The cosignatures after the body of an aggregate; only whole ones are accepted. -/
def cosignatures (bytes : Bytes) : Except PayloadError (List Cosignature) :=
  if bytes.length % cosignatureSize = 0 then
    (Bytes.chunks cosignatureSize bytes).mapM cosignatureOf
  else .error (.trailing (bytes.length % cosignatureSize))

end Payload

def Embedded.read (bytes : Bytes) : Except PayloadError Embedded := do
  let kind ← Payload.kindAt Payload.embeddedKindPosition Payload.embeddedHeaderSize bytes
  match kind.reader with
  | .aggregate _ => .error (.content "type" .nestedAggregate)
  | .operation readBody => do
      Payload.checkSize bytes
      let decoded ← Layout.parse (Schema.join [embeddedHeader, kind.schema]) bytes
      if decoded.extent ≠ bytes.length then
        .error (.trailing (bytes.length - decoded.extent))
      else do
        let (network, version) ← Payload.networkVersion decoded.fields
        let operation ← readBody decoded.fields
        .ok ⟨network, version, .operation operation⟩

/--
Reads embedded payloads one after the other.  Each is as long as its first
four bytes say, and at least as long as its header.
-/
def Embedded.readAll (bytes : Bytes) : Except PayloadError (List Embedded) :=
  if bytes.isEmpty then .ok []
  else if bytes.length < Payload.embeddedHeaderSize then
    .error (.layout (.truncated Payload.embeddedHeaderSize bytes.length))
  else
    let size := Payload.declaredSize bytes
    if _short : size < Payload.embeddedHeaderSize then
      .error (.content "transactions" (.innerSize size))
    else if _long : bytes.length < size then .error (.layout (.truncated size bytes.length))
    else
      match Embedded.read (bytes.take size) with
      | .error e => .error e
      | .ok first =>
          match Embedded.readAll (bytes.drop size) with
          | .error e => .error e
          | .ok rest => .ok (first :: rest)
termination_by bytes.length
decreasing_by
  simp only [Payload.embeddedHeaderSize] at *
  simp only [List.length_drop]
  omega

namespace Transaction

def readBody (kind : TransactionKind) (fields : FieldSet) (trailing : Bytes) :
    Except PayloadError Body :=
  match kind.reader with
  | .operation read => do
      let operation ← read fields
      if trailing.isEmpty then .ok (.operation operation)
      else .error (.trailing trailing.length)
  | .aggregate bonded => do
      let inner ← Embedded.readAll (← fields.vector "transactions")
      .ok (.aggregate bonded inner (← Payload.cosignatures trailing))

def read (bytes : Bytes) : Except PayloadError Transaction := do
  let kind ← Payload.kind bytes
  Payload.checkSize bytes
  let decoded ← Layout.parse (Schema.join [transactionHeader, kind.schema]) bytes
  let fields := decoded.fields
  let (network, version) ← Payload.networkVersion fields
  let body ← readBody kind fields (bytes.drop decoded.extent)
  let maxFee ← fields.scalar "max_fee"
  let deadline ← fields.scalar "deadline"
  let signature ← Payload.signatureInfo fields
  .ok ⟨network, version, maxFee, ⟨deadline⟩, signature, body⟩

end Transaction

/-- One past the body of a payload; its declared size is not looked at. -/
def Payload.bodyEnd (bytes : Bytes) : Except PayloadError Nat := do
  let kind ← Payload.kind bytes
  let decoded ← Layout.parse (Schema.join [transactionHeader, kind.schema]) bytes
  .ok decoded.extent

end LedgerTx
