import LedgerTx.Layout.Schema
import LedgerTx.Message
import LedgerTx.Mosaic
import LedgerTx.Operation.Content

/-!
# Transfers

A transfer sends mosaics and a message to a recipient.  The message size on
the wire counts the byte for the type of the message.
-/

namespace LedgerTx

open Layout (FieldSet Value Schema FieldSpec)

structure Transfer where
  recipient : Recipient
  mosaics : List Mosaic
  message : Message
deriving DecidableEq

namespace Transfer

def mosaicSchema : Schema := ⟨"mosaic", [.u64 "id", .u64 "amount"]⟩

def messageSchema : Schema :=
  ⟨"message", [.u8 "type", ⟨"payload", .vector (.named "message_size" 1)⟩]⟩

def schema : Schema :=
  ⟨"transfer", [.array "recipient" 25, .u16 "message_size", .u8 "mosaics_count",
    .table "message" messageSchema, .tables "mosaics" mosaicSchema "mosaics_count"]⟩

def mosaicFields (mosaic : Mosaic) : FieldSet :=
  [("id", .scalar mosaic.id.value), ("amount", .scalar mosaic.amount)]

def mosaicOf (fields : FieldSet) : Except PayloadError Mosaic := do
  let id ← fields.scalar "id"
  let amount ← fields.scalar "amount"
  .ok ⟨⟨id⟩, amount⟩

def messageFields (message : Message) : FieldSet :=
  [("type", .number message.type.toNat), ("payload", .vector message.payload)]

def messageOf (fields : FieldSet) : Except PayloadError Message := do
  let payload ← fields.vector "payload"
  match ← fields.scalar8 "type" with
  | 0 => do .ok (.plain (← Content.text "message" payload))
  | 1 => .ok (.secure payload)
  | type => .error (.content "message" (.messageType type))

def fields (network : Network) (transfer : Transfer) : FieldSet :=
  [("recipient", .block (transfer.recipient.toBlock network)),
    ("message_size", .number (transfer.message.payload.length + 1)),
    ("mosaics_count", .number transfer.mosaics.length),
    ("message", .table (messageFields transfer.message)),
    ("mosaics", .tableArray (transfer.mosaics.map mosaicFields))]

def ofFields (fields : FieldSet) : Except PayloadError Transfer := do
  let mosaics ← (← fields.tableArray "mosaics").mapM mosaicOf
  let recipient ← Content.recipient fields "recipient"
  let message ← messageOf (← fields.table "message")
  .ok { recipient, mosaics, message }

end Transfer

end LedgerTx
