import LedgerTx.Layout.Schema
import LedgerTx.Mosaic
import LedgerTx.Operation.Content

/-! # Exchange offers -/

namespace LedgerTx

open Layout (FieldSet Value Schema FieldSpec)

inductive OfferSide where
  | sell
  | buy
deriving DecidableEq

instance : Coded OfferSide where
  all := [.sell, .buy]
  code
    | .sell => 0
    | .buy => 1
  name
    | .sell => "Sell"
    | .buy => "Buy"
  mem_all a := by cases a <;> simp
  nodup_codes := by decide

def OfferSide.opposite : OfferSide → OfferSide
  | sell => buy
  | buy => sell

/-- An offer without what is particular to publishing or accepting it. -/
structure Offer where
  mosaic : Mosaic
  cost : UInt64
  side : OfferSide
deriving DecidableEq

namespace Offer

/-- The layout of an offer with one more field at its end. -/
def schemaWith (name : String) (last : FieldSpec) : Schema :=
  ⟨name, [.u64 "mosaic_id", .u64 "mosaic_amount", .u64 "cost", .u8 "type", last]⟩

def listSchema (name : String) (offer : Schema) : Schema :=
  ⟨name, [.u8 "offers_count", .tables "offers" offer "offers_count"]⟩

def fields (offer : Offer) : FieldSet :=
  [("mosaic_id", .scalar offer.mosaic.id.value), ("mosaic_amount", .scalar offer.mosaic.amount),
    ("cost", .scalar offer.cost), ("type", .coded offer.side)]

def ofFields (fields : FieldSet) : Except PayloadError Offer := do
  let id ← fields.scalar "mosaic_id"
  let amount ← fields.scalar "mosaic_amount"
  let cost ← fields.scalar "cost"
  let side ← Content.coded OfferSide fields "type"
  .ok ⟨⟨⟨id⟩, amount⟩, cost, side⟩

def listFields {α : Type} (write : α → FieldSet) (offers : List α) : FieldSet :=
  [("offers_count", .number offers.length), ("offers", .tableArray (offers.map write))]

def listOf {α : Type} (read : FieldSet → Except PayloadError α) (fields : FieldSet) :
    Except PayloadError (List α) := do
  (← fields.tableArray "offers").mapM read

end Offer

structure NewOffer extends Offer where
  duration : UInt64
deriving DecidableEq

namespace NewOffer

def schema : Schema :=
  Offer.listSchema "exchange_offer_add" (Offer.schemaWith "add_exchange_offer" (.u64 "duration"))

def fields (offer : NewOffer) : FieldSet :=
  offer.toOffer.fields ++ [("duration", .scalar offer.duration)]

def ofFields (fields : FieldSet) : Except PayloadError NewOffer := do
  let offer ← Offer.ofFields fields
  let duration ← fields.scalar "duration"
  .ok ⟨offer, duration⟩

end NewOffer

/-- Accepts an offer of its owner, in whole or in part. -/
structure TakenOffer extends Offer where
  owner : PublicKey
deriving DecidableEq

namespace TakenOffer

def schema : Schema :=
  Offer.listSchema "exchange_offer" (Offer.schemaWith "exchange_offer" (.array "owner" 32))

def fields (offer : TakenOffer) : FieldSet :=
  offer.toOffer.fields ++ [("owner", .block offer.owner.block)]

def ofFields (fields : FieldSet) : Except PayloadError TakenOffer := do
  let offer ← Offer.ofFields fields
  let owner ← Content.keyIn fields "owner"
  .ok ⟨offer, owner⟩

end TakenOffer

structure WithdrawnOffer where
  id : MosaicId
  side : OfferSide
deriving DecidableEq

namespace WithdrawnOffer

def schema : Schema :=
  Offer.listSchema "exchange_offer_remove"
    ⟨"remove_exchange_offer", [.u64 "mosaic_id", .u8 "type"]⟩

def fields (offer : WithdrawnOffer) : FieldSet :=
  [("mosaic_id", .scalar offer.id.value), ("type", .coded offer.side)]

def ofFields (fields : FieldSet) : Except PayloadError WithdrawnOffer := do
  let id ← fields.scalar "mosaic_id"
  let side ← Content.coded OfferSide fields "type"
  .ok ⟨⟨id⟩, side⟩

end WithdrawnOffer

end LedgerTx
