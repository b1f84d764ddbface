import LedgerTx.Draft.Distinct
import LedgerTx.Draft.Fault

/-! # Drafts of exchange offers -/

namespace LedgerTx

def Offer.checkCount (count : Nat) : Except DraftFault Unit :=
  if count = 0 then .error (.missing "offers")
  else if maxCount < count then .error .tooManyOffers
  else .ok ()

def Offer.checkDistinct (keys : List (MosaicId × OfferSide)) : Except DraftFault Unit :=
  match Draft.firstRepeat? id keys with
  | some (mosaic, side) => .error (.repeatedOffer side mosaic)
  | none => .ok ()

def NewOffer.check (offer : NewOffer) : Except DraftFault Unit :=
  if offer.mosaic.amount = 0 then .error (.notPositive "mosaic_amount")
  else if offer.duration = 0 then .error (.notPositive "duration")
  else .ok ()

/-- Checks the number of new offers, then that they are distinct, then each of them. -/
def NewOffer.checkAll (offers : List NewOffer) : Except DraftFault Unit := do
  Offer.checkCount offers.length
  Offer.checkDistinct (offers.map fun offer => (offer.mosaic.id, offer.side))
  offers.forM check

/-- Checks the number of accepted offers, and that all amounts are positive. -/
def TakenOffer.checkAll (offers : List TakenOffer) : Except DraftFault Unit := do
  Offer.checkCount offers.length
  if offers.any fun offer => offer.mosaic.amount == 0 then .error (.notPositive "mosaic_amount")
  else .ok ()

def WithdrawnOffer.checkAll (offers : List WithdrawnOffer) : Except DraftFault Unit := do
  Offer.checkCount offers.length
  Offer.checkDistinct (offers.map fun offer => (offer.id, offer.side))

end LedgerTx
