import LedgerTx.Operation.Basic

/-!
# Limits on drafts

The bounds that a draft must keep.  All list and text bounds are within what
the layout of the operation can hold.
-/

namespace LedgerTx

def Transfer.maxMosaics : Nat := 255

def Transfer.maxMessageSize : Nat := 1024

def MosaicProperties.maxDivisibility : Nat := 6

/-- The fee of a levy of the whole amount. -/
def Levy.whole : Nat := 100 * Levy.percent

def AccountFilter.maxChanges : Nat := 255

def Multisig.maxChanges : Nat := 255

def MetadataChange.maxKeySize : Nat := 128

def MetadataChange.maxValueSize : Nat := 1024

def Offer.maxCount : Nat := 255

def ContractChange.maxChanges : Nat := 255

def NetworkConfig.maxTextSize : Nat := 65535

end LedgerTx
