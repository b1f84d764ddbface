import LedgerTx.Draft.Limits
import LedgerTx.Fee
import LedgerTx.Transaction.Basic

/-!
# Why a draft is refused

One constructor for each rule that a draft can break.  A list of a contract
change is named by its field: customers, executors or verifiers.
-/

namespace LedgerTx

inductive DraftFault where
  | missing (field : String)
  | notPositive (field : String)
  | oversized (field : String) (limit : Nat)
  | tooManyMosaics
  | repeatedMosaic (id : MosaicId)
  | messageSize
  | divisibility (places : UInt8)
  | zeroDuration
  | noMosaicId (cause : MosaicId.CollisionError)
  | otherMosaicId (given : MosaicId) (nonce : MosaicNonce) (derived : MosaicId)
  | reservedNonce (nonce usable : MosaicNonce)
  | levyShare (fee : UInt64)
  | name (cause : NamespaceName.Error)
  | notNamespace (id : NamespaceId)
  | filterTarget (type : FilterType) (target : FilterTarget)
  | changeCount (count : Nat)
  | delta (field : String) (value : Int32)
  | tooManyCosignatories
  | repeatedCosignatory (key : PublicKey)
  | noChange
  | notBonded (kind : TransactionKind)
  | otherSecret (commitment : Hash.Commitment)
  | keySize (size : Nat)
  | removalValue
  | sameValue
  | tooManyOffers
  | repeatedOffer (side : OfferSide) (id : MosaicId)
  | tooManyParties (list : String)
  | repeatedParty (list : String) (key : PublicKey)
  | billingPeriod
  | minReplicators (replicas : UInt16)
  | percentApprovers (percent : UInt8)
  | nestedAggregate (kind : TransactionKind)
  | embeddedAggregate
  | otherNetwork (kind : TransactionKind) (inner outer : Network)
  | deadline (cause : Deadline.Error)
  | unsized (cause : PayloadError)
  | feeOverflow
deriving DecidableEq

namespace DraftFault

def fault : DraftFault → Fault
  | missing field => .missing field
  | notPositive field => .invalid field "must be positive"
  | oversized field limit => .invalid field s!"exceeds {limit} bytes"
  | tooManyMosaics => .invalid "mosaics" s!"at most {Transfer.maxMosaics} mosaics per transfer"
  | repeatedMosaic id => .invalid "mosaics" s!"mosaic {id.toHex} appears more than once"
  | messageSize => .invalid "message" s!"payload exceeds {Transfer.maxMessageSize} bytes"
  | divisibility places =>
      .invalid "divisibility"
        s!"{places} exceeds the maximum of {MosaicProperties.maxDivisibility}"
  | zeroDuration => .invalid "duration" "must be positive when present"
  | noMosaicId cause => .invalid "nonce" cause.message
  | otherMosaicId given nonce derived =>
      .invalid "mosaic_id" (s!"{given.toHex} is not the id nonce {nonce.value} derives for "
        ++ s!"the owner (expected {derived.toHex})")
  | reservedNonce nonce usable =>
      .invalid "nonce" s!"{nonce.value} maps to a reserved id, use {usable.value}"
  | levyShare fee => .invalid "fee" s!"{fee} exceeds 100% ({Levy.whole})"
  | name cause => cause.fault
  | notNamespace id => .invalid "namespace_id" s!"{id.toHex} is not a namespace id"
  | filterTarget type target =>
      .invalid "property_type"
        s!"{Coded.name type} does not apply to {target.name} modifications"
  | changeCount count =>
      .invalid "modifications" s!"expected 1 to {AccountFilter.maxChanges}, got {count}"
  | delta field value => .invalid field s!"{value.toInt} does not fit in i8"
  | tooManyCosignatories =>
      .invalid "modifications" s!"at most {Multisig.maxChanges} cosignatory changes"
  | repeatedCosignatory key =>
      .invalid "modifications" s!"cosignatory {key.toHex} appears more than once"
  | noChange => .invalid "modifications" "the transaction changes nothing"
  | notBonded kind => .invalid "hash" s!"{kind.label} is not an aggregate bonded transaction"
  | otherSecret commitment =>
      .invalid "proof" s!"does not hash to the secret under {Coded.name commitment}"
  | keySize size =>
      .invalid "key" s!"must be 1 to {MetadataChange.maxKeySize} bytes, got {size}"
  | removalValue => .invalid "value" "a removal carries no value"
  | sameValue =>
      .invalid "value" "equals the current value, the transaction changes nothing"
  | tooManyOffers => .invalid "offers" s!"at most {Offer.maxCount} offers per transaction"
  | repeatedOffer side id =>
      .invalid "offers" s!"{Coded.name side} offer for mosaic {id.toHex} appears more than once"
  | tooManyParties list => .invalid list s!"at most {ContractChange.maxChanges} changes"
  | repeatedParty list key => .invalid list s!"{key.toHex} appears more than once"
  | billingPeriod =>
      .invalid "billing_period" "must be positive and no longer than the duration"
  | minReplicators replicas =>
      .invalid "min_replicators" s!"must be between 1 and {replicas} replicas"
  | percentApprovers percent => .invalid "percent_approvers" s!"{percent} is not a percentage"
  | nestedAggregate kind => .invalid "transactions" s!"{kind.label} cannot be nested"
  | embeddedAggregate =>
      .invalid "transactions" "an aggregate cannot be embedded in another aggregate"
  | otherNetwork kind inner outer =>
      .invalid "transactions" (s!"inner {kind.label} is for {Coded.name inner}, "
        ++ s!"aggregate is for {Coded.name outer}")
  | deadline cause => cause.fault
  | unsized cause => .invalid "max_fee" s!"cannot size transaction: {cause.message}"
  | feeOverflow => FeeStrategy.overflowFault

end DraftFault

end LedgerTx
