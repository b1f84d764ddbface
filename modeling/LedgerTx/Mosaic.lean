import LedgerTx.Key.Basic
import LedgerTx.Namespace

/-!
# Mosaics

A mosaic is an asset with an id derived from its owner's key and a nonce.
The highest bit of a mosaic id is clear.  A nonce whose id is reserved is
stepped over, for a bounded number of attempts.
-/

namespace LedgerTx

structure MosaicId where
  value : UInt64
deriving DecidableEq

def MosaicId.toHex (id : MosaicId) : String := Word64.toHex id.value

def MosaicId.ofHex (text : String) : Except Word64.Error MosaicId := (Word64.ofHex text).map mk

structure MosaicNonce where
  value : UInt32
deriving DecidableEq

namespace MosaicNonce

def toBlock (nonce : MosaicNonce) : Block 4 := Block.ofNat nonce.value.toNat

def ofBlock (block : Block 4) : MosaicNonce := ⟨block.toNat.toUInt32⟩

/-- The next nonce; the largest is followed by zero. -/
def next (nonce : MosaicNonce) : MosaicNonce := ⟨nonce.value + 1⟩

end MosaicNonce

namespace MosaicId

def maxAttempts : Nat := 256

/-- No usable id among the nonces tried from `start` on. -/
structure CollisionError where
  start : MosaicNonce
  attempts : Nat
deriving DecidableEq

def CollisionError.message (e : CollisionError) : String :=
  s!"no usable mosaic id after {e.attempts} nonces starting at {e.start.value}"

/-- The id that an owner's nonce stands for, reserved or not. -/
def ofNonce (owner : PublicKey) (nonce : MosaicNonce) : MosaicId :=
  let digest := Hash.sha3_256 (nonce.toBlock.bytes ++ owner.bytes)
  ⟨Hash.word digest &&& ~~~NamespaceId.flag⟩

def isReserved (id : MosaicId) : Bool := id.value == 0

/-- The first nonce with a usable id, and that id. -/
def search (owner : PublicKey) (reserved : MosaicId → Bool) :
    (attempts : Nat) → MosaicNonce → Option (MosaicId × MosaicNonce)
  | 0, _ => none
  | attempts + 1, nonce =>
      let id := ofNonce owner nonce
      if reserved id then search owner reserved attempts nonce.next else some (id, nonce)

def deriveWith (reserved : MosaicId → Bool) (owner : PublicKey) (start : MosaicNonce) :
    Except CollisionError (MosaicId × MosaicNonce) :=
  match search owner reserved maxAttempts start with
  | some found => .ok found
  | none => .error ⟨start, maxAttempts⟩

def derive (owner : PublicKey) (start : MosaicNonce) :
    Except CollisionError (MosaicId × MosaicNonce) :=
  deriveWith isReserved owner start

end MosaicId

structure Mosaic where
  id : MosaicId
  amount : UInt64
deriving DecidableEq

structure MosaicProperties where
  supplyMutable : Bool
  transferable : Bool
  levyMutable : Bool
  divisibility : UInt8
  duration : Option UInt64
deriving DecidableEq

namespace MosaicProperties

/-- The flag bits, lowest first: supply, transfer, levy. -/
def flags (properties : MosaicProperties) : UInt8 :=
  (if properties.supplyMutable then 1 else 0) ||| (if properties.transferable then 2 else 0)
    ||| (if properties.levyMutable then 4 else 0)

/-- Properties from flag bits; higher bits are ignored. -/
def ofFlags (flags divisibility : UInt8) (duration : Option UInt64) : MosaicProperties :=
  ⟨flags &&& 1 ≠ 0, flags &&& 2 ≠ 0, flags &&& 4 ≠ 0, divisibility, duration⟩

end MosaicProperties

end LedgerTx
