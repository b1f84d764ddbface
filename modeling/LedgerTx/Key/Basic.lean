import LedgerTx.Curve.Point
import LedgerTx.Curve.Scalar
import LedgerTx.Hash.Keccak
import LedgerTx.Text.Hex

/-!
# Keys

A private key is a 32-byte seed.  Its SHA3-512 digest gives the secret
multiplier, with fixed low and high bits, and the seed of the signing
nonces; the public key is the compressed multiple of the base point.
-/

namespace LedgerTx

-- Powers are taken with the core operation.
attribute [local instance (high)] instPowNat instNatPowNat

inductive KeyError where
  | pointEncoding
  | publicKey
  | privateKey
  | signature
  | verification
  | decryption
deriving DecidableEq

def KeyError.message : KeyError → String
  | pointEncoding => "invalid point encoding: not canonical or not on the curve"
  | publicKey => "invalid public key"
  | privateKey => "invalid private key"
  | signature => "invalid signature encoding"
  | verification => "signature verification failed"
  | decryption => "decryption failed: wrong key or corrupted ciphertext"

structure PublicKey where
  block : Block 32
deriving DecidableEq

namespace PublicKey

def bytes (key : PublicKey) : Bytes := key.block.bytes

def point? (key : PublicKey) : Option Curve.Point :=
  Curve.Point.decode? key.block

/-- Whether the bytes of the key encode a point. -/
def Accepted (key : PublicKey) : Prop :=
  key.point?.isSome

instance (key : PublicKey) : Decidable key.Accepted :=
  inferInstanceAs (Decidable (_ = true))

def ofBlock (block : Block 32) : Except KeyError PublicKey :=
  if (PublicKey.mk block).Accepted then .ok ⟨block⟩ else .error .publicKey

def ofHex (text : String) : Except KeyError PublicKey :=
  match Hex.readBlock 32 text with
  | .ok block => ofBlock block
  | .error _ => .error .publicKey

def toHex (key : PublicKey) : String := Hex.encode key.bytes

def describe (key : PublicKey) : String := s!"PublicKey({key.toHex})"

/-- Order of keys by their bytes, the first byte counting most. -/
def order (a b : PublicKey) : Ordering :=
  compare (Bytes.ofBigEndian a.bytes) (Bytes.ofBigEndian b.bytes)

end PublicKey

structure PrivateKey where
  seed : Block 32
deriving DecidableEq

namespace PrivateKey

def ofHex (text : String) : Except KeyError PrivateKey :=
  match Hex.readBlock 32 text with
  | .ok block => .ok ⟨block⟩
  | .error _ => .error .privateKey

def toHex (key : PrivateKey) : String := Hex.encode key.seed.bytes

/-- The text of a private key shown for inspection tells nothing about it. -/
def describe (_key : PrivateKey) : String := "PrivateKey(..)"

def digest (key : PrivateKey) : Block 64 := Hash.sha3_512 key.seed.bytes

/--
The secret multiplier: the front half of the digest with the lowest three
bits clear, bit 255 clear and bit 254 set.
-/
def multiplier (key : PrivateKey) : Nat :=
  let half : Block 32 := Block.front 32 key.digest
  2 ^ (254 : Nat) + half.toNat % 2 ^ (254 : Nat) / 8 * 8

/-- The seed of the signing nonces: the back half of the digest. -/
def nonceSeed (key : PrivateKey) : Block 32 :=
  Block.back 32 key.digest

def publicKey (key : PrivateKey) : PublicKey :=
  ⟨(Curve.Point.mulBase key.multiplier).encode⟩

end PrivateKey

structure KeyPair where
  privateKey : PrivateKey
  publicKey : PublicKey
  publicKey_eq : publicKey = privateKey.publicKey

namespace KeyPair

def ofPrivateKey (key : PrivateKey) : KeyPair :=
  ⟨key, key.publicKey, rfl⟩

def generate (seed : Block 32) : KeyPair :=
  ofPrivateKey ⟨seed⟩

def ofHex (text : String) : Except KeyError KeyPair :=
  (PrivateKey.ofHex text).map ofPrivateKey

def describe (keys : KeyPair) : String := s!"KeyPair(pub={keys.publicKey.toHex})"

end KeyPair

end LedgerTx
