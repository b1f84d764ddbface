import LedgerTx.Key.Basic

/-!
# Signatures

A signature is a compressed point `R` and a scalar `S`.  With `k` the
challenge of `R`, the public key and the message, `S = r + k a` for the
nonce `r` and the multiplier `a`.  Verification is strict: `S` is reduced,
`R` and the public key decode, and `S B - k A` is written as `R`.
-/

namespace LedgerTx

/-- A signature: 32 bytes of `R`, then 32 bytes of `S`. -/
structure Signature where
  block : Block 64
deriving DecidableEq

namespace Signature

def bytes (signature : Signature) : Bytes := signature.block.bytes

theorem half_le : 32 ≤ 64 := by decide

def r (signature : Signature) : Block 32 := Block.front 32 signature.block half_le

def s (signature : Signature) : Block 32 := Block.back 32 signature.block

def ofHex (text : String) : Except KeyError Signature :=
  match Hex.readBlock 64 text with
  | .ok block => .ok ⟨block⟩
  | .error _ => .error .signature

def toHex (signature : Signature) : String := Hex.encode signature.bytes

def describe (signature : Signature) : String := s!"Signature({signature.toHex})"

def challenge (r : Block 32) (key : PublicKey) (message : Bytes) : Nat :=
  Curve.Scalar.ofBytes (Hash.sha3_512 (r.bytes ++ key.bytes ++ message)).bytes

end Signature

def KeyPair.sign (keys : KeyPair) (message : Bytes) : Signature :=
  let nonce := Curve.Scalar.ofBytes
    (Hash.sha3_512 (keys.privateKey.nonceSeed.bytes ++ message)).bytes
  let r := (Curve.Point.mulBase nonce).encode
  let k := Signature.challenge r keys.publicKey message
  let s : Block 32 := .ofNat (Curve.Scalar.addMul nonce k keys.privateKey.multiplier)
  ⟨r.append s⟩

namespace PublicKey

/-- Whether `S` is reduced, `R` decodes and `S B - k A` is written as `R`. -/
def holds (point : Curve.Point) (key : PublicKey) (message : Bytes)
    (signature : Signature) : Bool :=
  match Curve.Scalar.ofCanonical? signature.s with
  | none => false
  | some s =>
      let k := Signature.challenge signature.r key message
      (Curve.Point.decode? signature.r).isSome &&
        ((Curve.Point.mulBase s).sub (point.mul k)).encode == signature.r

/-- Checks a signature; a key that encodes no point is told apart. -/
def verify (key : PublicKey) (message : Bytes) (signature : Signature) : Except KeyError Unit :=
  match key.point? with
  | none => .error .publicKey
  | some point =>
      if holds point key message signature then .ok () else .error .verification

def verifies (key : PublicKey) (message : Bytes) (signature : Signature) : Bool :=
  (key.verify message signature).isOk

end PublicKey

namespace Signature

def verifyRaw (key : Block 32) (message : Bytes) (signature : Signature) :
    Except KeyError Unit := do
  (← PublicKey.ofBlock key).verify message signature

/-- Checks many signatures; any that is not valid fails them all. -/
def verifyAll (items : List (PublicKey × Bytes × Signature)) : Except KeyError Unit :=
  if items.all fun (key, message, signature) => key.verifies message signature then .ok ()
  else .error .verification

end Signature

end LedgerTx
