import LedgerTx.Cipher.Aes

/-!
# Sealed byte strings

A plaintext is padded to whole blocks of sixteen bytes, each padding byte
telling their number, and the blocks are chained: every block is added to
the cipher block before it, the first to an initialization vector.  The
sealed form is the vector followed by the cipher blocks.
-/

namespace LedgerTx.Cipher

abbrev keySize : Nat := 32

abbrev blockSize : Nat := 16

/-- Appends one to sixteen bytes, each holding their number. -/
def pad (plain : Bytes) : Bytes :=
  let count := 16 - plain.length % 16
  plain ++ List.replicate count count.toUInt8

/-- Removes padding; refused unless every padding byte tells their number. -/
def unpad? (padded : Bytes) : Option Bytes :=
  let count := (padded.getLast?.getD 0).toNat
  let kept := padded.length - count
  if 1 ≤ count ∧ count ≤ 16 ∧ count ≤ padded.length
      ∧ padded.drop kept = List.replicate count count.toUInt8 then
    some (padded.take kept)
  else none

def chain (keys : RoundKeys) (before : CipherState) : List CipherState → List CipherState
  | [] => []
  | plain :: rest =>
      let sealed := keys.encrypt (plain.xor before)
      sealed :: chain keys sealed rest

def unchain (keys : RoundKeys) (before : CipherState) : List CipherState → List CipherState
  | [] => []
  | sealed :: rest => (keys.decrypt sealed).xor before :: unchain keys sealed rest

def blocks (bytes : Bytes) : List CipherState :=
  (Bytes.chunks blockSize bytes).map .ofBytes

def sealWith (key : Block keySize) (vector : Block blockSize) (plain : Bytes) : Bytes :=
  let sealed := chain (.ofKey key) (.ofBytes vector.bytes) (blocks (pad plain))
  vector.bytes ++ sealed.flatMap CipherState.toBytes

/-- Opens a sealed byte string: whole blocks, at least one, with sound padding. -/
def unseal? (key : Block keySize) (sealed : Bytes) : Option Bytes :=
  if sealed.length < 32 ∨ sealed.length % 16 ≠ 0 then none
  else
    let vector := CipherState.ofBytes (sealed.take 16)
    unpad? ((unchain (.ofKey key) vector (blocks (sealed.drop 16))).flatMap CipherState.toBytes)

end LedgerTx.Cipher
