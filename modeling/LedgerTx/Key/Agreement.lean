import LedgerTx.Cipher.Sealed
import LedgerTx.Key.Basic

/-!
# Key agreement and sealed letters

Two accounts agree on a key: one's multiplier times the other's point,
salted and hashed.  A letter is the salt followed by the text sealed under
the agreed key.  Salt and initialization vector are chosen by the caller.
-/

namespace LedgerTx.KeyPair

abbrev saltSize : Nat := 32

/-- The key that two accounts agree on under a salt. -/
def sharedKey (own : KeyPair) (peer : PublicKey) (salt : Block saltSize) :
    Except KeyError (Block 32) :=
  match peer.point? with
  | none => .error .publicKey
  | some point =>
      .ok (Hash.sha3_256 ((point.mul own.privateKey.multiplier).encode.xor salt).bytes)

def sealLetter (own : KeyPair) (peer : PublicKey) (salt : Block saltSize)
    (vector : Block Cipher.blockSize) (plain : Bytes) : Except KeyError Bytes := do
  let key ← own.sharedKey peer salt
  .ok (salt.bytes ++ Cipher.sealWith key vector plain)

/-- Opens a sealed byte string; every fault has the same error. -/
def unsealWith (key : Block 32) (sealed : Bytes) : Except KeyError Bytes :=
  match Cipher.unseal? key sealed with
  | none => .error .decryption
  | some plain => .ok plain

/-- Opens a letter from a peer; one too short for salt, vector and a block is refused first. -/
def openLetter (own : KeyPair) (peer : PublicKey) (letter : Bytes) : Except KeyError Bytes :=
  if letter.length < 64 then .error .decryption
  else
    match Block.ofBytes? (letter.take saltSize) with
    | none => .error .decryption
    | some salt => do
        let key ← own.sharedKey peer salt
        unsealWith key (letter.drop saltSize)

end LedgerTx.KeyPair
