import LedgerTx.Coded
import LedgerTx.Hash.Keccak
import LedgerTx.Hash.Ripemd160

/-!
# Secret commitments

A secret lock publishes a 32-byte commitment to a proof under one of four
hashes; the 20-byte hash is filled up with zero bytes.
-/

namespace LedgerTx.Hash

/-- The hash that a secret commits to its proof with. -/
inductive Commitment where
  | sha3
  | keccak
  | hash160
  | hash256
deriving DecidableEq

namespace Commitment

def label : Commitment → String
  | sha3 => "SHA3_256"
  | keccak => "KECCAK_256"
  | hash160 => "HASH_160"
  | hash256 => "HASH_256"

instance : Coded Commitment where
  all := [sha3, keccak, hash160, hash256]
  code
    | sha3 => 0
    | keccak => 1
    | hash160 => 2
    | hash256 => 3
  name
    | sha3 => "Sha3_256"
    | keccak => "Keccak256"
    | hash160 => "Hash160"
    | hash256 => "Hash256"
  mem_all a := by cases a <;> simp
  nodup_codes := by decide

def secret (commitment : Commitment) (proof : Bytes) : Block 32 :=
  match commitment with
  | sha3 => sha3_256 proof
  | keccak => keccak256 proof
  | hash160 => (Hash.hash160 proof).append (Block.zero : Block 12)
  | hash256 => doubleSha256 proof

end Commitment

end LedgerTx.Hash
