import LedgerTx.Json.Form
import LedgerTx.Transaction.Signed

/-!
# JSON forms of signed transactions

A signed transaction with its payload in hexadecimal, and a cosignature with
the hash that it was made over.  Reading checks the texts one by one, and
not that they belong together.
-/

namespace LedgerTx

structure HexBytes where
  bytes : Bytes
deriving DecidableEq

instance : JsonForm HexBytes where
  toJson hex := .string (Hex.encode hex.bytes)
  ofJson? json := do (Hex.decode? (← json.text?)).map HexBytes.mk

instance : JsonForm SignedTransaction where
  toJson signed :=
    .object [("hash", JsonForm.toJson signed.hash),
      ("payload", JsonForm.toJson (HexBytes.mk signed.payload)),
      ("signer", JsonForm.toJson signed.signer),
      ("transaction_type", JsonForm.toJson signed.kind),
      ("network_type", JsonForm.toJson signed.network)]
  ofJson? json := do
    match ← json.record? ["hash", "payload", "signer", "transaction_type", "network_type"] with
    | [hash, payload, signer, kind, network] =>
        some ⟨← JsonForm.required? TransactionHash hash,
          (← JsonForm.required? HexBytes payload).bytes, ← JsonForm.required? PublicKey signer,
          ← JsonForm.required? TransactionKind kind, ← JsonForm.required? Network network⟩
    | _ => none

instance : JsonForm DetachedCosignature where
  toJson cosignature :=
    .object [("parent_hash", JsonForm.toJson cosignature.parent),
      ("signature", JsonForm.toJson cosignature.signature),
      ("signer", JsonForm.toJson cosignature.signer)]
  ofJson? json := do
    match ← json.record? ["parent_hash", "signature", "signer"] with
    | [parent, signature, signer] =>
        some ⟨← JsonForm.required? TransactionHash parent,
          ← JsonForm.required? Signature signature, ← JsonForm.required? PublicKey signer⟩
    | _ => none

end LedgerTx
