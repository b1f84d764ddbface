import LedgerTx.Document.Operation
import LedgerTx.Transaction.Basic

/-!
# Documents of transactions

A body is the document of its operation or an aggregate of embedded
transactions.  Aggregates in aggregates are read as deep as the document
goes; that they cannot be sent is not a matter of documents.
-/

namespace LedgerTx

open Document (read write record tagged get member orShape)

/-- A cosignature is an array of the signer and the signature. -/
instance : Document Cosignature where
  read
    | .array [signer, signature] => do .ok ⟨← read signer, ← read signature⟩
    | _ => .error .shape
  write cosignature := .array [write cosignature.signer, write cosignature.signature]

instance : Document SignatureInfo :=
  record "signature signer" SignatureInfo.mk fun ⟨signature, signer⟩ => (signature, signer)

namespace Json

mutual

def depth : Json → Nat
  | array items => itemsDepth items + 1
  | object members => membersDepth members + 1
  | _ => 1

def itemsDepth : List Json → Nat
  | [] => 0
  | item :: rest => max (depth item) (itemsDepth rest)

def membersDepth : List (String × Json) → Nat
  | [] => 0
  | (_, value) :: rest => max (depth value) (membersDepth rest)

end

end Json

mutual

/-- Reads a body, aggregates being nested at most `depth` deep. -/
def Body.ofDocument (depth : Nat) (json : Json) : Except DocumentError Body := do
  match depth, ← get json "kind" with
  | depth + 1, "Aggregate" =>
      let bonded ← get json "bonded"
      let inner ← (← orShape (member "inner" json).items?).mapM (Embedded.ofDocument depth)
      .ok (.aggregate bonded inner (← get json "cosignatures"))
  | _, _ => .operation <$> read json

def Embedded.ofDocument (depth : Nat) (json : Json) : Except DocumentError Embedded := do
  .ok ⟨← get json "network", ← get json "version", ← Body.ofDocument depth (member "body" json)⟩

end

mutual

def Body.toDocument : Body → Json
  | .operation op => write op
  | .aggregate bonded inner cosignatures =>
      tagged "Aggregate" (Document.object "bonded inner cosignatures"
        (bonded, Json.array (embeddedDocuments inner), cosignatures))

def Embedded.toDocument : Embedded → Json
  | ⟨network, version, body⟩ =>
      Document.object "network version body" (network, version, body.toDocument)

def embeddedDocuments : List Embedded → List Json
  | [] => []
  | embedded :: rest => embedded.toDocument :: embeddedDocuments rest

end

instance : Document Body := ⟨fun json => Body.ofDocument json.depth json, Body.toDocument⟩

instance : Document Embedded :=
  ⟨fun json => Embedded.ofDocument json.depth json, Embedded.toDocument⟩

instance : Document Transaction :=
  record "network version max_fee deadline signature body" Transaction.mk
    fun ⟨network, version, maxFee, deadline, signature, body⟩ =>
      (network, version, maxFee, deadline, signature, body)

end LedgerTx
