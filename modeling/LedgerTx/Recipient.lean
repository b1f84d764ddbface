import LedgerTx.Address
import LedgerTx.Namespace

/-!
# Recipients

A recipient is an address or a namespace that stands for one.  Both take
25 bytes: the lowest bit of the network byte, clear in every network's own
byte, is set for a namespace, whose id and sixteen zero bytes follow.
-/

namespace LedgerTx

inductive Recipient where
  | account (address : Address)
  | named (id : NamespaceId)
deriving DecidableEq

namespace Recipient

inductive Error where
  | address (cause : Address.Error)
  | network
  | padding
deriving DecidableEq

def Error.fault : Error → Fault
  | address cause => cause.fault
  | network => .invalid "recipient" "unknown network byte"
  | padding => .invalid "recipient" "non-zero alias padding"

def toBlock (recipient : Recipient) (network : Network) : Block 25 :=
  match recipient with
  | account address => address.toBlock
  | named id =>
      ⟨(network.byte ||| 1) :: ((Word64.toBlock id.value).bytes ++ List.replicate 16 0), by
        simp [(Word64.toBlock _).length_bytes]⟩

/-- Reads 25 bytes; the network byte is checked before the padding. -/
def ofBlock (block : Block 25) : Except Error Recipient :=
  match block.bytes.head? with
  | none => .error .network
  | some byte =>
      if byte &&& 1 = 0 then
        match Address.ofBlock block with
        | .ok address => .ok (.account address)
        | .error cause => .error (.address cause)
      else
        match Network.ofByte? (byte &&& 0xfe) with
        | none => .error .network
        | some _ =>
            if (block.bytes.drop 9).all (· == 0) then
              let id := LittleEndian.decode ((block.bytes.drop 1).take 8)
              .ok (.named ⟨id.toUInt64⟩)
            else .error .padding

end Recipient

end LedgerTx
