import LedgerTx.Key.Agreement
import LedgerTx.Text.Utf8

/-! # Messages -/

namespace LedgerTx

/-- A message in the clear or sealed for its recipient. -/
inductive Message where
  | plain (text : String)
  | secure (letter : Bytes)
deriving DecidableEq

namespace Message

def empty : Message := plain ""

def type : Message → UInt8
  | plain _ => 0
  | secure _ => 1

def payload : Message → Bytes
  | plain text => Utf8.encode text
  | secure letter => letter

def sealed (sender : KeyPair) (recipient : PublicKey) (salt : Block 32) (vector : Block 16)
    (text : String) : Except KeyError Message := do
  .ok (.secure (← sender.sealLetter recipient salt vector (Utf8.encode text)))

/-- The text of a message; a letter must open to well-formed text. -/
def read (message : Message) (reader : KeyPair) (author : PublicKey) : Except KeyError String :=
  match message with
  | plain text => .ok text
  | secure letter => do
      match Utf8.decode? (← reader.openLetter author letter) with
      | some text => .ok text
      | none => .error .decryption

end Message

end LedgerTx
