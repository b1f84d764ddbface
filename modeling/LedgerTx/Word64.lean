import LedgerTx.Fault
import LedgerTx.Text.Hex
import LedgerTx.Text.Utf8

/-!
# 64-bit words

Amounts, ids and heights are 64-bit words.  They travel as pairs of 32-bit
halves, as little-endian bytes, and as hexadecimal text of up to sixteen
characters, which may open with a plus sign.
-/

namespace LedgerTx.Word64

-- Powers are taken with the core operation.
attribute [local instance (high)] instPowNat instNatPowNat

def ofParts (lower higher : UInt32) : UInt64 :=
  (higher.toNat * 2 ^ (32 : Nat) + lower.toNat).toUInt64

def lower (word : UInt64) : UInt32 := word.toUInt32

def higher (word : UInt64) : UInt32 := (word >>> 32).toUInt32

def toBlock (word : UInt64) : Block 8 := Block.ofNat word.toNat

def ofBlock (block : Block 8) : UInt64 := block.toNat.toUInt64

def ofNat? (n : Nat) : Option UInt64 :=
  if n < 2 ^ (64 : Nat) then some n.toUInt64 else none

def add? (a b : UInt64) : Option UInt64 := ofNat? (a.toNat + b.toNat)

def sub? (a b : UInt64) : Option UInt64 := if b ≤ a then some (a - b) else none

def mul? (a b : UInt64) : Option UInt64 := ofNat? (a.toNat * b.toNat)

inductive Error where
  | size
  | digits (text : String)
deriving DecidableEq

def Error.fault : Error → Fault
  | size => .invalid "uint64" "expected 1 to 16 hex digits"
  | digits text => .invalid "uint64" s!"not hex: {text}"

def toHex (word : UInt64) : String := Hex.ofNat 16 word.toNat

def digitsValue? (digits : List Char) : Option Nat :=
  if digits.isEmpty then none
  else digits.foldlM (fun n c => (Hex.value? c).map (16 * n + ·)) 0

/-- The number of a digit string that may open with a plus sign. -/
def signedValue? : List Char → Option Nat
  | '+' :: digits => digitsValue? digits
  | digits => digitsValue? digits

/-- Reads one to sixteen bytes of hexadecimal text. -/
def ofHex (text : String) : Except Error UInt64 :=
  if Utf8.size text = 0 ∨ 16 < Utf8.size text then .error .size
  else
    match signedValue? text.toList with
    | none => .error (.digits text)
    | some n => .ok n.toUInt64

end LedgerTx.Word64
