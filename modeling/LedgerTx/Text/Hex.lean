import LedgerTx.Bytes

/-! # Hexadecimal text -/

namespace LedgerTx.Hex

def digit (n : Nat) : Char :=
  Char.ofNat (if n < 10 then 48 + n else 55 + n)

def lowerDigit (n : Nat) : Char :=
  Char.ofNat (if n < 10 then 48 + n else 87 + n)

def value? (c : Char) : Option Nat :=
  if '0' ≤ c ∧ c ≤ '9' then some (c.toNat - 48)
  else if 'A' ≤ c ∧ c ≤ 'F' then some (c.toNat - 55)
  else if 'a' ≤ c ∧ c ≤ 'f' then some (c.toNat - 87)
  else none

def digitsWith (digit : Nat → Char) (bytes : Bytes) : List Char :=
  bytes.flatMap fun b => [digit (b.toNat / 16), digit (b.toNat % 16)]

def encode (bytes : Bytes) : String :=
  String.ofList (digitsWith digit bytes)

def encodeLower (bytes : Bytes) : String :=
  String.ofList (digitsWith lowerDigit bytes)

/-- Reads pairs of digits; a digit without a partner is refused. -/
def decodeChars : List Char → Option Bytes
  | [] => some []
  | [_] => none
  | high :: low :: rest => do
      let h ← value? high
      let l ← value? low
      let bytes ← decodeChars rest
      some ((16 * h + l).toUInt8 :: bytes)

def decode? (text : String) : Option Bytes :=
  decodeChars text.toList

inductive Error where
  | malformed
  | length (expected actual : Nat)
deriving DecidableEq

def Error.message : Error → String
  | malformed => "invalid hex encoding"
  | length expected actual => s!"invalid length: expected {expected} bytes, got {actual}"

def readBlock (size : Nat) (text : String) : Except Error (Block size) :=
  match decode? text with
  | none => .error .malformed
  | some bytes =>
      if h : bytes.length = size then .ok ⟨bytes, h⟩ else .error (.length size bytes.length)

/-- Exactly `width` upper-case digits of a number, its higher digits dropped. -/
def padded : (width : Nat) → Nat → List Char
  | 0, _ => []
  | width + 1, n => padded width (n / 16) ++ [digit (n % 16)]

def ofNat (width n : Nat) : String :=
  String.ofList (padded width n)

def ofByteLower (b : UInt8) : String :=
  encodeLower [b]

end LedgerTx.Hex
