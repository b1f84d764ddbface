import LedgerTx.Bytes

/-!
# Base32 text

Every five bytes are eight letters of the alphabet `A` to `Z`, `2` to `7`,
most significant first.  Only whole groups are coded, so no padding is ever
written and no letter is partly used.  Reading takes the padding `=` for the
letter of zero, and up to six of them at the end make the result shorter.
-/

namespace LedgerTx.Base32

def letter (n : Nat) : Char :=
  Char.ofNat (if n < 26 then 65 + n else 24 + n)

def value? (c : Char) : Option Nat :=
  if 'A' ≤ c ∧ c ≤ 'Z' then some (c.toNat - 65)
  else if '2' ≤ c ∧ c ≤ '7' then some (c.toNat - 24)
  else if c = '=' then some 0
  else none

def letters : (width : Nat) → Nat → List Char
  | 0, _ => []
  | width + 1, n => letters width (n / 32) ++ [letter (n % 32)]

/-- The letters of whole groups of five bytes; a shorter last group is dropped. -/
def encodeChars : Bytes → List Char
  | a :: b :: c :: d :: e :: rest =>
      letters 8 (Bytes.ofBigEndian [a, b, c, d, e]) ++ encodeChars rest
  | _ => []

def number? (chars : List Char) : Option Nat :=
  chars.foldlM (fun n c => (value? c).map (32 * n + ·)) 0

/-- The bytes of whole groups of eight letters; a shorter last group is refused. -/
def decodeGroups : List Char → Option Bytes
  | a :: b :: c :: d :: e :: f :: g :: h :: rest => do
      let n ← number? [a, b, c, d, e, f, g, h]
      let bytes ← decodeGroups rest
      some (Bytes.bigEndian 5 n ++ bytes)
  | [] => some []
  | _ => none

/-- The number of letters before the padding at the end, which counts up to six letters. -/
def unpaddedLength (chars : List Char) : Nat :=
  chars.length - min 6 (chars.reverse.takeWhile (· = '=')).length

/-- The bytes of letters, of which those from padding at the end are dropped. -/
def decodeChars (chars : List Char) : Option Bytes :=
  (decodeGroups chars).map (List.take (unpaddedLength chars * 5 / 8))

end LedgerTx.Base32
