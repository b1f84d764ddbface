import LedgerTx.Fault
import LedgerTx.Hash.Ripemd160
import LedgerTx.Key.Basic
import LedgerTx.Network
import LedgerTx.Text.Base32
import LedgerTx.Text.Blank
import LedgerTx.Text.Utf8

/-!
# Addresses

An address is a network and the hash of an account's public key.  Its
25 bytes are the network byte, the 20-byte hash and the first four bytes of
the SHA3-256 digest of both; its text is their base32 form, also written
with a dash after every six letters.  Reading a text ignores blanks at its
ends, dashes and the case of ASCII letters.
-/

namespace LedgerTx

structure Address where
  network : Network
  keyHash : Block 20
deriving DecidableEq

namespace Address

inductive Error where
  | network (byte : UInt8)
  | checksum
  | size (count : Nat)
  | notBase32
  | decodedSize
deriving DecidableEq

def Error.fault : Error → Fault
  | network byte => .invalid "address" s!"unknown network byte 0x{Hex.ofByteLower byte}"
  | checksum => .invalid "address" "checksum mismatch"
  | size count => .invalid "address" s!"expected 40 characters, got {count}"
  | notBase32 => .invalid "address" "not base32"
  | decodedSize => .invalid "address" "wrong decoded length"

/-- The address of a public key: RIPEMD-160 of its SHA3-256 digest. -/
def ofPublicKey (key : PublicKey) (network : Network) : Address :=
  ⟨network, Hash.ripemd160 (Hash.sha3_256 key.bytes).bytes⟩

def checksum (body : Bytes) : Block 4 :=
  Block.front 4 (Hash.sha3_256 body)

/-- Network byte, key hash and checksum. -/
def toBlock (address : Address) : Block 25 :=
  let body := address.network.byte :: address.keyHash.bytes
  ⟨body ++ (checksum body).bytes, by
    simp [body, address.keyHash.length_bytes, (checksum _).length_bytes]⟩

/-- Reads 25 bytes; the network byte is checked before the checksum. -/
def ofBlock (block : Block 25) : Except Error Address :=
  let body := block.bytes.take 21
  match block.bytes.head? with
  | none => .error .decodedSize
  | some byte =>
      match Network.ofByte? byte with
      | none => .error (.network byte)
      | some network =>
          if (checksum body).bytes = block.bytes.drop 21 then
            .ok ⟨network, ⟨body.drop 1, by simp [body, block.length_bytes]⟩⟩
          else .error .checksum

def plainChars (address : Address) : List Char :=
  Base32.encodeChars address.toBlock.bytes

def plain (address : Address) : String :=
  String.ofList address.plainChars

def dashed : List Char → List Char
  | a :: b :: c :: d :: e :: f :: g :: rest => a :: b :: c :: d :: e :: f :: '-' :: dashed (g :: rest)
  | chars => chars

def pretty (address : Address) : String :=
  String.ofList (dashed address.plainChars)

/-- What a text is read as: no blanks at the ends, no dashes, upper case. -/
def normalize (text : String) : List Char :=
  ((Text.trim text.toList).filter (· != '-')).map Char.toUpper

/-- Reads the text of an address by a reader of base32; its size is counted in UTF-8 bytes. -/
def ofTextWith (decode : List Char → Option Bytes) (text : String) : Except Error Address :=
  let chars := normalize text
  let size := Utf8.size (String.ofList chars)
  if size ≠ 40 then .error (.size size)
  else
    match decode chars with
    | none => .error .notBase32
    | some bytes =>
        match Block.ofBytes? bytes with
        | none => .error .decodedSize
        | some block => ofBlock block

def ofText (text : String) : Except Error Address := ofTextWith Base32.decodeChars text

def describe (address : Address) : String := s!"Address({address.plain})"

def isDerivedFrom (address : Address) (key : PublicKey) : Bool :=
  ofPublicKey key address.network == address

end Address

end LedgerTx
