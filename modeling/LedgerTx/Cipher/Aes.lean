import LedgerTx.Bytes

/-!
# The AES-256 block cipher

The state is four columns of four bytes.  Each encryption step has its own
inverse beside it, and decryption applies the inverses in reverse order.
-/

namespace LedgerTx.Cipher

/-! ## Byte steps -/

def substitution : Array UInt8 :=
  #[0x63, 0x7c, 0x77, 0x7b, 0xf2, 0x6b, 0x6f, 0xc5, 0x30, 0x01, 0x67, 0x2b, 0xfe, 0xd7, 0xab, 0x76,
    0xca, 0x82, 0xc9, 0x7d, 0xfa, 0x59, 0x47, 0xf0, 0xad, 0xd4, 0xa2, 0xaf, 0x9c, 0xa4, 0x72, 0xc0,
    0xb7, 0xfd, 0x93, 0x26, 0x36, 0x3f, 0xf7, 0xcc, 0x34, 0xa5, 0xe5, 0xf1, 0x71, 0xd8, 0x31, 0x15,
    0x04, 0xc7, 0x23, 0xc3, 0x18, 0x96, 0x05, 0x9a, 0x07, 0x12, 0x80, 0xe2, 0xeb, 0x27, 0xb2, 0x75,
    0x09, 0x83, 0x2c, 0x1a, 0x1b, 0x6e, 0x5a, 0xa0, 0x52, 0x3b, 0xd6, 0xb3, 0x29, 0xe3, 0x2f, 0x84,
    0x53, 0xd1, 0x00, 0xed, 0x20, 0xfc, 0xb1, 0x5b, 0x6a, 0xcb, 0xbe, 0x39, 0x4a, 0x4c, 0x58, 0xcf,
    0xd0, 0xef, 0xaa, 0xfb, 0x43, 0x4d, 0x33, 0x85, 0x45, 0xf9, 0x02, 0x7f, 0x50, 0x3c, 0x9f, 0xa8,
    0x51, 0xa3, 0x40, 0x8f, 0x92, 0x9d, 0x38, 0xf5, 0xbc, 0xb6, 0xda, 0x21, 0x10, 0xff, 0xf3, 0xd2,
    0xcd, 0x0c, 0x13, 0xec, 0x5f, 0x97, 0x44, 0x17, 0xc4, 0xa7, 0x7e, 0x3d, 0x64, 0x5d, 0x19, 0x73,
    0x60, 0x81, 0x4f, 0xdc, 0x22, 0x2a, 0x90, 0x88, 0x46, 0xee, 0xb8, 0x14, 0xde, 0x5e, 0x0b, 0xdb,
    0xe0, 0x32, 0x3a, 0x0a, 0x49, 0x06, 0x24, 0x5c, 0xc2, 0xd3, 0xac, 0x62, 0x91, 0x95, 0xe4, 0x79,
    0xe7, 0xc8, 0x37, 0x6d, 0x8d, 0xd5, 0x4e, 0xa9, 0x6c, 0x56, 0xf4, 0xea, 0x65, 0x7a, 0xae, 0x08,
    0xba, 0x78, 0x25, 0x2e, 0x1c, 0xa6, 0xb4, 0xc6, 0xe8, 0xdd, 0x74, 0x1f, 0x4b, 0xbd, 0x8b, 0x8a,
    0x70, 0x3e, 0xb5, 0x66, 0x48, 0x03, 0xf6, 0x0e, 0x61, 0x35, 0x57, 0xb9, 0x86, 0xc1, 0x1d, 0x9e,
    0xe1, 0xf8, 0x98, 0x11, 0x69, 0xd9, 0x8e, 0x94, 0x9b, 0x1e, 0x87, 0xe9, 0xce, 0x55, 0x28, 0xdf,
    0x8c, 0xa1, 0x89, 0x0d, 0xbf, 0xe6, 0x42, 0x68, 0x41, 0x99, 0x2d, 0x0f, 0xb0, 0x54, 0xbb, 0x16]

def substitutionInverse : Array UInt8 :=
  #[0x52, 0x09, 0x6a, 0xd5, 0x30, 0x36, 0xa5, 0x38, 0xbf, 0x40, 0xa3, 0x9e, 0x81, 0xf3, 0xd7, 0xfb,
    0x7c, 0xe3, 0x39, 0x82, 0x9b, 0x2f, 0xff, 0x87, 0x34, 0x8e, 0x43, 0x44, 0xc4, 0xde, 0xe9, 0xcb,
    0x54, 0x7b, 0x94, 0x32, 0xa6, 0xc2, 0x23, 0x3d, 0xee, 0x4c, 0x95, 0x0b, 0x42, 0xfa, 0xc3, 0x4e,
    0x08, 0x2e, 0xa1, 0x66, 0x28, 0xd9, 0x24, 0xb2, 0x76, 0x5b, 0xa2, 0x49, 0x6d, 0x8b, 0xd1, 0x25,
    0x72, 0xf8, 0xf6, 0x64, 0x86, 0x68, 0x98, 0x16, 0xd4, 0xa4, 0x5c, 0xcc, 0x5d, 0x65, 0xb6, 0x92,
    0x6c, 0x70, 0x48, 0x50, 0xfd, 0xed, 0xb9, 0xda, 0x5e, 0x15, 0x46, 0x57, 0xa7, 0x8d, 0x9d, 0x84,
    0x90, 0xd8, 0xab, 0x00, 0x8c, 0xbc, 0xd3, 0x0a, 0xf7, 0xe4, 0x58, 0x05, 0xb8, 0xb3, 0x45, 0x06,
    0xd0, 0x2c, 0x1e, 0x8f, 0xca, 0x3f, 0x0f, 0x02, 0xc1, 0xaf, 0xbd, 0x03, 0x01, 0x13, 0x8a, 0x6b,
    0x3a, 0x91, 0x11, 0x41, 0x4f, 0x67, 0xdc, 0xea, 0x97, 0xf2, 0xcf, 0xce, 0xf0, 0xb4, 0xe6, 0x73,
    0x96, 0xac, 0x74, 0x22, 0xe7, 0xad, 0x35, 0x85, 0xe2, 0xf9, 0x37, 0xe8, 0x1c, 0x75, 0xdf, 0x6e,
    0x47, 0xf1, 0x1a, 0x71, 0x1d, 0x29, 0xc5, 0x89, 0x6f, 0xb7, 0x62, 0x0e, 0xaa, 0x18, 0xbe, 0x1b,
    0xfc, 0x56, 0x3e, 0x4b, 0xc6, 0xd2, 0x79, 0x20, 0x9a, 0xdb, 0xc0, 0xfe, 0x78, 0xcd, 0x5a, 0xf4,
    0x1f, 0xdd, 0xa8, 0x33, 0x88, 0x07, 0xc7, 0x31, 0xb1, 0x12, 0x10, 0x59, 0x27, 0x80, 0xec, 0x5f,
    0x60, 0x51, 0x7f, 0xa9, 0x19, 0xb5, 0x4a, 0x0d, 0x2d, 0xe5, 0x7a, 0x9f, 0x93, 0xc9, 0x9c, 0xef,
    0xa0, 0xe0, 0x3b, 0x4d, 0xae, 0x2a, 0xf5, 0xb0, 0xc8, 0xeb, 0xbb, 0x3c, 0x83, 0x53, 0x99, 0x61,
    0x17, 0x2b, 0x04, 0x7e, 0xba, 0x77, 0xd6, 0x26, 0xe1, 0x69, 0x14, 0x63, 0x55, 0x21, 0x0c, 0x7d]

def subByte (b : UInt8) : UInt8 :=
  substitution.getD b.toNat 0

def unsubByte (b : UInt8) : UInt8 :=
  substitutionInverse.getD b.toNat 0

def double (b : UInt8) : UInt8 :=
  if b &&& 0x80 = 0 then b <<< 1 else (b <<< 1) ^^^ 0x1b

/-- Product with a factor below sixteen in the field of 256 elements. -/
def times (factor b : UInt8) : UInt8 :=
  let b2 := double b
  let b4 := double b2
  let b8 := double b4
  (if factor &&& 1 = 0 then 0 else b) ^^^ (if factor &&& 2 = 0 then 0 else b2)
    ^^^ (if factor &&& 4 = 0 then 0 else b4) ^^^ (if factor &&& 8 = 0 then 0 else b8)

/-! ## Columns -/

structure Column where
  b0 : UInt8
  b1 : UInt8
  b2 : UInt8
  b3 : UInt8
deriving DecidableEq

namespace Column

def xor (c d : Column) : Column :=
  ⟨c.b0 ^^^ d.b0, c.b1 ^^^ d.b1, c.b2 ^^^ d.b2, c.b3 ^^^ d.b3⟩

def map (f : UInt8 → UInt8) (c : Column) : Column :=
  ⟨f c.b0, f c.b1, f c.b2, f c.b3⟩

def rotate (c : Column) : Column :=
  ⟨c.b1, c.b2, c.b3, c.b0⟩

/-- Product with the circulant matrix whose first row is given. -/
def circulant (m0 m1 m2 m3 : UInt8) (c : Column) : Column :=
  ⟨times m0 c.b0 ^^^ times m1 c.b1 ^^^ times m2 c.b2 ^^^ times m3 c.b3,
    times m3 c.b0 ^^^ times m0 c.b1 ^^^ times m1 c.b2 ^^^ times m2 c.b3,
    times m2 c.b0 ^^^ times m3 c.b1 ^^^ times m0 c.b2 ^^^ times m1 c.b3,
    times m1 c.b0 ^^^ times m2 c.b1 ^^^ times m3 c.b2 ^^^ times m0 c.b3⟩

def mix (c : Column) : Column := circulant 2 3 1 1 c

def unmix (c : Column) : Column := circulant 14 11 13 9 c

def toBytes (c : Column) : Bytes :=
  [c.b0, c.b1, c.b2, c.b3]

/-- The column of the first four bytes, missing ones being zero. -/
def ofBytes (bytes : Bytes) : Column :=
  ⟨bytes.getD 0 0, bytes.getD 1 0, bytes.getD 2 0, bytes.getD 3 0⟩

end Column

/-! ## States -/

/-- The sixteen bytes that the cipher works on, column after column. -/
structure CipherState where
  c0 : Column
  c1 : Column
  c2 : Column
  c3 : Column
deriving DecidableEq

namespace CipherState

def xor (s t : CipherState) : CipherState :=
  ⟨s.c0.xor t.c0, s.c1.xor t.c1, s.c2.xor t.c2, s.c3.xor t.c3⟩

def map (f : Column → Column) (s : CipherState) : CipherState :=
  ⟨f s.c0, f s.c1, f s.c2, f s.c3⟩

def sub (s : CipherState) : CipherState := s.map (.map subByte)

def unsub (s : CipherState) : CipherState := s.map (.map unsubByte)

/-- Row `r` moves left by `r` columns. -/
def shift (s : CipherState) : CipherState :=
  ⟨⟨s.c0.b0, s.c1.b1, s.c2.b2, s.c3.b3⟩, ⟨s.c1.b0, s.c2.b1, s.c3.b2, s.c0.b3⟩,
    ⟨s.c2.b0, s.c3.b1, s.c0.b2, s.c1.b3⟩, ⟨s.c3.b0, s.c0.b1, s.c1.b2, s.c2.b3⟩⟩

def unshift (s : CipherState) : CipherState :=
  ⟨⟨s.c0.b0, s.c3.b1, s.c2.b2, s.c1.b3⟩, ⟨s.c1.b0, s.c0.b1, s.c3.b2, s.c2.b3⟩,
    ⟨s.c2.b0, s.c1.b1, s.c0.b2, s.c3.b3⟩, ⟨s.c3.b0, s.c2.b1, s.c1.b2, s.c0.b3⟩⟩

theorem unshift_shift (s : CipherState) : s.shift.unshift = s := rfl

def round (s key : CipherState) : CipherState :=
  ((s.sub.shift).map .mix).xor key

def unround (s key : CipherState) : CipherState :=
  ((s.xor key).map .unmix).unshift.unsub

/-- The last round, which does not mix. -/
def lastRound (s key : CipherState) : CipherState :=
  s.sub.shift.xor key

def unlastRound (s key : CipherState) : CipherState :=
  (s.xor key).unshift.unsub

def toBytes (s : CipherState) : Bytes :=
  s.c0.toBytes ++ s.c1.toBytes ++ s.c2.toBytes ++ s.c3.toBytes

def ofBytes (bytes : Bytes) : CipherState :=
  ⟨.ofBytes bytes, .ofBytes (bytes.drop 4), .ofBytes (bytes.drop 8), .ofBytes (bytes.drop 12)⟩

end CipherState

/-! ## The key schedule -/

/-- The round keys: one before the first round, thirteen inner ones and the last. -/
structure RoundKeys where
  first : CipherState
  inner : List CipherState
  last : CipherState

namespace RoundKeys

/-- The constants that enter every eighth schedule column. -/
def constants : List UInt8 := [0x01, 0x02, 0x04, 0x08, 0x10, 0x20, 0x40]

/-- The next eight schedule columns after eight given ones. -/
def advance (constant : UInt8) (columns : List Column) : List Column :=
  let column := fun i => columns.getD i ⟨0, 0, 0, 0⟩
  let turned := ((column 7).rotate.map subByte).xor ⟨constant, 0, 0, 0⟩
  let k0 := (column 0).xor turned
  let k1 := (column 1).xor k0
  let k2 := (column 2).xor k1
  let k3 := (column 3).xor k2
  let k4 := (column 4).xor (k3.map subByte)
  let k5 := (column 5).xor k4
  let k6 := (column 6).xor k5
  let k7 := (column 7).xor k6
  [k0, k1, k2, k3, k4, k5, k6, k7]

/-- The eight columns of the key and all that follow from them. -/
def schedule (columns : List Column) : List UInt8 → List Column
  | [] => columns
  | constant :: rest => columns ++ schedule (advance constant columns) rest

def states : List Column → List CipherState
  | c0 :: c1 :: c2 :: c3 :: rest => ⟨c0, c1, c2, c3⟩ :: states rest
  | _ => []

def ofKey (key : Block 32) : RoundKeys :=
  let columns := (Bytes.chunks 4 key.bytes).map .ofBytes
  let keys := states (schedule columns constants)
  let none := CipherState.ofBytes []
  ⟨keys.getD 0 none, (keys.drop 1).take 13, keys.getD 14 none⟩

def encrypt (keys : RoundKeys) (s : CipherState) : CipherState :=
  (keys.inner.foldl .round (s.xor keys.first)).lastRound keys.last

def decrypt (keys : RoundKeys) (s : CipherState) : CipherState :=
  (keys.inner.foldr (fun key t => t.unround key) (s.unlastRound keys.last)).xor keys.first

end RoundKeys

end LedgerTx.Cipher
