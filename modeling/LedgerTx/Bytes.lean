/-!
# Byte strings

A byte string is a list of bytes, so that writing is concatenation and
reading splits a front part off.  A `Block` is a byte string whose length is
part of its type.  Words are written least significant byte first.
-/

namespace LedgerTx

-- Powers are taken with the core operation.
attribute [local instance (high)] instPowNat instNatPowNat

abbrev Bytes := List UInt8

namespace LittleEndian

/-- The lowest `width` bytes of a number, least significant first. -/
def encode : (width : Nat) → Nat → Bytes
  | 0, _ => []
  | width + 1, n => n.toUInt8 :: encode width (n / 256)

def decode : Bytes → Nat
  | [] => 0
  | b :: rest => b.toNat + 256 * decode rest

@[simp]
theorem length_encode (width n : Nat) : (encode width n).length = width := by
  induction width generalizing n with
  | zero => rfl
  | succ width ih => simp [encode, ih]

theorem decode_encode (width n : Nat) : decode (encode width n) = n % 256 ^ width := by
  induction width generalizing n with
  | zero => simp [encode, decode, Nat.mod_one]
  | succ width ih =>
      rw [encode, decode, ih, Nat.pow_succ', Nat.mod_mul]
      rfl

theorem decode_lt (bytes : Bytes) : decode bytes < 256 ^ bytes.length := by
  induction bytes with
  | nil => simp [decode]
  | cons b rest ih =>
      have := b.toNat_lt
      simp only [decode, List.length_cons, Nat.pow_succ']
      omega

theorem encode_decode (bytes : Bytes) : encode bytes.length (decode bytes) = bytes := by
  induction bytes with
  | nil => rfl
  | cons b rest ih =>
      have hb := b.toNat_lt
      have hdiv : (b.toNat + 256 * decode rest) / 256 = decode rest := by omega
      have hmod : (b.toNat + 256 * decode rest).toUInt8 = b := by
        apply UInt8.toNat_inj.mp
        simp only [Nat.toUInt8, UInt8.toNat_ofNat']
        omega
      simp [encode, decode, hdiv, hmod, ih]

end LittleEndian

namespace Bytes

def bigEndian (width n : Nat) : Bytes :=
  (LittleEndian.encode width n).reverse

def ofBigEndian (bytes : Bytes) : Nat :=
  LittleEndian.decode bytes.reverse

/-- Exclusive or of the common front of two byte strings. -/
def xor (a b : Bytes) : Bytes :=
  List.zipWith (· ^^^ ·) a b

/-- Zero bytes up to `width`; longer strings stay as they are. -/
def padTo (width : Nat) (bytes : Bytes) : Bytes :=
  bytes ++ List.replicate (width - bytes.length) 0

/--
Cuts a byte string into pieces of `size` bytes; the last piece holds what is
left.  A size of zero gives no pieces.
-/
def chunks (size : Nat) (bytes : Bytes) : List Bytes :=
  if _h : 0 < size ∧ 0 < bytes.length then
    bytes.take size :: chunks size (bytes.drop size)
  else []
termination_by bytes.length
decreasing_by simp only [List.length_drop]; omega

end Bytes

structure Block (size : Nat) where
  bytes : Bytes
  length_bytes : bytes.length = size
deriving DecidableEq

namespace Block

variable {size : Nat}

def ofBytes? (bytes : Bytes) : Option (Block size) :=
  if h : bytes.length = size then some ⟨bytes, h⟩ else none

def zero : Block size :=
  ⟨List.replicate size 0, by simp⟩

/-- The little-endian block of a number, its higher digits dropped. -/
def ofNat (n : Nat) : Block size :=
  ⟨LittleEndian.encode size n, by simp⟩

def toNat (block : Block size) : Nat :=
  LittleEndian.decode block.bytes

def append {left right : Nat} (a : Block left) (b : Block right) : Block (left + right) :=
  ⟨a.bytes ++ b.bytes, by simp [a.length_bytes, b.length_bytes]⟩

def front (count : Nat) (block : Block size) (fits : count ≤ size := by decide) : Block count :=
  ⟨block.bytes.take count, by simp [block.length_bytes, fits]⟩

def back (count : Nat) (block : Block size) : Block (size - count) :=
  ⟨block.bytes.drop count, by simp [block.length_bytes]⟩

def xor (a b : Block size) : Block size :=
  ⟨Bytes.xor a.bytes b.bytes, by simp [Bytes.xor, a.length_bytes, b.length_bytes]⟩

theorem ext {a b : Block size} (h : a.bytes = b.bytes) : a = b := by
  cases a
  cases b
  simp_all

theorem eq_of_toNat_eq {a b : Block size} (h : a.toNat = b.toNat) : a = b := by
  have ha := LittleEndian.encode_decode a.bytes
  have hb := LittleEndian.encode_decode b.bytes
  rw [a.length_bytes] at ha
  rw [b.length_bytes] at hb
  apply ext
  rw [← ha, ← hb]
  exact congrArg (LittleEndian.encode size) h

@[simp]
theorem ofBytes?_bytes (block : Block size) : ofBytes? block.bytes = some block := by
  simp [ofBytes?, block.length_bytes]

theorem bytes_of_ofBytes? {bytes : Bytes} {block : Block size}
    (h : ofBytes? bytes = some block) : block.bytes = bytes := by
  unfold ofBytes? at h
  split at h <;> simp_all
  exact congrArg Block.bytes h.symm

end Block

end LedgerTx
