import LedgerTx.Bytes
import LedgerTx.Coded

/-!
# Networks

Each network has a byte of its own, which is part of every address and of
every transaction header.  A network may also have a generation hash, which
salts the hashes of its transactions.
-/

namespace LedgerTx

/-- The salt of a network's transaction hashes. -/
abbrev GenerationHash := Block 32

inductive Network where
  | mainNet
  | testNet
  | privateNet
  | privateTest
  | mijin
  | mijinTest
deriving DecidableEq

namespace Network

def label : Network → String
  | mainNet => "MAIN_NET"
  | testNet => "TEST_NET"
  | privateNet => "PRIVATE"
  | privateTest => "PRIVATE_TEST"
  | mijin => "MIJIN"
  | mijinTest => "MIJIN_TEST"

instance : Coded Network where
  all := [mainNet, testNet, privateNet, privateTest, mijin, mijinTest]
  code
    | mainNet => 0xb8
    | testNet => 0xa8
    | privateNet => 0xc8
    | privateTest => 0xb0
    | mijin => 0x60
    | mijinTest => 0x90
  name
    | mainNet => "MainNet"
    | testNet => "TestNet"
    | privateNet => "Private"
    | privateTest => "PrivateTest"
    | mijin => "Mijin"
    | mijinTest => "MijinTest"
  mem_all a := by cases a <;> simp
  nodup_codes := by decide

def byte (network : Network) : UInt8 := (Coded.code network).toUInt8

def ofByte? (b : UInt8) : Option Network := Coded.ofCode? b.toNat

theorem byte_toNat (network : Network) : network.byte.toNat = Coded.code network := by
  cases network <;> rfl

@[simp]
theorem ofByte?_byte (network : Network) : ofByte? network.byte = some network := by
  rw [ofByte?, byte_toNat, Coded.ofCode?_code]

end Network

end LedgerTx
