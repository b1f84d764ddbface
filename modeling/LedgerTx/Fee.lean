import LedgerTx.Fault
import LedgerTx.Kind
import LedgerTx.Word64

/-!
# Fees

The highest fee that a transaction offers is its size in bytes times a rate.
A strategy gives the rate: nothing, the same for all transactions, or by the
kind of the transaction.
-/

namespace LedgerTx

/-- The rates that some kinds of transactions have of their own. -/
abbrev FeeRates := TransactionKind → Option UInt64

namespace FeeRates

def empty : FeeRates := fun _ => none

def insert (rates : FeeRates) (kind : TransactionKind) (rate : UInt64) : FeeRates :=
  fun other => if other = kind then some rate else rates other

/-- The kinds with a rate of their own, in order, and these rates. -/
def toList (rates : FeeRates) : List (TransactionKind × UInt64) :=
  TransactionKind.list.filterMap fun kind => (rates kind).map fun rate => (kind, rate)

end FeeRates

inductive FeeStrategy where
  | zero
  | multiplier (rate : UInt64)
  | table (fallback : UInt64) (rates : FeeRates)

namespace FeeStrategy

def lowRate : UInt64 := 25000

def mediumRate : UInt64 := 250000

def highRate : UInt64 := 2500000

def low : FeeStrategy := multiplier lowRate

def medium : FeeStrategy := multiplier mediumRate

def high : FeeStrategy := multiplier highRate

def rate (strategy : FeeStrategy) (kind : TransactionKind) : UInt64 :=
  match strategy with
  | zero => 0
  | multiplier rate => rate
  | table fallback rates => (rates kind).getD fallback

def fee? (strategy : FeeStrategy) (kind : TransactionKind) (size : Nat) : Option UInt64 :=
  Word64.ofNat? (size * (strategy.rate kind).toNat)

def overflowFault : Fault := .invalid "max_fee" "fee overflows u64"

end FeeStrategy

end LedgerTx
