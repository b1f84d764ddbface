import LedgerTx.Fault

/-!
# Deadlines

A deadline counts milliseconds from the network epoch, the first of April
2016.  Unix times and horizons are bounded by 64-bit signed milliseconds.
-/

namespace LedgerTx

-- Powers are taken with the core operation.
attribute [local instance (high)] instPowNat Int.instNatPow

structure Span where
  seconds : UInt64
  nanoseconds : UInt32
deriving DecidableEq

def Span.millis (span : Span) : Nat :=
  span.seconds.toNat * 1000 + span.nanoseconds.toNat / 1000000

/-- The instant after which a transaction is refused. -/
structure Deadline where
  millis : UInt64
deriving DecidableEq

namespace Deadline

/-- The network epoch in Unix milliseconds. -/
def epoch : Int := 1459468800000

def maxSigned : Int := 2 ^ (63 : Nat) - 1

/-- The last Unix millisecond of the supported calendar, in the year 262142. -/
def calendarEnd : Int := 8210266876799999

def defaultHorizon : Span := ⟨7200, 0⟩

inductive Error where
  | horizon
  | beforeEpoch
deriving DecidableEq

def Error.fault : Error → Fault
  | horizon => .invalid "deadline" "horizon too large"
  | beforeEpoch => .invalid "deadline" "before the network epoch"

def ofUnix (unix : Int) : Except Error Deadline :=
  if unix < epoch then .error .beforeEpoch else .ok ⟨(unix - epoch).toNat.toUInt64⟩

def after (now : Int) (span : Span) : Except Error Deadline :=
  let horizon : Int := span.millis
  if maxSigned < horizon ∨ maxSigned < now + horizon then .error .horizon
  else ofUnix (now + horizon)

def toUnix? (deadline : Deadline) : Option Int :=
  let unix := epoch + deadline.millis.toNat
  if unix ≤ calendarEnd then some unix else none

end Deadline

end LedgerTx
