import LedgerTx.Deadline
import LedgerTx.Fee
import LedgerTx.Network

/-! # Settings of a network -/

namespace LedgerTx

/-- The defaults for transactions on one network. -/
structure Settings where
  network : Network
  generation : Option GenerationHash := none
  horizon : Span := Deadline.defaultHorizon
  fees : FeeStrategy := .zero

end LedgerTx
