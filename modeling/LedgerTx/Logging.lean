/-! # Log formats -/

namespace LedgerTx

inductive LogFormat where
  | pretty
  | json
deriving DecidableEq

namespace LogFormat

/-- The format of a name; every other text stands for the pretty one. -/
def ofName (text : String) : LogFormat :=
  if text.toList.map Char.toLower = ['j', 's', 'o', 'n'] then json else pretty

end LogFormat

end LedgerTx
