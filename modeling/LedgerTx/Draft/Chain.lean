import LedgerTx.Draft.Fault

/-! # Drafts of network changes -/

namespace LedgerTx

def NetworkConfig.check (settings : NetworkConfig) : Except DraftFault Unit :=
  if settings.config = "" then .error (.missing "config")
  else if maxTextSize < Utf8.size settings.config then .error (.oversized "config" maxTextSize)
  else if maxTextSize < Utf8.size settings.entityVersions then
    .error (.oversized "entity_versions" maxTextSize)
  else .ok ()

def NetworkUpgrade.check (upgrade : NetworkUpgrade) : Except DraftFault Unit :=
  if upgrade.period = 0 then .error (.notPositive "upgrade_period") else .ok ()

end LedgerTx
