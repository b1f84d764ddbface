import LedgerTx.Draft.Fault

/-! # Drafts of storage drives -/

namespace LedgerTx.DrivePreparation

/-- A drive with one free billing period and a single replica. -/
def plain (owner : PublicKey) (size duration : UInt64) : DrivePreparation where
  owner := owner
  duration := duration
  billingPeriod := duration
  billingPrice := 0
  size := size
  replicas := 1
  minReplicators := 1
  percentApprovers := 100

def check (drive : DrivePreparation) : Except DraftFault Unit :=
  if drive.size = 0 then .error (.notPositive "drive_size")
  else if drive.duration = 0 then .error (.notPositive "duration")
  else if drive.billingPeriod = 0 ∨ drive.duration < drive.billingPeriod then
    .error .billingPeriod
  else if drive.replicas = 0 then .error (.notPositive "replicas")
  else if drive.minReplicators = 0 ∨ drive.replicas < drive.minReplicators then
    .error (.minReplicators drive.replicas)
  else if 100 < drive.percentApprovers.toNat then
    .error (.percentApprovers drive.percentApprovers)
  else .ok ()

end LedgerTx.DrivePreparation
