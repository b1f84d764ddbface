import LedgerTx.Layout.Schema
import LedgerTx.Operation.Content
import LedgerTx.Word64

/-!
# Changes of the whole network

New network settings, and an upgrade of the node software.  A software
version is four 16-bit numbers in one word, the major number highest.
-/

namespace LedgerTx

open Layout (FieldSet Value Schema FieldSpec)

/-- Network settings that apply some blocks later. -/
structure NetworkConfig where
  heightDelta : UInt64
  config : String
  entityVersions : String
deriving DecidableEq

namespace NetworkConfig

def schema : Schema :=
  ⟨"blockchain_config", [.u64 "apply_height_delta", .u16 "config_size",
    .u16 "entity_versions_size", .vector "config" "config_size",
    .vector "entity_versions" "entity_versions_size"]⟩

def fields (settings : NetworkConfig) : FieldSet :=
  [("apply_height_delta", .scalar settings.heightDelta),
    ("config_size", .number (Utf8.size settings.config)),
    ("entity_versions_size", .number (Utf8.size settings.entityVersions)),
    ("config", .text settings.config), ("entity_versions", .text settings.entityVersions)]

def ofFields (fields : FieldSet) : Except PayloadError NetworkConfig := do
  let heightDelta ← fields.scalar "apply_height_delta"
  let config ← Content.text "config" (← fields.vector "config")
  let entityVersions ← Content.text "entity_versions" (← fields.vector "entity_versions")
  .ok ⟨heightDelta, config, entityVersions⟩

end NetworkConfig

structure SoftwareVersion where
  major : UInt16
  minor : UInt16
  revision : UInt16
  build : UInt16
deriving DecidableEq

namespace SoftwareVersion

def toWord (version : SoftwareVersion) : UInt64 :=
  version.major.toUInt64 <<< 48 ||| version.minor.toUInt64 <<< 32
    ||| version.revision.toUInt64 <<< 16 ||| version.build.toUInt64

def ofWord (word : UInt64) : SoftwareVersion :=
  ⟨(word >>> 48).toUInt16, (word >>> 32).toUInt16, (word >>> 16).toUInt16, word.toUInt16⟩

end SoftwareVersion

structure NetworkUpgrade where
  period : UInt64
  version : SoftwareVersion
deriving DecidableEq

namespace NetworkUpgrade

def schema : Schema :=
  ⟨"blockchain_upgrade", [.u64 "upgrade_period", .u64 "new_version"]⟩

def fields (upgrade : NetworkUpgrade) : FieldSet :=
  [("upgrade_period", .scalar upgrade.period), ("new_version", .scalar upgrade.version.toWord)]

def ofFields (fields : FieldSet) : Except PayloadError NetworkUpgrade := do
  let period ← fields.scalar "upgrade_period"
  let version ← fields.scalar "new_version"
  .ok ⟨period, .ofWord version⟩

end NetworkUpgrade

end LedgerTx
