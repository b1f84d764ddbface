import LedgerTx.Coded
import LedgerTx.Json.Basic
import LedgerTx.Json.Parser
import LedgerTx.Json.Printer
import LedgerTx.Message
import LedgerTx.Mosaic
import LedgerTx.Deadline
import LedgerTx.Recipient
import LedgerTx.Key.Signature

/-!
# JSON forms of values

How single values are written in JSON and read back.  Words are pairs of
their halves, the lower one first; keys, hashes and addresses are their
texts; members of enumerations are their names.
-/

namespace LedgerTx

-- Powers are taken with the core operation.
attribute [local instance (high)] instPowNat instNatPowNat

class JsonForm (α : Type) where
  toJson : α → Json
  ofJson? : Json → Option α

namespace JsonForm

def render {α : Type} [JsonForm α] (a : α) : String := (toJson a).render

def parse? (α : Type) [JsonForm α] (text : String) : Option α := do
  ofJson? (← Json.parse? text)

def required? (α : Type) [JsonForm α] (member : Option Json) : Option α := do
  ofJson? (← member)

/-- The value of a member that may be absent or null. -/
def optional? (α : Type) [JsonForm α] : Option Json → Option (Option α)
  | none => some none
  | some .null => some none
  | some value => (ofJson? value).map some

def ofOption {α : Type} [JsonForm α] : Option α → Json
  | none => .null
  | some a => toJson a

/-- A value read from a text; every error is the same. -/
def ofText? {α ε : Type} (read : String → Except ε α) (json : Json) : Option α := do
  (read (← json.text?)).toOption

end JsonForm

/-! ## Numbers -/

structure PlainWord where
  value : UInt64
deriving DecidableEq

instance : JsonForm PlainWord where
  toJson word := .number word.value.toNat
  ofJson? json := (json.below? (2 ^ (64 : Nat))).map fun n => ⟨n.toUInt64⟩

instance : JsonForm UInt32 where
  toJson n := .number n.toNat
  ofJson? json := (json.below? (2 ^ (32 : Nat))).map Nat.toUInt32

instance : JsonForm UInt8 where
  toJson n := .number n.toNat
  ofJson? json := (json.below? (2 ^ (8 : Nat))).map Nat.toUInt8

instance : JsonForm Bool where
  toJson := .bool
  ofJson? := Json.bool?

/-- A word is written as its lower and its higher half. -/
instance : JsonForm UInt64 where
  toJson word := .array [JsonForm.toJson (Word64.lower word), JsonForm.toJson (Word64.higher word)]
  ofJson?
    | .array [lower, higher] => do
        some (Word64.ofParts (← JsonForm.ofJson? lower) (← JsonForm.ofJson? higher))
    | _ => none

instance : JsonForm MosaicId where
  toJson id := JsonForm.toJson id.value
  ofJson? json := (JsonForm.ofJson? json).map MosaicId.mk

instance : JsonForm NamespaceId where
  toJson id := JsonForm.toJson id.value
  ofJson? json := (JsonForm.ofJson? json).map NamespaceId.mk

instance : JsonForm MosaicNonce where
  toJson nonce := JsonForm.toJson nonce.value
  ofJson? json := (JsonForm.ofJson? json).map MosaicNonce.mk

instance : JsonForm Deadline where
  toJson deadline := JsonForm.toJson deadline.millis
  ofJson? json := (JsonForm.ofJson? json).map Deadline.mk

/-! ## Texts and names -/

instance {size : Nat} : JsonForm (Block size) where
  toJson block := .string (Hex.encode block.bytes)
  ofJson? := JsonForm.ofText? (Hex.readBlock size)

instance : JsonForm PublicKey where
  toJson key := .string key.toHex
  ofJson? := JsonForm.ofText? PublicKey.ofHex

instance : JsonForm Signature where
  toJson signature := .string signature.toHex
  ofJson? := JsonForm.ofText? Signature.ofHex

instance : JsonForm Address where
  toJson address := .string address.plain
  ofJson? := JsonForm.ofText? Address.ofText

/-- A member of an enumeration is written as its name, a choice without content. -/
instance {α : Type} [Coded α] : JsonForm α where
  toJson a := .string (Coded.name a)
  ofJson? json := do
    let (name, content) ← json.choice?
    if Json.isVoid content then Coded.ofName? name else none

/-! ## Records and choices -/

instance : JsonForm Recipient where
  toJson
    | .account address => .object [("Address", JsonForm.toJson address)]
    | .named id => .object [("Namespace", JsonForm.toJson id)]
  ofJson? json := do
    match ← json.choice? with
    | ("Address", content) => (JsonForm.required? Address content).map .account
    | ("Namespace", content) => (JsonForm.required? NamespaceId content).map .named
    | _ => none

instance : JsonForm Mosaic where
  toJson mosaic :=
    .object [("id", JsonForm.toJson mosaic.id), ("amount", JsonForm.toJson mosaic.amount)]
  ofJson? json := do
    match ← json.record? ["id", "amount"] with
    | [id, amount] =>
        some ⟨← JsonForm.required? MosaicId id, ← JsonForm.required? UInt64 amount⟩
    | _ => none

instance : JsonForm MosaicProperties where
  toJson properties :=
    .object [("supply_mutable", .bool properties.supplyMutable),
      ("transferable", .bool properties.transferable),
      ("levy_mutable", .bool properties.levyMutable),
      ("divisibility", JsonForm.toJson properties.divisibility),
      ("duration", JsonForm.ofOption (properties.duration.map PlainWord.mk))]
  ofJson? json := do
    match ← json.record? ["supply_mutable", "transferable", "levy_mutable", "divisibility",
        "duration"] with
    | [supply, transferable, levy, divisibility, duration] =>
        some ⟨← JsonForm.required? Bool supply, ← JsonForm.required? Bool transferable,
          ← JsonForm.required? Bool levy, ← JsonForm.required? UInt8 divisibility,
          (← JsonForm.optional? PlainWord duration).map PlainWord.value⟩
    | _ => none

instance : JsonForm Message where
  toJson
    | .plain text => .object [("Plain", .string text)]
    | .secure letter => .object [("Secure", .array (letter.map JsonForm.toJson))]
  ofJson? json := do
    match ← json.choice? with
    | ("Plain", some content) => content.text?.map .plain
    | ("Secure", some content) => ((← content.items?).mapM JsonForm.ofJson?).map .secure
    | _ => none

end LedgerTx
