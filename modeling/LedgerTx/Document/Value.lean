import LedgerTx.Document.Basic
import LedgerTx.Json.Settings
import LedgerTx.Json.Signed
import LedgerTx.Operation.Asset

/-!
# Documents of values

Numbers, byte strings, keys, addresses and what is made of them.  Keys,
signatures and addresses that cannot be read have their own errors.
-/

namespace LedgerTx

open Document (read write via one oneOf record orShape orName)

-- Powers are taken with the core operation.
attribute [local instance (high)] instPowNat instNatPowNat Int.instNatPow

/-! ## Numbers and texts -/

namespace Document

def ofText {α ε : Type} (wrap : ε → DocumentError) (parse : String → Except ε α) (json : Json) :
    Except DocumentError α := do
  ((← orShape json.text?) |> parse).mapError wrap

/-- A number of either sign, when it fits a width. -/
def fitting (bits : Nat) (n : Int) : Except DocumentError Int :=
  if -2 ^ (bits - 1) ≤ n ∧ n < 2 ^ (bits - 1) then .ok n else .error .shape

def integer (bits : Nat) : Json → Except DocumentError Int
  | .number n => fitting bits n
  | _ => .error .shape

def natural (digits : List Char) : Except DocumentError Nat :=
  if digits.isEmpty || !digits.all Char.isDigit then .error .shape
  else .ok (Json.digitsValue digits)

def decimal (json : Json) : Except DocumentError Int := do
  match (← orShape json.text?).toList with
  | '-' :: digits => do .ok (-(← natural digits : Nat))
  | '+' :: digits => do .ok (← natural digits : Nat)
  | digits => do .ok (← natural digits : Nat)

def below (bound : Nat) (json : Json) : Except DocumentError Nat := orShape (json.below? bound)

end Document

instance : Document Json := ⟨.ok, id⟩

instance : Document String := ⟨fun json => orShape json.text?, .string⟩

instance : Document Bool := ⟨fun json => orShape json.bool?, .bool⟩

instance : Document Nat := ⟨Document.below (2 ^ (32 : Nat)), fun n => .number n⟩

instance : Document UInt8 :=
  ⟨fun json => (Document.below (2 ^ (8 : Nat)) json).map Nat.toUInt8, fun n => .number n.toNat⟩

instance : Document UInt16 :=
  ⟨fun json => (Document.below (2 ^ (16 : Nat)) json).map Nat.toUInt16, fun n => .number n.toNat⟩

instance : Document UInt32 :=
  ⟨fun json => (Document.below (2 ^ (32 : Nat)) json).map Nat.toUInt32, fun n => .number n.toNat⟩

instance : Document Int8 :=
  ⟨fun json => (Document.integer 8 json).map Int8.ofInt, fun n => .number n.toInt⟩

instance : Document Int16 :=
  ⟨fun json => (Document.integer 16 json).map Int16.ofInt, fun n => .number n.toInt⟩

instance : Document Int32 :=
  ⟨fun json => (Document.integer 32 json).map Int32.ofInt, fun n => .number n.toInt⟩

instance : Document Int where
  read json := do Document.fitting 64 (← Document.decimal json)
  write n := .string (toString n)

instance : Document Int64 where
  read json := (read (α := Int) json).map Int64.ofInt
  write n := write n.toInt

instance : Document UInt64 where
  read json := do
    let n ← Document.decimal json
    if 0 ≤ n then orShape (Word64.ofNat? n.toNat) else .error .shape
  write n := .string (toString n)

instance (priority := low) {α : Type} [Document α] : Document (List α) where
  read json := do (← orShape json.items?).mapM read
  write items := .array (items.map write)

instance {α : Type} [Document α] : Document (Option α) where
  read
    | .null => .ok none
    | json => (read json).map some
  write a := (a.map write).getD .null

instance : Document Bytes where
  read json := do orShape (Hex.decode? (← orShape json.text?))
  write bytes := .string (Hex.encode bytes)

instance {size : Nat} : Document (Block size) where
  read json := do orShape (Block.ofBytes? (← read json))
  write block := write block.bytes

instance (priority := low) {α : Type} [Coded α] : Document α where
  read json := orName (JsonForm.ofJson? json)
  write := JsonForm.toJson

/-! ## Keys, addresses and ids -/

/-- A hash whose text is checked by itself. -/
structure HashText where
  hash : Block 32
deriving DecidableEq

instance : Document HashText where
  read := Document.ofText .block fun text => (Hex.readBlock 32 text).map HashText.mk
  write text := write text.hash

instance : Document PublicKey := ⟨Document.ofText .key PublicKey.ofHex, fun k => .string k.toHex⟩

instance : Document PrivateKey := ⟨Document.ofText .key PrivateKey.ofHex, fun k => .string k.toHex⟩

instance : Document KeyPair where
  read := Document.ofText .key KeyPair.ofHex
  write keys := write keys.privateKey

instance : Document Signature := ⟨Document.ofText .key Signature.ofHex, fun s => .string s.toHex⟩

instance : Document Address := ⟨Document.ofText .address Address.ofText, fun a => .string a.plain⟩

instance : Document MosaicId := ⟨via MosaicId.mk, fun id => write id.value⟩

instance : Document NamespaceId := ⟨via NamespaceId.mk, fun id => write id.value⟩

instance : Document MosaicNonce := ⟨via MosaicNonce.mk, fun nonce => write nonce.value⟩

instance : Document Deadline := ⟨via Deadline.mk, fun deadline => write deadline.millis⟩

instance : Document SignedTransaction :=
  ⟨fun json => orName (JsonForm.ofJson? json), JsonForm.toJson⟩

instance : Document DetachedCosignature :=
  ⟨fun json => orName (JsonForm.ofJson? json), JsonForm.toJson⟩

/-! ## Compound values -/

instance : Document Recipient where
  read := oneOf [("address", via .account), ("namespace", via .named)]
  write
    | .account address => one "address" address
    | .named id => one "namespace" id

instance : Document Message where
  read := oneOf [("plain", via .plain), ("secure", via .secure)]
  write
    | .plain text => one "plain" text
    | .secure letter => one "secure" letter

instance : Document Mosaic where
  read
    | .array [id, amount] => do .ok ⟨← read id, ← read amount⟩
    | _ => .error .shape
  write mosaic := .array [write mosaic.id, write mosaic.amount]

instance : Document MosaicProperties :=
  record "supply_mutable transferable levy_mutable divisibility duration" MosaicProperties.mk
    fun ⟨supply, transferable, levy, places, duration⟩ =>
      (supply, transferable, levy, places, duration)

instance : Document Levy :=
  record "levy_type recipient mosaic_id fee" Levy.mk
    fun ⟨type, recipient, id, fee⟩ => (type, recipient, id, fee)

instance : Document Span :=
  record "secs nanos" (fun seconds nanos => Span.mk seconds (Option.getD nanos 0))
    fun ⟨seconds, nanos⟩ => (seconds, nanos)

def FeeRates.ofMembers (members : List (String × Json)) : Except DocumentError FeeRates :=
  members.foldlM (fun (rates : FeeRates) (name, rate) => do
    .ok (rates.insert (← read (.string name)) (← read rate))) FeeRates.empty

instance : Document FeeStrategy where
  read
    | .string "zero" => .ok .zero
    | .string "default" => .ok .zero
    | .string "low" => .ok .low
    | .string "medium" => .ok .medium
    | .string "high" => .ok .high
    | json => do
        match ← Document.get json "multiplier" with
        | some rate => .ok (.multiplier rate)
        | none =>
            let fallback ← Document.get json "default_rate"
            let rates ← orShape (Document.member "rates" json).members?
            .ok (.table fallback (← FeeRates.ofMembers rates))
  write
    | .zero => .string "zero"
    | .multiplier rate => one "multiplier" rate
    | .table fallback rates =>
        .object [("default_rate", write fallback),
          ("rates", .object (rates.toList.map fun (kind, rate) => (Coded.name kind, write rate)))]

def Settings.ofMembers (network : Network) (generation : Option HashText) (horizon : Option Span)
    (fees : Option FeeStrategy) : Settings where
  network := network
  generation := generation.map HashText.hash
  horizon := horizon.getD Deadline.defaultHorizon
  fees := fees.getD .zero

instance : Document Settings :=
  record "network generation_hash horizon fee" Settings.ofMembers
    fun ⟨network, generation, horizon, fees⟩ => (network, generation, horizon, fees)

end LedgerTx
