import LedgerTx.Operation.Content
import LedgerTx.Proofs.Layout.FieldSet
import LedgerTx.Proofs.Name.Address

/-!
# Readers and writers of values

A reader accepts a value exactly when it is the one that is written for what
it returns.  For a recipient in the name of a namespace this holds on some
network: its network byte is checked and not kept.
-/

namespace LedgerTx

open Layout (FieldSet Value)

/-! ## Values of field sets -/

instance : Reported Layout.Error PayloadError where
  exists_report x := ⟨.layout, by cases x <;> rfl⟩

theorem lift_eq_error {α : Type} {x : Except Layout.Error α} {cause : Layout.Error}
    (h : x = .error cause) : (liftM x : Except PayloadError α) = .error (.layout cause) := by
  rw [h]
  rfl

theorem SameRefusal.lift {α β : Type} {x : Except Layout.Error α} {y : Except Layout.Error β}
    (h : SameRefusal x y) :
    SameRefusal (liftM x : Except PayloadError α) (liftM y : Except PayloadError β) := by
  cases hx : x with
  | error cause => exact .of_error rfl (lift_eq_error ((h cause).mp hx))
  | ok a =>
      obtain ⟨b, hy⟩ := h.exists_ok hx
      exact .of_ok rfl (lift_eq_ok.mpr hy)

namespace Layout.FieldSet

variable {fields : FieldSet} {name : String}

@[simp] theorem scalar_eq_ok {value : UInt64} :
    fields.scalar name = .ok value ↔ fields.get? name = some (.scalar value) := by
  unfold scalar
  split <;> simp_all

theorem scalarBelow_eq_ok {bound : Nat} {value : UInt64} :
    fields.scalarBelow bound name = .ok value
      ↔ fields.get? name = some (.scalar value) ∧ value.toNat < bound := by
  rw [scalarBelow, bind_eq_ok]
  simp only [scalar_eq_ok]
  constructor
  · rintro ⟨found, hfound, h⟩
    split at h
    · rename_i hbelow
      cases h
      exact ⟨hfound, hbelow⟩
    · cases h
  · rintro ⟨hvalue, hbelow⟩
    exact ⟨value, hvalue, if_pos hbelow⟩

theorem narrow_eq_ok {α : Type} {bound : Nat} {narrow : UInt64 → α} {toNat : α → Nat} {value : α}
    (hbound : bound ≤ 2 ^ 64) (hlt : ∀ a, toNat a < bound)
    (hinj : ∀ a b, toNat a = toNat b → a = b)
    (hnarrow : ∀ word : UInt64, word.toNat < bound → toNat (narrow word) = word.toNat) :
    (fields.scalarBelow bound name).map narrow = .ok value
      ↔ fields.get? name = some (.number (toNat value)) := by
  have hword (a : α) : (toNat a).toUInt64.toNat = toNat a :=
    Layout.toNat_toUInt64 (Nat.lt_of_lt_of_le (hlt a) hbound)
  simp only [map_eq_ok, scalarBelow_eq_ok, Value.number]
  constructor
  · rintro ⟨word, ⟨hvalue, hbelow⟩, rfl⟩
    have hsame : word = (toNat (narrow word)).toUInt64 := by
      apply UInt64.toNat_inj.mp
      rw [hword, hnarrow word hbelow]
    rw [hvalue, ← hsame]
  · intro h
    have hbelow : (toNat value).toUInt64.toNat < bound := (hword value).symm ▸ hlt value
    exact ⟨_, ⟨h, hbelow⟩, hinj _ _ ((hnarrow _ hbelow).trans (hword value))⟩

@[simp] theorem scalar8_eq_ok {value : UInt8} :
    fields.scalar8 name = .ok value ↔ fields.get? name = some (.number value.toNat) :=
  narrow_eq_ok (by decide) UInt8.toNat_lt (fun _ _ => UInt8.toNat_inj.mp) fun word hword => by
    rw [UInt64.toNat_toUInt8, Nat.mod_eq_of_lt hword]

@[simp] theorem scalar16_eq_ok {value : UInt16} :
    fields.scalar16 name = .ok value ↔ fields.get? name = some (.number value.toNat) :=
  narrow_eq_ok (by decide) UInt16.toNat_lt (fun _ _ => UInt16.toNat_inj.mp) fun word hword => by
    rw [UInt64.toNat_toUInt16, Nat.mod_eq_of_lt hword]

@[simp] theorem scalar32_eq_ok {value : UInt32} :
    fields.scalar32 name = .ok value ↔ fields.get? name = some (.number value.toNat) :=
  narrow_eq_ok (by decide) UInt32.toNat_lt (fun _ _ => UInt32.toNat_inj.mp) fun word hword => by
    rw [UInt64.toNat_toUInt32, Nat.mod_eq_of_lt hword]

theorem array_eq_ok {bytes : Bytes} :
    fields.array name = .ok bytes ↔ fields.get? name = some (.array bytes) := by
  unfold array
  split <;> simp_all

@[simp] theorem block_eq_ok {size : Nat} {block : Block size} :
    fields.block size name = .ok block ↔ fields.get? name = some (.block block) := by
  rw [FieldSet.block, bind_eq_ok]
  simp only [array_eq_ok, Value.block]
  constructor
  · rintro ⟨bytes, hbytes, h⟩
    split at h
    · cases h
      exact hbytes
    · cases h
  · intro h
    exact ⟨block.bytes, h, dif_pos block.length_bytes⟩

@[simp] theorem vector_eq_ok {bytes : Bytes} :
    fields.vector name = .ok bytes ↔ fields.get? name = some (.vector bytes) := by
  unfold vector
  split <;> simp_all

@[simp] theorem table_eq_ok {table : FieldSet} :
    fields.table name = .ok table ↔ fields.get? name = some (.table table) := by
  unfold FieldSet.table
  split <;> simp_all

@[simp] theorem tableArray_eq_ok {tables : List FieldSet} :
    fields.tableArray name = .ok tables ↔ fields.get? name = some (.tableArray tables) := by
  unfold tableArray
  split <;> simp_all

end Layout.FieldSet

/-! ## Networks and recipients -/

namespace Network

theorem byte_and_one (network : Network) : network.byte &&& 1 = 0 := by
  cases network <;> rfl

theorem byte_or_one_and_one (network : Network) : (network.byte ||| 1) &&& 1 = 1 := by
  cases network <;> rfl

theorem byte_or_one_clear (network : Network) : (network.byte ||| 1) &&& 0xfe = network.byte := by
  cases network <;> rfl

theorem byte_inj {network other : Network} (h : network.byte = other.byte) : network = other := by
  apply Coded.code_inj
  rw [← byte_toNat, ← byte_toNat, h]

end Network

/-- Setting the lowest bit undoes clearing it. -/
theorem clear_or_one {byte : UInt8} (h : byte &&& 1 ≠ 0) : byte &&& 0xfe ||| 1 = byte := by
  have hbit : byte &&& 1 = 1 := by
    have hmod : (byte &&& 1).toNat = byte.toNat % 2 := Nat.and_one_is_mod _
    have hne : (byte &&& 1).toNat ≠ 0 := fun hzero => h (UInt8.toNat_inj.mp hzero)
    have hone : (1 : UInt8).toNat = 1 := rfl
    apply UInt8.toNat_inj.mp
    omega
  calc byte &&& 0xfe ||| 1 = byte &&& 0xfe ||| byte &&& 1 := by rw [hbit]
    _ = byte &&& (0xfe ||| 1) := UInt8.toBitVec_inj.mp BitVec.and_or_distrib_left.symm
    _ = byte := UInt8.and_neg_one

namespace Word64

theorem toBlock_decode {bytes : Bytes} (h : bytes.length = 8) :
    (toBlock (LittleEndian.decode bytes).toUInt64).bytes = bytes := by
  have hlt := LittleEndian.decode_lt bytes
  rw [h] at hlt
  rw [toBlock, Block.ofNat, Layout.toNat_toUInt64 (by omega), ← h]
  exact LittleEndian.encode_decode bytes

theorem decode_toBlock (word : UInt64) :
    (LittleEndian.decode (toBlock word).bytes).toUInt64 = word := by
  apply UInt64.toNat_inj.mp
  have hlt := word.toNat_lt
  rw [toBlock, Block.ofNat, LittleEndian.decode_encode, Nat.mod_eq_of_lt (by omega),
    Layout.toNat_toUInt64 hlt]

end Word64

namespace Recipient

/-- A recipient is read from the 25 bytes that it has on some network, and from no others. -/
theorem ofBlock_eq_ok {block : Block 25} {recipient : Recipient} :
    ofBlock block = .ok recipient ↔ ∃ network, block = recipient.toBlock network := by
  constructor
  · intro h
    obtain ⟨bytes, hlength⟩ := block
    cases bytes with
    | nil => cases hlength
    | cons byte rest =>
        simp only [ofBlock, List.head?_cons] at h
        split at h
        · split at h
          · rename_i address haddress
            cases h
            exact ⟨.mainNet, Address.ofBlock_eq_ok.mp haddress⟩
          · cases h
        · rename_i hodd
          split at h
          · cases h
          · rename_i network hnetwork
            split at h
            · rename_i hpadding
              cases h
              refine ⟨network, Block.ext ?_⟩
              have hrest : rest.length = 24 := Nat.succ.inj hlength
              have hid : (rest.take 8).length = 8 := by
                rw [List.length_take, hrest]
                rfl
              have hzero : rest.drop 8 = List.replicate 16 0 := by
                rw [List.eq_replicate_iff]
                refine ⟨by rw [List.length_drop, hrest], fun b hb => ?_⟩
                exact eq_of_beq (List.all_eq_true.mp hpadding b hb)
              simp only [toBlock, List.drop_succ_cons, List.drop_zero, Word64.toBlock_decode hid,
                ← hzero, List.take_append_drop, Network.byte_of_ofByte? hnetwork, clear_or_one hodd]
            · cases h
  · rintro ⟨network, rfl⟩
    cases recipient with
    | account address =>
        simp only [toBlock, ofBlock, Address.head?_toBlock, Network.byte_and_one, if_pos,
          Address.ofBlock_eq_ok.mpr rfl]
    | named id =>
        have hid := (Word64.toBlock id.value).length_bytes
        simp [toBlock, ofBlock, Network.byte_or_one_and_one, Network.byte_or_one_clear,
          hid, Word64.decode_toBlock]

end Recipient

/-! ## Contents -/

class Coded.Narrow (α : Type) [Coded α] : Prop where
  code_lt : ∀ a : α, Coded.code a < 2 ^ 16

instance : Coded.Narrow TransactionKind where
  code_lt a := by cases a <;> decide

theorem PublicKey.ofBlock_eq_ok {block : Block 32} {key : PublicKey} :
    ofBlock block = .ok key ↔ key.Accepted ∧ block = key.block := by
  unfold ofBlock
  split
  · rename_i haccepted
    constructor
    · intro h
      cases h
      exact ⟨haccepted, rfl⟩
    · rintro ⟨-, rfl⟩
      rfl
  · rename_i hrefused
    constructor
    · intro h
      cases h
    · rintro ⟨haccepted, rfl⟩
      exact absurd haccepted hrefused

namespace Content

variable {fields : FieldSet} {field : String}

@[simp] theorem coded_eq_ok {α : Type} [Coded α] [Coded.Narrow α] {a : α} :
    coded α fields field = .ok a ↔ fields.get? field = some (.coded a) := by
  have hlt := Coded.Narrow.code_lt a
  have hcode : (Coded.code a).toUInt64.toNat = Coded.code a := Layout.toNat_toUInt64 (by omega)
  simp only [coded, bind_eq_ok, lift_eq_ok, FieldSet.scalar_eq_ok, Value.coded, Value.number]
  constructor
  · rintro ⟨n, hn, h⟩
    split at h
    · rename_i found hfound
      cases h
      rw [hn, Coded.code_of_ofCode? hfound, Nat.toUInt64, UInt64.ofNat_toNat]
    · cases h
  · intro h
    refine ⟨_, h, ?_⟩
    rw [hcode, Coded.ofCode?_code]

@[simp] theorem text_eq_ok {bytes : Bytes} {s : String} :
    text field bytes = .ok s ↔ bytes = Utf8.encode s := by
  unfold text
  constructor
  · intro h
    split at h
    · rename_i found hfound
      cases h
      exact (Utf8.encode_of_decode? hfound).symm
    · cases h
  · rintro rfl
    rw [Utf8.decode?_encode]

theorem key_eq_ok {block : Block 32} {key : PublicKey} :
    Content.key field block = .ok key ↔ key.Accepted ∧ block = key.block := by
  rw [← PublicKey.ofBlock_eq_ok, Content.key]
  cases PublicKey.ofBlock block with
  | ok found => simp
  | error e => simp

@[simp] theorem keyIn_eq_ok {key : PublicKey} :
    keyIn fields field = .ok key ↔ key.Accepted ∧ fields.get? field = some (.block key.block) := by
  simp only [keyIn, bind_eq_ok, lift_eq_ok, FieldSet.block_eq_ok, key_eq_ok]
  constructor
  · rintro ⟨block, hblock, haccepted, rfl⟩
    exact ⟨haccepted, hblock⟩
  · rintro ⟨haccepted, hblock⟩
    exact ⟨_, hblock, haccepted, rfl⟩

@[simp] theorem address_eq_ok {a : Address} :
    address fields field = .ok a ↔ fields.get? field = some (.block a.toBlock) := by
  simp only [address, bind_eq_ok, lift_eq_ok, FieldSet.block_eq_ok]
  constructor
  · rintro ⟨block, hblock, h⟩
    split at h
    · rename_i found hfound
      cases h
      rwa [← Address.ofBlock_eq_ok.mp hfound]
    · cases h
  · intro h
    refine ⟨_, h, ?_⟩
    rw [Address.ofBlock_eq_ok.mpr rfl]

@[simp] theorem recipient_eq_ok {r : Recipient} :
    recipient fields field = .ok r
      ↔ ∃ network, fields.get? field = some (.block (r.toBlock network)) := by
  simp only [recipient, bind_eq_ok, lift_eq_ok, FieldSet.block_eq_ok]
  constructor
  · rintro ⟨block, hblock, h⟩
    split at h
    · rename_i found hfound
      cases h
      obtain ⟨network, rfl⟩ := Recipient.ofBlock_eq_ok.mp hfound
      exact ⟨network, hblock⟩
    · cases h
  · rintro ⟨network, h⟩
    refine ⟨_, h, ?_⟩
    rw [Recipient.ofBlock_eq_ok.mpr ⟨network, rfl⟩]

end Content

end LedgerTx
