import LedgerTx.Proofs.Draft.Refusal
import LedgerTx.Proofs.Transaction.Signed

/-!
# The fee of what is built

A fee that is not given is settled from the transaction with no fee in it.
How long a payload is depends on the network and the body only, so this is
the rate times the size of the finished payload, signed or not.
-/

namespace LedgerTx

/-! ## Words -/

theorem Word64.ofNat?_eq_some {n : Nat} {word : UInt64} :
    ofNat? n = some word ↔ word.toNat = n := by
  have hword := word.toNat_lt
  rw [ofNat?, Option.ite_none_right_eq_some, Option.some_inj, ← UInt64.toNat_inj, Nat.toUInt64,
    UInt64.toNat_ofNat']
  constructor
  · rintro ⟨hlt, h⟩
    rw [← h, Nat.mod_eq_of_lt hlt]
  · rintro rfl
    exact ⟨hword, Nat.mod_eq_of_lt hword⟩

theorem Word64.ofNat?_eq_none {n : Nat} : ofNat? n = none ↔ 2 ^ 64 ≤ n := by
  rw [ofNat?, ite_eq_right_iff, ← Nat.not_lt]
  simp

namespace FeeStrategy

variable {strategy : FeeStrategy} {kind : TransactionKind} {size : Nat}

theorem fee?_eq_some {fee : UInt64} :
    strategy.fee? kind size = some fee ↔ fee.toNat = (strategy.rate kind).toNat * size := by
  rw [fee?, Word64.ofNat?_eq_some, Nat.mul_comm]

theorem fee?_eq_none :
    strategy.fee? kind size = none ↔ 2 ^ 64 ≤ (strategy.rate kind).toNat * size := by
  rw [fee?, Word64.ofNat?_eq_none, Nat.mul_comm]

end FeeStrategy

/-! ## Settling a fee -/

namespace Envelope

variable {settings : Settings} {envelope : Envelope} {tx : Transaction} {bytes : Bytes}

theorem maxFeeOf_of_write (hfee : envelope.maxFee = none) (hwrite : tx.write = .ok bytes) :
    envelope.maxFeeOf settings tx
      = (settings.fees.fee? tx.kind bytes.length).elim (.error .feeOverflow) .ok := by
  simp only [maxFeeOf, hfee, hwrite]
  cases settings.fees.fee? tx.kind bytes.length <;> rfl

theorem maxFeeOf_eq_ok (hfee : envelope.maxFee = none) {fee : UInt64} :
    envelope.maxFeeOf settings tx = .ok fee ↔ ∃ bytes, tx.write = .ok bytes
      ∧ fee.toNat = (settings.fees.rate tx.kind).toNat * bytes.length := by
  have hvalue (bytes : Bytes) (hwrite : tx.write = .ok bytes) :
      envelope.maxFeeOf settings tx = .ok fee
        ↔ fee.toNat = (settings.fees.rate tx.kind).toNat * bytes.length := by
    rw [maxFeeOf_of_write hfee hwrite, ← FeeStrategy.fee?_eq_some]
    cases settings.fees.fee? tx.kind bytes.length <;> simp
  constructor
  · intro h
    cases hwrite : tx.write with
    | ok bytes => exact ⟨bytes, rfl, (hvalue bytes hwrite).mp h⟩
    | error cause =>
        simp only [maxFeeOf, hfee, hwrite] at h
        cases h
  · rintro ⟨bytes, hwrite, h⟩
    exact (hvalue bytes hwrite).mpr h

/-- The only fault of a fee that is settled from a size is that it is no word. -/
theorem maxFeeOf_eq_error (hfee : envelope.maxFee = none) (hwrite : tx.write = .ok bytes)
    {e : DraftFault} : envelope.maxFeeOf settings tx = .error e
      ↔ e = .feeOverflow ∧ 2 ^ 64 ≤ (settings.fees.rate tx.kind).toNat * bytes.length := by
  rw [maxFeeOf_of_write hfee hwrite, ← FeeStrategy.fee?_eq_none]
  cases settings.fees.fee? tx.kind bytes.length <;> simp [eq_comm]

end Envelope

/-! ## Building with a settled fee -/

namespace Draft

variable {settings : Settings} {envelope : Envelope} {now : Int} {draft : Draft} {tx : Transaction}

theorem cosignatures_of_body {body : Body} (h : draft.body = .ok body) :
    body.cosignatures = [] := by
  rcases draft.single_or_aggregate with hsingle | ⟨bonded, inner, rfl⟩
  · obtain ⟨operation, rfl⟩ := hsingle body h
    rfl
  · obtain ⟨-, -, rfl⟩ := bundle_eq_ok.mp h
    rfl

theorem build_eq_error_iff (envelope : Envelope) {body : Body} {deadline : Deadline}
    {e : DraftFault} (hbody : draft.body = .ok body)
    (hnetworks : checkNetworks (envelope.networkIn settings) body = .ok ())
    (hdeadline : envelope.deadlineIn settings now = .ok deadline) :
    draft.build settings envelope now = .error e ↔ envelope.maxFeeOf settings
      ⟨envelope.networkIn settings, envelope.versionOf body.kind, 0, deadline, none, body⟩
        = .error e := by
  simp only [build, hbody, hnetworks, hdeadline, bind, Except.bind]
  split <;> simp [*]

/-- What is built with a fee is refused without one exactly when the settled fee is no word. -/
theorem build_eq_error_of_given (hfee : envelope.maxFee = none) {fee : UInt64} {bytes : Bytes}
    (h : draft.build settings { envelope with maxFee := some fee } now = .ok tx)
    (hwrite : tx.write = .ok bytes) (e : DraftFault) :
    draft.build settings envelope now = .error e
      ↔ e = .feeOverflow ∧ 2 ^ 64 ≤ (settings.fees.rate tx.kind).toNat * bytes.length := by
  obtain ⟨body, deadline, _, hbody, hnetworks, hdeadline, -, rfl⟩ := build_eq_ok.mp h
  -- the fee is settled from the same transaction without a fee
  obtain ⟨unpaid, hunpaid, hlength⟩ := Transaction.write_of_same_body hwrite
    ⟨envelope.networkIn settings, envelope.versionOf body.kind, 0, deadline, none, body⟩ rfl rfl
  refine (build_eq_error_iff envelope hbody hnetworks hdeadline).trans ?_
  rw [Envelope.maxFeeOf_eq_error hfee hunpaid, hlength]
  rfl

theorem fee_of_build (hfee : envelope.maxFee = none)
    (h : draft.build settings envelope now = .ok tx) :
    tx.body.cosignatures = [] ∧ ∃ bytes, tx.write = .ok bytes
      ∧ tx.maxFee.toNat = (settings.fees.rate tx.kind).toNat * bytes.length := by
  obtain ⟨body, deadline, fee, hbody, -, -, hmaxFee, rfl⟩ := build_eq_ok.mp h
  obtain ⟨unpaid, hunpaid, hvalue⟩ := (Envelope.maxFeeOf_eq_ok hfee).mp hmaxFee
  obtain ⟨bytes, hwrite, hlength⟩ := Transaction.write_of_same_body hunpaid
    ⟨envelope.networkIn settings, envelope.versionOf body.kind, fee, deadline, none, body⟩ rfl rfl
  refine ⟨cosignatures_of_body hbody, bytes, hwrite, ?_⟩
  rw [hlength]
  exact hvalue

/--
A transaction that is built without a given fee offers the rate for its kind
times its size, which is also the size of the payload that is signed with any
keys.  When it can be written with some given fee, it is refused without one
exactly when this product is no 64-bit word, and then for its fee.
-/
theorem maxFee_of_build (draft : Draft) (settings : Settings) {envelope : Envelope}
    (hfee : envelope.maxFee = none) (now : Int) :
    (∀ tx, draft.build settings envelope now = .ok tx →
      ∃ bytes, tx.write = .ok bytes
        ∧ tx.maxFee.toNat = (settings.fees.rate tx.kind).toNat * bytes.length
        ∧ ∀ (keys : KeyPair) (generation : Option GenerationHash),
          ∃ signed, tx.sign keys generation = .ok signed
            ∧ signed.payload.length = bytes.length)
    ∧ ∀ (fee : UInt64) (tx : Transaction) (bytes : Bytes),
      draft.build settings { envelope with maxFee := some fee } now = .ok tx →
      tx.write = .ok bytes →
      ((∃ e, draft.build settings envelope now = .error e)
          ↔ 2 ^ 64 ≤ (settings.fees.rate tx.kind).toNat * bytes.length)
        ∧ ∀ e, draft.build settings envelope now = .error e →
          e = .feeOverflow ∧ e.fault.field = "max_fee" := by
  constructor
  · intro tx h
    obtain ⟨hnone, bytes, hwrite, hvalue⟩ := fee_of_build hfee h
    exact ⟨bytes, hwrite, hvalue, Transaction.length_of_sign hnone hwrite⟩
  · intro fee tx bytes h hwrite
    have herror := build_eq_error_of_given hfee h hwrite
    refine ⟨⟨?_, fun hlarge => ⟨_, (herror _).mpr ⟨rfl, hlarge⟩⟩⟩, ?_⟩
    · rintro ⟨e, he⟩
      exact ((herror e).mp he).2
    · intro e he
      obtain ⟨rfl, -⟩ := (herror e).mp he
      exact ⟨rfl, rfl⟩

def ratedSettings (rate : UInt64) : Settings := { network := .testNet, fees := .multiplier rate }

def openEnvelope : Envelope := { deadline := some ⟨1000⟩ }

theorem maxFee_of_build_levyRemoval :
    openEnvelope.maxFee = none
      ∧ (∃ tx bytes, (levyRemoval ⟨⟨5⟩⟩).build (ratedSettings 2) openEnvelope 0 = .ok tx
        ∧ tx.write = .ok bytes ∧ tx.maxFee = 264 ∧ bytes.length = 132)
      ∧ ∃ tx bytes,
        (levyRemoval ⟨⟨5⟩⟩).build (ratedSettings 0x8000000000000000)
            { openEnvelope with maxFee := some 100 } 0 = .ok tx
          ∧ tx.write = .ok bytes
          ∧ ∃ e, (levyRemoval ⟨⟨5⟩⟩).build (ratedSettings 0x8000000000000000) openEnvelope 0
            = .error e ∧ e.fault.field = "max_fee" := by
  refine ⟨rfl, ?_, ?_⟩
  · have hok : ((levyRemoval ⟨⟨5⟩⟩).build (ratedSettings 2) openEnvelope 0).toOption.any
        (·.maxFee = 264) = true := by
      decide +kernel
    obtain ⟨tx, hbuilt, hvalue⟩ := Option.any_eq_true _ _ |>.mp hok
    have hbuilt := eq_ok_of_toOption hbuilt
    have hvalue : tx.maxFee = 264 := of_decide_eq_true hvalue
    obtain ⟨bytes, hwrite, hproduct, -⟩ := (maxFee_of_build _ _ rfl 0).1 tx hbuilt
    have hrate : ((ratedSettings 2).fees.rate tx.kind).toNat = 2 := rfl
    rw [hvalue, hrate] at hproduct
    refine ⟨tx, bytes, hbuilt, hwrite, hvalue, ?_⟩
    simp at hproduct
    omega
  · have hbuilt : (levyRemoval ⟨⟨5⟩⟩).build (ratedSettings 0x8000000000000000)
        { openEnvelope with maxFee := some 100 } 0 = .ok _ := rfl
    obtain ⟨-, bytes, hwrite⟩ := write_of_build (sendable_levyRemoval _) hbuilt
    have hlength := (Transaction.length_of_write hwrite).1
    obtain ⟨hrefused, hfault⟩ := (maxFee_of_build _ _ rfl 0).2 100 _ bytes hbuilt hwrite
    obtain ⟨e, he⟩ := hrefused.mpr (by
      show 2 ^ 64 ≤ 0x8000000000000000 * bytes.length
      rw [Payload.headerSize] at hlength
      omega)
    exact ⟨_, bytes, hbuilt, hwrite, e, he, (hfault e he).2⟩

end Draft

end LedgerTx
