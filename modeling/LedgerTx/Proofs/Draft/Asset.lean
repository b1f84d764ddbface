import LedgerTx.Proofs.Draft.Refusal
import LedgerTx.Proofs.Name.Mosaic

/-!
# Mosaic ids in drafts

A mosaic definition is built for an id and a nonce that derive each other.
What a derivation found is such a pair, so a definition that was derived is
never refused for it.
-/

namespace LedgerTx

/-! ## Definitions -/

theorem MosaicDefinition.derived_eq_ok {owner : PublicKey} {start : MosaicNonce}
    {properties : MosaicProperties} {definition : MosaicDefinition} :
    derived owner start properties = .ok definition
      ↔ MosaicId.derive owner start = .ok (definition.id, definition.nonce)
        ∧ definition.properties = properties := by
  rw [derived, bind_eq_ok]
  obtain ⟨nonce, id, given⟩ := definition
  constructor
  · rintro ⟨⟨_, _⟩, hfound, h⟩
    cases h
    exact ⟨hfound, rfl⟩
  · rintro ⟨hfound, rfl⟩
    exact ⟨_, hfound, rfl⟩

/-- A definition whose id is derived from its nonce is refused for its properties only. -/
theorem MosaicDefinition.field_of_check {owner : PublicKey} {definition : MosaicDefinition}
    {fault : DraftFault}
    (hderive : MosaicId.derive owner definition.nonce = .ok (definition.id, definition.nonce))
    (h : definition.check owner = .error fault) :
    fault.fault.field ∈ ["divisibility", "duration"] := by
  unfold check at h
  split at h
  · cases h
    exact List.mem_cons_self
  · split at h
    · cases h
      exact .tail _ List.mem_cons_self
    · rw [hderive] at h
      simp only [ne_eq, not_true_eq_false, if_false] at h
      cases h

namespace Draft

variable {owner : PublicKey} {definition : MosaicDefinition} {settings : Settings}
  {envelope : Envelope}

theorem body_mosaicDefinition : (mosaicDefinition owner definition).body
    = checked (MosaicDefinition.check owner) .mosaicDefinition definition := rfl

theorem buildEmbedded_mosaicDefinition {embedded : Embedded} :
    (mosaicDefinition owner definition).buildEmbedded settings envelope = .ok embedded
      ↔ definition.check owner = .ok () ∧ embedded = ⟨envelope.networkIn settings,
        envelope.versionOf .mosaicDefinition, .operation (.mosaicDefinition definition)⟩ :=
  buildEmbedded_checked body_mosaicDefinition

theorem field_of_build_derived {start : MosaicNonce} {properties : MosaicProperties} {now : Int}
    {fault : DraftFault}
    (hderived : MosaicDefinition.derived owner start properties = .ok definition)
    (h : (mosaicDefinition owner definition).build settings envelope now = .error fault
      ∨ (mosaicDefinition owner definition).buildEmbedded settings envelope = .error fault) :
    fault.fault.field ≠ "mosaic_id" ∧ fault.fault.field ≠ "nonce" := by
  have hagain := MosaicId.deriveWith_again (MosaicDefinition.derived_eq_ok.mp hderived).1
  -- the fields of every other fault that there can be
  have hfield : fault.fault.field ∈ ["divisibility", "duration"]
      ∨ fault.fault.field ∈ ["transactions", "deadline", "max_fee"] := by
    have hbody (hbody : (mosaicDefinition owner definition).body = .error fault) :
        fault.fault.field ∈ ["divisibility", "duration"] := by
      exact MosaicDefinition.field_of_check hagain (checked_eq_error.mp hbody)
    rcases h with h | h
    · rcases body_of_build_eq_error h with hrefused | ⟨-, henvelope⟩
      · exact .inl (hbody hrefused)
      · exact .inr (DraftFault.field_of_envelope henvelope)
    · exact .inl (hbody ((Single.of_checked body_mosaicDefinition).buildEmbedded_eq_error.mp h))
  constructor
  · intro heq
    rw [heq] at hfield
    exact absurd hfield (by decide)
  · intro heq
    rw [heq] at hfield
    exact absurd hfield (by decide)

end Draft

/-! ## Derivation -/

/--
Whatever ids are reserved, a derivation returns the first of the 256 nonces
from the start on whose id is not reserved, counted modulo 2 ^ 32, and its
id; it fails exactly when all of them are reserved.  The id of a nonce is the
number of the first eight bytes of the digest of nonce and owner, with bit 63
cleared.  The nonce that was found derives itself, so a derived definition is
never refused for its id or its nonce, and a given one is built only for an
id and a nonce that derive each other.
-/
theorem MosaicId.derived_is_first_free (reserved : MosaicId → Bool) (owner : PublicKey)
    (start : MosaicNonce) :
    (∀ id nonce, deriveWith reserved owner start = .ok (id, nonce)
      ↔ ∃ steps < 256, nonce = start.after steps
        ∧ nonce.value.toNat = (start.value.toNat + steps) % 2 ^ 32
        ∧ id = ofNonce owner nonce ∧ reserved id = false
        ∧ ∀ earlier < steps, reserved (ofNonce owner (start.after earlier)) = true)
    ∧ (∀ e, deriveWith reserved owner start = .error e ↔ e.start = start ∧ e.attempts = 256
      ∧ ∀ steps < 256, reserved (ofNonce owner (start.after steps)) = true)
    ∧ (∀ nonce, (ofNonce owner nonce).value.toNat
      = LittleEndian.decode ((Hash.sha3_256 (LittleEndian.encode 4 nonce.value.toNat
        ++ owner.bytes)).bytes.take 8) % 2 ^ 63)
    ∧ (∀ id nonce, deriveWith reserved owner start = .ok (id, nonce) →
      deriveWith reserved owner nonce = .ok (id, nonce))
    ∧ (∀ properties definition, MosaicDefinition.derived owner start properties = .ok definition →
      definition.properties = properties
        ∧ ∀ (settings : Settings) (envelope : Envelope) (now : Int) (fault : DraftFault),
          (Draft.mosaicDefinition owner definition).build settings envelope now = .error fault
            ∨ (Draft.mosaicDefinition owner definition).buildEmbedded settings envelope
              = .error fault →
          fault.fault.field ≠ "mosaic_id" ∧ fault.fault.field ≠ "nonce")
    ∧ ∀ (definition : MosaicDefinition) (settings : Settings) (envelope : Envelope),
      (∀ now tx, (Draft.mosaicDefinition owner definition).build settings envelope now = .ok tx →
        derive owner definition.nonce = .ok (definition.id, definition.nonce)
          ∧ tx.body = .operation (.mosaicDefinition definition))
      ∧ ((∃ embedded, (Draft.mosaicDefinition owner definition).buildEmbedded settings envelope
          = .ok embedded)
        ↔ derive owner definition.nonce = .ok (definition.id, definition.nonce)
          ∧ definition.properties.divisibility.toNat ≤ 6
          ∧ definition.properties.duration ≠ some 0) := by
  refine ⟨fun id nonce => ?_, fun e => ?_, toNat_ofNonce owner, fun _ _ h => deriveWith_again h,
    fun properties definition hderived => ?_, fun definition settings envelope => ⟨?_, ?_⟩⟩
  · rw [deriveWith_eq_ok]
    constructor
    · rintro ⟨steps, hlt, ⟨hfree, htaken⟩, hfound⟩
      cases hfound
      exact ⟨steps, hlt, rfl, start.toNat_after steps, rfl, hfree, htaken⟩
    · rintro ⟨steps, hlt, rfl, -, rfl, hfree, htaken⟩
      exact ⟨steps, hlt, ⟨hfree, htaken⟩, rfl⟩
  · rw [deriveWith_eq_error, ← and_assoc]
    refine and_congr_left fun _ => ?_
    obtain ⟨_, _⟩ := e
    exact CollisionError.mk.injEq _ _ _ _ ▸ Iff.rfl
  · exact ⟨(MosaicDefinition.derived_eq_ok.mp hderived).2,
      fun _ _ _ _ => Draft.field_of_build_derived hderived⟩
  · intro now tx h
    obtain ⟨hcheck, hbody⟩ := Draft.check_of_build Draft.body_mosaicDefinition h
    exact ⟨(MosaicDefinition.check_eq_ok.mp hcheck).2.2, hbody⟩
  · constructor
    · rintro ⟨embedded, h⟩
      obtain ⟨hplaces, hduration, hderive⟩ :=
        MosaicDefinition.check_eq_ok.mp (Draft.buildEmbedded_mosaicDefinition.mp h).1
      exact ⟨hderive, hplaces, hduration⟩
    · rintro ⟨hderive, hplaces, hduration⟩
      have hcheck := MosaicDefinition.check_eq_ok.mpr ⟨hplaces, hduration, hderive⟩
      exact ⟨_, Draft.buildEmbedded_mosaicDefinition.mpr ⟨hcheck, rfl⟩⟩

def MosaicDefinition.tooFine : MosaicDefinition :=
  ⟨⟨7⟩, .ofNonce .base ⟨7⟩, ⟨true, false, false, 7, none⟩⟩

theorem MosaicId.derived_is_first_free_wrapped :
    deriveWith (· == ofNonce .base ⟨4294967295⟩) .base ⟨4294967295⟩
        = .ok (ofNonce .base ⟨0⟩, ⟨0⟩)
      ∧ deriveWith (fun _ => true) .base ⟨4294967295⟩ = .error ⟨⟨4294967295⟩, 256⟩
      ∧ MosaicDefinition.derived .base ⟨7⟩ ⟨true, false, false, 7, none⟩ = .ok .tooFine
      ∧ ∃ fault, (Draft.mosaicDefinition .base .tooFine).build Draft.freeSettings
          Draft.fixedEnvelope 0 = .error fault
        ∧ fault.fault.field ≠ "mosaic_id" ∧ fault.fault.field ≠ "nonce" := by
  have hother : (ofNonce .base ⟨0⟩ == ofNonce .base ⟨4294967295⟩) = false := by decide +kernel
  have husable : isReserved (ofNonce .base ⟨7⟩) = false := by decide +kernel
  obtain ⟨hfound, -, -, -, hderived, -⟩ := derived_is_first_free isReserved .base ⟨7⟩
  have hseven : derive .base ⟨7⟩ = .ok (ofNonce .base ⟨7⟩, ⟨7⟩) := (hfound _ _).mpr
    ⟨0, by decide, rfl, rfl, rfl, husable, fun _ hearlier => absurd hearlier (Nat.not_lt_zero _)⟩
  have htooFine : MosaicDefinition.derived .base ⟨7⟩ ⟨true, false, false, 7, none⟩
      = .ok .tooFine :=
    MosaicDefinition.derived_eq_ok.mpr ⟨hseven, rfl⟩
  have hrefused : (Draft.mosaicDefinition .base .tooFine).body = .error (.divisibility 7) := rfl
  have hbuild : (Draft.mosaicDefinition .base .tooFine).build Draft.freeSettings
      Draft.fixedEnvelope 0 = .error (.divisibility 7) :=
    (Draft.build_of_body_eq_error hrefused).1
  refine ⟨?_, ?_, htooFine, _, hbuild, (hderived _ _ htooFine).2 _ _ _ _ (.inl hbuild)⟩
  · refine ((derived_is_first_free _ _ _).1 _ _).mpr ⟨1, by decide, rfl, rfl, rfl, hother, ?_⟩
    intro earlier hearlier
    rw [Nat.lt_one_iff.mp hearlier, MosaicNonce.after_zero]
    exact beq_self_eq_true _
  · exact ((derived_is_first_free _ _ _).2.1 _).mpr ⟨rfl, rfl, fun _ _ => rfl⟩

end LedgerTx
