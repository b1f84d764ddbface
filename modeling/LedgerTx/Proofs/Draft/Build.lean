import LedgerTx.Proofs.Draft.Checks
import LedgerTx.Proofs.Transaction.Sized
import Mathlib.Algebra.Group.Action.Defs
import Mathlib.Algebra.Order.BigOperators.Group.List
import Mathlib.Algebra.Order.Ring.Nat

/-!
# What drafts are built to

The limits of the drafts are within what the fields of the layouts can count,
so what is built from a draft can be written and is read back.  The length of
a secret proof has no limit, and only the changes of metadata and the
transactions of an aggregate have to be bounded from outside.
-/

namespace LedgerTx.Draft

/-! ## Drafts in bounds -/

def keys : Draft → List PublicKey
  | multisig draft => draft.changes.map Modification.value
  | accountLink link => [link.remote]
  | metadataEntry draft => [draft.targetKey]
  | takenOffers offers => offers.map TakenOffer.owner
  | contractChange contract =>
      (contract.customers ++ contract.executors ++ contract.verifiers).map Modification.value
  | drivePreparation drive => [drive.owner]
  | _ => []

/-- A draft from accepted keys that is no secret proof, with at most 2 ^ 16 metadata changes. -/
structure Plain (draft : Draft) : Prop where
  accepted : ∀ key ∈ draft.keys, key.Accepted
  noProof : ∀ proof, draft ≠ .secretProof proof
  changes_le : ∀ metadata, draft = .metadataChanges metadata →
    metadata.changes.length ≤ 2 ^ 16

/--
A plain draft.  What is embedded in an aggregate was built from plain drafts
and takes at most 2 ^ 28 bytes.
-/
structure Sendable (draft : Draft) : Prop extends Plain draft where
  built : ∀ bonded inner, draft = .aggregate bonded inner → ∀ embedded ∈ inner,
    ∃ (settings : Settings) (envelope : Envelope) (source : Draft),
      source.Plain ∧ source.buildEmbedded settings envelope = .ok embedded
  pieces_le : ∀ bonded inner pieces, draft = .aggregate bonded inner →
    inner.mapM Embedded.write = .ok pieces → pieces.flatten.length ≤ 2 ^ 28

/-! ## Bodies -/

theorem metadataChanges_writable {metadata : MetadataChanges}
    (hcheck : metadata.check = .ok ()) (hlength : metadata.changes.length ≤ 2 ^ 16) :
    (Operation.metadataChanges metadata).Writable := by
  obtain ⟨-, heach⟩ := MetadataChanges.check_eq_ok.mp hcheck
  have hbounds : ∀ change ∈ metadata.changes,
      Utf8.size change.key ≤ 128 ∧ Utf8.size change.value ≤ 1024 := by
    intro change hchange
    have hok := heach change hchange
    exact ⟨(MetadataChange.check_eq_ok.mp hok).1.2, MetadataChange.value_le_of_check hok⟩
  have hsize : ∀ size ∈ metadata.changes.map MetadataChange.size, size ≤ 1160 := by
    intro size hsize
    obtain ⟨change, hchange, rfl⟩ := List.mem_map.mp hsize
    obtain ⟨hkey, hvalue⟩ := hbounds change hchange
    simp only [MetadataChange.size, MetadataChanges.headerSize]
    omega
  constructor
  · intro change hchange
    obtain ⟨hkey, hvalue⟩ := hbounds change hchange
    exact ⟨by omega, by omega⟩
  · have hsum := List.sum_le_card_nsmul _ 1160 hsize
    rw [List.length_map, smul_eq_mul] at hsum
    show (metadata.changes.map MetadataChange.size).sum ≤ 2 ^ 27
    omega

theorem length_difference (new old : Bytes) :
    (MetadataEntryDraft.difference new old).length = max new.length old.length := by
  simp only [MetadataEntryDraft.difference, Bytes.xor, Bytes.padTo, List.length_zipWith,
    List.length_append, List.length_replicate]
  omega

/-- The body of a plain draft is an operation that can be written, or an aggregate. -/
theorem body_cases {draft : Draft} (hplain : draft.Plain) {body : Body}
    (h : draft.body = .ok body) :
    (∃ operation, body = .operation operation ∧ operation.Writable
        ∧ operation.keys = draft.keys)
      ∨ ∃ bonded inner, draft = .aggregate bonded inner ∧ body = .aggregate bonded inner [] := by
  cases draft with
  | transfer transfer =>
      obtain ⟨hcheck, rfl⟩ := checked_eq_ok.mp h
      obtain ⟨hmosaics, -, hmessage⟩ := Transfer.check_eq_ok.mp hcheck
      refine .inl ⟨_, rfl, ⟨⟨Nat.lt_of_le_of_lt hmosaics (by decide), ?_⟩, Nat.zero_le _⟩, rfl⟩
      exact Nat.lt_of_le_of_lt (Nat.succ_le_succ hmessage) (by decide)
  | registration name tenure =>
      obtain ⟨registration, hresult, rfl⟩ := completed_eq_ok.mp h
      obtain ⟨hpart, -, -, -, rfl, -⟩ := Registration.ofDraft_eq_ok.mp hresult
      have hname := NamespaceName.size_le_of_checkPart hpart
      exact .inl ⟨_, rfl, ⟨Nat.lt_of_le_of_lt hname (by decide), Nat.zero_le _⟩, rfl⟩
  | accountFilter filter =>
      obtain ⟨hcheck, rfl⟩ := checked_eq_ok.mp h
      obtain ⟨-, -, hchanges⟩ := AccountFilter.check_eq_ok.mp hcheck
      exact .inl ⟨_, rfl, ⟨Nat.lt_of_le_of_lt hchanges (by decide), Nat.zero_le _⟩, rfl⟩
  | multisig draft =>
      obtain ⟨⟨approval, removal, changes⟩, hresult, rfl⟩ := completed_eq_ok.mp h
      obtain ⟨-, -, hchanges, -, -, rfl⟩ := MultisigDraft.finish_eq_ok.mp hresult
      exact .inl ⟨_, rfl, ⟨Nat.lt_of_le_of_lt hchanges (by decide), Nat.zero_le _⟩, rfl⟩
  | secretProof proof => exact absurd rfl (hplain.noProof proof)
  | metadataChanges metadata =>
      obtain ⟨hcheck, rfl⟩ := checked_eq_ok.mp h
      exact .inl ⟨_, rfl, metadataChanges_writable hcheck (hplain.changes_le _ rfl), rfl⟩
  | metadataEntry draft =>
      obtain ⟨entry, hresult, rfl⟩ := completed_eq_ok.mp h
      obtain ⟨hnew, hold, -, rfl⟩ := MetadataEntryDraft.finish_eq_ok.mp hresult
      refine .inl ⟨_, rfl, ⟨?_, Nat.zero_le _⟩, rfl⟩
      show (MetadataEntryDraft.difference draft.value draft.oldValue).length < 2 ^ 16
      rw [length_difference]
      exact Nat.lt_of_le_of_lt (Nat.max_le.mpr ⟨hnew, hold⟩) (by decide)
  | newOffers offers =>
      obtain ⟨hcheck, rfl⟩ := checked_eq_ok.mp h
      obtain ⟨⟨-, hoffers⟩, -⟩ := NewOffer.checkAll_eq_ok.mp hcheck
      exact .inl ⟨_, rfl, ⟨Nat.lt_of_le_of_lt hoffers (by decide), Nat.zero_le _⟩, rfl⟩
  | takenOffers offers =>
      obtain ⟨hcheck, rfl⟩ := checked_eq_ok.mp h
      obtain ⟨⟨-, hoffers⟩, -⟩ := TakenOffer.checkAll_eq_ok.mp hcheck
      exact .inl ⟨_, rfl, ⟨Nat.lt_of_le_of_lt hoffers (by decide), Nat.zero_le _⟩, rfl⟩
  | withdrawnOffers offers =>
      obtain ⟨hcheck, rfl⟩ := checked_eq_ok.mp h
      obtain ⟨⟨-, hoffers⟩, -⟩ := WithdrawnOffer.checkAll_eq_ok.mp hcheck
      exact .inl ⟨_, rfl, ⟨Nat.lt_of_le_of_lt hoffers (by decide), Nat.zero_le _⟩, rfl⟩
  | contractChange contract =>
      obtain ⟨hcheck, rfl⟩ := checked_eq_ok.mp h
      obtain ⟨hcustomers, hexecutors, hverifiers⟩ := ContractChange.check_eq_ok.mp hcheck
      have hlist {field : String} {changes : List (Modification PublicKey)}
          (hlist : ContractChange.checkList field changes = .ok ()) : changes.length < 2 ^ 8 :=
        Nat.lt_of_le_of_lt (ContractChange.checkList_eq_ok.mp hlist).1 (by decide)
      exact .inl ⟨_, rfl, ⟨⟨hlist hcustomers, hlist hexecutors, hlist hverifiers⟩,
        Nat.zero_le _⟩, rfl⟩
  | networkConfig settings =>
      obtain ⟨hcheck, rfl⟩ := checked_eq_ok.mp h
      obtain ⟨-, hconfig, hversions⟩ := NetworkConfig.check_eq_ok.mp hcheck
      exact .inl ⟨_, rfl, ⟨⟨Nat.lt_of_le_of_lt hconfig (by decide),
        Nat.lt_of_le_of_lt hversions (by decide)⟩, Nat.zero_le _⟩, rfl⟩
  -- nothing in these has a length
  | mosaicDefinition _ _ | supplyChange _ | nameLink _ | networkUpgrade _ | drivePreparation _ =>
      obtain ⟨-, rfl⟩ := checked_eq_ok.mp h
      exact .inl ⟨_, rfl, ⟨trivial, Nat.zero_le _⟩, rfl⟩
  | levyChange change =>
      obtain ⟨-, h⟩ := then_eq_ok.mp h
      cases h
      exact .inl ⟨_, rfl, ⟨trivial, Nat.zero_le _⟩, rfl⟩
  | levyRemoval _ | accountLink _ | secretLock _ =>
      cases h
      exact .inl ⟨_, rfl, ⟨trivial, Nat.zero_le _⟩, rfl⟩
  | fundsLock draft =>
      obtain ⟨lock, -, rfl⟩ := completed_eq_ok.mp h
      exact .inl ⟨_, rfl, ⟨trivial, Nat.zero_le _⟩, rfl⟩
  | aggregate bonded inner =>
      obtain ⟨-, -, rfl⟩ := bundle_eq_ok.mp h
      exact .inr ⟨bonded, inner, rfl, rfl⟩

/-! ## Building -/

variable {settings : Settings} {envelope : Envelope}

theorem build_eq_ok {draft : Draft} {now : Int} {tx : Transaction} :
    draft.build settings envelope now = .ok tx
      ↔ ∃ body deadline maxFee, draft.body = .ok body
        ∧ checkNetworks (envelope.networkIn settings) body = .ok ()
        ∧ envelope.deadlineIn settings now = .ok deadline
        ∧ envelope.maxFeeOf settings ⟨envelope.networkIn settings, envelope.versionOf body.kind, 0,
          deadline, none, body⟩ = .ok maxFee
        ∧ tx = ⟨envelope.networkIn settings, envelope.versionOf body.kind, maxFee, deadline, none,
          body⟩ := by
  constructor
  · intro h
    obtain ⟨body, hbody, h⟩ := bind_eq_ok.mp h
    obtain ⟨hnetworks, h⟩ := then_eq_ok.mp h
    obtain ⟨deadline, hdeadline, h⟩ := bind_eq_ok.mp h
    obtain ⟨maxFee, hmaxFee, h⟩ := bind_eq_ok.mp h
    cases h
    exact ⟨body, deadline, maxFee, hbody, hnetworks, hdeadline, hmaxFee, rfl⟩
  · rintro ⟨body, deadline, maxFee, hbody, hnetworks, hdeadline, hmaxFee, rfl⟩
    exact bind_eq_ok.mpr ⟨body, hbody, then_eq_ok.mpr ⟨hnetworks, bind_eq_ok.mpr ⟨deadline,
      hdeadline, bind_eq_ok.mpr ⟨maxFee, hmaxFee, rfl⟩⟩⟩⟩

theorem buildEmbedded_eq_ok {draft : Draft} {embedded : Embedded} :
    draft.buildEmbedded settings envelope = .ok embedded
      ↔ ∃ body, draft.body = .ok body ∧ body.kind.isAggregate = false
        ∧ embedded = ⟨envelope.networkIn settings, envelope.versionOf body.kind, body⟩ := by
  rw [buildEmbedded, bind_eq_ok]
  simp only [refuse_eq_ok, Bool.not_eq_true, Except.ok.injEq, @eq_comm _ embedded]

theorem write_of_buildEmbedded {draft : Draft} (hplain : draft.Plain) {embedded : Embedded}
    (h : draft.buildEmbedded settings envelope = .ok embedded) :
    embedded.Accepted ∧ ∃ bytes, embedded.write = .ok bytes := by
  obtain ⟨body, hbody, hsingle, rfl⟩ := buildEmbedded_eq_ok.mp h
  rcases body_cases hplain hbody with ⟨operation, rfl, hwritable, hkeys⟩
    | ⟨bonded, inner, -, rfl⟩
  · refine ⟨?_, Embedded.write_of_writable hwritable _ _⟩
    intro key hkey
    exact hplain.accepted key (hkeys ▸ hkey)
  · cases bonded <;> cases hsingle

theorem write_of_build {draft : Draft} (hsendable : draft.Sendable) {now : Int} {tx : Transaction}
    (h : draft.build settings envelope now = .ok tx) :
    tx.Accepted ∧ ∃ bytes, tx.write = .ok bytes := by
  obtain ⟨body, deadline, maxFee, hbody, -, -, -, rfl⟩ := build_eq_ok.mp h
  rcases body_cases hsendable.toPlain hbody with ⟨operation, rfl, hwritable, hkeys⟩
    | ⟨bonded, inner, rfl, rfl⟩
  · refine ⟨?_, Transaction.write_of_writable rfl hwritable⟩
    intro key hkey
    exact hsendable.accepted key (hkeys ▸ hkey)
  · have hinner : ∀ embedded ∈ inner,
        embedded.Accepted ∧ ∃ bytes, embedded.write = .ok bytes := by
      intro embedded hembedded
      obtain ⟨_, _, source, hplain, hbuilt⟩ :=
        hsendable.built bonded inner rfl embedded hembedded
      exact write_of_buildEmbedded hplain hbuilt
    obtain ⟨pieces, hpieces⟩ :=
      exists_mapM_eq_ok fun embedded hembedded => (hinner embedded hembedded).2
    have hlength := hsendable.pieces_le bonded inner pieces rfl hpieces
    constructor
    · intro key hkey
      replace hkey : key ∈ Embedded.keysOf inner ++ [] := hkey
      rw [List.append_nil] at hkey
      obtain ⟨embedded, hembedded, hkey⟩ := Embedded.mem_keysOf.mp hkey
      exact (hinner embedded hembedded).1 key hkey
    · refine Transaction.write_of_pieces rfl hpieces ?_
      show pieces.flatten.length + 0 ≤ 2 ^ 31
      omega

/--
What is built from a sendable draft can be written, and is read as it: as a
transaction by the settings and the envelope of its sender, with or without a
given fee, and as a transaction to be embedded.
-/
theorem built_reads_back {draft : Draft} (hsendable : draft.Sendable) (settings : Settings)
    (envelope : Envelope) :
    (∀ now tx, draft.build settings envelope now = .ok tx →
      ∃ bytes, tx.write = .ok bytes ∧ Transaction.read bytes = .ok tx)
    ∧ ∀ embedded, draft.buildEmbedded settings envelope = .ok embedded →
      ∃ bytes, embedded.write = .ok bytes ∧ Embedded.read bytes = .ok embedded := by
  constructor
  · intro now tx h
    obtain ⟨haccepted, bytes, hwrite⟩ := write_of_build hsendable h
    have hread := Transaction.read_of_write haccepted hwrite
    -- nothing is signed when it is built
    obtain ⟨body, deadline, maxFee, -, -, -, -, rfl⟩ := build_eq_ok.mp h
    exact ⟨bytes, hwrite, hread⟩
  · intro embedded h
    obtain ⟨haccepted, bytes, hwrite⟩ := write_of_buildEmbedded hsendable.toPlain h
    exact ⟨bytes, hwrite, Embedded.read_of_write haccepted hwrite⟩

theorem sendable_levyRemoval (removal : LevyRemoval) : (levyRemoval removal).Sendable where
  accepted := fun _ hkey => nomatch hkey
  noProof := fun _ hdraft => nomatch hdraft
  changes_le := fun _ hdraft => nomatch hdraft
  built := fun _ _ hdraft => nomatch hdraft
  pieces_le := fun _ _ _ hdraft => nomatch hdraft

def freeSettings : Settings := { network := .testNet }

def fixedEnvelope : Envelope := { maxFee := some 100, deadline := some ⟨1000⟩ }

def ofLevyRemoval : Draft := .aggregate true [Embedded.levyRemoval]

theorem sendable_ofLevyRemoval : ofLevyRemoval.Sendable where
  accepted := fun _ hkey => nomatch hkey
  noProof := fun _ hdraft => nomatch hdraft
  changes_le := fun _ hdraft => nomatch hdraft
  built := by
    intro bonded inner hdraft embedded hembedded
    cases hdraft
    cases List.mem_singleton.mp hembedded
    exact ⟨freeSettings, {}, .levyRemoval ⟨⟨5⟩⟩, (sendable_levyRemoval _).toPlain, rfl⟩
  pieces_le := by
    intro bonded inner pieces hdraft hpieces
    cases hdraft
    have hshort : ([Embedded.levyRemoval].mapM Embedded.write).toOption.all
        (·.flatten.length ≤ 2 ^ 28) = true := by
      decide +kernel
    rw [hpieces] at hshort
    exact of_decide_eq_true hshort

theorem built_reads_back_ofLevyRemoval :
    (∃ tx bytes, ofLevyRemoval.build freeSettings fixedEnvelope 0 = .ok tx
      ∧ tx.write = .ok bytes ∧ Transaction.read bytes = .ok tx)
    ∧ ∃ embedded bytes,
      (levyRemoval ⟨⟨5⟩⟩).buildEmbedded freeSettings fixedEnvelope = .ok embedded
        ∧ embedded.write = .ok bytes ∧ Embedded.read bytes = .ok embedded := by
  constructor
  · have hbuilt : ofLevyRemoval.build freeSettings fixedEnvelope 0 = .ok _ := rfl
    obtain ⟨bytes, hbytes⟩ :=
      (built_reads_back sendable_ofLevyRemoval freeSettings fixedEnvelope).1 0 _ hbuilt
    exact ⟨_, bytes, hbuilt, hbytes⟩
  · have hbuilt : (levyRemoval ⟨⟨5⟩⟩).buildEmbedded freeSettings fixedEnvelope = .ok _ := rfl
    obtain ⟨bytes, hbytes⟩ :=
      (built_reads_back (sendable_levyRemoval _) freeSettings fixedEnvelope).2 _ hbuilt
    exact ⟨_, bytes, hbuilt, hbytes⟩

end LedgerTx.Draft
