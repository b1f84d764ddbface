import LedgerTx.Proofs.Draft.Refusal
import Mathlib.Data.List.Duplicate

/-!
# Lists without repetition

Transfers, cosignatory changes, contract changes and offers are drafted as
lists, in each of which a thing may be named once.  All of them are refused
for a repetition except the offers that are accepted, which are built whatever
they name.
-/

namespace LedgerTx

/-! ## What is listed -/

inductive Listed where
  | mosaic (id : MosaicId)
  | party (key : PublicKey)
  | offer (pair : MosaicId × OfferSide)
deriving DecidableEq

def Operation.listed : Operation → List (List Listed)
  | transfer op => [(op.mosaics.map Mosaic.id).map .mosaic]
  | multisig op => [(op.changes.map Modification.value).map .party]
  | newOffers offers => [(offers.map fun offer => (offer.mosaic.id, offer.side)).map .offer]
  | takenOffers offers => [(offers.map fun offer => (offer.mosaic.id, offer.side)).map .offer]
  | withdrawnOffers offers => [(offers.map fun offer => (offer.id, offer.side)).map .offer]
  | contractChange op => [(op.customers.map Modification.value).map .party,
      (op.executors.map Modification.value).map .party,
      (op.verifiers.map Modification.value).map .party]
  | _ => []

/-- The lists of a body; an aggregate has none of its own. -/
def Body.listed : Body → List (List Listed)
  | operation op => op.listed
  | aggregate _ _ _ => []

def Draft.listed : Draft → List (List Listed)
  | transfer op => [(op.mosaics.map Mosaic.id).map .mosaic]
  | multisig draft => [(draft.changes.map Modification.value).map .party]
  | newOffers offers => [(offers.map fun offer => (offer.mosaic.id, offer.side)).map .offer]
  | takenOffers offers => [(offers.map fun offer => (offer.mosaic.id, offer.side)).map .offer]
  | withdrawnOffers offers => [(offers.map fun offer => (offer.id, offer.side)).map .offer]
  | contractChange op => [(op.customers.map Modification.value).map .party,
      (op.executors.map Modification.value).map .party,
      (op.verifiers.map Modification.value).map .party]
  | _ => []

/-- What a draft is refused for naming twice. -/
def DraftFault.repeated? : DraftFault → Option Listed
  | repeatedMosaic id => some (.mosaic id)
  | repeatedCosignatory key | repeatedParty _ key => some (.party key)
  | repeatedOffer side id => some (.offer (id, side))
  | _ => none

/-! ## The search for a repetition -/

namespace Draft

variable {α κ : Type} [DecidableEq κ] {key : α → κ} {seen : List κ} {entries : List α} {found : α}

theorem sublist_of_repeatAfter (h : repeatAfter key seen entries = some found) :
    (key found ∈ seen ∧ found ∈ entries)
      ∨ ∃ earlier, [earlier, found].Sublist entries ∧ key earlier = key found := by
  induction entries generalizing seen with
  | nil => cases h
  | cons a rest ih =>
      rw [repeatAfter] at h
      split at h
      · rename_i hseen
        cases h
        exact .inl ⟨hseen, List.mem_cons_self⟩
      · rcases ih h with ⟨hseen, hmem⟩ | ⟨earlier, hsublist, hkey⟩
        · rcases List.mem_cons.mp hseen with hkey | hseen
          · exact .inr ⟨a, (List.singleton_sublist.mpr hmem).cons_cons a, hkey.symm⟩
          · exact .inl ⟨hseen, List.mem_cons_of_mem a hmem⟩
        · exact .inr ⟨earlier, hsublist.cons a, hkey⟩

theorem duplicate_of_firstRepeat? (h : firstRepeat? key entries = some found) :
    List.Duplicate (key found) (entries.map key) := by
  rcases sublist_of_repeatAfter h with ⟨hseen, -⟩ | ⟨earlier, hsublist, hkey⟩
  · cases hseen
  · have htwice := hsublist.map key
    rw [List.map_cons, List.map_singleton, hkey] at htwice
    exact List.duplicate_iff_sublist.mpr htwice

end Draft

namespace Listed

variable {κ : Type} {thing : κ → Listed}

theorem duplicate_map {key : κ} {keys : List κ} (h : List.Duplicate key keys) :
    List.Duplicate (thing key) (keys.map thing) :=
  List.duplicate_iff_sublist.mpr ((List.duplicate_iff_sublist.mp h).map thing)

end Listed

/-! ## Lists that are refused -/

variable {fault : DraftFault} {item : Listed}

theorem Transfer.twice_of_check {transfer : Transfer} (h : transfer.check = .error fault)
    (hitem : fault.repeated? = some item) :
    List.Duplicate item ((transfer.mosaics.map Mosaic.id).map .mosaic) := by
  rcases refuse_eq_error.mp h with ⟨-, rfl⟩ | ⟨-, h⟩
  · cases hitem
  · split at h
    · rename_i mosaic hrepeated
      cases h
      cases hitem
      exact Listed.duplicate_map (Draft.duplicate_of_firstRepeat? hrepeated)
    · rcases refuse_eq_error.mp h with ⟨-, rfl⟩ | ⟨-, h⟩
      · cases hitem
      · cases h

theorem MultisigDraft.repeated?_of_narrow {field : String} {delta : Int32}
    (h : narrow field delta = .error fault) : fault.repeated? = none := by
  unfold narrow at h
  split at h <;> cases h
  rfl

theorem MultisigDraft.twice_of_finish {draft : MultisigDraft} (h : draft.finish = .error fault)
    (hitem : fault.repeated? = some item) :
    List.Duplicate item ((draft.changes.map Modification.value).map .party) := by
  rcases bind_eq_error.mp h with hnarrow | ⟨approval, -, h⟩
  · cases (repeated?_of_narrow hnarrow).symm.trans hitem
  rcases bind_eq_error.mp h with hnarrow | ⟨removal, -, h⟩
  · cases (repeated?_of_narrow hnarrow).symm.trans hitem
  rcases refuse_eq_error.mp h with ⟨-, rfl⟩ | ⟨-, h⟩
  · cases hitem
  split at h
  · rename_i m hrepeated
    cases h
    cases hitem
    exact Listed.duplicate_map (Draft.duplicate_of_firstRepeat? hrepeated)
  · rcases refuse_eq_error.mp h with ⟨-, rfl⟩ | ⟨-, h⟩
    · cases hitem
    · cases h

theorem ContractChange.twice_of_checkList {field : String}
    {changes : List (Modification PublicKey)} (h : checkList field changes = .error fault)
    (hitem : fault.repeated? = some item) :
    List.Duplicate item ((changes.map Modification.value).map .party) := by
  rcases refuse_eq_error.mp h with ⟨-, rfl⟩ | ⟨-, h⟩
  · cases hitem
  · split at h
    · rename_i m hrepeated
      cases h
      cases hitem
      exact Listed.duplicate_map (Draft.duplicate_of_firstRepeat? hrepeated)
    · cases h

theorem Offer.repeated?_of_checkCount {count : Nat} (h : checkCount count = .error fault) :
    fault.repeated? = none := by
  rcases refuse_eq_error.mp h with ⟨-, rfl⟩ | ⟨-, h⟩
  · rfl
  · rcases refuse_eq_error.mp h with ⟨-, rfl⟩ | ⟨-, h⟩
    · rfl
    · cases h

theorem Offer.twice_of_checkDistinct {keys : List (MosaicId × OfferSide)}
    (h : checkDistinct keys = .error fault) (hitem : fault.repeated? = some item) :
    List.Duplicate item (keys.map .offer) := by
  unfold checkDistinct at h
  split at h
  · rename_i mosaic side hrepeated
    cases h
    cases hitem
    have htwice := Draft.duplicate_of_firstRepeat? hrepeated
    rw [List.map_id] at htwice
    exact Listed.duplicate_map htwice
  · cases h

theorem NewOffer.repeated?_of_check {offer : NewOffer} (h : offer.check = .error fault) :
    fault.repeated? = none := by
  rcases refuse_eq_error.mp h with ⟨-, rfl⟩ | ⟨-, h⟩
  · rfl
  · rcases refuse_eq_error.mp h with ⟨-, rfl⟩ | ⟨-, h⟩
    · rfl
    · cases h

theorem NewOffer.twice_of_checkAll {offers : List NewOffer} (h : checkAll offers = .error fault)
    (hitem : fault.repeated? = some item) :
    List.Duplicate item ((offers.map fun offer => (offer.mosaic.id, offer.side)).map .offer) := by
  rcases bind_eq_error.mp h with hcount | ⟨-, -, h⟩
  · cases (Offer.repeated?_of_checkCount hcount).symm.trans hitem
  rcases bind_eq_error.mp h with hrepeated | ⟨-, -, h⟩
  · exact Offer.twice_of_checkDistinct hrepeated hitem
  · obtain ⟨offer, -, hoffer⟩ := exists_of_forM_eq_error h
    cases (repeated?_of_check hoffer).symm.trans hitem

/-- Accepted offers are never refused for a repetition. -/
theorem TakenOffer.repeated?_of_checkAll {offers : List TakenOffer}
    (h : checkAll offers = .error fault) : fault.repeated? = none := by
  rcases bind_eq_error.mp h with hcount | ⟨-, -, h⟩
  · exact Offer.repeated?_of_checkCount hcount
  · rcases refuse_eq_error.mp h with ⟨-, rfl⟩ | ⟨-, h⟩
    · rfl
    · cases h

theorem WithdrawnOffer.twice_of_checkAll {offers : List WithdrawnOffer}
    (h : checkAll offers = .error fault) (hitem : fault.repeated? = some item) :
    List.Duplicate item ((offers.map fun offer => (offer.id, offer.side)).map .offer) := by
  rcases bind_eq_error.mp h with hcount | ⟨-, -, h⟩
  · cases (Offer.repeated?_of_checkCount hcount).symm.trans hitem
  · exact Offer.twice_of_checkDistinct h hitem

theorem ContractChange.twice_of_check {contract : ContractChange}
    (h : contract.check = .error fault) (hitem : fault.repeated? = some item) :
    ∃ list ∈ (Draft.contractChange contract).listed, List.Duplicate item list := by
  rcases bind_eq_error.mp h with h | ⟨-, -, h⟩
  · exact ⟨_, List.mem_cons_self, twice_of_checkList h hitem⟩
  rcases bind_eq_error.mp h with h | ⟨-, -, h⟩
  · exact ⟨_, .tail _ List.mem_cons_self, twice_of_checkList h hitem⟩
  · exact ⟨_, .tail _ (.tail _ List.mem_cons_self), twice_of_checkList h hitem⟩

/-! ## Drafts with lists -/

namespace Draft

variable {draft : Draft}

theorem listed_of_body {body : Body} (h : draft.body = .ok body) : body.listed = draft.listed := by
  cases draft with
  | multisig draft =>
      obtain ⟨multisig, hfinish, rfl⟩ := completed_eq_ok.mp h
      obtain ⟨-, -, -, -, -, hchanges⟩ := MultisigDraft.finish_eq_ok.mp hfinish
      show [(multisig.changes.map Modification.value).map Listed.party] = _
      rw [hchanges]
      rfl
  | aggregate bonded inner =>
      obtain ⟨-, -, rfl⟩ := bundle_eq_ok.mp h
      rfl
  | levyRemoval _ | accountLink _ | secretLock _ =>
      cases h
      rfl
  | levyChange _ =>
      obtain ⟨-, h⟩ := then_eq_ok.mp h
      cases h
      rfl
  | registration _ _ | fundsLock _ | metadataEntry _ =>
      obtain ⟨_, -, rfl⟩ := completed_eq_ok.mp h
      rfl
  | transfer _ | mosaicDefinition _ _ | supplyChange _ | nameLink _ | accountFilter _ | secretProof _
  | metadataChanges _ | newOffers _ | takenOffers _ | withdrawnOffers _ | contractChange _
  | networkConfig _ | networkUpgrade _ | drivePreparation _ =>
      obtain ⟨-, rfl⟩ := checked_eq_ok.mp h
      rfl

/-- The lists of a draft that has a body name nothing twice, those of taken offers apart. -/
theorem nodup_of_body {body : Body} (h : draft.body = .ok body)
    (hother : ∀ offers, draft ≠ .takenOffers offers) : ∀ list ∈ draft.listed, list.Nodup := by
  have hmosaic : Function.Injective Listed.mosaic := fun _ _ => Listed.mosaic.inj
  have hparty : Function.Injective Listed.party := fun _ _ => Listed.party.inj
  have hoffer : Function.Injective Listed.offer := fun _ _ => Listed.offer.inj
  cases draft with
  | transfer op =>
      have hcheck := (checked_eq_ok.mp h).1
      have hdistinct := (Transfer.check_eq_ok.mp hcheck).2.1
      exact List.forall_mem_singleton.mpr (hdistinct.map hmosaic)
  | multisig draft =>
      obtain ⟨multisig, hfinish, -⟩ := completed_eq_ok.mp h
      obtain ⟨-, -, -, hdistinct, -, -⟩ := MultisigDraft.finish_eq_ok.mp hfinish
      exact List.forall_mem_singleton.mpr (hdistinct.map hparty)
  | newOffers offers =>
      have hcheck := (checked_eq_ok.mp h).1
      have hdistinct := (NewOffer.checkAll_eq_ok.mp hcheck).2.1
      exact List.forall_mem_singleton.mpr (hdistinct.map hoffer)
  | takenOffers offers => exact absurd rfl (hother offers)
  | withdrawnOffers offers =>
      have hcheck := (checked_eq_ok.mp h).1
      have hdistinct := (WithdrawnOffer.checkAll_eq_ok.mp hcheck).2
      exact List.forall_mem_singleton.mpr (hdistinct.map hoffer)
  | contractChange op =>
      have hcheck := (checked_eq_ok.mp h).1
      obtain ⟨hcustomers, hexecutors, hverifiers⟩ := ContractChange.check_eq_ok.mp hcheck
      have heach {field : String} {changes : List (Modification PublicKey)}
          (hlist : ContractChange.checkList field changes = .ok ()) :
          ((changes.map Modification.value).map Listed.party).Nodup :=
        (ContractChange.checkList_eq_ok.mp hlist).2.map hparty
      simp only [listed, List.forall_mem_cons]
      exact ⟨heach hcustomers, heach hexecutors, heach hverifiers, fun _ hmem => nomatch hmem⟩
  | _ => exact fun _ hmem => nomatch hmem

theorem twice_of_body (hlisted : draft.listed ≠ []) (h : draft.body = .error fault)
    (hitem : fault.repeated? = some item) : ∃ list ∈ draft.listed, List.Duplicate item list := by
  cases draft with
  | transfer op =>
      have hcheck := checked_eq_error.mp h
      exact ⟨_, List.mem_cons_self, Transfer.twice_of_check hcheck hitem⟩
  | multisig draft =>
      have hfinish := completed_eq_error.mp h
      exact ⟨_, List.mem_cons_self, MultisigDraft.twice_of_finish hfinish hitem⟩
  | newOffers offers =>
      have hcheck := checked_eq_error.mp h
      exact ⟨_, List.mem_cons_self, NewOffer.twice_of_checkAll hcheck hitem⟩
  | takenOffers offers =>
      have hcheck := checked_eq_error.mp h
      cases (TakenOffer.repeated?_of_checkAll hcheck).symm.trans hitem
  | withdrawnOffers offers =>
      have hcheck := checked_eq_error.mp h
      exact ⟨_, List.mem_cons_self, WithdrawnOffer.twice_of_checkAll hcheck hitem⟩
  | contractChange op => exact ContractChange.twice_of_check (checked_eq_error.mp h) hitem
  | _ => exact absurd rfl hlisted

theorem single_of_listed (hlisted : draft.listed ≠ []) : draft.Single := by
  rcases draft.single_or_aggregate with hsingle | ⟨bonded, inner, rfl⟩
  · exact hsingle
  · exact absurd rfl hlisted

variable {settings : Settings} {envelope : Envelope} {now : Int}

theorem repeated?_of_envelope (h : fault.ofEnvelope = true) : fault.repeated? = none := by
  cases fault with
  | otherNetwork _ _ _ | deadline _ | unsized _ | feeOverflow => rfl
  | _ => cases h

theorem twice_of_build (hlisted : draft.listed ≠ [])
    (h : draft.build settings envelope now = .error fault
      ∨ draft.buildEmbedded settings envelope = .error fault)
    (hitem : fault.repeated? = some item) : ∃ list ∈ draft.listed, List.Duplicate item list := by
  rcases h with h | h
  · rcases body_of_build_eq_error h with hbody | ⟨-, henvelope⟩
    · exact twice_of_body hlisted hbody hitem
    · cases (repeated?_of_envelope henvelope).symm.trans hitem
  · exact twice_of_body hlisted ((single_of_listed hlisted).buildEmbedded_eq_error.mp h) hitem

theorem exists_body_takenOffers {offers : List TakenOffer} :
    (∃ body, (takenOffers offers).body = .ok body)
      ↔ (offers.length ≠ 0 ∧ offers.length ≤ 255) ∧ ∀ offer ∈ offers, offer.mosaic.amount ≠ 0 := by
  exact exists_checked_iff.trans TakenOffer.checkAll_eq_ok

/-! ## Built lists -/

/--
A draft keeps its lists when it is built, as a transaction or to be embedded,
and none of them names a thing twice unless it is of accepted offers.  These
are built whatever they name: exactly when there are one to 255 of them, each
of a positive amount.  A draft with lists is refused for a repetition only of
a thing that one of its lists names twice, so for none when they name nothing
twice.
-/
theorem listed_once_when_built (draft : Draft) (settings : Settings) (envelope : Envelope)
    (now : Int) :
    (∀ tx, draft.build settings envelope now = .ok tx → tx.body.listed = draft.listed
      ∧ ((∀ offers, draft ≠ .takenOffers offers) → ∀ list ∈ tx.body.listed, list.Nodup))
    ∧ (∀ embedded, draft.buildEmbedded settings envelope = .ok embedded →
      embedded.body.listed = draft.listed
        ∧ ((∀ offers, draft ≠ .takenOffers offers) → ∀ list ∈ embedded.body.listed, list.Nodup))
    ∧ (∀ offers, draft = .takenOffers offers →
      ((∃ embedded, draft.buildEmbedded settings envelope = .ok embedded)
        ↔ (offers.length ≠ 0 ∧ offers.length ≤ 255) ∧ ∀ offer ∈ offers, offer.mosaic.amount ≠ 0)
      ∧ ∀ fee deadline, envelope.maxFee = some fee → envelope.deadline = some deadline →
        ((∃ tx, draft.build settings envelope now = .ok tx)
          ↔ (offers.length ≠ 0 ∧ offers.length ≤ 255)
            ∧ ∀ offer ∈ offers, offer.mosaic.amount ≠ 0))
    ∧ ∀ fault, draft.listed ≠ [] →
      draft.build settings envelope now = .error fault
        ∨ draft.buildEmbedded settings envelope = .error fault →
      (∀ item, fault.repeated? = some item → ∃ list ∈ draft.listed, List.Duplicate item list)
        ∧ ((∀ list ∈ draft.listed, list.Nodup) → fault.repeated? = none) := by
  refine ⟨fun tx h => ?_, fun embedded h => ?_, ?_, fun fault hlisted h => ?_⟩
  · obtain ⟨body, _, _, hbody, -, -, -, rfl⟩ := build_eq_ok.mp h
    have hlists := listed_of_body hbody
    exact ⟨hlists, fun hother => hlists ▸ nodup_of_body hbody hother⟩
  · obtain ⟨body, hbody, -, rfl⟩ := buildEmbedded_eq_ok.mp h
    have hlists := listed_of_body hbody
    exact ⟨hlists, fun hother => hlists ▸ nodup_of_body hbody hother⟩
  · rintro offers rfl
    have hsingle : (takenOffers offers).Single := .of_checked rfl
    rw [← exists_body_takenOffers]
    exact ⟨hsingle.exists_buildEmbedded_iff, fun _ _ => hsingle.exists_build_iff⟩
  · have htwice (item : Listed) (hitem : fault.repeated? = some item) :=
      twice_of_build hlisted h hitem
    refine ⟨htwice, fun hdistinct => Option.eq_none_iff_forall_ne_some.mpr fun item hitem => ?_⟩
    obtain ⟨list, hlist, hduplicate⟩ := htwice item hitem
    exact List.nodup_iff_forall_not_duplicate.mp (hdistinct list hlist) item hduplicate

end Draft

def Transfer.ofUnits (ids : List MosaicId) : Transfer :=
  ⟨.named ⟨0x8000000000000001⟩, ids.map fun id => ⟨id, 1⟩, .empty⟩

def TakenOffer.ofUnit (id : MosaicId) : TakenOffer := ⟨⟨⟨id, 1⟩, 1, .sell⟩, .base⟩

namespace Draft

theorem listed_once_when_built_units :
    (∃ tx, (transfer (.ofUnits [⟨5⟩, ⟨6⟩])).build freeSettings fixedEnvelope 0 = .ok tx
        ∧ tx.body.listed = [[.mosaic ⟨5⟩, .mosaic ⟨6⟩]] ∧ ∀ list ∈ tx.body.listed, list.Nodup)
      ∧ (∃ embedded, (transfer (.ofUnits [⟨5⟩, ⟨6⟩])).buildEmbedded freeSettings fixedEnvelope
          = .ok embedded ∧ ∀ list ∈ embedded.body.listed, list.Nodup)
      ∧ (∃ tx, (takenOffers [.ofUnit ⟨5⟩, .ofUnit ⟨6⟩]).build freeSettings fixedEnvelope 0 = .ok tx)
      ∧ (∃ fault, (transfer (.ofUnits [⟨5⟩, ⟨6⟩, ⟨5⟩])).build freeSettings fixedEnvelope 0
          = .error fault ∧ fault.repeated? = some (.mosaic ⟨5⟩)
        ∧ ∃ list ∈ (transfer (.ofUnits [⟨5⟩, ⟨6⟩, ⟨5⟩])).listed,
          List.Duplicate (.mosaic ⟨5⟩) list)
      ∧ ∃ fault, (newOffers []).buildEmbedded freeSettings fixedEnvelope = .error fault
        ∧ fault.repeated? = none := by
  obtain ⟨hbuild, hpiece, -, -⟩ :=
    listed_once_when_built (transfer (.ofUnits [⟨5⟩, ⟨6⟩])) freeSettings fixedEnvelope 0
  obtain ⟨-, -, htaken, -⟩ := listed_once_when_built (takenOffers [.ofUnit ⟨5⟩, .ofUnit ⟨6⟩])
    freeSettings fixedEnvelope 0
  obtain ⟨-, -, -, htwice⟩ := listed_once_when_built (transfer (.ofUnits [⟨5⟩, ⟨6⟩, ⟨5⟩]))
    freeSettings fixedEnvelope 0
  obtain ⟨-, -, -, hempty⟩ := listed_once_when_built (newOffers []) freeSettings fixedEnvelope 0
  have hbody : (transfer (.ofUnits [⟨5⟩, ⟨6⟩])).body = .ok (.operation (.transfer _)) := rfl
  have hplain : ∀ offers, transfer (.ofUnits [⟨5⟩, ⟨6⟩]) ≠ .takenOffers offers :=
    fun _ h => nomatch h
  have hrepeated : (transfer (.ofUnits [⟨5⟩, ⟨6⟩, ⟨5⟩])).build freeSettings fixedEnvelope 0
      = .error (.repeatedMosaic ⟨5⟩) := rfl
  have hnone : (newOffers []).buildEmbedded freeSettings fixedEnvelope
      = .error (.missing "offers") := rfl
  have htx : (transfer (.ofUnits [⟨5⟩, ⟨6⟩])).build freeSettings fixedEnvelope 0 = .ok _ :=
    build_of_body rfl rfl hbody
  have hembedded : (transfer (.ofUnits [⟨5⟩, ⟨6⟩])).buildEmbedded freeSettings fixedEnvelope
      = .ok _ := buildEmbedded_of_body hbody
  refine ⟨⟨_, htx, rfl, (hbuild _ htx).2 hplain⟩, ⟨_, hembedded, (hpiece _ hembedded).2 hplain⟩,
    ((htaken _ rfl).2 100 ⟨1000⟩ rfl rfl).mpr (by decide),
    ⟨_, hrepeated, rfl, (htwice _ (List.cons_ne_nil _ _) (.inl hrepeated)).1 _ rfl⟩,
    _, hnone, (hempty _ (List.cons_ne_nil _ _) (.inr hnone)).2 ?_⟩
  exact List.forall_mem_singleton.mpr List.nodup_nil

theorem takenOffers_built_twice :
    (∃ tx, (takenOffers [.ofUnit ⟨5⟩, .ofUnit ⟨5⟩]).build freeSettings fixedEnvelope 0 = .ok tx
        ∧ tx.body = .operation (.takenOffers [.ofUnit ⟨5⟩, .ofUnit ⟨5⟩])
        ∧ ∃ list ∈ tx.body.listed, ¬ list.Nodup)
      ∧ ∃ embedded, (takenOffers [.ofUnit ⟨5⟩, .ofUnit ⟨5⟩]).buildEmbedded freeSettings
          fixedEnvelope = .ok embedded
        ∧ embedded.body = .operation (.takenOffers [.ofUnit ⟨5⟩, .ofUnit ⟨5⟩])
        ∧ ∃ list ∈ embedded.body.listed, ¬ list.Nodup := by
  have hbody : (takenOffers [.ofUnit ⟨5⟩, .ofUnit ⟨5⟩]).body
      = .ok (.operation (.takenOffers [.ofUnit ⟨5⟩, .ofUnit ⟨5⟩])) := rfl
  exact ⟨⟨_, build_of_body rfl rfl hbody, rfl, _, List.mem_cons_self, by decide⟩,
    _, buildEmbedded_of_body hbody, rfl, _, List.mem_cons_self, by decide⟩

end Draft

end LedgerTx
