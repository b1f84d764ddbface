import LedgerTx.Proofs.Draft.Refusal
import LedgerTx.Proofs.Name.Namespace

/-!
# Names in drafts

A registration is drafted by a single part of a name.  It is accepted by the
grammar of parts, and its id is the one that the part derives.
-/

namespace LedgerTx

/-! ## Registrations -/

namespace Registration

/-- A single part, and a positive duration under the root. -/
def Allowed (name : String) (tenure : Tenure) : Prop :=
  NamespaceName.IsPart name ∧ tenure ≠ .root 0

/-- A registration is refused for its name, or for its duration under a good name. -/
def RefusedFor (name : String) (tenure : Tenure) (field : String) : Prop :=
  ¬NamespaceName.IsPart name ∧ field = "name"
    ∨ NamespaceName.IsPart name ∧ tenure = .root 0 ∧ field = "duration"

variable {name : String} {tenure : Tenure}

/-- Only a root namespace that is rented for no time has no parent. -/
theorem exists_parentOf_iff : (∃ parent, parentOf tenure = .ok parent) ↔ tenure ≠ .root 0 := by
  cases tenure with
  | root duration => by_cases h : duration = 0 <;> simp [parentOf, h]
  | sub parent => simp [parentOf]

theorem exists_ofDraft_iff :
    (∃ registration, ofDraft name tenure = .ok registration) ↔ Allowed name tenure := by
  rw [Allowed, ← exists_parentOf_iff, ← NamespaceName.checkPart_eq_ok]
  constructor
  · rintro ⟨registration, h⟩
    obtain ⟨hpart, parent, hparent, -⟩ := ofDraft_eq_ok.mp h
    exact ⟨hpart, parent, hparent⟩
  · rintro ⟨hpart, parent, hparent⟩
    have hparts := (NamespaceName.checkPart_eq_ok.mp hpart).parts_eq
    have hid : NamespaceId.derive parent name = .ok ([name].foldl NamespaceId.child parent) :=
      NamespaceId.derive_eq_ok.mpr ⟨_, hparts, rfl⟩
    exact ⟨⟨name, _, tenure⟩, ofDraft_eq_ok.mpr ⟨hpart, parent, hparent, hid, rfl, rfl⟩⟩

theorem refusedFor_of_ofDraft {fault : DraftFault} (h : ofDraft name tenure = .error fault) :
    RefusedFor name tenure fault.fault.field := by
  rw [RefusedFor, ← NamespaceName.checkPart_eq_ok]
  unfold ofDraft at h
  split at h
  · rename_i cause hcause
    cases h
    refine .inl ⟨fun hpart => ?_, cause.field_fault⟩
    cases hcause.symm.trans hpart
  · rename_i hpart
    refine .inr ⟨hpart, ?_⟩
    have hparts := (NamespaceName.checkPart_eq_ok.mp hpart).parts_eq
    rcases bind_eq_error.mp h with hparent | ⟨parent, -, h⟩
    · cases tenure with
      | root duration =>
          obtain ⟨rfl, rfl⟩ | ⟨-, hparent⟩ := refuse_eq_error.mp hparent
          · exact ⟨rfl, rfl⟩
          · cases hparent
      | sub parent => cases hparent
    · rw [NamespaceId.derive_eq_ok.mpr ⟨_, hparts, rfl⟩] at h
      cases h

end Registration

namespace Draft

variable {name : String} {tenure : Tenure}

theorem exists_body_registration :
    (∃ body, (registration name tenure).body = .ok body) ↔ Registration.Allowed name tenure :=
  exists_completed_iff.trans Registration.exists_ofDraft_iff

theorem refusedFor_of_registration {fault : DraftFault}
    (h : (registration name tenure).body = .error fault) :
    Registration.RefusedFor name tenure fault.fault.field :=
  Registration.refusedFor_of_ofDraft (completed_eq_error.mp h)

end Draft

/-! ## Acceptance -/

/--
A text names a namespace, under any parent and along its path, exactly when
it is one to three parts of `[a-z0-9][a-z0-9_-]*`, each of at most 64 bytes,
joined by single dots; a refusal names the field of the name.  A registration
is built exactly for the texts of one part, with a positive duration under
the root.  Bit 63 is set in every id that is derived.
-/
theorem NamespaceName.accepted_iff (name : String) :
    (∀ parent, (∃ id, NamespaceId.derive parent name = .ok id) ↔ IsName name)
    ∧ ((∃ ids, NamespaceId.path name = .ok ids) ↔ IsName name)
    ∧ (∀ parent e, NamespaceId.derive parent name = .error e → e.fault.field = "name")
    ∧ (∀ e, NamespaceId.path name = .error e → e.fault.field = "name")
    ∧ (∀ (tenure : Tenure) (settings : Settings) (envelope : Envelope),
      ((∃ embedded, (Draft.registration name tenure).buildEmbedded settings envelope
          = .ok embedded) ↔ Registration.Allowed name tenure)
      ∧ (∀ fee deadline now, envelope.maxFee = some fee → envelope.deadline = some deadline →
        ((∃ tx, (Draft.registration name tenure).build settings envelope now = .ok tx)
          ↔ Registration.Allowed name tenure))
      ∧ (∀ now tx, (Draft.registration name tenure).build settings envelope now = .ok tx →
        Registration.Allowed name tenure
          ∧ ∃ result : Registration, tx.body = .operation (.registration result)
            ∧ result.name = name ∧ result.tenure = tenure
            ∧ result.id.value.toNat.testBit 63 = true)
      ∧ (∀ fault, (Draft.registration name tenure).buildEmbedded settings envelope
          = .error fault → Registration.RefusedFor name tenure fault.fault.field)
      ∧ ∀ now fault, (Draft.registration name tenure).build settings envelope now
          = .error fault →
        Registration.RefusedFor name tenure fault.fault.field
          ∨ Registration.Allowed name tenure ∧ fault.ofEnvelope = true)
    ∧ (∀ parent id, NamespaceId.derive parent name = .ok id →
      id.value.toNat.testBit 63 = true)
    ∧ ∀ ids, NamespaceId.path name = .ok ids → ∀ id ∈ ids, id.value.toNat.testBit 63 = true := by
  have hderive (parent : NamespaceId) :
      (∃ id, NamespaceId.derive parent name = .ok id) ↔ IsName name := by
    simp only [NamespaceId.derive_eq_ok, isName_iff]
    exact ⟨fun ⟨_, list, hlist, _⟩ => ⟨list, hlist⟩, fun ⟨list, hlist⟩ => ⟨_, list, hlist, rfl⟩⟩
  have hpath : (∃ ids, NamespaceId.path name = .ok ids) ↔ IsName name := by
    simp only [NamespaceId.path_eq_ok, isName_iff]
    exact ⟨fun ⟨_, list, hlist, _⟩ => ⟨list, hlist⟩, fun ⟨list, hlist⟩ => ⟨_, list, hlist, rfl⟩⟩
  refine ⟨hderive, hpath, fun _ e _ => e.field_fault, fun e _ => e.field_fault, ?_,
    fun _ _ h => NamespaceId.testBit_of_derive h, ?_⟩
  · intro tenure settings envelope
    have hsingle : (Draft.registration name tenure).Single := .of_completed rfl
    rw [← Draft.exists_body_registration]
    refine ⟨hsingle.exists_buildEmbedded_iff, ?_, ?_, ?_, ?_⟩
    · intro fee deadline now hfee hdeadline
      exact hsingle.exists_build_iff hfee hdeadline
    · intro now tx htx
      obtain ⟨result, hresult, hbody⟩ := Draft.result_of_build rfl htx
      obtain ⟨-, parent, -, hid, hname, htenure⟩ := Registration.ofDraft_eq_ok.mp hresult
      exact ⟨⟨_, Draft.completed_eq_ok.mpr ⟨result, hresult, rfl⟩⟩, result, hbody, hname,
        htenure, NamespaceId.testBit_of_derive hid⟩
    · intro fault hfault
      exact Draft.refusedFor_of_registration (hsingle.buildEmbedded_eq_error.mp hfault)
    · intro now fault hfault
      rcases Draft.body_of_build_eq_error hfault with hbody | ⟨⟨_, hbody⟩, henvelope⟩
      · exact .inl (Draft.refusedFor_of_registration hbody)
      · exact .inr ⟨⟨_, hbody⟩, henvelope⟩
  · intro ids hids id hid
    obtain ⟨list, -, rfl⟩ := NamespaceId.path_eq_ok.mp hids
    exact NamespaceId.testBit_descend hid

/-- The refused text has no part between its dots. -/
theorem NamespaceName.accepted_two_parts :
    (∃ id, NamespaceId.derive .root "a.b-c" = .ok id ∧ id.value.toNat.testBit 63 = true)
      ∧ (∃ ids, NamespaceId.path "a.b-c" = .ok ids
        ∧ ∀ id ∈ ids, id.value.toNat.testBit 63 = true)
      ∧ (∃ e, NamespaceId.derive .root "a..b" = .error e ∧ e.fault.field = "name")
      ∧ (∃ e, NamespaceId.path "a..b" = .error e ∧ e.fault.field = "name")
      ∧ (∃ tx, (Draft.registration "a" (.root 1)).build Draft.freeSettings Draft.fixedEnvelope 0
          = .ok tx ∧ ∃ result : Registration, tx.body = .operation (.registration result)
            ∧ result.name = "a" ∧ result.tenure = .root 1
            ∧ result.id.value.toNat.testBit 63 = true)
      ∧ (∃ fault, (Draft.registration "a.b-c" (.root 1)).buildEmbedded Draft.freeSettings
          Draft.fixedEnvelope = .error fault
        ∧ Registration.RefusedFor "a.b-c" (.root 1) fault.fault.field)
      ∧ ∃ fault, (Draft.registration "a" (.root 0)).build Draft.freeSettings
          Draft.fixedEnvelope 0 = .error fault
        ∧ (Registration.RefusedFor "a" (.root 0) fault.fault.field
          ∨ Registration.Allowed "a" (.root 0) ∧ fault.ofEnvelope = true) := by
  have hpair : IsName "a.b-c" := isName_iff.mpr ⟨["a", "b-c"], rfl⟩
  have hgap : parts "a..b" = .error .empty := rfl
  have hpart : checkPart "a" = .ok () := rfl
  obtain ⟨hderive, hpath, -, -, hpairBuild, hbit, hbits⟩ := accepted_iff "a.b-c"
  obtain ⟨-, -, hderiveFault, hpathFault, -⟩ := accepted_iff "a..b"
  obtain ⟨-, -, -, -, hbuild, -⟩ := accepted_iff "a"
  obtain ⟨id, hid⟩ := (hderive .root).mpr hpair
  obtain ⟨ids, hids⟩ := hpath.mpr hpair
  have hrefused : NamespaceId.derive .root "a..b" = .error .empty :=
    bind_eq_error.mpr (.inl hgap)
  have hunlisted : NamespaceId.path "a..b" = .error .empty := bind_eq_error.mpr (.inl hgap)
  have hallowed : Registration.Allowed "a" (.root 1) :=
    ⟨checkPart_eq_ok.mp hpart, by decide⟩
  obtain ⟨tx, htx⟩ := ((hbuild (.root 1) Draft.freeSettings Draft.fixedEnvelope).2.1 _ _ 0
    rfl rfl).mpr hallowed
  have hbad : (Draft.registration "a.b-c" (.root 1)).body
      = .error (.name (.character "a.b-c" '.')) := rfl
  have hshort : (Draft.registration "a" (.root 0)).body = .error (.notPositive "duration") := rfl
  refine ⟨⟨id, hid, hbit _ _ hid⟩, ⟨ids, hids, hbits _ hids⟩,
    ⟨_, hrefused, hderiveFault _ _ hrefused⟩, ⟨_, hunlisted, hpathFault _ hunlisted⟩,
    ⟨tx, htx, ((hbuild _ _ _).2.2.1 _ _ htx).2⟩, ?_, ?_⟩
  · have h : (Draft.registration "a.b-c" (.root 1)).buildEmbedded Draft.freeSettings
        Draft.fixedEnvelope = .error _ := bind_eq_error.mpr (.inl hbad)
    exact ⟨_, h, (hpairBuild _ _ _).2.2.2.1 _ h⟩
  · have h : (Draft.registration "a" (.root 0)).build Draft.freeSettings
        Draft.fixedEnvelope 0 = .error _ := bind_eq_error.mpr (.inl hshort)
    exact ⟨_, h, (hbuild _ _ _).2.2.2.2 _ _ h⟩

end LedgerTx
