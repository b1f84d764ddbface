import LedgerTx.Proofs.Draft.Build

/-!
# Why nothing is built

A draft is refused for what is wrong with it, whatever its envelope.  A draft
that has a body is refused only for its envelope: for the network, the
deadline or the fee of the transaction.
-/

namespace LedgerTx

/-- Faults of the envelope under which a draft is finished. -/
def DraftFault.ofEnvelope : DraftFault → Bool
  | otherNetwork _ _ _ | deadline _ | unsized _ | feeOverflow => true
  | _ => false

theorem DraftFault.field_of_envelope {fault : DraftFault} (h : fault.ofEnvelope = true) :
    fault.fault.field ∈ ["transactions", "deadline", "max_fee"] := by
  cases fault with
  | deadline cause => cases cause <;> decide
  | otherNetwork _ _ _ => exact List.mem_cons_self
  | unsized _ | feeOverflow => exact .tail _ (.tail _ List.mem_cons_self)
  | _ => cases h

namespace Draft

variable {draft : Draft} {settings : Settings} {envelope : Envelope} {now : Int}
  {fault : DraftFault}

theorem ofEnvelope_of_checkNetworks {network : Network} {body : Body}
    (h : checkNetworks network body = .error fault) : fault.ofEnvelope = true := by
  unfold checkNetworks at h
  split at h
  · cases h
  · split at h <;> cases h
    rfl

theorem deadline_of_deadlineIn (h : envelope.deadlineIn settings now = .error fault) :
    ∃ cause, fault = .deadline cause := by
  unfold Envelope.deadlineIn at h
  split at h
  · cases h
  · split at h <;> cases h
    exact ⟨_, rfl⟩

theorem fee_of_maxFeeOf {tx : Transaction} (h : envelope.maxFeeOf settings tx = .error fault) :
    (∃ cause, tx.write = .error cause ∧ fault = .unsized cause) ∨ fault = .feeOverflow := by
  unfold Envelope.maxFeeOf at h
  split at h
  · cases h
  · split at h
    · rename_i cause hwrite
      cases h
      exact .inl ⟨cause, hwrite, rfl⟩
    · split at h <;> cases h
      exact .inr rfl

theorem build_of_body_eq_error (h : draft.body = .error fault) :
    draft.build settings envelope now = .error fault
      ∧ draft.buildEmbedded settings envelope = .error fault :=
  ⟨bind_eq_error.mpr (.inl h), bind_eq_error.mpr (.inl h)⟩

theorem steps_of_build_eq_error (h : draft.build settings envelope now = .error fault) :
    draft.body = .error fault ∨ ∃ body, draft.body = .ok body
      ∧ (checkNetworks (envelope.networkIn settings) body = .error fault
        ∨ envelope.deadlineIn settings now = .error fault
        ∨ ∃ deadline, envelope.maxFeeOf settings ⟨envelope.networkIn settings,
          envelope.versionOf body.kind, 0, deadline, none, body⟩ = .error fault) := by
  rcases bind_eq_error.mp h with hbody | ⟨body, hbody, h⟩
  · exact .inl hbody
  refine .inr ⟨body, hbody, ?_⟩
  rcases bind_eq_error.mp h with hnetworks | ⟨_, _, h⟩
  · exact .inl hnetworks
  rcases bind_eq_error.mp h with hdeadline | ⟨deadline, _, h⟩
  · exact .inr (.inl hdeadline)
  rcases bind_eq_error.mp h with hfee | ⟨_, _, h⟩
  · exact .inr (.inr ⟨deadline, hfee⟩)
  · cases h

/-- A draft is refused for its own fault or for one of the envelope. -/
theorem body_of_build_eq_error (h : draft.build settings envelope now = .error fault) :
    draft.body = .error fault ∨ (∃ body, draft.body = .ok body) ∧ fault.ofEnvelope = true := by
  obtain hbody | ⟨body, hbody, hsteps⟩ := steps_of_build_eq_error h
  · exact .inl hbody
  refine .inr ⟨⟨body, hbody⟩, ?_⟩
  rcases hsteps with hnetworks | hdeadline | ⟨deadline, hfee⟩
  · exact ofEnvelope_of_checkNetworks hnetworks
  · obtain ⟨cause, rfl⟩ := deadline_of_deadlineIn hdeadline
    rfl
  · obtain ⟨cause, -, rfl⟩ | rfl := fee_of_maxFeeOf hfee
    · rfl
    · rfl

/-! ## Drafts of operations -/

variable {operation : Operation}

theorem buildEmbedded_of_body (h : draft.body = .ok (.operation operation)) :
    draft.buildEmbedded settings envelope = .ok ⟨envelope.networkIn settings,
      envelope.versionOf operation.kind, .operation operation⟩ :=
  buildEmbedded_eq_ok.mpr ⟨_, h, operation.isAggregate_kind, rfl⟩

theorem build_of_body {fee : UInt64} {deadline : Deadline} (hfee : envelope.maxFee = some fee)
    (hdeadline : envelope.deadline = some deadline) (h : draft.body = .ok (.operation operation)) :
    draft.build settings envelope now = .ok ⟨envelope.networkIn settings,
      envelope.versionOf operation.kind, fee, deadline, none, .operation operation⟩ := by
  refine build_eq_ok.mpr ⟨_, deadline, fee, h, rfl, ?_, ?_, rfl⟩
  · simp only [Envelope.deadlineIn, hdeadline]
  · simp only [Envelope.maxFeeOf, hfee]

/-- A draft of what can be written is refused only for its deadline or for a fee that is no word. -/
theorem build_eq_error_of_writable (hbody : draft.body = .ok (.operation operation))
    (hwritable : operation.Writable) (h : draft.build settings envelope now = .error fault) :
    fault = .feeOverflow ∨ ∃ cause, fault = .deadline cause := by
  obtain hrefused | ⟨body, hbody', hsteps⟩ := steps_of_build_eq_error h
  · cases hbody.symm.trans hrefused
  cases hbody.symm.trans hbody'
  rcases hsteps with hnetworks | hdeadline | ⟨deadline, hfee⟩
  · cases hnetworks
  · exact .inr (deadline_of_deadlineIn hdeadline)
  · obtain ⟨cause, hwrite, -⟩ | hoverflow := fee_of_maxFeeOf hfee
    · have hbuilt : Transaction.body ⟨envelope.networkIn settings,
          envelope.versionOf operation.kind, 0, deadline, none, .operation operation⟩
            = .operation operation := rfl
      obtain ⟨bytes, hbytes⟩ := Transaction.write_of_writable hbuilt hwritable
      cases hwrite.symm.trans hbytes
    · exact .inl hoverflow

/-- A draft that has no other body than an operation. -/
def Single (draft : Draft) : Prop :=
  ∀ body, draft.body = .ok body → ∃ operation, body = .operation operation

theorem Single.buildEmbedded_eq_error (hsingle : draft.Single) :
    draft.buildEmbedded settings envelope = .error fault ↔ draft.body = .error fault := by
  refine ⟨fun h => ?_, fun h => bind_eq_error.mpr (.inl h)⟩
  cases hbody : draft.body with
  | error cause =>
      have hrefused : draft.buildEmbedded settings envelope = .error cause :=
        bind_eq_error.mpr (.inl hbody)
      cases hrefused.symm.trans h
      rfl
  | ok body =>
      obtain ⟨operation, rfl⟩ := hsingle body hbody
      cases (buildEmbedded_of_body hbody).symm.trans h

theorem Single.exists_buildEmbedded_iff (hsingle : draft.Single) :
    (∃ embedded, draft.buildEmbedded settings envelope = .ok embedded)
      ↔ ∃ body, draft.body = .ok body := by
  constructor
  · rintro ⟨embedded, h⟩
    obtain ⟨body, hbody, -⟩ := buildEmbedded_eq_ok.mp h
    exact ⟨body, hbody⟩
  · rintro ⟨body, hbody⟩
    obtain ⟨operation, rfl⟩ := hsingle body hbody
    exact ⟨_, buildEmbedded_of_body hbody⟩

theorem Single.exists_build_iff (hsingle : draft.Single) {fee : UInt64} {deadline : Deadline}
    (hfee : envelope.maxFee = some fee) (hdeadline : envelope.deadline = some deadline) :
    (∃ tx, draft.build settings envelope now = .ok tx) ↔ ∃ body, draft.body = .ok body := by
  constructor
  · rintro ⟨tx, h⟩
    obtain ⟨body, _, _, hbody, -⟩ := build_eq_ok.mp h
    exact ⟨body, hbody⟩
  · rintro ⟨body, hbody⟩
    obtain ⟨operation, rfl⟩ := hsingle body hbody
    exact ⟨_, build_of_body hfee hdeadline hbody⟩

/-! ## Checked and completed drafts -/

variable {α : Type} {check : α → Except DraftFault Unit} {result : Except DraftFault α}
  {wrap : α → Operation} {a : α}

theorem checked_eq_error : checked check wrap a = .error fault ↔ check a = .error fault := by
  rw [checked, bind_eq_error]
  simp

theorem completed_eq_error : completed result wrap = .error fault ↔ result = .error fault := by
  rw [completed, bind_eq_error]
  simp

theorem exists_checked_iff : (∃ body, checked check wrap a = .ok body) ↔ check a = .ok () := by
  constructor
  · rintro ⟨body, hbody⟩
    exact (checked_eq_ok.mp hbody).1
  · intro hcheck
    exact ⟨_, checked_eq_ok.mpr ⟨hcheck, rfl⟩⟩

theorem exists_completed_iff :
    (∃ body, completed result wrap = .ok body) ↔ ∃ a, result = .ok a := by
  constructor
  · rintro ⟨body, hbody⟩
    obtain ⟨a, ha, -⟩ := completed_eq_ok.mp hbody
    exact ⟨a, ha⟩
  · rintro ⟨a, ha⟩
    exact ⟨_, completed_eq_ok.mpr ⟨a, ha, rfl⟩⟩

theorem Single.of_checked (hdraft : draft.body = checked check wrap a) : draft.Single := by
  intro body hbody
  rw [hdraft] at hbody
  exact ⟨_, (checked_eq_ok.mp hbody).2⟩

theorem Single.of_completed (hdraft : draft.body = completed result wrap) : draft.Single := by
  intro body hbody
  rw [hdraft] at hbody
  obtain ⟨a, -, rfl⟩ := completed_eq_ok.mp hbody
  exact ⟨_, rfl⟩

theorem single_or_aggregate (draft : Draft) :
    draft.Single ∨ ∃ bonded inner, draft = .aggregate bonded inner := by
  cases draft with
  | aggregate bonded inner => exact .inr ⟨bonded, inner, rfl⟩
  | levyRemoval _ | accountLink _ | secretLock _ => exact .inl fun _ h => ⟨_, (Except.ok.inj h).symm⟩
  | levyChange change =>
      have hbody : (levyChange change).body
          = checked (fun change => Levy.check change.levy) .levyChange change := rfl
      exact .inl (.of_checked hbody)
  | registration _ _ | multisig _ | fundsLock _ | metadataEntry _ => exact .inl (.of_completed rfl)
  | _ => exact .inl (.of_checked rfl)

theorem buildEmbedded_checked (hdraft : draft.body = checked check wrap a) {embedded : Embedded} :
    draft.buildEmbedded settings envelope = .ok embedded
      ↔ check a = .ok () ∧ embedded = ⟨envelope.networkIn settings,
        envelope.versionOf (wrap a).kind, .operation (wrap a)⟩ := by
  constructor
  · intro h
    obtain ⟨body, hbody, -, rfl⟩ := buildEmbedded_eq_ok.mp h
    obtain ⟨hcheck, rfl⟩ := checked_eq_ok.mp (hdraft.symm.trans hbody)
    exact ⟨hcheck, rfl⟩
  · rintro ⟨hcheck, rfl⟩
    exact buildEmbedded_of_body (hdraft.trans (checked_eq_ok.mpr ⟨hcheck, rfl⟩))

theorem check_of_build (hdraft : draft.body = checked check wrap a) {tx : Transaction}
    (h : draft.build settings envelope now = .ok tx) :
    check a = .ok () ∧ tx.body = .operation (wrap a) := by
  obtain ⟨body, _, _, hbody, -, -, -, rfl⟩ := build_eq_ok.mp h
  exact checked_eq_ok.mp (hdraft.symm.trans hbody)

theorem result_of_build (hdraft : draft.body = completed result wrap) {tx : Transaction}
    (h : draft.build settings envelope now = .ok tx) :
    ∃ a, result = .ok a ∧ tx.body = .operation (wrap a) := by
  obtain ⟨body, _, _, hbody, -, -, -, rfl⟩ := build_eq_ok.mp h
  exact completed_eq_ok.mp (hdraft.symm.trans hbody)

end Draft

end LedgerTx
