import LedgerTx.Proofs.Draft.Naming

/-!
# Registering along a path

A namespace is registered part by part, the first part as a root namespace and
each later one under the id of the part before.  The registrations yield the
ids along the name, which are also those of its beginnings.
-/

namespace LedgerTx

namespace Registration

variable {settings : Settings} {tenure : Tenure} {parent : NamespaceId}

/-! ## One registration -/

theorem id_of_ofDraft {name : String} {result : Registration}
    (h : ofDraft name tenure = .ok result) (hparent : parentOf tenure = .ok parent) :
    result.id = parent.child name := by
  obtain ⟨hpart, found, hfound, hid, -, -⟩ := ofDraft_eq_ok.mp h
  cases hparent.symm.trans hfound
  obtain ⟨list, hlist, hchild⟩ := NamespaceId.derive_eq_ok.mp hid
  cases (NamespaceName.checkPart_eq_ok.mp hpart).parts_eq.symm.trans hlist
  exact hchild

theorem exists_ofDraft {name : String} (hpart : NamespaceName.IsPart name)
    (hparent : parentOf tenure = .ok parent) :
    ∃ result, ofDraft name tenure = .ok result ∧ result.id = parent.child name := by
  obtain ⟨result, h⟩ := exists_ofDraft_iff.mpr ⟨hpart, exists_parentOf_iff.mp ⟨parent, hparent⟩⟩
  exact ⟨result, h, id_of_ofDraft h hparent⟩

/-! ## Registrations one after another -/

structure Step where
  part : String
  envelope : Envelope
  now : Int

def Step.Given (step : Step) : Prop :=
  (∃ fee, step.envelope.maxFee = some fee) ∧ ∃ deadline, step.envelope.deadline = some deadline

/--
Registrations that are built one after another, with the ids that they are
for.  The first has the given tenure, and every other stands under the id of
the one before.
-/
inductive Run (settings : Settings) : Tenure → List Step → List NamespaceId → Prop
  | done {tenure : Tenure} : Run settings tenure [] []
  | next {tenure : Tenure} {step : Step} {rest : List Step} {tx : Transaction}
      {result : Registration} {ids : List NamespaceId}
      (built : (Draft.registration step.part tenure).build settings step.envelope step.now
        = .ok tx)
      (body : tx.body = .operation (.registration result))
      (later : Run settings (.sub result.id) rest ids) :
      Run settings tenure (step :: rest) (result.id :: ids)

theorem Run.ids_eq {steps : List Step} {ids : List NamespaceId} (h : Run settings tenure steps ids)
    (hparent : parentOf tenure = .ok parent) :
    ids = NamespaceId.descend parent (steps.map Step.part) := by
  induction h generalizing parent with
  | done => rfl
  | next built body later ih =>
      obtain ⟨result, hresult, hbody⟩ := Draft.result_of_build rfl built
      cases body.symm.trans hbody
      rw [List.map_cons, NamespaceId.descend, ← id_of_ofDraft hresult hparent, ih rfl]

theorem run_descend {steps : List Step}
    (hparts : ∀ step ∈ steps, NamespaceName.IsPart step.part) (hgiven : ∀ step ∈ steps, step.Given)
    (hparent : parentOf tenure = .ok parent) :
    Run settings tenure steps (NamespaceId.descend parent (steps.map Step.part)) := by
  induction steps generalizing tenure parent with
  | nil => exact .done
  | cons step rest ih =>
      obtain ⟨hpart, hparts⟩ := List.forall_mem_cons.mp hparts
      obtain ⟨⟨⟨fee, hfee⟩, deadline, hdeadline⟩, hgiven⟩ := List.forall_mem_cons.mp hgiven
      obtain ⟨result, hresult, hid⟩ := exists_ofDraft hpart hparent
      have hbody : (Draft.registration step.part tenure).body
          = .ok (.operation (.registration result)) :=
        Draft.completed_eq_ok.mpr ⟨result, hresult, rfl⟩
      rw [List.map_cons, NamespaceId.descend, ← hid]
      exact .next (Draft.build_of_body hfee hdeadline hbody) rfl (ih hparts hgiven rfl)

end Registration

/-! ## Ids along a name -/

/--
The id of two names that a dot joins is the id of the second under the id of
the first, whatever the parent.  The path of a name has one id for each part,
of which the i-th is the id of the first i parts under the root and the last
the id of the name.  Registering the parts one by one, the first for a
positive duration, yields these ids and no others; no registration is refused
when its fee and its deadline are given.
-/
theorem NamespaceId.derived_along_path :
    (∀ (parent : NamespaceId) (a b : String) (front back : List String),
      NamespaceName.parts a = .ok front → NamespaceName.parts b = .ok back →
      front.length + back.length ≤ 3 →
      ∃ middle id, derive parent a = .ok middle ∧ derive middle b = .ok id
        ∧ derive parent (a ++ "." ++ b) = .ok id)
    ∧ ∀ (name : String) (list : List String), NamespaceName.parts name = .ok list →
      ∃ ids last, path name = .ok ids ∧ ids.length = list.length
        ∧ (∀ (i : Nat) (h : i < ids.length),
          derive root (".".intercalate (list.take (i + 1))) = .ok ids[i])
        ∧ ids.getLast? = some last ∧ derive root name = .ok last
        ∧ ∀ (settings : Settings) (duration : UInt64) (steps : List Registration.Step),
          duration ≠ 0 → steps.map Registration.Step.part = list →
          (∀ found, Registration.Run settings (.root duration) steps found → found = ids)
            ∧ ((∀ step ∈ steps, step.Given) →
              Registration.Run settings (.root duration) steps ids) := by
  constructor
  · intro parent a b front back ha hb hdepth
    refine ⟨front.foldl child parent, back.foldl child (front.foldl child parent),
      derive_eq_ok.mpr ⟨front, ha, rfl⟩, derive_eq_ok.mpr ⟨back, hb, rfl⟩, ?_⟩
    exact derive_eq_ok.mpr
      ⟨front ++ back, NamespaceName.parts_join ha hb hdepth, List.foldl_append.symm⟩
  · intro name list hlist
    obtain ⟨⟨hsome, -⟩, hparts, -⟩ := NamespaceName.parts_eq_ok.mp hlist
    refine ⟨descend root list, list.foldl child root, path_eq_ok.mpr ⟨list, hlist, rfl⟩,
      length_descend root list, fun i h => ?_, getLast?_descend (List.length_pos_iff.mp hsome) root,
      derive_eq_ok.mpr ⟨list, hlist, rfl⟩, fun settings duration steps hduration hsteps => ?_⟩
    · exact derive_eq_ok.mpr
        ⟨_, NamespaceName.parts_take hlist i, getElem_descend root list i h⟩
    · have hparent : Registration.parentOf (.root duration) = .ok root := if_neg hduration
      subst hsteps
      refine ⟨fun found hrun => hrun.ids_eq hparent, fun hgiven => ?_⟩
      exact Registration.run_descend
        (fun step hstep => hparts _ (List.mem_map_of_mem hstep)) hgiven hparent

def Registration.Step.given (part : String) : Registration.Step := ⟨part, Draft.fixedEnvelope, 0⟩

theorem NamespaceId.derived_along_path_threeParts :
    (∃ middle id, derive ⟨7⟩ "a" = .ok middle ∧ derive middle "b-c.d" = .ok id
        ∧ derive ⟨7⟩ "a.b-c.d" = .ok id)
      ∧ ∃ ids, path "a.b-c.d" = .ok ids ∧ ids.length = 3
        ∧ (∃ id, ids[1]? = some id ∧ derive root "a.b-c" = .ok id)
        ∧ Registration.Run Draft.freeSettings (.root 1) (["a", "b-c", "d"].map .given) ids := by
  obtain ⟨hjoin, hpath⟩ := derived_along_path
  refine ⟨hjoin ⟨7⟩ "a" "b-c.d" ["a"] ["b-c", "d"] rfl rfl (by decide), ?_⟩
  obtain ⟨ids, last, hids, hlength, heach, -, -, hrun⟩ :=
    hpath "a.b-c.d" ["a", "b-c", "d"] rfl
  have hone : 1 < ids.length := by
    rw [hlength]
    decide
  refine ⟨ids, hids, hlength, ⟨ids[1], List.getElem?_eq_getElem hone, heach 1 hone⟩, ?_⟩
  refine (hrun Draft.freeSettings 1 _ (by decide) rfl).2 fun step hstep => ?_
  obtain ⟨part, -, rfl⟩ := List.mem_map.mp hstep
  exact ⟨⟨100, rfl⟩, ⟨1000⟩, rfl⟩

end LedgerTx
