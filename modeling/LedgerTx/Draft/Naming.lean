import LedgerTx.Draft.Fault

/-!
# Drafts of naming operations

A registration is drafted by a single name part and its tenure, from which
the id follows.  A link must be for a namespace id.
-/

namespace LedgerTx

namespace Registration

/-- The namespace that the new one stands under; a root namespace is rented for some time. -/
def parentOf : Tenure → Except DraftFault NamespaceId
  | .root duration => if duration = 0 then .error (.notPositive "duration") else .ok .root
  | .sub parent => .ok parent

/-- The registration of a name part; the name is checked before the tenure. -/
def ofDraft (name : String) (tenure : Tenure) : Except DraftFault Registration :=
  match NamespaceName.checkPart name with
  | .error cause => .error (.name cause)
  | .ok () => do
      let parent ← parentOf tenure
      match NamespaceId.derive parent name with
      | .error cause => .error (.name cause)
      | .ok id => .ok ⟨name, id, tenure⟩

end Registration

def NameLink.check (link : NameLink) : Except DraftFault Unit :=
  if link.id.isNamespace then .ok () else .error (.notNamespace link.id)

end LedgerTx
