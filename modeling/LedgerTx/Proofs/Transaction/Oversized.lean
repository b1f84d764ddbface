import LedgerTx.Proofs.Operation.Oversized
import LedgerTx.Proofs.Transaction.Regions
import LedgerTx.Proofs.Transaction.Sized

/-!
# Transactions that are too long for their counts

A transaction is written exactly when nothing in it is too long for the field
that counts it and nothing embedded in it is an aggregate.  Otherwise it is
refused for the first count that is too large, in the first embedded
transaction that has one.  What is written has the length of all its parts.
-/

namespace LedgerTx

open Layout (Schema Measure inlineSize)

/-! ## Sizes and refusals -/

mutual

def Body.volume : Body → Nat
  | .operation operation => operation.volume
  | .aggregate _ inner cosignatures => Embedded.volumeOf inner + cosignatures.length

def Embedded.volume : Embedded → Nat
  | ⟨_, _, body⟩ => Body.volume body

/-- The entries and bytes in a list of embedded transactions, which are entries themselves. -/
def Embedded.volumeOf : List Embedded → Nat
  | [] => 0
  | embedded :: rest => 1 + Embedded.volume embedded + Embedded.volumeOf rest

end

def Embedded.Sized (embedded : Embedded) : Prop :=
  match embedded.body with
  | .operation operation => operation.Sized
  | .aggregate _ _ _ => False

/-- Whether a body, with all that is embedded in it, fits the fields that count its parts. -/
def Body.Sized : Body → Prop
  | .operation op => op.Sized
  | .aggregate _ inner _ => ∀ embedded ∈ inner, embedded.Sized

def Operation.refusal? (operation : Operation) : Option PayloadError :=
  (Measure.refusal? operation.measures).map .layout

def Embedded.refusal? (embedded : Embedded) : Option PayloadError :=
  match embedded.body with
  | .operation operation => operation.refusal?
  | .aggregate _ _ _ => some (.content "type" .nestedAggregate)

/-- The refusal of a body: of an aggregate the first one among its embedded transactions. -/
def Body.refusal? : Body → Option PayloadError
  | .operation op => op.refusal?
  | .aggregate _ inner _ => inner.findSome? Embedded.refusal?

def Embedded.size (embedded : Embedded) : Nat :=
  match embedded.body with
  | .operation operation => Payload.embeddedHeaderSize + operation.size
  | .aggregate _ _ _ => 0

def Body.size : Body → Nat
  | .operation op => op.size
  | .aggregate _ inner cosignatures =>
      4 + (inner.map Embedded.size).sum + Payload.cosignatureSize * cosignatures.length

theorem Operation.refusal?_eq_none {operation : Operation} :
    operation.refusal? = none ↔ operation.Sized := by
  rw [refusal?, Option.map_eq_none_iff, sized_iff]

theorem Embedded.refusal?_eq_none {embedded : Embedded} :
    embedded.refusal? = none ↔ embedded.Sized := by
  obtain ⟨network, version, operation | ⟨bonded, inner, cosignatures⟩⟩ := embedded
  · exact Operation.refusal?_eq_none
  · simp [refusal?, Sized]

theorem Body.refusal?_eq_none {body : Body} : body.refusal? = none ↔ body.Sized := by
  cases body with
  | operation operation => exact Operation.refusal?_eq_none
  | aggregate bonded inner cosignatures =>
      rw [refusal?, List.findSome?_eq_none_iff]
      exact forall₂_congr fun embedded _ => Embedded.refusal?_eq_none

/-! ## Operations behind a header -/

theorem Operation.writable_of_sized {operation : Operation} (h : operation.Sized)
    (hvolume : operation.volume ≤ 2 ^ 24) : operation.Writable where
  sized := h
  uncounted_le := by
    have huncounted := operation.uncounted_le_volume
    omega

theorem inlineSize_header_le : ∀ kind : TransactionKind,
    ∀ header ∈ [transactionHeader, embeddedHeader],
      inlineSize (Schema.join [header, kind.schema]) ≤ 2 ^ 10 :=
  Coded.forall_of_all (by decide)

theorem IsHead.flat_of_refusal {header : Schema} {kindPosition size : Nat} {operation : Operation}
    {head : Layout.FieldSet} (hheader : IsHeader header kindPosition size)
    (hhead : IsHead header operation.kind head)
    (hmem : header ∈ [transactionHeader, embeddedHeader])
    (hvolume : operation.volume ≤ 2 ^ 24) (network : Network) {e : PayloadError}
    (he : operation.refusal? = some e) :
    Payload.flat [header, operation.kind.schema] (head ++ operation.fields network) = .error e := by
  obtain ⟨cause, hcause, rfl⟩ := Option.map_eq_some_iff.mp he
  exact hhead.flat_eq_error hheader
    (Operation.contents_eq_error hvolume network (inlineSize_header_le _ _ hmem) hcause)

/-! ## Embedded transactions -/

namespace Embedded

theorem refusedFor_write {embedded : Embedded} (hvolume : embedded.volume ≤ 2 ^ 24) :
    RefusedFor embedded.write embedded.refusal? := by
  obtain ⟨network, version, operation | ⟨bonded, inner, cosignatures⟩⟩ := embedded
  · refine .of_cases (fun hnone => ?_) fun e he => ?_
    · have hsized := Operation.refusal?_eq_none.mp hnone
      exact write_of_writable (Operation.writable_of_sized hsized hvolume) network version
    · have hhead := isHead_commonValues network version operation.kind
      have hflat := hhead.flat_of_refusal isHeader_embedded (.tail _ (.head _)) hvolume network he
      exact bind_eq_error.mpr (.inl hflat)
  · exact .of_cases nofun fun e he => by cases he; rfl

theorem length_eq_size {embedded : Embedded} {bytes : Bytes} (hvolume : embedded.volume ≤ 2 ^ 24)
    (h : embedded.write = .ok bytes) : bytes.length = embedded.size := by
  have hsized := refusal?_eq_none.mp ((refusedFor_write hvolume).exists_ok_iff.mp ⟨bytes, h⟩)
  obtain ⟨network, version, operation | ⟨bonded, inner, cosignatures⟩⟩ := embedded
  · rw [(drop_header_of_write h).2, (Operation.fits_of_sized hsized network).2]
    rfl
  · cases hsized

theorem volume_lt_volumeOf {embedded : Embedded} {inner : List Embedded} (h : embedded ∈ inner) :
    embedded.volume < volumeOf inner := by
  induction inner with
  | nil => cases h
  | cons first rest ih =>
      rw [volumeOf]
      rcases List.mem_cons.mp h with rfl | hrest
      · omega
      · have hlater := ih hrest
        omega

theorem size_le_volume (embedded : Embedded) : embedded.size ≤ 96 * (1 + embedded.volume) := by
  obtain ⟨network, version, operation | ⟨bonded, inner, cosignatures⟩⟩ := embedded
  · have hsize := operation.size_le_volume
    simp only [size, volume, Body.volume, Payload.embeddedHeaderSize]
    omega
  · exact Nat.zero_le _

theorem sum_size_le_volumeOf (inner : List Embedded) :
    (inner.map size).sum ≤ 96 * volumeOf inner := by
  induction inner with
  | nil => exact Nat.zero_le _
  | cons embedded rest ih =>
      have hsize := embedded.size_le_volume
      rw [List.map_cons, List.sum_cons, volumeOf]
      omega

theorem length_flatten {inner : List Embedded} {pieces : List Bytes}
    (hvolume : volumeOf inner ≤ 2 ^ 24)
    (h : List.Forall₂ (fun embedded piece => embedded.write = .ok piece) inner pieces) :
    pieces.flatten.length = (inner.map size).sum := by
  induction h with
  | nil => rfl
  | @cons embedded piece rest others hpiece hothers ih =>
      rw [volumeOf] at hvolume
      rw [List.flatten_cons, List.length_append, length_eq_size (by omega) hpiece,
        ih (by omega), List.map_cons, List.sum_cons]

end Embedded

/-! ## Transactions -/

namespace Transaction

/-- A transaction is refused for what can be found beforehand. -/
theorem refusedFor_write {tx : Transaction} (hvolume : tx.body.volume ≤ 2 ^ 24) :
    RefusedFor tx.write tx.body.refusal? := by
  cases hbody : tx.body with
  | operation operation =>
      rw [hbody] at hvolume
      refine .of_cases (fun hnone => ?_) fun e he => ?_
      · have hsized := Operation.refusal?_eq_none.mp hnone
        exact write_of_writable hbody (Operation.writable_of_sized hsized hvolume)
      · obtain ⟨network, version, maxFee, deadline, signature, _⟩ := tx
        subst hbody
        have hhead : IsHead transactionHeader operation.kind _ :=
          isHead_headValues ⟨network, version, maxFee, deadline, signature, .operation operation⟩
        have hflat := hhead.flat_of_refusal isHeader_transaction (.head _) hvolume network he
        exact bind_eq_error.mpr (.inr ⟨_, rfl, bind_eq_error.mpr (.inl hflat)⟩)
  | aggregate bonded inner cosignatures =>
      rw [hbody, Body.volume] at hvolume
      have hinner : RefusedFor (inner.mapM Embedded.write) (inner.findSome? Embedded.refusal?) := by
        refine .mapM fun embedded hmem => Embedded.refusedFor_write ?_
        have hless := Embedded.volume_lt_volumeOf hmem
        omega
      refine .of_cases (fun hnone => ?_) fun e he => ?_
      · obtain ⟨pieces, hpieces⟩ := hinner.exists_ok_iff.mpr hnone
        refine write_of_pieces hbody hpieces ?_
        have hsum := Embedded.sum_size_le_volumeOf inner
        rw [Embedded.length_flatten (by omega) (mapM_eq_ok.mp hpieces),
          (parts_of_aggregate hbody).2, Bytes.length_flatMap Payload.length_cosignatureBytes,
          Payload.cosignatureSize]
        omega
      · have hvalues : bodyValues tx.network tx.body = .error e := by
          rw [hbody]
          exact bind_eq_error.mpr (.inl ((hinner e).mpr he))
        exact bind_eq_error.mpr (.inl hvalues)

theorem length_eq_size {tx : Transaction} {bytes : Bytes} (hvolume : tx.body.volume ≤ 2 ^ 24)
    (h : tx.write = .ok bytes) : bytes.length = Payload.headerSize + tx.body.size := by
  have hsized := Body.refusal?_eq_none.mp ((refusedFor_write hvolume).exists_ok_iff.mp ⟨bytes, h⟩)
  cases hbody : tx.body with
  | operation operation =>
      rw [hbody] at hsized
      rw [(drop_header_of_operation hbody h).2, (Operation.fits_of_sized hsized tx.network).2]
      rfl
  | aggregate bonded inner cosignatures =>
      rw [hbody, Body.volume] at hvolume
      obtain ⟨pieces, hpieces, -, hlength, -⟩ := pieces_of_write hbody h
      rw [hlength, Embedded.length_flatten (by omega) hpieces, (parts_of_aggregate hbody).2,
        Bytes.length_flatMap Payload.length_cosignatureBytes, Body.size, Nat.add_assoc,
        Nat.mul_comm]

/--
A transaction with at most 2 ^ 24 entries and bytes is written exactly when
none of its lists, texts and byte strings is too long for its count and
nothing embedded in it is an aggregate.  What is refused is the first count
that is too large, or the first embedded aggregate if that comes before.
What is written is as long as the header with all parts of the body.
-/
theorem write_iff_sized {tx : Transaction} (hvolume : tx.body.volume ≤ 2 ^ 24) :
    ((∃ bytes, tx.write = .ok bytes) ↔ tx.body.Sized)
      ∧ (∀ e, tx.write = .error e ↔ tx.body.refusal? = some e)
      ∧ ∀ bytes, tx.write = .ok bytes → bytes.length = 124 + tx.body.size :=
  ⟨(refusedFor_write hvolume).exists_ok_iff.trans Body.refusal?_eq_none,
    refusedFor_write hvolume, fun _ h => length_eq_size hvolume h⟩

def crowded : Transaction :=
  ⟨.testNet, 3, 100, ⟨1000⟩, none, .aggregate false
    [Embedded.levyRemoval,
      ⟨.testNet, 1, .operation (.withdrawnOffers (List.replicate 256 ⟨⟨5⟩, .sell⟩))⟩,
      ⟨.testNet, 3, .aggregate true [] []⟩] []⟩

theorem write_iff_sized_crowded :
    crowded.body.volume ≤ 2 ^ 24 ∧ cosignedAggregate.body.volume ≤ 2 ^ 24
      ∧ crowded.write = .error (.layout (.range "offers_count" 256))
      ∧ ∃ bytes, cosignedAggregate.write = .ok bytes ∧ bytes.length = 244 := by
  have hcrowded : crowded.body.volume ≤ 2 ^ 24 := by decide +kernel
  have hshort : cosignedAggregate.body.volume ≤ 2 ^ 24 := by decide +kernel
  have hrefused : crowded.body.refusal? = some (.layout (.range "offers_count" 256)) := by
    decide +kernel
  obtain ⟨bytes, hbytes⟩ := (write_iff_sized hshort).1.mpr
    (Body.refusal?_eq_none.mp (by decide +kernel))
  have hlength := (write_iff_sized hshort).2.2 bytes hbytes
  exact ⟨hcrowded, hshort, ((write_iff_sized hcrowded).2.1 _).mpr hrefused, bytes, hbytes, hlength⟩

end Transaction

end LedgerTx
