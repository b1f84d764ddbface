import LedgerTx.Json.Signed
import LedgerTx.Proofs.Transaction.Assemble

/-!
# What assembling can end with

Assembling looks at the recorded kind and never reads the payload.  So it
ends in one of five ways, told apart by the kind, the hashes that were
cosigned and the length of the payload; in one of them there is no room for
the size, and a transaction that leads to it can be read from JSON.
-/

namespace LedgerTx

theorem Payload.take_withSize {payload bytes : Bytes} (hroom : 4 ≤ payload.length)
    (h : withSize payload = .ok bytes) : bytes.take 4 = LittleEndian.encode 4 bytes.length := by
  rw [Framed.length_withSize hroom h, (withSize_eq_ok.mp h).2]
  exact List.take_left' (LittleEndian.length_encode _ _)

namespace SignedTransaction

open DetachedCosignature (rows)

variable {signed : SignedTransaction} {list : List DetachedCosignature}

/-! ## Cosignatures over the hash -/

section Over

variable (hkind : signed.kind.isAggregate = true)
  (h : ∀ cosignature ∈ list, cosignature.parent = signed.hash)

include hkind h

/-- The size is written past the end of a payload that stays too short for it. -/
theorem assemble_of_no_room (hshort : signed.payload.length + 96 * list.length < 4) :
    signed.assemble list = .error .noSizeWord := by
  have hbytes : (signed.payload ++ rows list).length < 4 := by
    rwa [List.length_append, DetachedCosignature.length_rows]
  rw [assemble, hkind, appendAll_eq_ok _ h]
  exact if_pos hbytes

theorem assemble_of_room (hroom : 4 ≤ signed.payload.length + 96 * list.length) :
    (2 ^ 32 ≤ signed.payload.length + 96 * list.length
      ∧ signed.assemble list = .error (.payload (.layout .tooLarge)))
    ∨ ∃ assembled, signed.assemble list = .ok assembled
      ∧ assembled.payload.length = signed.payload.length + 96 * list.length
      ∧ assembled.payload.take 4 = LittleEndian.encode 4 assembled.payload.length := by
  have hlength : (signed.payload ++ rows list).length
      = signed.payload.length + 96 * list.length := by
    rw [List.length_append, DetachedCosignature.length_rows]
  rw [← hlength] at hroom ⊢
  have hassemble := assemble_eq_of_room hkind h hroom
  by_cases hlimit : (signed.payload ++ rows list).length < 2 ^ 32
  · have hsized : Payload.withSize (signed.payload ++ rows list) = .ok _ := if_pos hlimit
    refine .inr ⟨{ signed with payload := _ }, ?_, Framed.length_withSize hroom hsized,
      Payload.take_withSize hroom hsized⟩
    rw [hassemble, hsized]
    rfl
  · have hlong : Payload.withSize (signed.payload ++ rows list) = .error (.layout .tooLarge) :=
      if_neg hlimit
    refine .inl ⟨Nat.le_of_not_lt hlimit, ?_⟩
    rw [hassemble, hlong]
    rfl

end Over

/-! ## Every answer -/

/--
Assembling ends without an answer exactly when the recorded kind is an
aggregate, there is no cosignature, and the payload has no four bytes for its
size.  In every other case it is refused for a kind that takes no
cosignatures, for a cosignature over another hash or for a payload that gets
too long for its size, or there is an assembled transaction, whose payload
starts with its length.
-/
theorem assemble_stops_iff (signed : SignedTransaction) (list : List DetachedCosignature) :
    (signed.assemble list = .error .noSizeWord
      ↔ signed.kind.isAggregate = true ∧ list = [] ∧ signed.payload.length < 4)
    ∧ (signed.assemble list ≠ .error .noSizeWord →
      (signed.kind.isAggregate = false ∧ signed.assemble list = .error (.notAggregate signed.kind))
      ∨ (∃ other ∈ list, other.parent ≠ signed.hash
        ∧ signed.assemble list = .error (.otherHash signed.hash other.parent))
      ∨ (2 ^ 32 ≤ signed.payload.length + 96 * list.length
        ∧ signed.assemble list = .error (.payload (.layout .tooLarge)))
      ∨ ∃ assembled, signed.assemble list = .ok assembled
        ∧ assembled.payload.length = signed.payload.length + 96 * list.length
        ∧ assembled.payload.take 4 = LittleEndian.encode 4 assembled.payload.length) := by
  cases hkind : signed.kind.isAggregate with
  | false =>
      rw [assemble_of_not_aggregate hkind]
      exact ⟨⟨nofun, fun h => Bool.noConfusion h.1⟩, fun _ => .inl ⟨rfl, rfl⟩⟩
  | true =>
      cases hfind : list.find? (·.parent ≠ signed.hash) with
      | some other =>
          have hmem := List.mem_of_find?_eq_some hfind
          have hother : other.parent ≠ signed.hash := by simpa using List.find?_some hfind
          rw [assemble_eq_error hkind hfind]
          refine ⟨⟨nofun, ?_⟩, fun _ => .inr (.inl ⟨other, hmem, hother, rfl⟩)⟩
          rintro ⟨-, rfl, -⟩
          cases hmem
      | none =>
          have hover : ∀ cosignature ∈ list, cosignature.parent = signed.hash := by
            intro cosignature hmem
            simpa using List.find?_eq_none.mp hfind cosignature hmem
          -- One cosignature makes room for the size, whatever the payload is.
          rcases Nat.lt_or_ge (signed.payload.length + 96 * list.length) 4 with hshort | hroom
          · have hnone : list = [] := List.length_eq_zero_iff.mp (by omega)
            have hstops := assemble_of_no_room hkind hover hshort
            exact ⟨⟨fun _ => ⟨rfl, hnone, by omega⟩, fun _ => hstops⟩,
              fun hgoes => absurd hstops hgoes⟩
          · have hanswer := assemble_of_room hkind hover hroom
            refine ⟨⟨fun hstops => ?_, ?_⟩, fun _ => .inr (.inr hanswer)⟩
            · rcases hanswer with ⟨-, hlong⟩ | ⟨assembled, hassembled, -⟩
              · cases hstops.symm.trans hlong
              · cases hstops.symm.trans hassembled
            · rintro ⟨-, rfl, hshort⟩
              exact absurd hroom (Nat.not_le.mpr hshort)

theorem assemble_stops_iff_noPayload :
    ∃ (signed : SignedTransaction) (cosignature : DetachedCosignature) (assembled : SignedTransaction),
      signed.payload = [] ∧ signed.assemble [] = .error .noSizeWord
        ∧ signed.assemble [cosignature] = .ok assembled ∧ assembled.payload.length = 96 := by
  let signed : SignedTransaction := ⟨PublicKey.base.block, [], .base, .aggregateComplete, .testNet⟩
  let cosignature : DetachedCosignature := ⟨PublicKey.base.block, ⟨.zero⟩, .base⟩
  have hstops := (assemble_stops_iff signed []).1.mpr ⟨rfl, rfl, by decide⟩
  have hover : ∀ other ∈ [cosignature], other.parent = signed.hash := by
    simp [signed, cosignature]
  obtain ⟨-, hanswer⟩ := assemble_stops_iff signed [cosignature]
  have hgoes : signed.assemble [cosignature] ≠ .error .noSizeWord := by
    rw [Ne, (assemble_stops_iff signed [cosignature]).1]
    simp
  rcases hanswer hgoes with ⟨hkind, -⟩ | ⟨other, hmem, hother, -⟩ | ⟨hlong, -⟩ |
    ⟨assembled, hassemble, hlength, -⟩
  · cases hkind
  · exact absurd (hover other hmem) hother
  · exact absurd hlong (by decide)
  · exact ⟨signed, cosignature, assembled, rfl, hstops, hassemble, hlength⟩

def unsizedJson : Json :=
  .object [("hash", .string (String.ofList (List.replicate 64 '0'))), ("payload", .string ""),
    ("signer", .string (String.ofList ('5' :: '8' :: List.replicate 62 '6'))),
    ("transaction_type", .string "AggregateComplete"), ("network_type", .string "MijinTest")]

theorem read_without_room_for_size : ∃ signed : SignedTransaction,
    JsonForm.ofJson? unsizedJson = some signed ∧ signed.assemble [] = .error .noSizeWord := by
  have hread : ((JsonForm.ofJson? unsizedJson : Option SignedTransaction).any fun signed =>
      signed.kind.isAggregate && signed.payload.isEmpty) = true := by
    decide +kernel
  obtain ⟨signed, hsigned, h⟩ := Option.any_eq_true _ _ |>.mp hread
  obtain ⟨hkind, hpayload⟩ := Bool.and_eq_true_iff.mp h
  have hempty : signed.payload = [] := List.isEmpty_iff.mp hpayload
  have hover : ∀ cosignature ∈ ([] : List DetachedCosignature),
      cosignature.parent = signed.hash := List.forall_mem_nil _
  exact ⟨signed, hsigned, assemble_of_no_room hkind hover (by rw [hempty]; decide)⟩

end SignedTransaction

end LedgerTx
