import LedgerTx.Proofs.Transaction.Oversized

/-!
# Transactions and their embedded form

An operation has the same bytes in the payload of a transaction and in an
embedded payload, behind headers that tell the same version and kind.  One of
the two is refused when the other is, and for the same cause.
-/

namespace LedgerTx

open Layout (FieldSet Schema)

/-! ## Version and kind -/

theorem Framed.take_version {header : Schema} {position size word : Nat}
    {kind : TransactionKind} {values : FieldSet} {post bytes : Bytes}
    (hheader : IsHeader header (position + 2) size)
    (hversion : ScalarAt header.fields position "version" .u16)
    (h : Framed header kind values post bytes)
    (hword : values.get? "version" = some (.number word)) :
    (bytes.drop position).take 4
      = LittleEndian.encode 2 word.toUInt64.toNat
        ++ LittleEndian.encode 2 (Coded.code kind).toUInt64.toNat := by
  have hjoined : ScalarAt (Schema.join [header, kind.schema]) position "version" .u16 := by
    rw [Schema.join_pair]
    exact hversion.append _
  obtain ⟨n, hn, -, hfront⟩ := hjoined.bytes_eq h.fits post
  obtain ⟨m, hm, -, hback⟩ := (hheader.kind_at_join kind).bytes_eq h.fits post
  cases hn.symm.trans hword
  cases hm.symm.trans h.kind_eq
  rw [← h.bytes_eq] at hfront hback
  rw [show 4 = 2 + 2 from rfl, List.take_add, List.drop_drop]
  exact congrArg₂ (· ++ ·) hfront hback

theorem Embedded.take_version_of_write {network : Network} {version : UInt8}
    {operation : Operation} {bytes : Bytes}
    (h : write ⟨network, version, .operation operation⟩ = .ok bytes) :
    (bytes.drop 8).take 4
      = LittleEndian.encode 2 (LedgerTx.versionWord network version).toUInt64.toNat
        ++ LittleEndian.encode 2 (Coded.code operation.kind).toUInt64.toNat :=
  (framed_of_write h).take_version isHeader_embedded
    ⟨[.u32 "size", .u32 "reserved"], _, rfl, rfl, rfl⟩ rfl

namespace Transaction

theorem take_version_of_write {tx : Transaction} {bytes : Bytes} (h : tx.write = .ok bytes) :
    (bytes.drop 104).take 4
      = LittleEndian.encode 2 tx.versionWord.toUInt64.toNat
        ++ LittleEndian.encode 2 (Coded.code tx.kind).toUInt64.toNat := by
  obtain ⟨values, -, hframed⟩ := framed_of_write h
  exact hframed.take_version isHeader_transaction
    ⟨[.u32 "size", .array "signature" 64, .array "signer" 32, .u32 "reserved"], _, rfl, rfl, rfl⟩
    rfl

/-! ## Operations -/

theorem exists_operation {tx : Transaction} (h : tx.kind.isAggregate = false) :
    ∃ operation, tx.body = .operation operation := by
  cases hbody : tx.body with
  | operation operation => exact ⟨operation, rfl⟩
  | aggregate bonded inner cosignatures =>
      rw [kind, hbody] at h
      cases bonded <;> cases h

/-- The payload of an operation and its embedded payload have the same bytes behind their headers. -/
theorem drop_header_eq {tx : Transaction} {operation : Operation} {bytes piece : Bytes}
    (hbody : tx.body = .operation operation) (h : tx.write = .ok bytes)
    (hpiece : Embedded.write ⟨tx.network, tx.version, .operation operation⟩ = .ok piece) :
    bytes.drop Payload.headerSize = piece.drop Payload.embeddedHeaderSize
      ∧ bytes.length + Payload.embeddedHeaderSize = piece.length + Payload.headerSize := by
  obtain ⟨hdrop, hlength⟩ := drop_header_of_operation hbody h
  obtain ⟨hdropPiece, hlengthPiece⟩ := Embedded.drop_header_of_write hpiece
  refine ⟨hdrop.trans hdropPiece.symm, ?_⟩
  rw [hlength, hlengthPiece]
  omega

/--
A transaction with at most 2 ^ 24 entries and bytes that is no aggregate is
written exactly when its embedded form is, and refused for the same cause.
The two payloads have the same version, kind and body, and declare their
lengths, which differ by those of the headers.
-/
theorem write_toEmbedded {tx : Transaction} (hkind : tx.kind.isAggregate = false)
    (hvolume : tx.body.volume ≤ 2 ^ 24) :
    ∃ embedded, tx.toEmbedded? = some embedded
      ∧ ((∃ bytes, tx.write = .ok bytes) ↔ ∃ piece, embedded.write = .ok piece)
      ∧ (∀ e, tx.write = .error e ↔ embedded.write = .error e)
      ∧ ∀ bytes piece, tx.write = .ok bytes → embedded.write = .ok piece →
        (bytes.drop 104).take 4 = (piece.drop 8).take 4
          ∧ bytes.drop 124 = piece.drop 12
          ∧ LittleEndian.decode (bytes.take 4) = bytes.length
          ∧ LittleEndian.decode (piece.take 4) = piece.length
          ∧ bytes.length = piece.length + 112 := by
  obtain ⟨operation, hbody⟩ := exists_operation hkind
  have hembedded : tx.toEmbedded? = some ⟨tx.network, tx.version, .operation operation⟩ := by
    rw [toEmbedded?, hkind, hbody]
    rfl
  have hrefused := refusedFor_write hvolume
  rw [hbody] at hrefused hvolume
  have hrefusedPiece := @Embedded.refusedFor_write
    ⟨tx.network, tx.version, .operation operation⟩ hvolume
  have hsame := SameRefusal.of_fault hrefused hrefusedPiece
  refine ⟨_, hembedded, ⟨?_, ?_⟩, hsame, fun bytes piece hbytes hpiece => ?_⟩
  · rintro ⟨bytes, hbytes⟩
    exact hsame.exists_ok hbytes
  · rintro ⟨piece, hpiece⟩
    exact hsame.symm.exists_ok hpiece
  · obtain ⟨hdrop, hlength⟩ := drop_header_eq hbody hbytes hpiece
    have hversion := take_version_of_write hbytes
    rw [kind, hbody] at hversion
    refine ⟨hversion.trans (Embedded.take_version_of_write hpiece).symm, hdrop,
      (length_of_write hbytes).2, (Embedded.length_of_write hpiece).2, ?_⟩
    rw [Payload.headerSize, Payload.embeddedHeaderSize] at hlength
    omega

def levyRemoval : Transaction :=
  ⟨.testNet, 1, 100, ⟨1000⟩, none, Embedded.levyRemoval.body⟩

theorem write_toEmbedded_levyRemoval :
    levyRemoval.kind.isAggregate = false ∧ levyRemoval.body.volume ≤ 2 ^ 24
      ∧ ∃ bytes piece, levyRemoval.write = .ok bytes ∧ Embedded.levyRemoval.write = .ok piece
        ∧ bytes.drop 124 = piece.drop 12 ∧ bytes.length = piece.length + 112 := by
  have hvolume : levyRemoval.body.volume ≤ 2 ^ 24 := by decide +kernel
  obtain ⟨embedded, hembedded, hiff, -, hparts⟩ := write_toEmbedded rfl hvolume
  cases hembedded
  obtain ⟨piece, hpiece⟩ := Embedded.write_levyRemoval
  obtain ⟨bytes, hbytes⟩ := hiff.mpr ⟨piece, hpiece⟩
  obtain ⟨-, hdrop, -, -, hlength⟩ := hparts bytes piece hbytes hpiece
  exact ⟨rfl, hvolume, bytes, piece, hbytes, hpiece, hdrop, hlength⟩

end Transaction

end LedgerTx
