import LedgerTx.Proofs.Transaction.Signed

/-!
# Regions of a payload

A payload is its header, the flat form of its body and what follows it.  In
an aggregate the body is the size of the embedded payloads and these, one
after the other, and the cosignatures follow it; the size is the sum of what
the embedded payloads declare.
-/

namespace LedgerTx

open Layout (FieldSet Value Schema rawFields)

/-! ## Header and body -/

theorem Framed.drop_header {header : Schema} {kindPosition size : Nat} {kind : TransactionKind}
    {head body : FieldSet} {n : Value} {post bytes : Bytes}
    (hheader : IsHeader header kindPosition size) (hhead : IsHead header kind head)
    (h : Framed header kind (("size", n) :: (head ++ body)) post bytes) :
    bytes.drop size = rawFields body kind.schema.fields ++ post
      ∧ bytes.length = size + (rawFields body kind.schema.fields).length + post.length := by
  have hcarries := Carries.of_framed hheader hhead h
  have hfits := h.fits
  have hbytes := h.bytes_eq
  rw [Schema.join_pair] at hfits hbytes
  have hfront := Layout.length_rawFields_of_fixed header.fields hheader.fixed
    (Layout.fits_append.mp hfits).1.shaped
  rw [hheader.least] at hfront
  rw [Layout.rawFields_append, Layout.rawFields.congr hcarries.body, List.append_assoc] at hbytes
  constructor
  · rw [hbytes, List.drop_left' hfront]
  · rw [hbytes, List.length_append, List.length_append, hfront, Nat.add_assoc]

theorem Embedded.drop_header_of_write {network : Network} {version : UInt8}
    {operation : Operation} {bytes : Bytes}
    (h : write ⟨network, version, .operation operation⟩ = .ok bytes) :
    bytes.drop Payload.embeddedHeaderSize
        = rawFields (operation.fields network) operation.kind.schema.fields
      ∧ bytes.length = Payload.embeddedHeaderSize
        + (rawFields (operation.fields network) operation.kind.schema.fields).length := by
  have hregions := (framed_of_write h).drop_header isHeader_embedded
    (isHead_commonValues network version operation.kind)
  rwa [List.append_nil] at hregions

theorem Transaction.drop_header_of_write {tx : Transaction} {bytes : Bytes}
    (h : tx.write = .ok bytes) : ∃ values, bodyValues tx.network tx.body = .ok values
      ∧ bytes.drop Payload.headerSize = rawFields values tx.kind.schema.fields ++ tx.trailing
      ∧ bytes.length = Payload.headerSize + (rawFields values tx.kind.schema.fields).length
        + tx.trailing.length := by
  obtain ⟨values, hvalues, hframed⟩ := framed_of_write h
  exact ⟨values, hvalues, hframed.drop_header isHeader_transaction tx.isHead_headValues⟩

theorem Transaction.drop_header_of_operation {tx : Transaction} {operation : Operation}
    {bytes : Bytes} (hbody : tx.body = .operation operation) (h : tx.write = .ok bytes) :
    bytes.drop Payload.headerSize
        = rawFields (operation.fields tx.network) operation.kind.schema.fields
      ∧ bytes.length = Payload.headerSize
        + (rawFields (operation.fields tx.network) operation.kind.schema.fields).length := by
  obtain ⟨values, hvalues, hregions⟩ := drop_header_of_write h
  rw [hbody] at hvalues
  cases hvalues
  rwa [trailing, kind, hbody, Body.cosignatures, List.flatMap_nil, List.append_nil] at hregions

/-! ## Aggregates -/

theorem rawFields_aggregateValues (joined : Bytes) :
    rawFields (Payload.aggregateValues joined) aggregateSchema.fields
      = LittleEndian.encode 4 joined.length.toUInt64.toNat ++ joined := by
  have hraw : rawFields (Payload.aggregateValues joined) aggregateSchema.fields
      = LittleEndian.encode 4 joined.length.toUInt64.toNat ++ (joined ++ []) := rfl
  rw [hraw, List.append_nil]

namespace Transaction

variable {tx : Transaction} {bonded : Bool} {inner : List Embedded}
  {cosignatures : List Cosignature}

theorem pieces_of_write {bytes : Bytes} (hbody : tx.body = .aggregate bonded inner cosignatures)
    (h : tx.write = .ok bytes) :
    ∃ pieces : List Bytes,
      List.Forall₂ (fun embedded piece => embedded.write = .ok piece) inner pieces
      ∧ pieces.flatten.length < 2 ^ 32
      ∧ bytes.length = Payload.headerSize + (4 + pieces.flatten.length) + tx.trailing.length
      ∧ bytes.drop Payload.headerSize
        = LittleEndian.encode 4 pieces.flatten.length ++ (pieces.flatten ++ tx.trailing) := by
  obtain ⟨values, hvalues, hdrop, hlength⟩ := drop_header_of_write h
  obtain ⟨_, _, hframed⟩ := framed_of_write h
  have hshort := hframed.length_lt
  rw [hbody] at hvalues
  obtain ⟨pieces, hpieces, hvalues⟩ := bind_eq_ok.mp hvalues
  cases hvalues
  rw [(parts_of_aggregate hbody).1, rawFields_aggregateValues] at hdrop hlength
  rw [List.length_append, LittleEndian.length_encode] at hlength
  have hjoined : pieces.flatten.length < 2 ^ 32 := by omega
  rw [Layout.toNat_toUInt64 (by omega), List.append_assoc] at hdrop
  exact ⟨pieces, mapM_eq_ok.mp hpieces, hjoined, hlength, hdrop⟩

/--
What is written for an aggregate declares at 124 the sum of the lengths of
its embedded payloads.  These follow one after the other, each of them as
written alone, with a header of 12 bytes that begins with its own length.  Where they end the body ends,
and the rest is 96 bytes for each cosignature.  The payload declares its
whole length.
-/
theorem regions_of_aggregate {bytes : Bytes}
    (hbody : tx.body = .aggregate bonded inner cosignatures) (h : tx.write = .ok bytes) :
    ∃ (pieces : List Bytes) (total : Nat),
      List.Forall₂ (fun embedded piece => embedded.write = .ok piece) inner pieces
      ∧ total = (pieces.map List.length).sum
      ∧ LittleEndian.decode ((bytes.drop 124).take 4) = total
      ∧ (bytes.drop 128).take total = pieces.flatten
      ∧ (∀ piece ∈ pieces,
        12 ≤ piece.length ∧ LittleEndian.decode (piece.take 4) = piece.length)
      ∧ Payload.bodyEnd bytes = .ok (128 + total)
      ∧ bytes.drop (128 + total) = cosignatures.flatMap Payload.cosignatureBytes
      ∧ bytes.length = 128 + total + 96 * cosignatures.length
      ∧ LittleEndian.decode (bytes.take 4) = bytes.length := by
  obtain ⟨pieces, hpieces, hjoined, hlength, hdrop⟩ := pieces_of_write hbody h
  obtain ⟨stop, hstop, hstopLength⟩ := bodyEnd_of_write h
  have hbehind : bytes.drop 128 = pieces.flatten ++ tx.trailing := by
    have hcount := LittleEndian.length_encode 4 pieces.flatten.length
    rw [show 128 = Payload.headerSize + 4 from rfl, ← List.drop_drop, hdrop,
      List.drop_left' hcount]
  have htrailing := (parts_of_aggregate hbody).2
  have hend : stop = 128 + pieces.flatten.length := by
    rw [Payload.headerSize] at hlength
    omega
  refine ⟨pieces, pieces.flatten.length, hpieces, List.length_flatten, ?_, ?_, ?_, hend ▸ hstop,
    ?_, ?_, (length_of_write h).2⟩
  · rw [show 124 = Payload.headerSize from rfl, hdrop,
      List.take_left' (LittleEndian.length_encode 4 _), LittleEndian.decode_encode]
    exact Nat.mod_eq_of_lt hjoined
  · rw [hbehind, List.take_left]
  · refine forall_of_forall₂ (fun embedded piece hpiece => ?_) hpieces
    exact Embedded.length_of_write hpiece
  · rw [← List.drop_drop, hbehind, List.drop_left, htrailing]
  · rw [hstopLength, hend, htrailing, Bytes.length_flatMap Payload.length_cosignatureBytes,
      Payload.cosignatureSize, Nat.mul_comm]

theorem regions_of_cosignedAggregate :
    ∃ bytes piece, cosignedAggregate.write = .ok bytes ∧ Embedded.levyRemoval.write = .ok piece
      ∧ LittleEndian.decode ((bytes.drop 124).take 4) = piece.length
      ∧ (bytes.drop 128).take piece.length = piece
      ∧ Payload.bodyEnd bytes = .ok (128 + piece.length)
      ∧ bytes.length = 128 + piece.length + 96 := by
  obtain ⟨bytes, hwrite, -⟩ := write_cosignedAggregate
  obtain ⟨pieces, total, hpieces, htotal, hcount, hjoined, -, hstop, -, hlength, -⟩ :=
    regions_of_aggregate rfl hwrite
  obtain ⟨piece, rest, hpiece, hrest, rfl⟩ := List.forall₂_cons_left_iff.mp hpieces
  cases hrest
  simp only [List.map_cons, List.map_nil, List.sum_singleton] at htotal
  subst htotal
  rw [List.flatten_singleton] at hjoined
  exact ⟨bytes, piece, hwrite, hpiece, hcount, hjoined, hstop, hlength⟩

end Transaction

end LedgerTx
