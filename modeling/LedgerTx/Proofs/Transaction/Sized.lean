import LedgerTx.Proofs.Operation.Sized
import LedgerTx.Proofs.Transaction.Payload

/-!
# Transactions that can be written

An operation that is not too long for its counts is written, alone and
embedded, as long as its metadata are no more than 2 ^ 27 bytes.  An
aggregate is written when what is embedded in it is, and the whole is short
enough for its size to be declared.
-/

namespace LedgerTx

open Layout (Schema rawFields denseFields slackFields slotLimit)

/-- An operation whose parts are not too long for what declares their sizes. -/
structure Operation.Writable (operation : Operation) : Prop where
  sized : operation.Sized
  uncounted_le : operation.uncounted ≤ 2 ^ 27

theorem Embedded.write_of_writable {operation : Operation} (h : operation.Writable)
    (network : Network) (version : UInt8) :
    ∃ bytes, write ⟨network, version, .operation operation⟩ = .ok bytes := by
  obtain ⟨hfits, hlength⟩ := Operation.fits_of_sized h.sized network
  have hsize := Operation.size_le h.sized
  have huncounted := h.uncounted_le
  have hhead := isHead_commonValues network version operation.kind
  obtain ⟨flat, bytes, hflat, hwrite, -⟩ := hhead.write isHeader_embedded hfits [] (by
    rw [List.length_nil, Payload.embeddedHeaderSize]
    omega)
  rw [List.append_nil] at hwrite
  exact ⟨bytes, bind_eq_ok.mpr ⟨flat, hflat, hwrite⟩⟩

namespace Transaction

theorem write_of_writable {tx : Transaction} {operation : Operation}
    (hbody : tx.body = .operation operation) (h : operation.Writable) :
    ∃ bytes, tx.write = .ok bytes := by
  obtain ⟨network, version, maxFee, deadline, signature, body⟩ := tx
  subst hbody
  obtain ⟨hfits, hlength⟩ := Operation.fits_of_sized h.sized network
  have hsize := Operation.size_le h.sized
  have huncounted := h.uncounted_le
  have hhead : IsHead transactionHeader operation.kind _ :=
    isHead_headValues ⟨network, version, maxFee, deadline, signature, .operation operation⟩
  obtain ⟨flat, bytes, hflat, hwrite, -⟩ := hhead.write isHeader_transaction hfits [] (by
    rw [List.length_nil, Payload.headerSize]
    omega)
  exact ⟨bytes, bind_eq_ok.mpr ⟨_, rfl, bind_eq_ok.mpr ⟨flat, hflat, hwrite⟩⟩⟩

theorem denseFields_aggregate :
    denseFields 1 (Schema.join [transactionHeader, aggregateSchema]) = true := by
  decide

theorem write_of_pieces {tx : Transaction} {bonded : Bool} {inner : List Embedded}
    {cosignatures : List Cosignature} {pieces : List Bytes}
    (hbody : tx.body = .aggregate bonded inner cosignatures)
    (hpieces : inner.mapM Embedded.write = .ok pieces)
    (hlength : pieces.flatten.length + tx.trailing.length ≤ 2 ^ 31) :
    ∃ bytes, tx.write = .ok bytes := by
  obtain ⟨hschema, -⟩ := parts_of_aggregate hbody
  have hfits := fits_aggregateValues (show pieces.flatten.length < 2 ^ 32 by omega)
  obtain ⟨joined, hsame, hraw⟩ := same_aggregateValues hfits
  cases hsame "transactions" (by decide)
  rw [← hschema] at hfits hraw
  have hslack : slackFields (Schema.join [transactionHeader, tx.kind.schema]) = 11 := by
    rw [hschema]
    rfl
  obtain ⟨flat, bytes, hflat, hwrite, -⟩ :=
    tx.isHead_headValues.write_of_slots isHeader_transaction hfits tx.trailing
      (hschema ▸ denseFields_aggregate) (by
        rw [hraw, hslack, Payload.headerSize, slotLimit]
        omega) (by
        rw [hraw, Payload.headerSize]
        omega)
  refine ⟨bytes, bind_eq_ok.mpr ⟨Payload.aggregateValues pieces.flatten, ?_, ?_⟩⟩
  · rw [hbody]
    exact bind_eq_ok.mpr ⟨pieces, hpieces, rfl⟩
  · exact bind_eq_ok.mpr ⟨flat, hflat, hwrite⟩

end Transaction

end LedgerTx
