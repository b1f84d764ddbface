import LedgerTx.Operation.Metadata
import LedgerTx.Operation.Transfer
import LedgerTx.Proofs.Layout.Fits

/-!
# Round trips of layouts

An offset table is read back as the values that its schemas name.  It has a
flat form when lengths and numbers are as declared, and the flat form is
read back as the same values when every scalar comes before what it
describes and nothing but the end runs to the end.  In the other direction,
whatever bytes are read as a flat form are the flat form of what is read.
-/

namespace LedgerTx.Layout

/-! ## Values for two joined schemas -/

def transferWithChanges : List Schema := [Transfer.schema, MetadataChanges.addressSchema]

/-- Values of a transfer and of metadata changes, with the same `extra` values in every table. -/
def transferValues (extra : FieldSet) : FieldSet :=
  [("recipient", .array (List.replicate 25 1)), ("message_size", .scalar 3),
    ("mosaics_count", .scalar 1),
    ("message", .table ([("type", .scalar 0), ("payload", .vector [7, 8])] ++ extra)),
    ("mosaics", .tableArray [[("id", .scalar 5), ("amount", .scalar 9)] ++ extra]),
    ("metadata_type", .scalar 1), ("target", .array (List.replicate 25 2)),
    ("modifications", .tableArray [[("size", .scalar 9), ("type", .scalar 0),
      ("key_size", .scalar 1), ("value_size", .scalar 0), ("key", .vector [4]),
      ("value", .vector [])] ++ extra])] ++ extra

/-! ## Offset tables -/

section

variable {schemas : List Schema} {values : FieldSet} {buffer : Bytes}

/--
What is written as one offset table for several schemas is read back from
all of it.  Under each name of the schemas is the value that was there, and
there is no other name, in nested tables neither.  The buffer is one whose
positions are machine words.
-/
theorem encoded_reads_back (hdistinct : distinctFields (Schema.join schemas) = true)
    (hsolid : solidFields (Schema.join schemas) = true)
    (h : encode (Schema.join schemas) values = .ok buffer)
    (hlimit : buffer.length < positionLimit) :
    decode (Schema.join schemas) buffer
        = .ok ⟨selectFields values (Schema.join schemas), buffer.length⟩
      ∧ ExactFields (selectFields values (Schema.join schemas)) (Schema.join schemas)
      ∧ (∀ name kind, ⟨name, kind⟩ ∈ Schema.join schemas →
        ∃ value, values.get? name = some value
          ∧ (selectFields values (Schema.join schemas)).get? name
            = some (Kind.select value kind))
      ∧ (ExactFields values (Schema.join schemas) →
        selectFields values (Schema.join schemas) = values) := by
  obtain ⟨hshaped, -⟩ := Schema.write_reach ⟨"", Schema.join schemas⟩ h
  refine ⟨decode_encode hdistinct hsolid h hlimit, selectFields_exact _ hshaped, ?_,
    selectFields_of_exact _ hdistinct⟩
  intro name kind hmem
  obtain ⟨value, hvalue⟩ := hshaped.exists_value (mem_fieldNames hmem)
  refine ⟨value, hvalue, ?_⟩
  rw [get?_selectFields hdistinct hmem, hvalue, Option.map_some]

theorem encoded_reads_back_transferWithChanges :
    ∃ buffer, encode (Schema.join transferWithChanges) (transferValues [("note", .scalar 1)])
        = .ok buffer
      ∧ decode (Schema.join transferWithChanges) buffer
        = .ok ⟨transferValues [], buffer.length⟩ := by
  have hshort : (encode (Schema.join transferWithChanges)
      (transferValues [("note", .scalar 1)])).toOption.any (·.length < 1000) = true := by
    decide +kernel
  obtain ⟨buffer, hbuffer, hlength⟩ := Option.any_eq_true _ _ |>.mp hshort
  have hlimit : buffer.length < positionLimit :=
    Nat.lt_trans (of_decide_eq_true hlength) (by decide)
  have hencode := eq_ok_of_toOption hbuffer
  exact ⟨buffer, hencode, (encoded_reads_back (by decide) (by decide) hencode hlimit).1⟩

/-! ## The flat form -/

/--
A written offset table has a flat form exactly when the lengths and numbers
that it holds are as declared, and this is then the contents of the fields,
one after the other.  It is read back as what the offset table holds when the
scalars come before what they describe and only the end runs to the end.
-/
theorem encoded_flat_form (hdistinct : distinctFields (Schema.join schemas) = true)
    (hsolid : solidFields (Schema.join schemas) = true)
    (h : encode (Schema.join schemas) values = .ok buffer)
    (hlimit : buffer.length < positionLimit) :
    ∃ stored, decode (Schema.join schemas) buffer = .ok ⟨stored, buffer.length⟩
      ∧ stored = selectFields values (Schema.join schemas)
      ∧ ((∃ bytes, flatten (Schema.join schemas) buffer = .ok bytes)
        ↔ DeclaredFields [stored] stored (Schema.join schemas))
      ∧ ∀ bytes, flatten (Schema.join schemas) buffer = .ok bytes →
        bytes = rawFields values (Schema.join schemas)
          ∧ (scopedFields (Schema.join schemas) = true →
            closingFields (Schema.join schemas) = true →
            parse (Schema.join schemas) bytes = .ok ⟨stored, bytes.length⟩) := by
  have hflatten (bytes : Bytes) := @flatten_eq_ok (Schema.join schemas) values buffer hdistinct
    hsolid h hlimit bytes
  refine ⟨_, decode_encode hdistinct hsolid h hlimit, rfl, ⟨?_, ?_⟩, ?_⟩
  · rintro ⟨bytes, hbytes⟩
    exact ((hflatten bytes).mp hbytes).1
  · intro hdeclared
    exact ⟨_, (hflatten _).mpr ⟨hdeclared, rfl⟩⟩
  · intro bytes hbytes
    obtain ⟨hdeclared, rfl⟩ := (hflatten bytes).mp hbytes
    refine ⟨rfl, fun hscoped hclosing => ?_⟩
    obtain ⟨hshaped, -⟩ := Schema.write_reach ⟨"", Schema.join schemas⟩ h
    have hshorter := Schema.length_raw_le ⟨"", Schema.join schemas⟩ h
    have hparse := @parse_rawFields (Schema.join schemas) values [] hdistinct hscoped
      (.inr ⟨rfl, hclosing⟩) hshaped hdeclared (Nat.lt_of_le_of_lt hshorter hlimit)
    rwa [List.append_nil] at hparse

theorem encoded_flat_form_transferWithChanges :
    ∃ buffer bytes, encode (Schema.join transferWithChanges)
        (transferValues [("note", .scalar 1)]) = .ok buffer
      ∧ flatten (Schema.join transferWithChanges) buffer = .ok bytes
      ∧ parse (Schema.join transferWithChanges) bytes
        = .ok ⟨transferValues [], bytes.length⟩ := by
  have hflat : (encode (Schema.join transferWithChanges)
      (transferValues [("note", .scalar 1)])).toOption.any (fun buffer => buffer.length < 1000
        && (flatten (Schema.join transferWithChanges) buffer).toOption.isSome) = true := by
    decide +kernel
  obtain ⟨buffer, hbuffer, h⟩ := Option.any_eq_true _ _ |>.mp hflat
  obtain ⟨hlength, hbytes⟩ := Bool.and_eq_true_iff.mp h
  obtain ⟨bytes, hbytes⟩ := Option.isSome_iff_exists.mp hbytes
  have hlimit : buffer.length < positionLimit :=
    Nat.lt_trans (of_decide_eq_true hlength) (by decide)
  have hencode := eq_ok_of_toOption hbuffer
  obtain ⟨stored, -, rfl, -, hread⟩ :=
    encoded_flat_form (by decide) (by decide) hencode hlimit
  have hflatten := eq_ok_of_toOption hbytes
  exact ⟨buffer, bytes, hencode, hflatten, (hread bytes hflatten).2 (by decide) (by decide)⟩

/-! ## From the flat form -/

/--
Bytes that are read as a flat form are the only bytes with that reading, up
to its extent.  An offset table of what was read has these bytes as its flat
form, and there is one unless it is too large.  The offset table is one whose
positions are machine words.
-/
theorem parsed_writes_back {decoded : Decoded}
    (hdistinct : distinctFields (Schema.join schemas) = true)
    (hsolid : solidFields (Schema.join schemas) = true)
    (hscoped : scopedFields (Schema.join schemas) = true)
    (h : parse (Schema.join schemas) buffer = .ok decoded) :
    decoded.extent ≤ buffer.length
      ∧ (∀ other, parse (Schema.join schemas) other = .ok decoded →
        other.take decoded.extent = buffer.take decoded.extent)
      ∧ (∀ e, encode (Schema.join schemas) decoded.fields = .error e → e = .tooLarge)
      ∧ ∀ table, encode (Schema.join schemas) decoded.fields = .ok table →
        table.length < positionLimit →
        flatten (Schema.join schemas) table = .ok (buffer.take decoded.extent) := by
  obtain ⟨⟨hexact, hshaped, hdeclared⟩, hextent, hbuffer⟩ :=
    rawFields_of_parse hdistinct hscoped h
  have hselect := selectFields_of_exact _ hdistinct hexact
  have htake : buffer.take decoded.extent = rawFields decoded.fields (Schema.join schemas) := by
    rw [hbuffer, hextent, List.take_left]
  refine ⟨?_, fun other hother => ?_, fun e he => ?_, fun table htable hlimit => ?_⟩
  · rw [hbuffer, List.length_append, ← hextent]
    exact Nat.le_add_right _ _
  · obtain ⟨-, -, hother⟩ := rawFields_of_parse hdistinct hscoped hother
    rw [hother, htake, hextent, List.take_left]
  · exact Schema.write_failsBySize ⟨"", Schema.join schemas⟩ 0 hshaped e he
  · rw [htake, flatten_eq_ok hdistinct hsolid htable hlimit, hselect]
    exact ⟨hdeclared, rfl⟩

def transferAndMore : Bytes :=
  List.replicate 25 1 ++ [3, 0, 1, 0, 7, 8] ++ [5, 0, 0, 0, 0, 0, 0, 0] ++ [9, 0, 0, 0, 0, 0, 0, 0]
    ++ [21, 34]

theorem parsed_writes_back_transferAndMore :
    ∃ decoded table, parse (Schema.join [Transfer.schema]) transferAndMore = .ok decoded
      ∧ encode (Schema.join [Transfer.schema]) decoded.fields = .ok table
      ∧ flatten (Schema.join [Transfer.schema]) table = .ok (transferAndMore.take 47) := by
  have hread : (parse (Schema.join [Transfer.schema]) transferAndMore).toOption.any
      (fun decoded => decoded.extent == 47 && (encode (Schema.join [Transfer.schema])
        decoded.fields).toOption.any (·.length < 1000)) = true := by
    decide +kernel
  obtain ⟨decoded, hdecoded, h⟩ := Option.any_eq_true _ _ |>.mp hread
  obtain ⟨hextent, htable⟩ := Bool.and_eq_true_iff.mp h
  obtain ⟨table, htable, hlength⟩ := Option.any_eq_true _ _ |>.mp htable
  have hparse := eq_ok_of_toOption hdecoded
  have hencode := eq_ok_of_toOption htable
  have hlimit : table.length < positionLimit :=
    Nat.lt_trans (of_decide_eq_true hlength) (by decide)
  obtain ⟨-, -, -, hback⟩ := parsed_writes_back (by decide) (by decide) (by decide) hparse
  have hflatten := hback table hencode hlimit
  rw [eq_of_beq hextent] at hflatten
  exact ⟨decoded, table, hparse, hencode, hflatten⟩

end

end LedgerTx.Layout
