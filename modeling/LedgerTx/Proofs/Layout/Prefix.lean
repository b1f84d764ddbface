import LedgerTx.Proofs.Layout.RoundTrip

/-!
# Reading a prefix

Neither reader looks at a byte past the extent that it reports, and both need
every byte before it.  So whatever follows the extent can be exchanged, and
fewer bytes are refused: the flat form as truncated, an offset table as
truncated or with an offset that leads outside.
-/

namespace LedgerTx.Layout

variable {α β : Type}

/-! ## Flat forms -/

namespace Cursor

/--
A reader finds a value in bytes at a position: it goes past them whatever
follows, and fewer of them are truncated.
-/
structure Finds (read : Cursor → Except Error (α × Cursor)) (position : Nat) (bytes : Bytes)
    (value : α) : Prop where
  past : ∀ post, read ⟨position, bytes ++ post⟩ = .ok (value, ⟨position + bytes.length, post⟩)
  short : ∀ n < bytes.length, ∃ needed available,
    read ⟨position, bytes.take n⟩ = .error (.truncated needed available)

/-- A reader that finds what it reads in the bytes that it goes past. -/
def Prompt (read : Cursor → Except Error (α × Cursor)) : Prop :=
  ∀ cursor value next, read cursor = .ok (value, next) →
    ∃ bytes, Passes bytes cursor next ∧ Finds read cursor.position bytes value

theorem Finds.bind {read : Cursor → Except Error (α × Cursor)}
    {next : α → Cursor → Except Error (β × Cursor)} {position : Nat} {bytes more : Bytes} {a : α}
    {b : β} (h : Finds read position bytes a)
    (hnext : Finds (next a) (position + bytes.length) more b) :
    Finds (fun cursor => read cursor >>= fun found => next found.1 found.2) position
      (bytes ++ more) b where
  past post := by
    rw [List.append_assoc, h.past, List.length_append, ← Nat.add_assoc]
    exact hnext.past post
  short n hn := by
    rw [List.length_append] at hn
    -- The first reader stops at a cut in its own bytes; otherwise it goes past them.
    by_cases hfew : n < bytes.length
    · obtain ⟨needed, available, hread⟩ := h.short n hfew
      refine ⟨needed, available, ?_⟩
      rw [List.take_append_of_le_length (Nat.le_of_lt hfew), hread]
      rfl
    · obtain ⟨needed, available, hread⟩ := hnext.short (n - bytes.length) (by omega)
      refine ⟨needed, available, ?_⟩
      rw [List.take_append, List.take_of_length_le (by omega), h.past]
      exact hread

namespace Prompt

variable {read : Cursor → Except Error (α × Cursor)}
  {next : α → Cursor → Except Error (β × Cursor)}

theorem done (value : α) : Prompt fun cursor => .ok (value, cursor) := by
  intro cursor found next h
  cases h
  refine ⟨[], .refl _, ⟨fun _ => rfl, fun n hn => ?_⟩⟩
  cases hn

theorem bind (h : Prompt read) (hnext : ∀ a, Prompt (next a)) :
    Prompt fun cursor => read cursor >>= fun found => next found.1 found.2 := by
  intro cursor b last hread
  obtain ⟨⟨a, middle⟩, ha, hb⟩ := bind_eq_ok.mp hread
  obtain ⟨bytes, hbytes, hfinds⟩ := h _ _ _ ha
  obtain ⟨more, hmore, hfinds'⟩ := hnext a _ _ _ hb
  rw [hbytes.position] at hfinds'
  exact ⟨bytes ++ more, hbytes.append hmore, hfinds.bind hfinds'⟩

theorem map (h : Prompt read) (form : α → β) :
    Prompt fun cursor => read cursor >>= fun found => .ok (form found.1, found.2) :=
  h.bind fun a => done (form a)

theorem after {γ : Type} (x : Except Error γ) {read : γ → Cursor → Except Error (α × Cursor)}
    (h : ∀ c, Prompt (read c)) : Prompt fun cursor => x >>= fun c => read c cursor := by
  cases x with
  | error e =>
      intro cursor value next hread
      cases hread
  | ok c => exact h c

theorem take (count : Nat) : Prompt fun cursor => cursor.take count := by
  intro cursor bytes next h
  obtain ⟨hpasses, rfl⟩ := Passes.of_take h
  have hlimit : cursor.position + bytes.length < positionLimit := by
    by_contra hfar
    dsimp only [Cursor.take] at h
    rw [if_pos (Nat.le_of_not_lt hfar)] at h
    cases h
  refine ⟨bytes, hpasses, fun post => Cursor.take_append post hlimit, fun n hn => ?_⟩
  have hfew : (bytes.take n).length < bytes.length := by
    rw [List.length_take]
    omega
  exact ⟨_, _, by rw [Cursor.take, if_neg (by simpa using hlimit), if_pos hfew]⟩

theorem parseMany {read : Cursor → Except Error (FieldSet × Cursor)} (h : Prompt read)
    (count : Nat) : Prompt fun cursor => parseMany read count cursor := by
  induction count with
  | zero => exact done []
  | succ count ih => exact h.bind fun table => ih.bind fun tables => done (table :: tables)

end Prompt

end Cursor

open Cursor (Prompt)

mutual

-- What runs to the end is not bounded, so the lengths and counts below are all named.

theorem Schema.prompt_parse {outer : Scope} :
    (schema : Schema) → schema.bounded = true →
      Prompt fun cursor => Schema.parse outer cursor schema
  | ⟨_, fields⟩, hbounded => prompt_parseFields fields hbounded

theorem prompt_parseFields {outer : Scope} {values : FieldSet} :
    (fields : List FieldSpec) → boundedFields fields = true →
      Prompt fun cursor => parseFields outer values cursor fields
  | [], _ => .done values
  | ⟨_, kind⟩ :: rest, hbounded => by
      obtain ⟨hkind, hrest⟩ := Bool.and_eq_true_iff.mp hbounded
      exact (Kind.prompt_parse kind hkind).bind fun _ => prompt_parseFields rest hrest

theorem Kind.prompt_parse {scope : Scope} {field : String} :
    (kind : Kind) → kind.bounded = true → Prompt fun cursor => Kind.parse scope field cursor kind
  | .scalar width, _ => (Prompt.take width.bytes).map fun bytes =>
      Value.scalar (LittleEndian.decode bytes).toUInt64
  | .array size, _ => (Prompt.take size).map Value.array
  | .vector (.named scalar bias), _ =>
      .after (scope.length field scalar bias) fun count => (Prompt.take count).map Value.vector
  | .table schema, hbounded => (Schema.prompt_parse schema hbounded).map Value.table
  | .tableArray schema (.named scalar), hbounded =>
      .after (scope.lookup scalar) fun number =>
        ((Schema.prompt_parse schema hbounded).parseMany number.toNat).map Value.tableArray

end

theorem parse_extent {fields : List FieldSpec} {buffer : Bytes} {decoded : Decoded}
    (hbounded : boundedFields fields = true) (h : parse fields buffer = .ok decoded) :
    decoded.extent ≤ buffer.length
      ∧ (∀ suffix, parse fields (buffer.take decoded.extent ++ suffix) = .ok decoded)
      ∧ ∀ n < decoded.extent, ∃ needed available,
        parse fields (buffer.take n) = .error (.truncated needed available) := by
  obtain ⟨⟨values, next⟩, hvalues, h⟩ := bind_eq_ok.mp h
  cases h
  obtain ⟨bytes, hpasses, hfinds⟩ :=
    Schema.prompt_parse ⟨"", fields⟩ hbounded ⟨0, buffer⟩ values next hvalues
  have hbuffer : buffer = bytes ++ next.rest := hpasses.rest
  have hextent : next.position = bytes.length := hpasses.position.trans (Nat.zero_add _)
  rw [hextent]
  refine ⟨?_, fun suffix => ?_, fun n hn => ?_⟩
  · rw [hbuffer, List.length_append]
    exact Nat.le_add_right _ _
  · rw [hbuffer, List.take_left]
    refine bind_eq_ok.mpr ⟨_, hfinds.past suffix, ?_⟩
    dsimp only
    rw [Nat.zero_add]
  · obtain ⟨needed, available, hread⟩ := hfinds.short n hn
    refine ⟨needed, available, ?_⟩
    rw [hbuffer, List.take_append_of_le_length (Nat.le_of_lt hn), parse, hread]
    rfl

/-! ## Offset tables -/

/-- A refusal for bytes that are not there. -/
def Cut (x : Except Error α) : Prop :=
  (∃ needed available, x = .error (.truncated needed available))
    ∨ ∃ field target, x = .error (.stray field target)

theorem Cut.bind {x : Except Error α} (h : Cut x) (f : α → Except Error β) : Cut (x >>= f) := by
  rcases h with ⟨needed, available, rfl⟩ | ⟨field, target, rfl⟩
  · exact .inl ⟨needed, available, rfl⟩
  · exact .inr ⟨field, target, rfl⟩

theorem bytesAt_eq_ok {buffer : Bytes} {position count : Nat} {found : Seen Bytes} :
    bytesAt buffer position count = .ok found
      ↔ (position + count < positionLimit ∧ position + count ≤ buffer.length)
        ∧ found = ⟨(buffer.take (position + count)).drop position, position + count⟩ := by
  rw [List.drop_take, Nat.add_sub_cancel_left]
  unfold bytesAt
  split
  · simp only [reduceCtorEq, false_iff]
    omega
  · split
    · simp only [reduceCtorEq, false_iff]
      omega
    · simp only [Except.ok.injEq]
      constructor
      · rintro rfl
        exact ⟨by omega, rfl⟩
      · rintro ⟨-, rfl⟩
        rfl

theorem extent_of_numberAt {buffer : Bytes} {position width : Nat} {found : Seen Nat}
    (h : numberAt buffer position width = .ok found) : found.extent = position + width := by
  obtain ⟨bytes, hbytes, h⟩ := bind_eq_ok.mp h
  cases h
  obtain ⟨-, rfl⟩ := bytesAt_eq_ok.mp hbytes
  rfl

theorem follow_eq_ok {buffer : Bytes} {field : String} {slot base floor : Nat} {target : Seen Nat} :
    follow buffer field slot base floor = .ok target
      ↔ ∃ raw, numberAt buffer slot 4 = .ok raw ∧ target = ⟨base + raw.value, raw.extent⟩
        ∧ (base + raw.value < positionLimit ∧ floor ≤ base + raw.value)
        ∧ base + raw.value < buffer.length := by
  rw [follow, bind_eq_ok]
  refine exists_congr fun raw => and_congr_right fun _ => ?_
  dsimp only
  split
  · simp only [reduceCtorEq, false_iff]
    omega
  · split
    · simp only [reduceCtorEq, false_iff]
      omega
    · simp only [Except.ok.injEq]
      constructor
      · rintro rfl
        exact ⟨rfl, by omega⟩
      · rintro ⟨rfl, -⟩
        rfl

/--
A reader of a buffer whose bytes before `seen` are seen already: it looks at
no byte past its extent, and in fewer bytes it reads the same or is cut.
-/
structure Local (seen : Nat) (read : Bytes → Except Error (Seen α)) : Prop where
  covers : ∀ {buffer found}, read buffer = .ok found → seen ≤ found.extent
  within : ∀ {buffer found}, read buffer = .ok found → seen ≤ buffer.length →
    found.extent ≤ buffer.length
  agree : ∀ {buffer found other}, read buffer = .ok found → found.extent ≤ buffer.length →
    other.take found.extent = buffer.take found.extent → read other = .ok found
  shorter : ∀ {found} (buffer n), read buffer = .ok found →
    read (buffer.take n) = .ok found ∨ Cut (read (buffer.take n))

theorem take_eq_of_le {buffer other : Bytes} {few many : Nat} (hle : few ≤ many)
    (h : other.take many = buffer.take many) : other.take few = buffer.take few := by
  have htake := congrArg (List.take few) h
  rwa [List.take_take, List.take_take, Nat.min_eq_left hle] at htake

theorem le_length_of_take_eq {buffer other : Bytes} {count : Nat} (hle : count ≤ buffer.length)
    (h : other.take count = buffer.take count) : count ≤ other.length := by
  have hlength := congrArg List.length h
  rw [List.length_take, List.length_take] at hlength
  omega

namespace Local

variable {seen : Nat} {read : Bytes → Except Error (Seen α)}
  {next : Seen α → Bytes → Except Error (Seen β)}

theorem done {found : Seen α} (h : found.extent = seen) : Local seen fun _ => .ok found where
  covers hread := by
    cases hread
    exact Nat.le_of_eq h.symm
  within hread hle := by
    cases hread
    rwa [h]
  agree hread _ _ := hread
  shorter _ _ hread := .inl hread

theorem bind (h : Local 0 read)
    (hnext : ∀ buffer a, read buffer = .ok a → Local (max seen a.extent) (next a)) :
    Local seen fun buffer => read buffer >>= fun a => next a buffer where
  covers hread := by
    obtain ⟨a, ha, hb⟩ := bind_eq_ok.mp hread
    exact Nat.le_trans (Nat.le_max_left _ _) ((hnext _ a ha).covers hb)
  within hread hle := by
    obtain ⟨a, ha, hb⟩ := bind_eq_ok.mp hread
    exact (hnext _ a ha).within hb (Nat.max_le.mpr ⟨hle, h.within ha (Nat.zero_le _)⟩)
  agree hread hle hsame := by
    obtain ⟨a, ha, hb⟩ := bind_eq_ok.mp hread
    have hcovers := Nat.le_trans (Nat.le_max_right _ _) ((hnext _ a ha).covers hb)
    exact bind_eq_ok.mpr ⟨a,
      h.agree ha (Nat.le_trans hcovers hle) (take_eq_of_le hcovers hsame),
      (hnext _ a ha).agree hb hle hsame⟩
  shorter buffer n hread := by
    obtain ⟨a, ha, hb⟩ := bind_eq_ok.mp hread
    rcases h.shorter buffer n ha with hsame | hcut
    · rcases (hnext buffer a ha).shorter buffer n hb with hsame' | hcut
      · exact .inl (bind_eq_ok.mpr ⟨a, hsame, hsame'⟩)
      · right
        rw [hsame]
        exact hcut
    · exact .inr (hcut.bind _)

theorem bytesAt (position count : Nat) :
    Local 0 fun buffer => Layout.bytesAt buffer position count where
  covers _ := Nat.zero_le _
  within hread _ := by
    obtain ⟨⟨-, hle⟩, rfl⟩ := bytesAt_eq_ok.mp hread
    exact hle
  agree hread hle hsame := by
    obtain ⟨⟨hlimit, -⟩, rfl⟩ := bytesAt_eq_ok.mp hread
    refine bytesAt_eq_ok.mpr ⟨⟨hlimit, le_length_of_take_eq hle hsame⟩, ?_⟩
    rw [hsame]
  shorter buffer n hread := by
    obtain ⟨⟨hlimit, hle⟩, rfl⟩ := bytesAt_eq_ok.mp hread
    by_cases hn : position + count ≤ n
    · refine .inl (bytesAt_eq_ok.mpr ⟨⟨hlimit, by rw [List.length_take]; omega⟩, ?_⟩)
      rw [List.take_take, Nat.min_eq_left hn]
    · refine .inr (.inl ⟨position + count, (buffer.take n).length, ?_⟩)
      rw [Layout.bytesAt, if_neg (by omega), if_pos (by rw [List.length_take]; omega)]

theorem numberAt (position width : Nat) : Local 0 fun buffer => numberAt buffer position width :=
  (bytesAt position width).bind fun _ _ _ => done (Nat.zero_max _).symm

theorem follow {next : Seen Nat → Bytes → Except Error (Seen β)} (field : String)
    (slot base floor : Nat)
    (hnext : ∀ target, Local (max (max seen target.extent) (target.value + 1)) (next target)) :
    Local seen fun buffer => Layout.follow buffer field slot base floor >>= fun target =>
      next target buffer where
  covers hread := by
    obtain ⟨target, -, hnextRead⟩ := bind_eq_ok.mp hread
    have hcovers := (hnext target).covers hnextRead
    omega
  within hread hle := by
    obtain ⟨target, htarget, hnextRead⟩ := bind_eq_ok.mp hread
    obtain ⟨raw, hraw, rfl, -, hinside⟩ := follow_eq_ok.mp htarget
    have hslot := (numberAt slot 4).within hraw (Nat.zero_le _)
    exact (hnext _).within hnextRead (by dsimp only; omega)
  agree hread hle hsame := by
    obtain ⟨target, htarget, hnextRead⟩ := bind_eq_ok.mp hread
    obtain ⟨raw, hraw, rfl, hbounds, hinside⟩ := follow_eq_ok.mp htarget
    have hcovers := (hnext _).covers hnextRead
    have hlength := le_length_of_take_eq hle hsame
    dsimp only at hcovers
    have hslot := (numberAt slot 4).agree hraw (by omega) (take_eq_of_le (by omega) hsame)
    exact bind_eq_ok.mpr ⟨_, follow_eq_ok.mpr ⟨raw, hslot, rfl, hbounds, by omega⟩,
      (hnext _).agree hnextRead hle hsame⟩
  shorter buffer n hread := by
    obtain ⟨target, htarget, hnextRead⟩ := bind_eq_ok.mp hread
    obtain ⟨raw, hraw, rfl, hbounds, hinside⟩ := follow_eq_ok.mp htarget
    -- The slot may be there and lead to a place that is not: then the offset is stray.
    rcases (numberAt slot 4).shorter buffer n hraw with hslot | hcut
    · by_cases hshort : base + raw.value < (buffer.take n).length
      · have htaken : Layout.follow (buffer.take n) field slot base floor
            = .ok ⟨base + raw.value, raw.extent⟩ :=
          follow_eq_ok.mpr ⟨raw, hslot, rfl, hbounds, hshort⟩
        rcases (hnext _).shorter buffer n hnextRead with hsame | hcut
        · exact .inl (bind_eq_ok.mpr ⟨_, htaken, hsame⟩)
        · right
          rw [htaken]
          exact hcut
      · have hstray : Cut (Layout.follow (buffer.take n) field slot base floor) := by
          refine .inr ⟨field, base + raw.value, ?_⟩
          rw [Layout.follow, hslot]
          exact (if_neg (by omega)).trans (if_pos (.inr (Nat.le_of_not_lt hshort)))
        exact .inr (hstray.bind _)
    · right
      rw [Layout.follow]
      exact (hcut.bind _).bind _

theorem readTables {read : Bytes → Nat → Except Error (Seen FieldSet)} (field : String)
    (origin floor : Nat) (hread : ∀ start, Local 0 fun buffer => read buffer start)
    (hsome : ∀ {buffer start found}, read buffer start = .ok found → start < found.extent)
    (slot count : Nat) :
    Local 0 fun buffer => Layout.readTables (read buffer) buffer field origin floor slot count := by
  induction count generalizing slot with
  | zero => exact done rfl
  | succ count ih =>
      refine follow field slot origin floor fun target => (hread target.value).bind
        fun _ table htable => (ih (slot + 4)).bind fun _ rest _ => done ?_
      have hlater := hsome htable
      dsimp only
      omega

end Local

theorem Schema.lt_extent_of_readAt {buffer : Bytes} {start : Nat} {found : Seen FieldSet} :
    {schema : Schema} → 0 < schema.size → Schema.readAt buffer start schema = .ok found →
      start < found.extent
  | ⟨_, fields⟩, hsome, h => by
      obtain ⟨inline, hinline, h⟩ := bind_eq_ok.mp h
      obtain ⟨read, hread, h⟩ := bind_eq_ok.mp h
      cases h
      obtain ⟨-, rfl⟩ := bytesAt_eq_ok.mp hinline
      rw [Schema.size] at hsome
      dsimp only at hsome ⊢
      omega

mutual

theorem Schema.local_readAt (start : Nat) :
    (schema : Schema) → schema.solid = true →
      Local 0 fun buffer => Schema.readAt buffer start schema
  | ⟨_, fields⟩, hsolid =>
      (Local.bytesAt start (inlineSize fields)).bind fun _ inline _ =>
        (local_readFields start inline.extent start [] fields hsolid).bind fun _ read _ =>
          .done (by dsimp only; omega)

theorem local_readFields (origin floor cursor : Nat) (values : FieldSet) :
    (fields : List FieldSpec) → solidFields fields = true →
      Local 0 fun buffer => readFields buffer origin floor cursor values fields
  | [], _ => .done rfl
  | ⟨name, kind⟩ :: rest, hsolid => by
      obtain ⟨hkind, hrest⟩ := Bool.and_eq_true_iff.mp hsolid
      exact (Kind.local_readAt origin floor cursor name kind hkind).bind fun _ value _ =>
        (local_readFields origin floor _ _ rest hrest).bind fun _ read _ =>
          .done (by dsimp only; omega)

theorem Kind.local_readAt (origin floor cursor : Nat) (field : String) :
    (kind : Kind) → kind.solid = true →
      Local 0 fun buffer => Kind.readAt buffer origin floor cursor field kind
  | .scalar width, _ => (Local.numberAt cursor width.bytes).bind fun _ _ _ =>
      .done (Nat.zero_max _).symm
  | .array size, _ => (Local.bytesAt cursor size).bind fun _ _ _ => .done (Nat.zero_max _).symm
  | .vector _, _ => by
      refine .follow field cursor 0 floor fun target =>
        (Local.numberAt target.value 4).bind fun _ length hlength =>
          (Local.bytesAt (target.value + 4) length.value).bind fun _ bytes _ => .done ?_
      have hnumber := extent_of_numberAt hlength
      dsimp only
      omega
  | .table schema, hsolid => by
      obtain ⟨hsome, hsolid⟩ := Bool.and_eq_true_iff.mp hsolid
      refine .follow field cursor origin floor fun target =>
        (Schema.local_readAt target.value schema hsolid).bind fun _ table htable => .done ?_
      have hlater := Schema.lt_extent_of_readAt (of_decide_eq_true hsome) htable
      dsimp only
      omega
  | .tableArray schema _, hsolid => by
      obtain ⟨hsome, hsolid⟩ := Bool.and_eq_true_iff.mp hsolid
      refine .follow field cursor origin floor fun target =>
        (Local.numberAt target.value 4).bind fun _ number hnumber =>
          (Local.bytesAt (target.value + 4) (4 * number.value)).bind fun _ slots hslots =>
            (Local.readTables field origin slots.extent
              (fun start => Schema.local_readAt start schema hsolid)
              (fun htable => Schema.lt_extent_of_readAt (of_decide_eq_true hsome) htable)
              (target.value + 4) number.value).bind fun _ tables _ => .done ?_
      have hnumber := extent_of_numberAt hnumber
      dsimp only
      omega

end

/-- An offset table is read from the bytes before its extent, and needs all of them. -/
theorem decode_extent {fields : List FieldSpec} {buffer : Bytes} {decoded : Decoded}
    (hsolid : solidFields fields = true) (h : decode fields buffer = .ok decoded) :
    decoded.extent ≤ buffer.length
      ∧ (∀ suffix, decode fields (buffer.take decoded.extent ++ suffix) = .ok decoded)
      ∧ ∀ n < decoded.extent, Cut (decode fields (buffer.take n)) := by
  obtain ⟨read, hread, h⟩ := bind_eq_ok.mp h
  cases h
  have hlocal := Schema.local_readAt 0 ⟨"", fields⟩ hsolid
  have hextent := hlocal.within hread (Nat.zero_le _)
  dsimp only
  refine ⟨hextent, fun suffix => ?_, fun n hn => ?_⟩
  · refine bind_eq_ok.mpr ⟨read, hlocal.agree hread hextent ?_, rfl⟩
    rw [List.take_append_of_le_length (by rw [List.length_take]; omega), List.take_take,
      Nat.min_self]
  · rcases hlocal.shorter buffer n hread with hsame | hcut
    · have hlength := hlocal.within hsame (Nat.zero_le _)
      rw [List.length_take] at hlength
      omega
    · exact hcut.bind _

/-! ## Both readers -/

/--
Both readers read exactly a prefix, whatever the bytes are.  An offset table
whose nested tables take some bytes inline, and a flat form in which nothing
runs to the end, are inside the buffer, are read the same whatever follows
their extent, and are refused when a byte before it is missing: the table as
truncated or with an offset that leads outside, the flat form as truncated.
-/
theorem read_within_extent (schemas : List Schema) (buffer : Bytes) (decoded : Decoded) :
    (solidFields (Schema.join schemas) = true →
      decode (Schema.join schemas) buffer = .ok decoded →
        decoded.extent ≤ buffer.length
          ∧ (∀ suffix,
            decode (Schema.join schemas) (buffer.take decoded.extent ++ suffix) = .ok decoded)
          ∧ ∀ n < decoded.extent,
            (∃ needed available, decode (Schema.join schemas) (buffer.take n)
              = .error (.truncated needed available))
            ∨ ∃ field target, decode (Schema.join schemas) (buffer.take n)
              = .error (.stray field target))
      ∧ (boundedFields (Schema.join schemas) = true →
        parse (Schema.join schemas) buffer = .ok decoded →
          decoded.extent ≤ buffer.length
            ∧ (∀ suffix,
              parse (Schema.join schemas) (buffer.take decoded.extent ++ suffix) = .ok decoded)
            ∧ ∀ n < decoded.extent, ∃ needed available,
              parse (Schema.join schemas) (buffer.take n)
                = .error (.truncated needed available)) :=
  ⟨fun hsolid h => decode_extent hsolid h, fun hbounded h => parse_extent hbounded h⟩

theorem read_within_extent_transfer :
    ∃ table stored read, encode (Schema.join [Transfer.schema]) (transferValues []) = .ok table
      ∧ decode (Schema.join [Transfer.schema]) (table ++ [21, 34]) = .ok stored
      ∧ (∀ n < table.length, Cut (decode (Schema.join [Transfer.schema])
        ((table ++ [21, 34]).take n)))
      ∧ parse (Schema.join [Transfer.schema]) transferAndMore = .ok read
      ∧ ∀ suffix, parse (Schema.join [Transfer.schema]) (transferAndMore.take 47 ++ suffix)
        = .ok read := by
  have hstored : (encode (Schema.join [Transfer.schema]) (transferValues [])).toOption.any
      (fun table => (decode (Schema.join [Transfer.schema]) (table ++ [21, 34])).toOption.any
        (·.extent == table.length)) = true := by
    decide +kernel
  have hread : (parse (Schema.join [Transfer.schema]) transferAndMore).toOption.any
      (·.extent == 47) = true := by
    decide +kernel
  obtain ⟨table, htable, hstored⟩ := Option.any_eq_true _ _ |>.mp hstored
  obtain ⟨stored, hstored, hlength⟩ := Option.any_eq_true _ _ |>.mp hstored
  obtain ⟨read, hread, hextent⟩ := Option.any_eq_true _ _ |>.mp hread
  have hdecode := eq_ok_of_toOption hstored
  have hparse := eq_ok_of_toOption hread
  obtain ⟨-, -, hcut⟩ := (read_within_extent [Transfer.schema] _ stored).1 (by decide) hdecode
  obtain ⟨-, hsame, -⟩ := (read_within_extent [Transfer.schema] _ read).2 (by decide) hparse
  rw [eq_of_beq hlength] at hcut
  rw [eq_of_beq hextent] at hsame
  exact ⟨table, stored, read, eq_ok_of_toOption htable, hdecode, hcut, hparse, hsame⟩

end LedgerTx.Layout
