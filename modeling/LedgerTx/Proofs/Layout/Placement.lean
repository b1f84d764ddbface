import LedgerTx.Proofs.Layout.Contents
import LedgerTx.Proofs.Layout.Encoder
import LedgerTx.Proofs.Layout.RoundTrip

/-!
# Offset tables without overlap

The contents of an offset table stand apart from one another and in field
order, each at an aligned position behind the table that refers to it.  What
is left of the buffer are at most three zero bytes before a content.  Slots
are patched only where they were reserved, so no content is overwritten.
-/

namespace LedgerTx.Layout

/-! ## Contents one after the other -/

structure Placed.Spans (content : Placed) (i : Nat) : Prop where
  start_le : content.start ≤ i
  lt_stop : i < content.stop

/--
A byte before a content, with nothing but zero bytes up to there that belong
to no content.
-/
def IsPadding (buffer : Bytes) (placed : List Placed) (i : Nat) : Prop :=
  ∃ content ∈ placed, i < content.start ∧ content.start ≤ i + 3
    ∧ ∀ j, i ≤ j → j < content.start → buffer[j]? = some 0 ∧ ∀ other ∈ placed, ¬other.Spans j

namespace Holds

theorem getElem?_eq {buffer bytes : Bytes} {position i : Nat} (h : Holds buffer position bytes)
    (hle : position ≤ i) (hlt : i < position + bytes.length) :
    buffer[i]? = bytes[i - position]? := by
  obtain ⟨front, back, rfl, rfl⟩ := h
  rw [List.append_assoc, List.getElem?_append_right hle, List.getElem?_append_left (by omega)]

end Holds

namespace Laid

variable {buffer : Bytes} {position stop : Nat} {contents : List Placed}

theorem bounds (h : Laid buffer position contents stop) :
    position ≤ stop ∧ ∀ content ∈ contents, position ≤ content.start ∧ content.stop ≤ stop := by
  induction h with
  | nil => exact ⟨Nat.le_refl _, nofun⟩
  | @cons position stop content rest hstart _ _ ih =>
      have hstop : content.start ≤ content.stop := Nat.le_add_right _ _
      obtain ⟨hle, hrest⟩ := ih
      refine ⟨by omega, List.forall_mem_cons.mpr ⟨by omega, fun other hother => ?_⟩⟩
      obtain ⟨hafter, hbefore⟩ := hrest other hother
      omega

theorem pairwise (h : Laid buffer position contents stop) :
    contents.Pairwise fun left right => left.stop ≤ right.start := by
  induction h with
  | nil => exact .nil
  | cons _ _ hrest ih => exact .cons (fun other hother => (hrest.bounds.2 other hother).1) ih

theorem aligned (h : Laid buffer position contents stop) :
    ∀ content ∈ contents, content.start % alignment = 0 := by
  induction h with
  | nil => exact nofun
  | @cons position _ _ _ hstart _ _ ih =>
      exact List.forall_mem_cons.mpr ⟨hstart ▸ Layout.aligned position, ih⟩

theorem covered (h : Laid buffer position contents stop) {i : Nat} (hle : position ≤ i)
    (hlt : i < stop) : (∃ content ∈ contents, content.Spans i) ∨ IsPadding buffer contents i := by
  induction h with
  | nil => exact absurd hlt (Nat.not_lt.mpr hle)
  | @cons position stop content rest hstart hzero hrest ih =>
      have hpadding := padding_le position
      rcases Nat.lt_or_ge i content.start with hbefore | hafter
      · refine .inr ⟨content, List.mem_cons_self, hbefore, by omega, fun j hij hj => ⟨?_, ?_⟩⟩
        · rw [hzero.getElem?_eq (Nat.le_trans hle hij) (by rw [List.length_replicate]; omega)]
          exact List.getElem?_replicate_of_lt (by omega)
        · refine List.forall_mem_cons.mpr ⟨fun hspans => ?_, fun other hother hspans => ?_⟩
          · exact Nat.not_lt.mpr hspans.start_le hj
          · have hlater := (hrest.bounds.2 other hother).1
            have hstop : content.start ≤ content.stop := Nat.le_add_right _ _
            have hle := hspans.start_le
            omega
      rcases Nat.lt_or_ge i content.stop with hinside | hbehind
      · exact .inl ⟨content, List.mem_cons_self, hafter, hinside⟩
      · rcases ih hbehind hlt with ⟨other, hother, hspans⟩ | ⟨other, hother, hi, hnear, hzeros⟩
        · exact .inl ⟨other, List.mem_cons_of_mem _ hother, hspans⟩
        · refine .inr ⟨other, List.mem_cons_of_mem _ hother, hi, hnear, fun j hij hj => ?_⟩
          obtain ⟨hbyte, hothers⟩ := hzeros j hij hj
          refine ⟨hbyte, List.forall_mem_cons.mpr ⟨fun hspans => ?_, hothers⟩⟩
          have hstop := hspans.lt_stop
          omega

end Laid

/-! ## Order -/

/-- A table that refers to a content is on the way to it. -/
theorem Refers.behind {placed : List Placed} {owner content : Placed} {slot : Nat}
    (h : Refers placed owner slot content) :
    ∃ i, owner.path ++ [i] <+: content.path := by
  induction h with
  | @field _ _ index _ _ _ _ _ hpath => exact ⟨index, hpath ▸ List.prefix_rfl⟩
  | element _ _ _ _ hpath ih =>
      obtain ⟨i, hi⟩ := ih
      exact ⟨i, hi.trans (hpath ▸ List.prefix_append _ _)⟩

theorem behind_lt_of_lt {path later behind : List Nat} (hlt : path < later)
    (hapart : ¬path <+: later) (hbehind : path <+: behind) : behind < later := by
  obtain ⟨more, rfl⟩ := hbehind
  induction path generalizing later with
  | nil => exact absurd ⟨later, rfl⟩ hapart
  | cons i rest ih =>
      cases later with
      | nil => cases hlt
      | cons j others =>
          rcases List.cons_lt_cons_iff.mp hlt with hij | ⟨rfl, hrest⟩
          · exact List.cons_lt_cons_iff.mpr (.inl hij)
          · refine List.cons_lt_cons_iff.mpr (.inr ⟨rfl, ih hrest fun hrest => hapart ?_⟩)
            exact (List.prefix_cons_inj i).mpr hrest

/-- Contents in the order of their paths, each ending before the next one starts. -/
def Ordered (placed : List Placed) : Prop :=
  placed.Pairwise fun left right => left.path < right.path ∧ left.stop ≤ right.start

namespace Ordered

variable {placed : List Placed} {left right : Placed}

theorem stop_le (h : Ordered placed) (hleft : left ∈ placed) (hright : right ∈ placed)
    (hlt : left.path < right.path) : left.stop ≤ right.start := by
  induction h with
  | nil => cases hleft
  | @cons content rest hhead _ ih =>
      rcases List.mem_cons.mp hleft with rfl | hleftRest <;>
        rcases List.mem_cons.mp hright with rfl | hrightRest
      · exact absurd hlt (List.lt_irrefl _)
      · exact (hhead right hrightRest).2
      · exact absurd hlt (List.lt_asymm (hhead left hleftRest).1)
      · exact ih hleftRest hrightRest

/-- A content with all that lies behind it ends before later contents that do not lie behind it. -/
theorem apart (h : Ordered placed) {inner : Placed} (hinner : inner ∈ placed)
    (hright : right ∈ placed) (hlt : left.path < right.path) (hapart : ¬left.path <+: right.path)
    (hbehind : left.path <+: inner.path) : inner.stop ≤ right.start :=
  h.stop_le hinner hright (behind_lt_of_lt hlt hapart hbehind)

end Ordered

/-! ## Written tables -/

/--
A buffer is made of contents: they are in order and apart, also with all that
lies behind them; each is aligned, inside the buffer and takes some bytes;
the slot of a table before it leads to it.  Other bytes are padding.
-/
structure Packed (buffer : Bytes) (placed : List Placed) : Prop where
  ordered : Ordered placed
  apart : ∀ left ∈ placed, ∀ right ∈ placed, left.path < right.path →
    ¬left.path <+: right.path → ∀ inner ∈ placed, left.path <+: inner.path →
      inner.stop ≤ right.start
  aligned : ∀ content ∈ placed, content.start % alignment = 0
  inside : ∀ content ∈ placed, content.stop ≤ buffer.length
  held : ∀ content ∈ placed, content.item.Held buffer content.start
  size_pos : ∀ content ∈ placed, content.path ≠ [] → 0 < content.item.size
  referred : ∀ content ∈ placed, content.path ≠ [] → ∃ owner ∈ placed, ∃ slot,
    Refers placed owner slot content ∧ owner.stop ≤ content.start
      ∧ Leads buffer slot (content.item.base owner.start) content.start
  covered : ∀ i < buffer.length,
    (∃ content ∈ placed, content.Spans i) ∨ IsPadding buffer placed i

theorem toContent_mem_of_mem_place {position : Nat} {contents : List Content} {placed : Placed}
    (h : placed ∈ place position contents) : placed.toContent ∈ contents := by
  have hmem := List.mem_map_of_mem (f := Placed.toContent) h
  rwa [map_toContent_place] at hmem

theorem pairwise_path_place {position : Nat} {contents : List Content}
    (h : contents.Pairwise (·.path < ·.path)) :
    (place position contents).Pairwise (·.path < ·.path) := by
  rw [← map_toContent_place position contents] at h
  exact (List.pairwise_map (f := Placed.toContent) (R := (·.path < ·.path))).mp h

theorem packed_placements {fields : List FieldSpec} {values : FieldSet} {buffer : Bytes}
    (hsolid : solidFields fields = true) (h : encode fields values = .ok buffer) :
    Packed buffer (placements fields values) := by
  obtain ⟨hheld, hfilled⟩ := Schema.filled_write [] ⟨"", fields⟩ h (.self buffer)
  rw [Nat.zero_add buffer.length] at hfilled
  have hlaid : Laid buffer 0 (placements fields values) buffer.length :=
    .cons rfl ⟨[], buffer, rfl, rfl⟩ hfilled.laid
  have hsorted : (placements fields values).Pairwise (·.path < ·.path) :=
    pairwise_path_place ((Schema.contents_sorted ⟨"", fields⟩).cons _).sorted
  have hordered : Ordered (placements fields values) := hsorted.and hlaid.pairwise
  have hbehind (content : Placed) (hcontent : content ∈ placements fields values)
      (hpath : content.path ≠ []) : content ∈ place (0 + inlineSize fields)
        (fieldContents [] 0 values fields) := by
    rcases List.mem_cons.mp hcontent with rfl | hlater
    · exact absurd rfl hpath
    · exact hlater
  have hsettled := hfilled.settled (placements fields values)
    (List.cons_subset.mpr ⟨List.mem_cons_self, List.nil_subset _⟩) (List.subset_cons_self _ _)
  constructor
  case ordered => exact hordered
  case apart =>
    intro left _ right hright hlt hapart inner hinner hbehind
    exact hordered.apart hinner hright hlt hapart hbehind
  case aligned => exact hlaid.aligned
  case inside => exact fun content hcontent => (hlaid.bounds.2 content hcontent).2
  case held =>
    exact List.forall_mem_cons.mpr ⟨hheld, fun content hcontent => (hsettled content hcontent).held⟩
  case size_pos =>
    intro content hcontent hpath
    exact fieldContents_pos fields hsolid _
      (toContent_mem_of_mem_place (hbehind content hcontent hpath))
  case referred =>
    intro content hcontent hpath
    obtain ⟨owner, howner, slot, hrefers, hleads⟩ :=
      (hsettled content (hbehind content hcontent hpath)).reference
    obtain ⟨i, hbehind⟩ := hrefers.behind
    exact ⟨owner, howner, slot, hrefers,
      hordered.stop_le howner hcontent (path_lt_of_behind hbehind), hleads⟩
  case covered => exact fun i hi => hlaid.covered (Nat.zero_le i) hi

-- A vector at 16, an array at 24, its table at 32, and the vector of that table at 40.
example : (placements [.u8 "kind", .array "tag" 2, .u32 "amount", .vector "note" "note_size",
      .tablesToEnd "entries" ⟨"Entry", [.u16 "id", .vector "label" "label_size"]⟩]
    [("kind", .scalar 7), ("tag", .array [0xEE, 0xFF]), ("amount", .scalar 0x01020304),
      ("note", .vector [104, 105]),
      ("entries", .tableArray [[("id", .scalar 0x0506), ("label", .vector [120])]])]).map
    Placed.start = [0, 16, 24, 32, 40] := by
  decide

section

variable {schemas : List Schema} {values : FieldSet} {buffer : Bytes}

/--
The offset table for several schemas is made of its contents, in field order
and without overlap.  It is what an encoder writes that reserves slots and
patches them later; at any time of its run the bytes outside the slots that
wait then are final, and no slot waits in the end.
-/
theorem encoded_without_overlap (hsolid : solidFields (Schema.join schemas) = true)
    (h : encode (Schema.join schemas) values = .ok buffer) :
    Packed buffer (placements (Schema.join schemas) values)
      ∧ ∃ encoder, Encoder.encode (Schema.join schemas) values = .ok encoder
        ∧ encoder.bytes = buffer
        ∧ ∀ before after, encoder.edits = before ++ after →
          ∃ middle, EditSteps .empty before middle ∧ EditSteps middle after ⟨buffer, []⟩
            ∧ ∀ i, middle.Final i → buffer[i]? = middle.bytes[i]? := by
  refine ⟨packed_placements hsolid h, ?_⟩
  obtain ⟨encoder, hencoder, hbytes, hsteps⟩ := (Encoder.encode_agrees _ _).exists_ok h
  refine ⟨encoder, hencoder, hbytes, fun before after hedits => ?_⟩
  rw [hedits] at hsteps
  obtain ⟨middle, hbefore, hafter⟩ := hsteps.split
  exact ⟨middle, hbefore, hafter, fun i hfinal => hafter.final hfinal⟩

theorem encoded_without_overlap_transferWithChanges :
    solidFields (Schema.join transferWithChanges) = true
      ∧ ∃ buffer, encode (Schema.join transferWithChanges) (transferValues []) = .ok buffer
        ∧ Packed buffer (placements (Schema.join transferWithChanges) (transferValues [])) := by
  have hsome : (encode (Schema.join transferWithChanges)
      (transferValues [])).toOption.isSome = true := by
    decide +kernel
  obtain ⟨buffer, hbuffer⟩ := Option.isSome_iff_exists.mp hsome
  have hencode := eq_ok_of_toOption hbuffer
  exact ⟨by decide, buffer, hencode, (encoded_without_overlap (by decide) hencode).1⟩

end

end LedgerTx.Layout
