import LedgerTx.Proofs.Layout.Table

/-!
# Where contents stand

The contents of an offset table are listed in field order, a nested table
before what its own slots lead to.  Each stands at the first aligned position
behind the one before it, with zero bytes in between, so the list alone tells
where everything stands.  The list is built by recursion on the schema and
the positions by recursion on the list; one induction over the schema shows
that a written table is a buffer with its contents at these positions and
its slots leading to them.
-/

namespace LedgerTx.Layout

/-! ## Contents in field order -/

inductive Item where
  | vector (bytes : Bytes)
  | table (fields : List FieldSpec) (values : FieldSet)
  | tables (count : Nat)

namespace Item

/-- The bytes of an item itself, without what its own slots lead to. -/
def size : Item → Nat
  | vector bytes => 4 + bytes.length
  | table fields _ => inlineSize fields
  | tables count => 4 + 4 * count

/-- Where the number in a slot counts from: a vector's from the start of the buffer. -/
def base (origin : Nat) : Item → Nat
  | vector _ => 0
  | table _ _ | tables _ => origin

/--
A buffer has an item at a position: a vector behind its length, the inline
region of a table, or the slots of an array behind their number.
-/
def Held (buffer : Bytes) (start : Nat) : Item → Prop
  | vector bytes => Holds buffer start (slotBytes bytes.length ++ bytes)
  | table fields values => ∃ cells slots, inlineCells values fields = .ok cells
      ∧ Holds buffer start (fillCells cells slots)
  | tables count => ∃ slots : List Nat, slots.length = count
      ∧ Holds buffer start (slotBytes count ++ slots.flatMap slotBytes)

end Item

/--
An item with the way to it: the numbers of the fields, and of the tables in
arrays, that lead there from the outermost table.
-/
structure Content where
  path : List Nat
  item : Item

mutual

def Schema.contents (path : List Nat) (values : FieldSet) : Schema → List Content
  | ⟨_, fields⟩ => fieldContents path 0 values fields

def fieldContents (path : List Nat) (index : Nat) (values : FieldSet) :
    List FieldSpec → List Content
  | [] => []
  | ⟨name, kind⟩ :: rest =>
      (match values.get? name with
        | some value => Kind.contents (path ++ [index]) value kind
        | none => []) ++ fieldContents path (index + 1) values rest

def Kind.contents (path : List Nat) (value : Value) : Kind → List Content
  | .scalar _ => []
  | .array _ => []
  | .vector _ =>
      match value with
      | .vector bytes => [⟨path, .vector bytes⟩]
      | _ => []
  | .table schema =>
      match value with
      | .table nested => ⟨path, .table schema.fields nested⟩ :: Schema.contents path nested schema
      | _ => []
  | .tableArray schema _ =>
      match value with
      | .tableArray tables => ⟨path, .tables tables.length⟩ ::
          tables.zipIdx.flatMap fun (nested, index) =>
            ⟨path ++ [index], .table schema.fields nested⟩ ::
              Schema.contents (path ++ [index]) nested schema
      | _ => []

end

/-! ## Field order

The numbers of a path compare field by field, and a path comes before what
lies behind it.
-/

structure Behind (path : List Nat) (contents : List Content) : Prop where
  behind : ∀ content ∈ contents, path <+: content.path
  sorted : contents.Pairwise (·.path < ·.path)

/-- Contents behind the places of a path from number `index` on, in order. -/
structure BehindFrom (path : List Nat) (index : Nat) (contents : List Content) : Prop where
  behind : ∀ content ∈ contents, ∃ i, index ≤ i ∧ path ++ [i] <+: content.path
  sorted : contents.Pairwise (·.path < ·.path)

theorem path_lt_of_behind {path longer : List Nat} {i : Nat} (h : path ++ [i] <+: longer) :
    path < longer := by
  obtain ⟨more, rfl⟩ := h
  have hlt : path ++ [] < path ++ i :: more := List.append_left_lt (List.nil_lt_cons i more)
  rw [List.append_nil] at hlt
  rwa [List.append_assoc]

theorem path_lt_of_lt {path left right : List Nat} {i j : Nat} (hij : i < j)
    (hleft : path ++ [i] <+: left) (hright : path ++ [j] <+: right) : left < right := by
  obtain ⟨more, rfl⟩ := hleft
  obtain ⟨others, rfl⟩ := hright
  rw [List.append_assoc, List.append_assoc]
  exact List.append_left_lt (List.cons_lt_cons_iff.mpr (.inl hij))

namespace BehindFrom

variable {path : List Nat} {index : Nat} {contents rest : List Content}

theorem nil : BehindFrom path index [] :=
  ⟨nofun, .nil⟩

theorem append (h : Behind (path ++ [index]) contents) (hrest : BehindFrom path (index + 1) rest) :
    BehindFrom path index (contents ++ rest) where
  behind content hcontent := by
    rcases List.mem_append.mp hcontent with hhead | hlater
    · exact ⟨index, Nat.le_refl _, h.behind content hhead⟩
    · obtain ⟨i, hi, hbehind⟩ := hrest.behind content hlater
      exact ⟨i, Nat.le_of_succ_le hi, hbehind⟩
  sorted := by
    refine List.pairwise_append.mpr ⟨h.sorted, hrest.sorted, fun left hleft right hright => ?_⟩
    obtain ⟨i, hi, hbehind⟩ := hrest.behind right hright
    exact path_lt_of_lt hi (h.behind left hleft) hbehind

theorem cons (h : BehindFrom path index contents) (item : Item) :
    Behind path (⟨path, item⟩ :: contents) where
  behind content hcontent := by
    rcases List.mem_cons.mp hcontent with rfl | hlater
    · exact List.prefix_rfl
    · obtain ⟨i, -, hbehind⟩ := h.behind content hlater
      exact (List.prefix_append path [i]).trans hbehind
  sorted := by
    refine List.pairwise_cons.mpr ⟨fun content hcontent => ?_, h.sorted⟩
    obtain ⟨i, -, hbehind⟩ := h.behind content hcontent
    exact path_lt_of_behind hbehind

end BehindFrom

theorem Behind.nil {path : List Nat} : Behind path [] :=
  ⟨nofun, .nil⟩

theorem BehindFrom.tables {contents : List Nat → FieldSet → List Content}
    (h : ∀ path table, Behind path (contents path table)) (path : List Nat)
    (tables : List FieldSet) (index : Nat) :
    BehindFrom path index
      ((tables.zipIdx index).flatMap fun (table, i) => contents (path ++ [i]) table) := by
  induction tables generalizing index with
  | nil => exact .nil
  | cons table rest ih =>
      rw [List.zipIdx_cons, List.flatMap_cons]
      exact .append (h _ table) (ih (index + 1))

mutual

theorem Schema.contents_sorted {path : List Nat} {values : FieldSet} : (schema : Schema) →
    BehindFrom path 0 (Schema.contents path values schema)
  | ⟨_, fields⟩ => fieldContents_sorted fields

theorem fieldContents_sorted {path : List Nat} {index : Nat} {values : FieldSet} :
    (fields : List FieldSpec) → BehindFrom path index (fieldContents path index values fields)
  | [] => .nil
  | ⟨name, kind⟩ :: rest => by
      rw [fieldContents]
      refine .append ?_ (fieldContents_sorted rest)
      cases values.get? name with
      | none => exact .nil
      | some value => exact Kind.contents_sorted kind

theorem Kind.contents_sorted {path : List Nat} {value : Value} : (kind : Kind) →
    Behind path (Kind.contents path value kind)
  | .scalar _ => .nil
  | .array _ => .nil
  | .vector _ => by
      cases value with
      | vector bytes => exact (BehindFrom.nil : BehindFrom path 0 []).cons (.vector bytes)
      | _ => exact .nil
  | .table schema => by
      cases value with
      | table nested => exact (Schema.contents_sorted schema).cons (.table schema.fields nested)
      | _ => exact .nil
  | .tableArray schema _ => by
      cases value with
      | tableArray tables =>
          have htable (path : List Nat) (table : FieldSet) : Behind path
              (⟨path, .table schema.fields table⟩ :: Schema.contents path table schema) :=
            (Schema.contents_sorted schema).cons (.table schema.fields table)
          exact (BehindFrom.tables htable path tables 0).cons (.tables tables.length)
      | _ => exact .nil

end

/-! ## Contents that take some bytes -/

mutual

theorem Schema.contents_pos {path : List Nat} {values : FieldSet} : (schema : Schema) →
    schema.solid = true → ∀ content ∈ Schema.contents path values schema, 0 < content.item.size
  | ⟨_, fields⟩, hsolid => fieldContents_pos fields hsolid

theorem fieldContents_pos {path : List Nat} {index : Nat} {values : FieldSet} :
    (fields : List FieldSpec) → solidFields fields = true →
      ∀ content ∈ fieldContents path index values fields, 0 < content.item.size
  | [], _ => nofun
  | ⟨name, kind⟩ :: rest, hsolid => by
      obtain ⟨hsolidKind, hsolidRest⟩ := Bool.and_eq_true_iff.mp hsolid
      rw [fieldContents]
      refine List.forall_mem_append.mpr ⟨?_, fieldContents_pos rest hsolidRest⟩
      cases values.get? name with
      | none => exact nofun
      | some value => exact Kind.contents_pos kind hsolidKind

theorem Kind.contents_pos {path : List Nat} {value : Value} : (kind : Kind) → kind.solid = true →
    ∀ content ∈ Kind.contents path value kind, 0 < content.item.size
  | .scalar _, _ => nofun
  | .array _, _ => nofun
  | .vector _, _ => by
      cases value with
      | vector bytes =>
          exact List.forall_mem_singleton.mpr (Nat.add_pos_left (Nat.zero_lt_succ 3) _)
      | _ => exact nofun
  | .table schema, hsolid => by
      obtain ⟨hsome, hsolid⟩ := Bool.and_eq_true_iff.mp hsolid
      cases value with
      | table nested =>
          exact List.forall_mem_cons.mpr
            ⟨of_decide_eq_true hsome, Schema.contents_pos schema hsolid⟩
      | _ => exact nofun
  | .tableArray schema _, hsolid => by
      obtain ⟨hsome, hsolid⟩ := Bool.and_eq_true_iff.mp hsolid
      cases value with
      | tableArray tables =>
          refine List.forall_mem_cons.mpr ⟨Nat.add_pos_left (Nat.zero_lt_succ 3) _, ?_⟩
          intro content hcontent
          obtain ⟨⟨table, index⟩, -, hcontent⟩ := List.mem_flatMap.mp hcontent
          rcases List.mem_cons.mp hcontent with rfl | hlater
          · exact of_decide_eq_true hsome
          · exact Schema.contents_pos schema hsolid content hlater
      | _ => exact nofun

end

/-! ## Positions -/

structure Placed extends Content where
  start : Nat

def Placed.stop (placed : Placed) : Nat := placed.start + placed.item.size

/-- A content at the first aligned position that is free. -/
def Content.after (position : Nat) (content : Content) : Placed :=
  ⟨content, position + padding position⟩

def place (position : Nat) : List Content → List Placed
  | [] => []
  | content :: rest => content.after position :: place (content.after position).stop rest

/-- The outermost table and its contents at their positions. -/
def placements (fields : List FieldSpec) (values : FieldSet) : List Placed :=
  place 0 (⟨[], .table fields values⟩ :: fieldContents [] 0 values fields)

theorem aligned (position : Nat) : (position + padding position) % alignment = 0 := by
  unfold padding alignment
  omega

theorem map_toContent_place (position : Nat) (contents : List Content) :
    (place position contents).map Placed.toContent = contents := by
  induction contents generalizing position with
  | nil => rfl
  | cons content rest ih =>
      rw [place, List.map_cons, ih]
      rfl

/-! ## References -/

/--
The slots through which a table refers to a content: the slot of one of its
fields, or a slot of an array of tables that a field refers to.
-/
inductive Refers (placed : List Placed) (owner : Placed) : (slot : Nat) → Placed → Prop where
  | field {fields : List FieldSpec} {values : FieldSet} {index : Nat} {field : FieldSpec}
      {content : Placed} (hitem : owner.item = .table fields values)
      (hfield : fields[index]? = some field) (hsize : field.kind.inlineSize = 4)
      (hpath : content.path = owner.path ++ [index]) :
      Refers placed owner (owner.start + inlineSize (fields.take index)) content
  | element {slot count index : Nat} {array content : Placed} (hmem : array ∈ placed)
      (harray : Refers placed owner slot array) (hitem : array.item = .tables count)
      (hindex : index < count) (hpath : content.path = array.path ++ [index]) :
      Refers placed owner (array.start + 4 + 4 * index) content

theorem Refers.mono {placed more : List Placed} {owner content : Placed} {slot : Nat}
    (h : Refers placed owner slot content) (hsubset : placed ⊆ more) :
    Refers more owner slot content := by
  induction h with
  | field hitem hfield hsize hpath => exact .field hitem hfield hsize hpath
  | element hmem _ hitem hindex hpath ih => exact .element (hsubset hmem) ih hitem hindex hpath

def Leads (buffer : Bytes) (slot base target : Nat) : Prop :=
  ∃ n < slotLimit, Holds buffer slot (slotBytes n) ∧ base + n = target

theorem Leads.of_distance {buffer : Bytes} {slot base target : Nat} (hle : base ≤ target)
    (hfits : target - base < slotLimit) (h : Holds buffer slot (slotBytes (target - base))) :
    Leads buffer slot base target :=
  ⟨target - base, hfits, h, Nat.add_sub_of_le hle⟩

structure Settled (buffer : Bytes) (placed : List Placed) (content : Placed) : Prop where
  held : content.item.Held buffer content.start
  reference : ∃ owner ∈ placed, ∃ slot, Refers placed owner slot content
    ∧ Leads buffer slot (content.item.base owner.start) content.start

inductive Laid (buffer : Bytes) : Nat → List Placed → Nat → Prop where
  | nil (position : Nat) : Laid buffer position [] position
  | cons {position stop : Nat} {content : Placed} {rest : List Placed}
      (hstart : content.start = position + padding position)
      (hzero : Holds buffer position (List.replicate (padding position) 0))
      (hrest : Laid buffer content.stop rest stop) : Laid buffer position (content :: rest) stop

/--
Contents fill a buffer between two positions, given that it has the tables
and arrays in `context`, whose slots lead to some of them.
-/
structure Filled (buffer : Bytes) (context : List Placed) (position : Nat)
    (contents : List Content) (stop : Nat) : Prop where
  laid : Laid buffer position (place position contents) stop
  settled : ∀ placed, context ⊆ placed → place position contents ⊆ placed →
    ∀ content ∈ place position contents, Settled buffer placed content

theorem Laid.append {buffer : Bytes} {position middle stop : Nat} {contents rest : List Placed}
    (h : Laid buffer position contents middle) (hrest : Laid buffer middle rest stop) :
    Laid buffer position (contents ++ rest) stop := by
  induction h with
  | nil => exact hrest
  | cons hstart hzero _ ih => exact .cons hstart hzero (ih hrest)

theorem Laid.place_append {buffer : Bytes} {position middle : Nat} {contents : List Content}
    (h : Laid buffer position (place position contents) middle) (rest : List Content) :
    place position (contents ++ rest) = place position contents ++ place middle rest := by
  induction contents generalizing position with
  | nil =>
      cases h
      rfl
  | cons content others ih =>
      cases h with
      | cons _ _ hrest => rw [List.cons_append, place, place, ih hrest, List.cons_append]

namespace Filled

variable {buffer : Bytes} {context : List Placed} {position middle stop : Nat}
  {contents rest : List Content}

theorem nil : Filled buffer context position [] position :=
  ⟨.nil position, fun _ _ _ => nofun⟩

theorem mono {more : List Placed} (h : Filled buffer context position contents stop)
    (hsubset : context ⊆ more) : Filled buffer more position contents stop :=
  ⟨h.laid, fun placed hmore => h.settled placed (List.Subset.trans hsubset hmore)⟩

theorem append (h : Filled buffer context position contents middle)
    (hrest : Filled buffer context middle rest stop) :
    Filled buffer context position (contents ++ rest) stop := by
  have hplace := h.laid.place_append rest
  refine ⟨hplace ▸ h.laid.append hrest.laid, fun placed hcontext hplaced content hcontent => ?_⟩
  rw [hplace] at hplaced hcontent
  obtain ⟨hplaced, hplacedRest⟩ := List.append_subset.mp hplaced
  rcases List.mem_append.mp hcontent with hhead | hlater
  · exact h.settled placed hcontext hplaced content hhead
  · exact hrest.settled placed hcontext hplacedRest content hlater

theorem cons {content : Content}
    (hzero : Holds buffer position (List.replicate (padding position) 0))
    (hheld : content.item.Held buffer (position + padding position))
    (hreference : ∃ owner ∈ context, ∃ slot, Refers context owner slot (content.after position)
      ∧ Leads buffer slot (content.item.base owner.start) (position + padding position))
    (hrest : Filled buffer (content.after position :: context)
      (position + padding position + content.item.size) rest stop) :
    Filled buffer context position (content :: rest) stop := by
  refine ⟨.cons rfl hzero hrest.laid, fun placed hcontext hplaced other hother => ?_⟩
  obtain ⟨hmem, hplaced⟩ := List.cons_subset.mp hplaced
  rcases List.mem_cons.mp hother with rfl | hlater
  · obtain ⟨owner, howner, slot, hrefers, hleads⟩ := hreference
    exact ⟨hheld, owner, hcontext howner, slot, hrefers.mono hcontext, hleads⟩
  · exact hrest.settled placed (List.cons_subset.mpr ⟨hmem, hcontext⟩) hplaced other hlater

end Filled

/-! ## Written tables -/

theorem inlineSize_append (fields rest : List FieldSpec) :
    inlineSize (fields ++ rest) = inlineSize fields + inlineSize rest := by
  induction fields with
  | nil => exact (Nat.zero_add _).symm
  | cons field others ih => rw [List.cons_append, inlineSize, inlineSize, ih, Nat.add_assoc]

theorem Filled.tables {buffer : Bytes} {write : Nat → FieldSet → Except Error Bytes}
    {fields : List FieldSpec} {contents : List Nat → FieldSet → List Content}
    {context : List Placed} {owner : Placed} {count : Nat} (array : Placed)
    (hwrite : ∀ start table bytes path, write start table = .ok bytes → Holds buffer start bytes →
      (Item.table fields table).Held buffer start
        ∧ Filled buffer [⟨⟨path, .table fields table⟩, start⟩] (start + inlineSize fields)
          (contents path table) (start + bytes.length))
    (howner : owner ∈ context)
    (hrefers : ∀ index content, index < count → content.path = array.path ++ [index] →
      Refers context owner (array.start + 4 + 4 * index) content)
    {tables : List FieldSet} {index position : Nat} {tail : Tail}
    (h : writeTables write owner.start position tables = .ok tail)
    (hslots : Holds buffer (array.start + 4 + 4 * index) (tail.slots.flatMap slotBytes))
    (hcontent : Holds buffer position tail.bytes) (hposition : owner.start ≤ position)
    (hcount : index + tables.length = count) :
    Filled buffer context position
      ((tables.zipIdx index).flatMap fun (table, i) =>
        ⟨array.path ++ [i], .table fields table⟩ :: contents (array.path ++ [i]) table)
      (position + tail.bytes.length) := by
  induction tables generalizing index position tail with
  | nil =>
      cases h
      exact .nil
  | cons table rest ih =>
      obtain ⟨bytes, hbytes, hfits, later, hlater, rfl⟩ := writeTables_cons.mp h
      rw [List.length_cons] at hcount
      rw [List.flatMap_cons] at hslots
      rw [List.append_assoc] at hcontent
      have hplaced := hcontent.right
      rw [List.length_replicate] at hplaced
      obtain ⟨hheld, hfilled⟩ := hwrite _ _ _ (array.path ++ [index]) hbytes hplaced.left
      have hhead : Filled buffer context position
          (⟨array.path ++ [index], .table fields table⟩ :: contents (array.path ++ [index]) table)
          (position + padding position + bytes.length) := by
        have hleads := Leads.of_distance (Nat.le_add_right_of_le hposition) hfits hslots.left
        exact .cons hcontent.left hheld ⟨owner, howner, _, hrefers index _ (by omega) rfl, hleads⟩
          (hfilled.mono (List.cons_subset_cons _ (List.nil_subset _)))
      have hslots := hslots.right
      rw [length_slotBytes, Nat.add_assoc, ← Nat.mul_succ] at hslots
      have hrest := ih hlater hslots hplaced.right (by omega) (by omega)
      rw [List.zipIdx_cons, List.flatMap_cons]
      simp only [List.length_append, List.length_replicate, ← Nat.add_assoc]
      exact hhead.append hrest

mutual

/-- A table that a buffer holds as written has its contents where they are placed. -/
theorem Schema.filled_write {buffer : Bytes} {start : Nat} {values : FieldSet} {bytes : Bytes}
    (path : List Nat) : (schema : Schema) → Schema.write start values schema = .ok bytes →
      Holds buffer start bytes →
      (Item.table schema.fields values).Held buffer start
        ∧ Filled buffer [⟨⟨path, .table schema.fields values⟩, start⟩]
          (start + inlineSize schema.fields) (Schema.contents path values schema)
          (start + bytes.length)
  | ⟨_, fields⟩, h, hholds => by
      obtain ⟨cells, tail, hcells, htail, rfl⟩ := Schema.write_eq_ok.mp h
      have hlength := length_fillCells tail.slots hcells
      have hcontent := hholds.right
      rw [hlength] at hcontent
      refine ⟨⟨cells, tail.slots, hcells, hholds.left⟩, ?_⟩
      rw [List.length_append, hlength, ← Nat.add_assoc]
      exact fieldContents_filled_write ⟨⟨path, .table fields values⟩, start⟩ [] fields rfl hcells
        htail hholds.left hcontent (Nat.le_add_right _ _)

/--
The contents of fields are placed as written.  The fields before them take
the inline region up to what the buffer holds there of the others.
-/
theorem fieldContents_filled_write {buffer : Bytes} {position : Nat} {values : FieldSet}
    {cells : List Cell} {tail : Tail} (owner : Placed) (before : List FieldSpec) :
    (fields : List FieldSpec) → owner.item = .table (before ++ fields) values →
      inlineCells values fields = .ok cells →
      writeTails owner.start position values fields = .ok tail →
      Holds buffer (owner.start + inlineSize before) (fillCells cells tail.slots) →
      Holds buffer position tail.bytes → owner.start ≤ position →
      Filled buffer [owner] position (fieldContents owner.path before.length values fields)
        (position + tail.bytes.length)
  | [], _, _, htail, _, _, _ => by
      cases htail
      exact .nil
  | ⟨name, kind⟩ :: rest, howner, hcells, htail, hinline, hcontent, hposition => by
      obtain ⟨value, hvalue, cell, hcell, cellsRest, hcellsRest, rfl⟩ := inlineCells_cons.mp hcells
      obtain ⟨_, hsame, head, hhead, tailRest, htailRest, rfl⟩ := writeTails_cons.mp htail
      cases hvalue.symm.trans hsame
      obtain ⟨hfill, hsize⟩ := fillCells_cons hcell hhead cellsRest tailRest.slots
      rw [hfill] at hinline
      have hlater := hinline.right
      rw [hsize, Nat.add_assoc] at hlater
      have hrefers (hfour : kind.inlineSize = 4) (content : Placed)
          (hpath : content.path = owner.path ++ [before.length]) :
          Refers [owner] owner (owner.start + inlineSize before) content := by
        have hfield : (before ++ ⟨name, kind⟩ :: rest)[before.length]? = some ⟨name, kind⟩ := by
          rw [List.getElem?_append_right (Nat.le_refl _), Nat.sub_self, List.getElem?_cons_zero]
        have htake : (before ++ ⟨name, kind⟩ :: rest).take before.length = before := List.take_left
        rw [← htake]
        exact .field howner hfield hfour hpath
      have hfirst := Kind.filled_write kind hcell hhead hrefers hinline.left hcontent.left hposition
      have hbefore : inlineSize (before ++ [⟨name, kind⟩])
          = inlineSize before + kind.inlineSize := by
        rw [inlineSize_append]
        rfl
      have hothers := fieldContents_filled_write owner (before ++ [⟨name, kind⟩]) rest
        (by rw [howner, List.append_assoc]; rfl) hcellsRest htailRest (hbefore ▸ hlater)
        hcontent.right (Nat.le_add_right_of_le hposition)
      have hall := hfirst.append hothers
      rw [List.length_append, List.length_singleton, Nat.add_assoc, ← List.length_append] at hall
      rw [fieldContents, hvalue]
      exact hall

theorem Kind.filled_write {buffer : Bytes} {owner : Placed} {path : List Nat}
    {cursor position : Nat} {field : String} {value : Value} {cell : Cell} {tail : Tail} :
    (kind : Kind) → inlineCell field kind value = .ok cell →
      Kind.writeTail owner.start position field value kind = .ok tail →
      (kind.inlineSize = 4 →
        ∀ content, content.path = path → Refers [owner] owner cursor content) →
      Holds buffer cursor (fillCells [cell] tail.slots) → Holds buffer position tail.bytes →
      owner.start ≤ position →
      Filled buffer [owner] position (Kind.contents path value kind) (position + tail.bytes.length)
  | .scalar _, _, htail, _, _, _, _ => by
      cases htail
      exact .nil
  | .array _, _, htail, _, _, _, _ => by
      cases htail
      exact .nil
  | .vector length, hcell, htail, hrefers, hinline, hcontent, hposition => by
      obtain ⟨bytes, rfl, -, hnear, rfl⟩ := Kind.writeTail_vector.mp htail
      cases hcell
      rw [List.append_assoc] at hcontent
      have hheld := hcontent.right
      rw [List.length_replicate] at hheld
      rw [fillCells, fillCells, List.append_nil] at hinline
      simp only [List.append_assoc, List.length_append, List.length_replicate, length_slotBytes]
      rw [← Nat.add_assoc]
      exact .cons hcontent.left hheld ⟨owner, List.mem_singleton_self _, cursor,
        hrefers rfl _ rfl, _, hnear, hinline, Nat.zero_add _⟩ .nil
  | .table schema, hcell, htail, hrefers, hinline, hcontent, hposition => by
      obtain ⟨nested, rfl, bytes, hwrite, hnear, rfl⟩ := Kind.writeTail_table.mp htail
      cases hcell
      have hplaced := hcontent.right
      rw [List.length_replicate] at hplaced
      rw [fillCells, fillCells, List.append_nil] at hinline
      obtain ⟨hheld, hfilled⟩ := Schema.filled_write path schema hwrite hplaced
      have hleads := Leads.of_distance (Nat.le_add_right_of_le hposition) hnear hinline
      rw [List.length_append, List.length_replicate, ← Nat.add_assoc]
      exact .cons hcontent.left hheld
        ⟨owner, List.mem_singleton_self _, cursor, hrefers rfl _ rfl, hleads⟩
        (hfilled.mono (List.cons_subset_cons _ (List.nil_subset _)))
  | .tableArray schema count, hcell, htail, hrefers, hinline, hcontent, hposition => by
      obtain ⟨tables, rfl, -, written, hwritten, hnear, rfl⟩ := Kind.writeTail_tableArray.mp htail
      cases hcell
      have hcount := length_slots_writeTables hwritten
      have hlength := length_flatMap_slotBytes written.slots
      rw [hcount] at hlength
      have hslots := hcontent.left.right
      have htables := hcontent.right
      simp only [List.append_assoc] at hcontent
      have hheld := hcontent.right
      rw [← List.append_assoc] at hheld
      simp only [List.length_append, List.length_replicate, length_slotBytes, hlength,
        ← Nat.add_assoc] at hslots htables hheld
      rw [fillCells, fillCells, List.append_nil] at hinline
      have hleads := Leads.of_distance (Nat.le_add_right_of_le hposition) hnear hinline
      simp only [List.length_append, List.length_replicate, length_slotBytes, hlength,
        ← Nat.add_assoc]
      -- The array stands before its tables, so the reference to it is there for theirs.
      refine .cons hcontent.left ⟨written.slots, hcount, hheld.left⟩
        ⟨owner, List.mem_singleton_self _, cursor, hrefers rfl _ rfl, hleads⟩ ?_
      show Filled buffer [Content.after position ⟨path, .tables tables.length⟩, owner]
        (position + padding position + (4 + 4 * tables.length)) _ _
      rw [← Nat.add_assoc]
      exact Filled.tables (Content.after position ⟨path, .tables tables.length⟩)
        (fun _ _ _ path => Schema.filled_write path schema)
        (List.mem_cons_of_mem _ (List.mem_singleton_self owner))
        (fun index content hindex hpath => .element List.mem_cons_self
          ((hrefers rfl _ rfl).mono (List.subset_cons_self _ [owner])) rfl hindex hpath)
        hwritten hslots htables (by omega) (Nat.zero_add _)

end

end LedgerTx.Layout
