import LedgerTx.Proofs.Layout.Table
import Mathlib.Data.List.ReduceOption

/-!
# Reserved slots

An offset table can be written in one pass over a growing buffer: a slot is
reserved as zero bytes while its table is written, and patched once the
position of its content is known.  The encoder below does so and keeps a
record of its edits.  It gives what `encode` gives, refusals included.  Its
edits patch waiting slots only, each of them once, so at any time the bytes
that are outside the waiting slots are final.
-/

namespace LedgerTx.Layout

/-! ## Edits -/

inductive Edit where
  | append (bytes : Bytes)
  | reserve
  | patch (slot n : Nat)

structure Buffer where
  bytes : Bytes
  waiting : List Nat

def Buffer.empty : Buffer := ⟨[], []⟩

/--
An edit of a buffer: bytes are appended, a slot of zero bytes is appended and
waits, or a slot that waits gets its number in place of the zero bytes.
-/
inductive EditStep : Buffer → Edit → Buffer → Prop where
  | append {bytes : Bytes} {waiting : List Nat} (more : Bytes) :
      EditStep ⟨bytes, waiting⟩ (.append more) ⟨bytes ++ more, waiting⟩
  | reserve {bytes : Bytes} {waiting : List Nat} :
      EditStep ⟨bytes, waiting⟩ .reserve ⟨bytes ++ slotBytes 0, waiting ++ [bytes.length]⟩
  | patch {front back : Bytes} {before after : List Nat} (n : Nat) :
      EditStep ⟨front ++ slotBytes 0 ++ back, before ++ front.length :: after⟩
        (.patch front.length n) ⟨front ++ slotBytes n ++ back, before ++ after⟩

inductive EditSteps : Buffer → List Edit → Buffer → Prop where
  | refl (buffer : Buffer) : EditSteps buffer [] buffer
  | head {buffer next last : Buffer} {edit : Edit} {edits : List Edit}
      (hstep : EditStep buffer edit next) (hsteps : EditSteps next edits last) :
      EditSteps buffer (edit :: edits) last

namespace EditSteps

variable {buffer next last : Buffer} {edit : Edit} {edits more : List Edit}

theorem one (h : EditStep buffer edit next) : EditSteps buffer [edit] next :=
  .head h (.refl next)

theorem append (h : EditSteps buffer edits next) (hmore : EditSteps next more last) :
    EditSteps buffer (edits ++ more) last := by
  induction h with
  | refl => exact hmore
  | head hstep _ ih => exact .head hstep (ih hmore)

theorem split (h : EditSteps buffer (edits ++ more) last) :
    ∃ middle, EditSteps buffer edits middle ∧ EditSteps middle more last := by
  induction edits generalizing buffer with
  | nil => exact ⟨buffer, .refl buffer, h⟩
  | cons edit rest ih =>
      cases h with
      | head hstep hsteps =>
          obtain ⟨middle, hfirst, hlast⟩ := ih hsteps
          exact ⟨middle, .head hstep hfirst, hlast⟩

end EditSteps

/-- A byte that is there and outside every slot that waits. -/
structure Buffer.Final (buffer : Buffer) (i : Nat) : Prop where
  inside : i < buffer.bytes.length
  outside : ∀ slot ∈ buffer.waiting, i < slot ∨ slot + 4 ≤ i

theorem length_append_slotBytes (bytes : Bytes) (n : Nat) :
    (bytes ++ slotBytes n).length = bytes.length + 4 := by
  rw [List.length_append, length_slotBytes]

theorem getElem?_of_slot_replaced (front back : Bytes) (n m : Nat) {i : Nat}
    (h : i < front.length ∨ front.length + 4 ≤ i) :
    (front ++ slotBytes n ++ back)[i]? = (front ++ slotBytes m ++ back)[i]? := by
  rcases h with hleft | hright
  · simp only [List.append_assoc]
    rw [List.getElem?_append_left hleft, List.getElem?_append_left hleft]
  · rw [← length_append_slotBytes front n] at hright
    rw [List.getElem?_append_right hright]
    rw [length_append_slotBytes, ← length_append_slotBytes front m] at hright
    rw [List.getElem?_append_right hright, length_append_slotBytes, length_append_slotBytes]

theorem EditStep.final {buffer next : Buffer} {edit : Edit} {i : Nat}
    (h : EditStep buffer edit next) (hfinal : buffer.Final i) :
    next.Final i ∧ next.bytes[i]? = buffer.bytes[i]? := by
  obtain ⟨hinside, houtside⟩ := hfinal
  cases h with
  | append more =>
      refine ⟨⟨?_, houtside⟩, List.getElem?_append_left hinside⟩
      rw [List.length_append]
      exact Nat.lt_add_right _ hinside
  | reserve =>
      refine ⟨⟨?_, ?_⟩, List.getElem?_append_left hinside⟩
      · rw [List.length_append]
        exact Nat.lt_add_right _ hinside
      · rw [List.forall_mem_append]
        exact ⟨houtside, List.forall_mem_singleton.mpr (.inl hinside)⟩
  | @patch front back before after n =>
      simp only [List.length_append, length_slotBytes] at hinside
      simp only [List.forall_mem_append, List.forall_mem_cons] at houtside
      obtain ⟨hbefore, hslot, hafter⟩ := houtside
      refine ⟨⟨?_, List.forall_mem_append.mpr ⟨hbefore, hafter⟩⟩, ?_⟩
      · simpa only [List.length_append, length_slotBytes] using hinside
      · exact getElem?_of_slot_replaced front back n 0 hslot

/-- Bytes that are final at some time are so ever after. -/
theorem EditSteps.final {buffer last : Buffer} {edits : List Edit} {i : Nat}
    (h : EditSteps buffer edits last) (hfinal : buffer.Final i) :
    last.bytes[i]? = buffer.bytes[i]? := by
  induction h with
  | refl => rfl
  | head hstep _ ih =>
      obtain ⟨hnext, heq⟩ := hstep.final hfinal
      exact (ih hnext).trans heq

/-! ## The encoder -/

/-- A buffer that is being written, with the edits that made it. -/
structure Encoder where
  bytes : Bytes
  edits : List Edit

namespace Encoder

def new : Encoder := ⟨[], []⟩

def append (encoder : Encoder) (more : Bytes) : Encoder :=
  ⟨encoder.bytes ++ more, encoder.edits ++ [.append more]⟩

def align (encoder : Encoder) : Encoder :=
  encoder.append (List.replicate (padding encoder.bytes.length) 0)

def reserve (encoder : Encoder) : Encoder :=
  ⟨encoder.bytes ++ slotBytes 0, encoder.edits ++ [.reserve]⟩

def reserveAll (encoder : Encoder) : Nat → Encoder × List Nat
  | 0 => (encoder, [])
  | count + 1 =>
      let rest := encoder.reserve.reserveAll count
      (rest.1, encoder.bytes.length :: rest.2)

def patch (encoder : Encoder) (slot number : Nat) : Except Error Encoder := do
  let n ← slotNumber number
  .ok ⟨encoder.bytes.take slot ++ slotBytes n ++ encoder.bytes.drop (slot + 4),
    encoder.edits ++ [.patch slot n]⟩

def writeCells (encoder : Encoder) : List Cell → Encoder × List (Option Nat)
  | [] => (encoder, [])
  | .ready bytes :: cells =>
      let rest := (encoder.append bytes).writeCells cells
      (rest.1, none :: rest.2)
  | .slot :: cells =>
      let rest := encoder.reserve.writeCells cells
      (rest.1, some encoder.bytes.length :: rest.2)

def writeElements (write : Encoder → FieldSet → Except Error Encoder) (origin : Nat)
    (encoder : Encoder) : List (Nat × FieldSet) → Except Error Encoder
  | [] => .ok encoder
  | (slot, table) :: rest => do
      let written ← write encoder.align table
      let patched ← written.patch slot (encoder.align.bytes.length - origin)
      writeElements write origin patched rest

end Encoder

mutual

def Schema.writeTo (encoder : Encoder) (values : FieldSet) : Schema → Except Error Encoder
  | ⟨_, fields⟩ => do
      let cells ← inlineCells values fields
      let inline := encoder.writeCells cells
      writePending encoder.bytes.length inline.1 values fields inline.2

def writePending (origin : Nat) (encoder : Encoder) (values : FieldSet) :
    List FieldSpec → List (Option Nat) → Except Error Encoder
  | ⟨name, kind⟩ :: rest, some slot :: slots => do
      let value ← values.get name
      let written ← Kind.writeTo origin encoder.align slot name value kind
      writePending origin written values rest slots
  | _ :: rest, none :: slots => writePending origin encoder values rest slots
  | _, _ => .ok encoder

def Kind.writeTo (origin : Nat) (encoder : Encoder) (slot : Nat) (field : String)
    (value : Value) : Kind → Except Error Encoder
  | .vector _ =>
      match value with
      | .vector bytes => do
          let length ← slotNumber bytes.length
          ((encoder.append (slotBytes length)).append bytes).patch slot encoder.bytes.length
      | _ => .error (.kind field)
  | .table schema =>
      match value with
      | .table nested => do
          let written ← Schema.writeTo encoder nested schema
          written.patch slot (encoder.bytes.length - origin)
      | _ => .error (.kind field)
  | .tableArray schema _ =>
      match value with
      | .tableArray tables => do
          let number ← slotNumber tables.length
          let reserved := (encoder.append (slotBytes number)).reserveAll tables.length
          let written ← Encoder.writeElements
            (fun encoder nested => Schema.writeTo encoder nested schema) origin reserved.1
            (reserved.2.zip tables)
          written.patch slot (encoder.bytes.length - origin)
      | _ => .error (.kind field)
  | .scalar _ | .array _ => .error (.kind field)

end

/-! ## Agreement -/

/-- Computations that are refused for the same cause, or give results that are related. -/
inductive Agree {α β : Type} (related : α → β → Prop) : Except Error α → Except Error β → Prop where
  | ok {a : α} {b : β} (h : related a b) : Agree related (.ok a) (.ok b)
  | error (e : Error) : Agree related (.error e) (.error e)

namespace Agree

variable {α β γ δ : Type} {related : α → β → Prop} {related' : γ → δ → Prop}

theorem self (x : Except Error α) : Agree (fun a b => x = .ok a ∧ a = b) x x := by
  cases x with
  | error e => exact .error e
  | ok a => exact .ok ⟨rfl, rfl⟩

theorem bind {x : Except Error α} {y : Except Error β} {f : α → Except Error γ}
    {g : β → Except Error δ} (h : Agree related x y)
    (hstep : ∀ a b, related a b → Agree related' (f a) (g b)) :
    Agree related' (x >>= f) (y >>= g) := by
  cases h with
  | ok h => exact hstep _ _ h
  | error e => exact .error e

theorem bind_self {x : Except Error α} {f : α → Except Error γ} {g : α → Except Error δ}
    (hstep : ∀ a, x = .ok a → Agree related' (f a) (g a)) :
    Agree related' (x >>= f) (x >>= g) := by
  refine bind (self x) fun a b hab => ?_
  obtain ⟨hx, rfl⟩ := hab
  exact hstep a hx

theorem mono {other : α → β → Prop} {x : Except Error α} {y : Except Error β}
    (h : Agree related x y) (himp : ∀ a b, related a b → other a b) : Agree other x y := by
  cases h with
  | ok h => exact .ok (himp _ _ h)
  | error e => exact .error e

theorem exists_ok {x : Except Error α} {y : Except Error β} {a : α} (h : Agree related x y)
    (hx : x = .ok a) : ∃ b, y = .ok b ∧ related a b := by
  cases h with
  | ok h =>
      cases hx
      exact ⟨_, rfl, h⟩
  | error e => cases hx

theorem bind_ok {x : Except Error α} {y : Except Error β} {f : α → γ} {related' : γ → β → Prop}
    (h : Agree related x y) (hlast : ∀ a b, related a b → related' (f a) b) :
    Agree related' (x >>= fun a => .ok (f a)) y := by
  cases h with
  | ok h => exact .ok (hlast _ _ h)
  | error e => exact .error e

end Agree

/-- From one state of an encoder to another one by the edits that it adds to its record. -/
def Encoder.Reaches (encoder : Encoder) (waiting : List Nat) (next : Encoder)
    (waiting' : List Nat) : Prop :=
  ∃ edits, next.edits = encoder.edits ++ edits
    ∧ EditSteps ⟨encoder.bytes, waiting⟩ edits ⟨next.bytes, waiting'⟩

/-- An encoder that has appended some bytes, and left alone what waited before. -/
structure Encoder.Appended (encoder : Encoder) (more : Bytes) (next : Encoder) : Prop where
  bytes_eq : next.bytes = encoder.bytes ++ more
  reaches : ∀ waiting, encoder.Reaches waiting next waiting

namespace Encoder

namespace Reaches

variable {encoder next last : Encoder} {waiting waiting' waiting'' : List Nat}

theorem one {edit : Edit} (h : EditStep ⟨encoder.bytes, waiting⟩ edit ⟨next.bytes, waiting'⟩)
    (hedits : next.edits = encoder.edits ++ [edit]) : encoder.Reaches waiting next waiting' :=
  ⟨[edit], hedits, .one h⟩

theorem refl (encoder : Encoder) (waiting : List Nat) : encoder.Reaches waiting encoder waiting :=
  ⟨[], (List.append_nil _).symm, .refl _⟩

theorem trans (h : encoder.Reaches waiting next waiting')
    (hnext : next.Reaches waiting' last waiting'') :
    encoder.Reaches waiting last waiting'' := by
  obtain ⟨edits, hedits, hsteps⟩ := h
  obtain ⟨more, hmore, hlast⟩ := hnext
  exact ⟨edits ++ more, by rw [hmore, hedits, List.append_assoc], hsteps.append hlast⟩

end Reaches

namespace Appended

variable {encoder next last : Encoder} {more others : Bytes}

theorem trans (h : encoder.Appended more next) (hnext : next.Appended others last) :
    encoder.Appended (more ++ others) last :=
  ⟨by rw [hnext.bytes_eq, h.bytes_eq, List.append_assoc],
    fun waiting => (h.reaches waiting).trans (hnext.reaches waiting)⟩

end Appended

theorem appended_append (encoder : Encoder) (more : Bytes) :
    encoder.Appended more (encoder.append more) :=
  ⟨rfl, fun _ => .one (.append more) rfl⟩

theorem appended_align (encoder : Encoder) :
    encoder.Appended (List.replicate (padding encoder.bytes.length) 0) encoder.align :=
  encoder.appended_append _

theorem length_align (encoder : Encoder) :
    encoder.align.bytes.length = encoder.bytes.length + padding encoder.bytes.length := by
  rw [align, append, List.length_append, List.length_replicate]

theorem length_reserve (encoder : Encoder) :
    encoder.reserve.bytes.length = encoder.bytes.length + 4 :=
  length_append_slotBytes _ _

theorem reserve_reaches (encoder : Encoder) (waiting : List Nat) :
    encoder.Reaches waiting encoder.reserve (waiting ++ [encoder.bytes.length]) :=
  .one .reserve rfl

theorem reserveAll_spec (encoder : Encoder) (count : Nat) :
    (encoder.reserveAll count).1.bytes
        = encoder.bytes ++ (List.replicate count 0).flatMap slotBytes
      ∧ (encoder.reserveAll count).2 = List.range' encoder.bytes.length count 4
      ∧ ∀ waiting, encoder.Reaches waiting (encoder.reserveAll count).1
        (waiting ++ List.range' encoder.bytes.length count 4) := by
  induction count generalizing encoder with
  | zero =>
      refine ⟨(List.append_nil _).symm, rfl, fun waiting => ?_⟩
      rw [List.range'_zero, List.append_nil]
      exact .refl encoder waiting
  | succ count ih =>
      obtain ⟨hbytes, hslots, hreaches⟩ := ih encoder.reserve
      rw [length_reserve] at hslots hreaches
      refine ⟨?_, ?_, fun waiting => ?_⟩
      · rw [reserveAll, hbytes, reserve, List.replicate_succ, List.flatMap_cons, List.append_assoc]
      · rw [reserveAll, hslots, List.range'_succ]
      · have hall := (encoder.reserve_reaches waiting).trans (hreaches _)
        rwa [List.append_assoc, List.singleton_append, ← List.range'_succ] at hall

def cellSlots (position : Nat) : List Cell → List (Option Nat)
  | [] => []
  | .ready bytes :: cells => none :: cellSlots (position + bytes.length) cells
  | .slot :: cells => some position :: cellSlots (position + 4) cells

theorem writeCells_spec (encoder : Encoder) (cells : List Cell) :
    (encoder.writeCells cells).1.bytes = encoder.bytes ++ fillCells cells []
      ∧ (encoder.writeCells cells).2 = cellSlots encoder.bytes.length cells
      ∧ ∀ waiting, encoder.Reaches waiting (encoder.writeCells cells).1
        (waiting ++ (cellSlots encoder.bytes.length cells).reduceOption) := by
  induction cells generalizing encoder with
  | nil =>
      refine ⟨(List.append_nil _).symm, rfl, fun waiting => ?_⟩
      rw [cellSlots, List.reduceOption_nil, List.append_nil]
      exact .refl encoder waiting
  | cons cell rest ih =>
      cases cell with
      | ready bytes =>
          obtain ⟨hbytes, hslots, hreaches⟩ := ih (encoder.append bytes)
          have hlength : (encoder.append bytes).bytes.length
              = encoder.bytes.length + bytes.length := List.length_append
          rw [hlength] at hslots hreaches
          refine ⟨?_, ?_, fun waiting => ?_⟩
          · rw [writeCells, hbytes, append, fillCells, List.append_assoc]
          · rw [writeCells, hslots, cellSlots]
          · rw [cellSlots, List.reduceOption_cons_of_none]
            exact ((encoder.appended_append bytes).reaches waiting).trans (hreaches waiting)
      | slot =>
          obtain ⟨hbytes, hslots, hreaches⟩ := ih encoder.reserve
          rw [length_reserve] at hslots hreaches
          refine ⟨?_, ?_, fun waiting => ?_⟩
          · rw [writeCells, hbytes, reserve, fillCells, List.append_assoc]
          · rw [writeCells, hslots, cellSlots]
          · have hall := (encoder.reserve_reaches waiting).trans (hreaches _)
            rw [cellSlots, List.reduceOption_cons_of_some]
            rwa [List.append_assoc, List.singleton_append] at hall

theorem Appended.patch_agrees {encoder next : Encoder} {front back more : Bytes}
    (h : encoder.Appended more next) (hbytes : encoder.bytes = front ++ slotBytes 0 ++ back)
    (number : Nat) :
    Agree (fun n last => last.bytes = front ++ slotBytes n ++ back ++ more
        ∧ ∀ before after, encoder.Reaches (before ++ front.length :: after) last (before ++ after))
      (slotNumber number) (next.patch front.length number) := by
  have hnext : next.bytes = front ++ slotBytes 0 ++ (back ++ more) := by
    rw [h.bytes_eq, hbytes, List.append_assoc]
  unfold patch
  cases slotNumber number with
  | error e => exact .error e
  | ok n =>
      have hfront : next.bytes.take front.length = front := by
        rw [hnext, List.append_assoc, List.take_left]
      have hback : next.bytes.drop (front.length + 4) = back ++ more := by
        rw [hnext, List.drop_left' (length_append_slotBytes front 0)]
      rw [hfront, hback]
      refine .ok ⟨(List.append_assoc _ _ _).symm, fun before after => ?_⟩
      refine (h.reaches _).trans (.one ?_ rfl)
      rw [hnext]
      exact .patch n

theorem writeElements_agrees (write : Nat → FieldSet → Except Error Bytes)
    (writeTo : Encoder → FieldSet → Except Error Encoder) (origin : Nat)
    (hwrite : ∀ encoder table,
      Agree encoder.Appended (write encoder.bytes.length table) (writeTo encoder table))
    {encoder : Encoder} {front written : Bytes} {tables : List FieldSet}
    (hbytes : encoder.bytes
      = front ++ (List.replicate tables.length 0).flatMap slotBytes ++ written) :
    Agree (fun tail next =>
        next.bytes = front ++ tail.slots.flatMap slotBytes ++ written ++ tail.bytes
          ∧ ∀ waiting, encoder.Reaches (waiting ++ List.range' front.length tables.length 4) next
            waiting)
      (writeTables write origin encoder.bytes.length tables)
      (writeElements writeTo origin encoder
        ((List.range' front.length tables.length 4).zip tables)) := by
  induction tables generalizing encoder front written with
  | nil =>
      refine .ok ⟨hbytes.trans (List.append_nil _).symm, fun waiting => ?_⟩
      rw [List.length_nil, List.range'_zero, List.append_nil]
      exact .refl encoder waiting
  | cons table rest ih =>
      rw [List.length_cons, List.replicate_succ, List.flatMap_cons] at hbytes
      rw [List.length_cons, List.range'_succ, List.zip_cons_cons, writeTables, writeElements,
        ← length_align]
      refine .bind (hwrite encoder.align table) fun content next hnext => ?_
      have happended := encoder.appended_align.trans hnext
      rw [List.append_assoc front, List.append_assoc (slotBytes 0),
        ← List.append_assoc front] at hbytes
      refine .bind (happended.patch_agrees hbytes _) fun n patched h => ?_
      obtain ⟨hpatched, hpatch⟩ := h
      have hlength : encoder.align.bytes.length + content.length = patched.bytes.length := by
        rw [← List.length_append, ← hnext.bytes_eq, happended.bytes_eq, hpatched, hbytes]
        simp only [List.length_append, length_slotBytes]
      have hrest : patched.bytes = front ++ slotBytes n
          ++ (List.replicate rest.length 0).flatMap slotBytes
          ++ (written ++ (List.replicate (padding encoder.bytes.length) 0 ++ content)) := by
        rw [hpatched]
        simp only [List.append_assoc]
      rw [hlength, ← length_append_slotBytes front n]
      refine (ih hrest).bind_ok fun tail last h => ?_
      obtain ⟨hlast, hreaches⟩ := h
      refine ⟨?_, fun waiting => ?_⟩
      · rw [hlast, List.flatMap_cons]
        simp only [List.append_assoc]
      · exact (hpatch waiting _).trans (hreaches waiting)

end Encoder

mutual

theorem Schema.writeTo_agrees {values : FieldSet} : (schema : Schema) → (encoder : Encoder) →
    Agree encoder.Appended (Schema.write encoder.bytes.length values schema)
      (Schema.writeTo encoder values schema)
  | ⟨_, fields⟩, encoder => by
      rw [Schema.write, Schema.writeTo]
      refine .bind_self fun cells hcells => ?_
      obtain ⟨hbytes, hslots, hreaches⟩ := encoder.writeCells_spec cells
      have hlength : (encoder.writeCells cells).1.bytes.length
          = encoder.bytes.length + inlineSize fields := by
        rw [hbytes, List.length_append, length_fillCells [] hcells]
      have hpending := writePending_agrees encoder.bytes.length fields hcells
        (hbytes.trans (List.append_nil _).symm)
      rw [hlength] at hpending
      simp only [hslots]
      refine hpending.bind_ok fun tail last ⟨hlast, hsteps⟩ => ⟨?_, fun waiting => ?_⟩
      · rw [hlast, List.append_nil, List.append_assoc]
      · exact (hreaches waiting).trans (hsteps waiting)

/--
The contents of fields are written and their slots patched as `writeTails`
has it.  The slots of these fields are zero bytes that wait; before them are
the `front` of the buffer and after them the contents `written` so far.
-/
theorem writePending_agrees {values : FieldSet} {front written : Bytes} (origin : Nat) :
    (fields : List FieldSpec) → {encoder : Encoder} → {cells : List Cell} →
      inlineCells values fields = .ok cells →
      encoder.bytes = front ++ fillCells cells [] ++ written →
      Agree (fun tail next =>
          next.bytes = front ++ fillCells cells tail.slots ++ written ++ tail.bytes
            ∧ ∀ waiting, encoder.Reaches
              (waiting ++ (Encoder.cellSlots front.length cells).reduceOption) next waiting)
        (writeTails origin encoder.bytes.length values fields)
        (writePending origin encoder values fields (Encoder.cellSlots front.length cells))
  | [], encoder, cells, hcells, hbytes => by
      cases hcells
      refine .ok ⟨by rw [hbytes, List.append_nil], fun waiting => ?_⟩
      rw [Encoder.cellSlots, List.reduceOption_nil, List.append_nil]
      exact .refl encoder waiting
  | ⟨name, kind⟩ :: rest, encoder, cells, hcells, hbytes => by
      obtain ⟨value, hvalue, cell, hcell, cellsRest, hcellsRest, rfl⟩ := inlineCells_cons.mp hcells
      rw [writeTails]
      have hget := FieldSet.get_eq_ok.mpr hvalue
      cases cell with
      | ready bytes =>
          rw [Encoder.cellSlots, writePending, List.reduceOption_cons_of_none, hget]
          simp only [bind, Except.bind, writeTail_of_ready hcell]
          rw [fillCells, ← List.append_assoc] at hbytes
          have hrest := writePending_agrees origin rest hcellsRest hbytes
          rw [List.length_append] at hrest
          refine hrest.bind_ok fun tail last ⟨hlast, hreaches⟩ => ⟨?_, hreaches⟩
          rw [hlast, List.nil_append, fillCells, List.append_assoc front]
          rfl
      | slot =>
          rw [Encoder.cellSlots, writePending, List.reduceOption_cons_of_some, hget]
          refine .bind_self fun value' hvalue' => ?_
          cases hvalue'
          have hslot : encoder.bytes
              = front ++ slotBytes 0 ++ (fillCells cellsRest [] ++ written) := by
            rw [hbytes, fillCells]
            simp only [List.append_assoc]
          refine .bind (Kind.writeTo_agrees kind hcell hslot) fun head next hnext => ?_
          obtain ⟨⟨n, hslots, hnextBytes⟩, hpatch⟩ := hnext
          have hlength : encoder.bytes.length + head.bytes.length = next.bytes.length := by
            rw [hnextBytes, hslot]
            simp only [List.length_append, length_slotBytes]
          have hpatched : next.bytes
              = front ++ slotBytes n ++ fillCells cellsRest [] ++ (written ++ head.bytes) := by
            rw [hnextBytes]
            simp only [List.append_assoc]
          have hrest := writePending_agrees origin rest hcellsRest hpatched
          rw [length_append_slotBytes] at hrest
          rw [hlength]
          refine hrest.bind_ok fun tail last ⟨hlast, hreaches⟩ => ⟨?_, fun waiting => ?_⟩
          · rw [hlast, hslots, List.singleton_append, fillCells]
            simp only [List.append_assoc]
          · exact (hpatch waiting _).trans (hreaches waiting)

theorem Kind.writeTo_agrees {origin : Nat} {field : String} {value : Value} {encoder : Encoder}
    {front back : Bytes} : (kind : Kind) → inlineCell field kind value = .ok .slot →
      encoder.bytes = front ++ slotBytes 0 ++ back →
      Agree (fun tail next =>
          (∃ n, tail.slots = [n] ∧ next.bytes = front ++ slotBytes n ++ back ++ tail.bytes)
            ∧ ∀ before after,
              encoder.Reaches (before ++ front.length :: after) next (before ++ after))
        (Kind.writeTail origin encoder.bytes.length field value kind)
        (Kind.writeTo origin encoder.align front.length field value kind)
  | .scalar _, hcell, _ => by
      obtain ⟨n, -, -, h⟩ := inlineCell_scalar.mp hcell
      cases h
  | .array _, hcell, _ => by
      obtain ⟨bytes, -, -, h⟩ := inlineCell_array.mp hcell
      cases h
  | .vector _, hcell, hbytes => by
      cases value with
      | vector bytes =>
          rw [Kind.writeTail, Kind.writeTo, encoder.length_align]
          refine .bind_self fun length _ => ?_
          have happended := (encoder.appended_align.trans
            (encoder.align.appended_append (slotBytes length))).trans
            ((encoder.align.append (slotBytes length)).appended_append bytes)
          exact (happended.patch_agrees hbytes _).bind_ok
            fun n last ⟨hlast, hpatch⟩ => ⟨⟨n, rfl, hlast⟩, hpatch⟩
      | _ => cases hcell
  | .table schema, hcell, hbytes => by
      cases value with
      | table nested =>
          rw [Kind.writeTail, Kind.writeTo, ← encoder.length_align]
          refine .bind (Schema.writeTo_agrees schema encoder.align) fun content next hnext => ?_
          exact ((encoder.appended_align.trans hnext).patch_agrees hbytes _).bind_ok
            fun n last ⟨hlast, hpatch⟩ => ⟨⟨n, rfl, hlast⟩, hpatch⟩
      | _ => cases hcell
  | .tableArray schema _, hcell, hbytes => by
      cases value with
      | tableArray tables =>
          rw [Kind.writeTail, Kind.writeTo, ← encoder.length_align]
          refine .bind_self fun number _ => ?_
          have hcount := encoder.appended_align.trans
            (encoder.align.appended_append (slotBytes number))
          obtain ⟨hreserved, hslots, hreserve⟩ :=
            (encoder.align.append (slotBytes number)).reserveAll_spec tables.length
          have hlength : encoder.align.bytes.length + 4 + 4 * tables.length
              = ((encoder.align.append (slotBytes number)).reserveAll
                tables.length).1.bytes.length := by
            rw [hreserved, List.length_append, length_flatMap_slotBytes, List.length_replicate,
              Encoder.append, List.length_append, length_slotBytes]
          have helements := Encoder.writeElements_agrees
            (fun position nested => Schema.write position nested schema)
            (fun encoder nested => Schema.writeTo encoder nested schema) origin
            (fun encoder nested => Schema.writeTo_agrees schema encoder)
            (hreserved.trans (List.append_nil _).symm)
          simp only [hlength, hslots]
          refine .bind helements fun tail next ⟨hnext, hreaches⟩ => ?_
          have htables : (encoder.align.append (slotBytes number)).Appended
              (tail.slots.flatMap slotBytes ++ tail.bytes) next :=
            ⟨by rw [hnext, List.append_nil, List.append_assoc],
              fun waiting => (hreserve waiting).trans (hreaches waiting)⟩
          refine ((hcount.trans htables).patch_agrees hbytes _).bind_ok
            fun n last ⟨hlast, hpatch⟩ => ⟨⟨n, rfl, ?_⟩, hpatch⟩
          rw [hlast]
          simp only [List.append_assoc]
      | _ => cases hcell

end

/-! ## The buffer of an offset table -/

/-- Writes values as one table of the given fields to a new buffer. -/
def Encoder.encode (fields : List FieldSpec) (values : FieldSet) : Except Error Encoder :=
  Schema.writeTo .new values ⟨"", fields⟩

/-- The encoder gives what `encode` gives, by edits after which no slot waits. -/
theorem Encoder.encode_agrees (fields : List FieldSpec) (values : FieldSet) :
    Agree (fun buffer encoder => encoder.bytes = buffer
        ∧ EditSteps .empty encoder.edits ⟨buffer, []⟩)
      (Layout.encode fields values) (Encoder.encode fields values) := by
  refine (Schema.writeTo_agrees ⟨"", fields⟩ .new).mono fun buffer encoder hencoder => ?_
  have hbytes := hencoder.bytes_eq
  obtain ⟨edits, hedits, hsteps⟩ := hencoder.reaches []
  rw [new, List.nil_append] at hbytes hedits
  rw [hedits, ← hbytes]
  exact ⟨rfl, hsteps⟩

end LedgerTx.Layout
