import LedgerTx.Proofs.Layout.Parse

/-!
# Reading by positions

A reader that keeps a position in a buffer takes ranges of it, and these have
to be inside.  Here the flat form is read in this way, and what steps outside
stops apart from what is refused.  It never does: reading by positions gives
the values, the extent and the refusals that reading from the remaining bytes
gives.
-/

namespace LedgerTx

variable {ε α β : Type}

/-- Why reading by positions stops: outside the bytes, or with a refusal. -/
inductive Stop (ε : Type) where
  | outside
  | refused (cause : ε)
deriving DecidableEq

instance : MonadLift (Except ε) (Except (Stop ε)) where
  monadLift x := x.mapError .refused

def Bytes.slice (bytes : Bytes) (start stop : Nat) : Except (Stop ε) Bytes :=
  if start ≤ stop ∧ stop ≤ bytes.length then .ok ((bytes.take stop).drop start)
  else .error .outside

theorem Bytes.slice_eq {bytes : Bytes} {start stop : Nat} (h : start ≤ stop)
    (hstop : stop ≤ bytes.length) :
    (bytes.slice start stop : Except (Stop ε) Bytes) = .ok ((bytes.take stop).drop start) :=
  if_pos ⟨h, hstop⟩

def Stop.distance (start stop : Nat) : Except (Stop ε) Nat :=
  if start ≤ stop then .ok (stop - start) else .error .outside

theorem Stop.distance_eq {start stop : Nat} (h : start ≤ stop) :
    (distance start stop : Except (Stop ε) Nat) = .ok (stop - start) :=
  if_pos h

/--
Steps that stay inside and are refused as others are, one after the other.
What the first step gives is known in the second.
-/
theorem Stop.bind_eq {x : Except (Stop ε) α} {y : Except ε α} {f : α → Except (Stop ε) β}
    {g : α → Except ε β} (h : x = y.mapError .refused)
    (hnext : ∀ a, y = .ok a → f a = (g a).mapError .refused) :
    (x >>= f) = (y >>= g).mapError .refused := by
  subst h
  cases y with
  | error e => rfl
  | ok a => exact hnext a rfl

theorem Stop.mapM_eq {f : α → Except (Stop ε) β} {g : α → Except ε β} {list : List α}
    (h : ∀ a ∈ list, f a = (g a).mapError .refused) :
    list.mapM f = (list.mapM g).mapError .refused := by
  induction list with
  | nil => rfl
  | cons a list ih =>
      obtain ⟨hhead, hrest⟩ := List.forall_mem_cons.mp h
      rw [List.mapM_cons, List.mapM_cons]
      exact bind_eq hhead fun b _ => bind_eq (ih hrest) fun _ _ => rfl

namespace Layout

/-! ## Reading the flat form by positions -/

namespace Positioned

variable (buffer : Bytes)

def take (position count : Nat) : Except (Stop Error) (Bytes × Nat) :=
  if positionLimit ≤ position + count then .error (.refused .tooLarge)
  else if buffer.length < position + count then
    .error (.refused (.truncated (position + count) buffer.length))
  else do
    let bytes ← buffer.slice position (position + count)
    .ok (bytes, position + count)

def scalar (position : Nat) (width : Width) : Except (Stop Error) (Value × Nat) := do
  let (bytes, next) ← take buffer position width.bytes
  let _front ← Bytes.slice (List.replicate 8 0) 0 bytes.length
  .ok (.scalar (LittleEndian.decode bytes).toUInt64, next)

def parseMany (read : Nat → Except (Stop Error) (FieldSet × Nat)) :
    (count position : Nat) → Except (Stop Error) (List FieldSet × Nat)
  | 0, position => .ok ([], position)
  | count + 1, position => do
      let (table, next) ← read position
      let (tables, last) ← parseMany read count next
      .ok (table :: tables, last)

def parseToEnd (read : Nat → Except (Stop Error) (FieldSet × Nat)) (field : String)
    (position : Nat) : Except (Stop Error) (List FieldSet × Nat) :=
  if buffer.length < position then .error .outside
  else if buffer.length = position then .ok ([], position)
  else
    match read position with
    | .error e => .error e
    | .ok (table, next) =>
        if _later : position < next then
          match parseToEnd read field next with
          | .error e => .error e
          | .ok (tables, last) => .ok (table :: tables, last)
        else .error (.refused (.emptyElement field))
termination_by buffer.length - position

mutual

def parseTable (outer : Scope) (position : Nat) : Schema → Except (Stop Error) (FieldSet × Nat)
  | ⟨_, fields⟩ => parseFields outer [] position fields

def parseFields (outer : Scope) (values : FieldSet) (position : Nat) :
    List FieldSpec → Except (Stop Error) (FieldSet × Nat)
  | [] => .ok (values, position)
  | ⟨name, kind⟩ :: rest => do
      let (value, next) ← parseKind (values :: outer) name position kind
      parseFields outer (values.insert name value) next rest

def parseKind (scope : Scope) (field : String) (position : Nat) :
    Kind → Except (Stop Error) (Value × Nat)
  | .scalar width => scalar buffer position width
  | .array size => do
      let (bytes, next) ← take buffer position size
      .ok (.array bytes, next)
  | .vector length => do
      let count ← match length with
        | .named scalar bias => liftM (scope.length field scalar bias)
        | .rest => Stop.distance position buffer.length
      let (bytes, next) ← take buffer position count
      .ok (.vector bytes, next)
  | .table schema => do
      let (table, next) ← parseTable scope position schema
      .ok (.table table, next)
  | .tableArray schema count => do
      let (tables, next) ← match count with
        | .named scalar => do
            let number ← scope.lookup scalar
            parseMany (fun start => parseTable scope start schema) number.toNat position
        | .rest => parseToEnd buffer (fun start => parseTable scope start schema) field position
      .ok (.tableArray tables, next)

end

def parse (fields : List FieldSpec) : Except (Stop Error) Decoded := do
  let (values, position) ← parseTable buffer [] 0 ⟨"", fields⟩
  .ok ⟨values, position⟩

/-! ## Staying inside -/

variable {buffer}

/--
A reader by positions that stays inside the buffer, and otherwise does what
a reader of the remaining bytes does.
-/
def Tracks (buffer : Bytes) (read : Nat → Except (Stop Error) (α × Nat))
    (plain : Cursor → Except Error (α × Cursor)) : Prop :=
  ∀ position ≤ buffer.length,
    (∃ e, read position = .error (.refused e) ∧ plain ⟨position, buffer.drop position⟩ = .error e)
    ∨ ∃ value next, (position ≤ next ∧ next ≤ buffer.length) ∧ read position = .ok (value, next)
      ∧ plain ⟨position, buffer.drop position⟩ = .ok (value, ⟨next, buffer.drop next⟩)

namespace Tracks

variable {read : Nat → Except (Stop Error) (α × Nat)}
  {plain : Cursor → Except Error (α × Cursor)}

theorem done (value : α) :
    Tracks buffer (fun position => .ok (value, position)) fun cursor => .ok (value, cursor) :=
  fun position hinside => .inr ⟨value, position, ⟨Nat.le_refl _, hinside⟩, rfl, rfl⟩

theorem bind {next : α → Nat → Except (Stop Error) (β × Nat)}
    {plainNext : α → Cursor → Except Error (β × Cursor)} (h : Tracks buffer read plain)
    (hnext : ∀ a, Tracks buffer (next a) (plainNext a)) :
    Tracks buffer (fun position => read position >>= fun found => next found.1 found.2)
      fun cursor => plain cursor >>= fun found => plainNext found.1 found.2 := by
  intro position hinside
  rcases h position hinside with ⟨e, hread, hplain⟩ | ⟨a, middle, ⟨hle, hmiddle⟩, hread, hplain⟩
  · simp only [hread, hplain]
    exact .inl ⟨e, rfl, rfl⟩
  · simp only [hread, hplain]
    rcases hnext a middle hmiddle with
      hrefused | ⟨b, last, ⟨hle', hlast⟩, hread', hplain'⟩
    · exact .inl hrefused
    · exact .inr ⟨b, last, ⟨Nat.le_trans hle hle', hlast⟩, hread', hplain'⟩

theorem map (h : Tracks buffer read plain) (form : α → β) :
    Tracks buffer (fun position => read position >>= fun found => .ok (form found.1, found.2))
      fun cursor => plain cursor >>= fun found => .ok (form found.1, found.2) :=
  h.bind fun a => done (form a)

theorem after {γ : Type} (x : Except Error γ) {read : γ → Nat → Except (Stop Error) (α × Nat)}
    {plain : γ → Cursor → Except Error (α × Cursor)} (h : ∀ c, Tracks buffer (read c) (plain c)) :
    Tracks buffer (fun position => liftM x >>= fun c => read c position)
      fun cursor => x >>= fun c => plain c cursor := by
  cases x with
  | error e => exact fun _ _ => .inl ⟨e, rfl, rfl⟩
  | ok c => exact h c

theorem take (count : Nat) :
    Tracks buffer (fun position => Positioned.take buffer position count)
      fun cursor => cursor.take count := by
  intro position hinside
  have hrest : (buffer.drop position).length = buffer.length - position := List.length_drop
  unfold Positioned.take Cursor.take
  dsimp only
  split
  · exact .inl ⟨_, rfl, rfl⟩
  · split
    · rename_i hshort
      refine .inl ⟨_, rfl, ?_⟩
      rw [if_pos (by omega), hrest, Nat.add_sub_cancel' hinside]
    · rename_i hlong
      rw [if_neg (by omega), Bytes.slice_eq (Nat.le_add_right _ _) (by omega), List.drop_take,
        Nat.add_sub_cancel_left, List.drop_drop]
      exact .inr ⟨_, _, ⟨Nat.le_add_right _ _, Nat.le_of_not_lt hlong⟩, rfl, rfl⟩

theorem scalar (width : Width) :
    Tracks buffer (fun position => Positioned.scalar buffer position width)
      fun cursor => cursor.take width.bytes >>= fun found =>
        .ok (Value.scalar (LittleEndian.decode found.1).toUInt64, found.2) := by
  intro position hinside
  rcases take width.bytes position hinside with
    ⟨e, hread, hplain⟩ | ⟨bytes, next, hle, hread, hplain⟩
  · dsimp only [Positioned.scalar] at hread hplain ⊢
    rw [hread, hplain]
    exact .inl ⟨e, rfl, rfl⟩
  · have hwidth := (Cursor.Passes.of_take hplain).2
    have hfront : bytes.length ≤ (List.replicate 8 (0 : UInt8)).length := by
      rw [hwidth, List.length_replicate]
      exact width.bytes_le
    dsimp only [Positioned.scalar] at hread hplain ⊢
    rw [hread, hplain]
    simp only [Bind.bind, Except.bind, Bytes.slice_eq (Nat.zero_le _) hfront]
    exact .inr ⟨_, next, hle, rfl, rfl⟩

theorem afterRest {read : Nat → Nat → Except (Stop Error) (α × Nat)}
    {plain : Nat → Cursor → Except Error (α × Cursor)}
    (h : ∀ count, Tracks buffer (read count) (plain count)) :
    Tracks buffer (fun position => Stop.distance position buffer.length >>= fun count =>
        read count position)
      fun cursor => plain cursor.rest.length cursor := by
  intro position hinside
  dsimp only
  rw [Stop.distance_eq hinside, List.length_drop]
  exact h (buffer.length - position) position hinside

theorem parseMany {read : Nat → Except (Stop Error) (FieldSet × Nat)}
    {plain : Cursor → Except Error (FieldSet × Cursor)} (h : Tracks buffer read plain)
    (count : Nat) :
    Tracks buffer (fun position => Positioned.parseMany read count position)
      fun cursor => Layout.parseMany plain count cursor := by
  induction count with
  | zero => exact done []
  | succ count ih => exact h.bind fun table => ih.map (table :: ·)

theorem parseToEnd {read : Nat → Except (Stop Error) (FieldSet × Nat)}
    {plain : Cursor → Except Error (FieldSet × Cursor)} (field : String)
    (h : Tracks buffer read plain) :
    Tracks buffer (fun position => Positioned.parseToEnd buffer read field position)
      fun cursor => Layout.parseToEnd plain field cursor := by
  intro position hinside
  -- Each table that is read leaves fewer bytes.
  induction hleft : buffer.length - position using Nat.strongRecOn generalizing position with
  | ind left ih =>
      subst hleft
      have hrest : (buffer.drop position).length = buffer.length - position := List.length_drop
      dsimp only
      rw [Positioned.parseToEnd, Layout.parseToEnd, if_neg (Nat.not_lt.mpr hinside)]
      by_cases hend : buffer.length = position
      · have hempty : (buffer.drop position).isEmpty = true := by
          rw [List.isEmpty_iff_length_eq_zero]
          omega
        rw [if_pos hend, if_pos hempty]
        exact .inr ⟨_, _, ⟨Nat.le_refl _, hinside⟩, rfl, rfl⟩
      · have hsome : ¬ (buffer.drop position).isEmpty = true := by
          rw [List.isEmpty_iff_length_eq_zero]
          omega
        rw [if_neg hend, if_neg hsome]
        rcases h position hinside with
          ⟨e, hread, hplain⟩ | ⟨table, next, ⟨hle, hnext⟩, hread, hplain⟩
        · rw [hread, hplain]
          exact .inl ⟨e, rfl, rfl⟩
        · rw [hread, hplain]
          have hrest' : (buffer.drop next).length = buffer.length - next := List.length_drop
          by_cases hlater : position < next
          · have hshorter : (buffer.drop next).length < (buffer.drop position).length := by omega
            dsimp only
            rw [dif_pos hlater, dif_pos hshorter]
            rcases ih _ (by omega) next hnext rfl with
              ⟨e, hread', hplain'⟩ | ⟨tables, last, ⟨hle', hlast⟩, hread', hplain'⟩
            · dsimp only at hread' hplain'
              rw [hread', hplain']
              exact .inl ⟨e, rfl, rfl⟩
            · dsimp only at hread' hplain'
              rw [hread', hplain']
              exact .inr ⟨_, last, ⟨Nat.le_trans hle hle', hlast⟩, rfl, rfl⟩
          · have hsame : ¬ (buffer.drop next).length < (buffer.drop position).length := by omega
            dsimp only
            rw [dif_neg hlater, dif_neg hsame]
            exact .inl ⟨_, rfl, rfl⟩

end Tracks

mutual

/-- A table is read by positions as it is read from the remaining bytes. -/
theorem tracks_parseTable {outer : Scope} :
    (schema : Schema) → Tracks buffer (fun position => parseTable buffer outer position schema)
      fun cursor => Schema.parse outer cursor schema
  | ⟨_, fields⟩ => tracks_parseFields fields

theorem tracks_parseFields {outer : Scope} {values : FieldSet} :
    (fields : List FieldSpec) →
      Tracks buffer (fun position => parseFields buffer outer values position fields)
        fun cursor => Layout.parseFields outer values cursor fields
  | [] => .done values
  | ⟨_, kind⟩ :: rest => (tracks_parseKind kind).bind fun _ => tracks_parseFields rest

theorem tracks_parseKind {scope : Scope} {field : String} :
    (kind : Kind) → Tracks buffer (fun position => parseKind buffer scope field position kind)
      fun cursor => Kind.parse scope field cursor kind
  | .scalar width => .scalar width
  | .array size => (Tracks.take size).map Value.array
  | .vector (.named scalar bias) =>
      .after (scope.length field scalar bias) fun count => (Tracks.take count).map Value.vector
  | .vector .rest => .afterRest fun count => (Tracks.take count).map Value.vector
  | .table schema => (tracks_parseTable schema).map Value.table
  | .tableArray schema (.named scalar) =>
      .after (scope.lookup scalar) fun number =>
        ((tracks_parseTable schema).parseMany number.toNat).map Value.tableArray
  | .tableArray schema .rest => ((tracks_parseTable schema).parseToEnd field).map Value.tableArray

end

theorem parse_eq (fields : List FieldSpec) :
    parse buffer fields = (Layout.parse fields buffer).mapError .refused := by
  rcases tracks_parseTable ⟨"", fields⟩ 0 (Nat.zero_le _) with
    ⟨e, hread, hplain⟩ | ⟨values, next, -, hread, hplain⟩
  · dsimp only at hread hplain
    rw [List.drop_zero] at hplain
    rw [parse, Layout.parse, hread, hplain]
    rfl
  · dsimp only at hread hplain
    rw [List.drop_zero] at hplain
    rw [parse, Layout.parse, hread, hplain]
    rfl

end Positioned

theorem extent_le_of_parse {fields : List FieldSpec} {buffer : Bytes} {decoded : Decoded}
    (h : parse fields buffer = .ok decoded) : decoded.extent ≤ buffer.length := by
  obtain ⟨⟨values, cursor⟩, hvalues, h⟩ := bind_eq_ok.mp h
  cases h
  rcases Positioned.tracks_parseTable ⟨"", fields⟩ 0 (Nat.zero_le buffer.length) with
    ⟨e, -, hplain⟩ | ⟨_, next, ⟨-, hnext⟩, -, hplain⟩
  · cases hplain.symm.trans hvalues
  · cases hplain.symm.trans hvalues
    exact hnext

end Layout

end LedgerTx
