import LedgerTx.Proofs.Bytes
import LedgerTx.Proofs.Layout.Position
import LedgerTx.Proofs.Transaction.Payload
import LedgerTx.Transaction.Signed

/-!
# Reading payloads by positions

The readers of payloads take ranges of them at fixed positions, up to the
extent of what they parsed, and as long as an embedded payload declares.
Here each of these ranges has to be inside the bytes.  All of them are,
whatever the bytes: a payload that passes the check of its kind is as long as
its header, its extent is between header and end, and an embedded payload is
no shorter than its own header and no longer than what remains.
-/

namespace LedgerTx

open Layout (FieldSet Schema)

def Stop.inPayload : Stop Layout.Error → Stop PayloadError
  | .outside => .outside
  | .refused cause => .refused (.layout cause)

namespace Positioned

theorem inPayload_refused {α : Type} (x : Except Layout.Error α) :
    (x.mapError .refused).mapError Stop.inPayload
      = (liftM x : Except PayloadError α).mapError .refused := by
  cases x <;> rfl

/-! ## One payload -/

def kindAt (position header : Nat) (bytes : Bytes) :
    Except (Stop PayloadError) TransactionKind := do
  if bytes.length < header then .error (.refused (.layout (.truncated header bytes.length)))
  else
    let code := LittleEndian.decode (← bytes.slice position (position + 2))
    match Coded.ofCode? code with
    | some kind => .ok kind
    | none => .error (.refused (.unknownKind code))

theorem kindAt_eq {position header : Nat} (hheader : position + 2 ≤ header) (bytes : Bytes) :
    kindAt position header bytes = (Payload.kindAt position header bytes).mapError .refused := by
  unfold kindAt Payload.kindAt
  split
  · rfl
  · rename_i hlong
    rw [Bytes.slice_eq (Nat.le_add_right _ _) (by omega), List.drop_take, Nat.add_sub_cancel_left]
    simp only [bind, Except.bind]
    cases (Coded.ofCode? (LittleEndian.decode ((bytes.drop position).take 2))
      : Option TransactionKind) <;> rfl

def declaredSize (bytes : Bytes) : Except (Stop PayloadError) Nat := do
  .ok (LittleEndian.decode (← bytes.slice 0 4))

theorem declaredSize_eq {bytes : Bytes} (h : 4 ≤ bytes.length) :
    declaredSize bytes = .ok (Payload.declaredSize bytes) := by
  rw [declaredSize, Bytes.slice_eq (Nat.zero_le _) h]
  rfl

def checkSize (bytes : Bytes) : Except (Stop PayloadError) Unit := do
  let declared ← declaredSize bytes
  if declared = bytes.length then .ok () else .error (.refused (.size declared bytes.length))

theorem checkSize_eq {bytes : Bytes} (h : 4 ≤ bytes.length) :
    checkSize bytes = (Payload.checkSize bytes).mapError .refused := by
  rw [checkSize, declaredSize_eq h, Payload.checkSize]
  simp only [bind, Except.bind]
  split <;> rfl

def parse (schemas : List Schema) (bytes : Bytes) : Except (Stop PayloadError) Layout.Decoded :=
  (Layout.Positioned.parse bytes (Schema.join schemas)).mapError Stop.inPayload

theorem parse_eq (schemas : List Schema) (bytes : Bytes) :
    parse schemas bytes = (liftM (Layout.parse (Schema.join schemas) bytes)
      : Except PayloadError Layout.Decoded).mapError .refused := by
  rw [parse, Layout.Positioned.parse_eq, inPayload_refused]

def readEmbedded (bytes : Bytes) : Except (Stop PayloadError) Embedded := do
  let kind ← kindAt Payload.embeddedKindPosition Payload.embeddedHeaderSize bytes
  match kind.reader with
  | .aggregate _ => .error (.refused (.content "type" .nestedAggregate))
  | .operation readBody => do
      checkSize bytes
      let decoded ← parse [embeddedHeader, kind.schema] bytes
      if decoded.extent ≠ bytes.length then
        .error (.refused (.trailing (← Stop.distance decoded.extent bytes.length)))
      else do
        let (network, version) ← Payload.networkVersion decoded.fields
        let operation ← readBody decoded.fields
        .ok ⟨network, version, .operation operation⟩

theorem readEmbedded_eq (bytes : Bytes) :
    readEmbedded bytes = (Embedded.read bytes).mapError .refused := by
  refine Stop.bind_eq (kindAt_eq (by decide) bytes) fun kind hkind => ?_
  have hlong : 4 ≤ bytes.length := Nat.le_trans (by decide) (Payload.le_length_of_kindAt hkind)
  dsimp only
  cases kind.reader with
  | aggregate bonded => rfl
  | operation readBody =>
      refine Stop.bind_eq (checkSize_eq hlong) fun _ _ =>
        Stop.bind_eq (parse_eq _ bytes) fun decoded hparse => ?_
      have hextent := Layout.extent_le_of_parse (lift_eq_ok.mp hparse)
      split
      · rw [Stop.distance_eq hextent]
        rfl
      · exact Stop.bind_eq rfl fun _ _ => Stop.bind_eq rfl fun _ _ => rfl

/-! ## Embedded payloads one after the other -/

def firstSize (bytes : Bytes) : Except (Stop PayloadError) Nat :=
  if bytes.length < Payload.embeddedHeaderSize then
    .error (.refused (.layout (.truncated Payload.embeddedHeaderSize bytes.length)))
  else do
    let size ← declaredSize bytes
    if size < Payload.embeddedHeaderSize then
      .error (.refused (.content "transactions" (.innerSize size)))
    else if bytes.length < size then .error (.refused (.layout (.truncated size bytes.length)))
    else .ok size

theorem firstSize_eq (bytes : Bytes) :
    firstSize bytes = (Embedded.firstSize bytes).mapError .refused := by
  unfold firstSize Embedded.firstSize
  split
  · rfl
  · rename_i hheader
    rw [declaredSize_eq (Nat.le_trans (by decide) (Nat.le_of_not_lt hheader))]
    dsimp only [bind, Except.bind]
    split
    · rfl
    · split <;> rfl

/--
One turn of the loop over embedded payloads: what is read at a position, and
the position after it.  At the end there is nothing.
-/
def nextInner (bytes : Bytes) (position : Nat) :
    Except (Stop PayloadError) (Option (Embedded × Nat)) :=
  if position < bytes.length then do
    let rest ← bytes.slice position bytes.length
    let size ← firstSize rest
    let embedded ← readEmbedded (← rest.slice 0 size)
    .ok (some (embedded, position + size))
  else .ok none

theorem nextInner_of_lt {bytes : Bytes} {position : Nat} (h : position < bytes.length) :
    nextInner bytes position = firstSize (bytes.drop position) >>= fun size =>
      Bytes.slice (bytes.drop position) 0 size >>= fun piece => readEmbedded piece >>= fun embedded =>
        .ok (some (embedded, position + size)) := by
  rw [nextInner, if_pos h, Bytes.slice_eq (Nat.le_of_lt h) (Nat.le_refl _), List.take_length]
  rfl

/-- A turn of the loop goes forward by a header at least, and stays inside. -/
theorem nextInner_advances {bytes : Bytes} {position next : Nat} {embedded : Embedded}
    (h : nextInner bytes position = .ok (some (embedded, next))) :
    position + Payload.embeddedHeaderSize ≤ next ∧ next ≤ bytes.length := by
  rcases Nat.lt_or_ge position bytes.length with hinside | hend
  · rw [nextInner_of_lt hinside] at h
    obtain ⟨size, hsize, h⟩ := bind_eq_ok.mp h
    obtain ⟨_, -, h⟩ := bind_eq_ok.mp h
    obtain ⟨_, -, h⟩ := bind_eq_ok.mp h
    cases h
    rw [firstSize_eq] at hsize
    obtain ⟨hlong, hfits⟩ := Embedded.bounds_of_firstSize (mapError_eq_ok.mp hsize)
    rw [List.length_drop] at hfits
    omega
  · rw [nextInner, if_neg (Nat.not_lt.mpr hend)] at h
    cases h

def readInner (bytes : Bytes) (position : Nat) : Except (Stop PayloadError) (List Embedded) :=
  match _turn : nextInner bytes position with
  | .error e => .error e
  | .ok none => .ok []
  | .ok (some (first, next)) =>
      match readInner bytes next with
      | .error e => .error e
      | .ok rest => .ok (first :: rest)
termination_by bytes.length - position
decreasing_by
  have hforward := nextInner_advances _turn
  simp only [Payload.embeddedHeaderSize] at hforward
  omega

theorem readInner_turn (bytes : Bytes) (position : Nat) :
    readInner bytes position = nextInner bytes position >>= fun turn =>
      match turn with
      | none => .ok []
      | some (first, next) => readInner bytes next >>= fun rest => .ok (first :: rest) := by
  rw [readInner]
  split
  · rename_i hturn
    rw [hturn]
    rfl
  · rename_i hturn
    rw [hturn]
    rfl
  · rename_i first next hturn
    rw [hturn]
    dsimp only [bind, Except.bind]
    cases readInner bytes next <;> rfl

theorem readInner_eq {bytes : Bytes} {position : Nat} (h : position ≤ bytes.length) :
    readInner bytes position
      = (Embedded.readAll (bytes.drop position)).mapError .refused := by
  -- Each turn leaves fewer bytes.
  induction hleft : bytes.length - position using Nat.strongRecOn generalizing position with
  | ind left ih =>
      subst hleft
      have hrest : (bytes.drop position).length = bytes.length - position := List.length_drop
      rcases Nat.eq_or_lt_of_le h with hend | hinside
      · rw [readInner_turn, nextInner, if_neg (by omega),
          List.drop_eq_nil_of_le (Nat.le_of_eq hend.symm), Embedded.readAll_nil]
        rfl
      · have hsome : bytes.drop position ≠ [] := by
          rw [← List.length_pos_iff]
          omega
        rw [readInner_turn, nextInner_of_lt hinside, Embedded.readAll_turn hsome, bind_assoc]
        refine Stop.bind_eq (firstSize_eq _) fun size hsize => ?_
        obtain ⟨hlong, hfits⟩ := Embedded.bounds_of_firstSize hsize
        rw [Payload.embeddedHeaderSize] at hlong
        rw [Bytes.slice_eq (Nat.zero_le _) hfits, List.drop_zero, List.drop_drop]
        refine (bind_assoc (readEmbedded _) _ _).trans
          (Stop.bind_eq (readEmbedded_eq _) fun first _ => ?_)
        exact Stop.bind_eq (ih _ (by omega) (by omega) rfl) fun rest _ => rfl

/-! ## Cosignatures -/

def block (size : Nat) (bytes : Bytes) : Except (Stop PayloadError) (Block size) :=
  match Block.ofBytes? bytes with
  | some block => .ok block
  | none => .error .outside

theorem block_eq {size : Nat} {bytes : Bytes} (h : bytes.length = size) :
    block size bytes = .ok ⟨bytes, h⟩ := by
  rw [block, Block.ofBytes?, dif_pos h]

def cosignatureOf (bytes : Bytes) : Except (Stop PayloadError) Cosignature := do
  let signer ← block 32 (← bytes.slice 0 32)
  let signature ← block 64 (← bytes.slice 32 bytes.length)
  .ok ⟨← Content.key "cosignatures" signer, ⟨signature⟩⟩

theorem cosignatureOf_eq {bytes : Bytes} (h : bytes.length = Payload.cosignatureSize) :
    cosignatureOf bytes = (Payload.cosignatureOf bytes).mapError .refused := by
  rw [Payload.cosignatureSize] at h
  have hsigner : (bytes.take 32).length = 32 := by
    rw [List.length_take]
    omega
  have hsignature : (bytes.drop 32).length = 64 := by
    rw [List.length_drop]
    omega
  unfold cosignatureOf Payload.cosignatureOf
  rw [Bytes.slice_eq (Nat.zero_le _) (by omega), Bytes.slice_eq (by omega) (Nat.le_refl _),
    List.take_length, Block.ofBytes?, dif_pos hsigner, Block.ofBytes?, dif_pos hsignature]
  simp only [bind, Except.bind, List.drop_zero, block_eq hsigner, block_eq hsignature]
  cases Content.key "cosignatures" ⟨bytes.take 32, hsigner⟩ <;> rfl

def cosignatures (bytes : Bytes) : Except (Stop PayloadError) (List Cosignature) :=
  if bytes.length % Payload.cosignatureSize = 0 then
    (Bytes.chunks Payload.cosignatureSize bytes).mapM cosignatureOf
  else .error (.refused (.trailing (bytes.length % Payload.cosignatureSize)))

theorem cosignatures_eq (bytes : Bytes) :
    cosignatures bytes = (Payload.cosignatures bytes).mapError .refused := by
  unfold cosignatures Payload.cosignatures
  split
  · rename_i hwhole
    exact Stop.mapM_eq fun piece hpiece => cosignatureOf_eq (Bytes.length_of_mem_chunks hwhole hpiece)
  · rfl

/-! ## Transactions -/

def readBody (kind : TransactionKind) (fields : FieldSet) (trailing : Bytes) :
    Except (Stop PayloadError) Body :=
  match kind.reader with
  | .operation read => do
      let operation ← read fields
      if trailing.isEmpty then .ok (.operation operation)
      else .error (.refused (.trailing trailing.length))
  | .aggregate bonded => do
      let joined ← (fields.vector "transactions" : Except PayloadError Bytes)
      let inner ← readInner joined 0
      .ok (.aggregate bonded inner (← cosignatures trailing))

def readTransaction (bytes : Bytes) : Except (Stop PayloadError) Transaction := do
  let kind ← kindAt Payload.kindPosition Payload.headerSize bytes
  checkSize bytes
  let decoded ← parse [transactionHeader, kind.schema] bytes
  let fields := decoded.fields
  let (network, version) ← Payload.networkVersion fields
  let trailing ← bytes.slice decoded.extent bytes.length
  let body ← readBody kind fields trailing
  let maxFee ← (fields.scalar "max_fee" : Except PayloadError UInt64)
  let deadline ← (fields.scalar "deadline" : Except PayloadError UInt64)
  let signature ← Payload.signatureInfo fields
  .ok ⟨network, version, maxFee, ⟨deadline⟩, signature, body⟩

theorem readBody_eq (kind : TransactionKind) (fields : FieldSet) (trailing : Bytes) :
    readBody kind fields trailing
      = (Transaction.readBody kind fields trailing).mapError .refused := by
  unfold readBody Transaction.readBody
  cases kind.reader with
  | operation read =>
      refine Stop.bind_eq rfl fun operation _ => ?_
      split <;> rfl
  | aggregate bonded =>
      exact Stop.bind_eq rfl fun joined _ => Stop.bind_eq (readInner_eq (Nat.zero_le _))
        fun inner _ => Stop.bind_eq (cosignatures_eq trailing) fun _ _ => rfl

theorem readTransaction_eq (bytes : Bytes) :
    readTransaction bytes = (Transaction.read bytes).mapError .refused := by
  refine Stop.bind_eq (kindAt_eq (by decide) bytes) fun kind hkind => ?_
  have hlong : 4 ≤ bytes.length := Nat.le_trans (by decide) (Payload.le_length_of_kindAt hkind)
  refine Stop.bind_eq (checkSize_eq hlong) fun _ _ => ?_
  refine Stop.bind_eq (parse_eq _ bytes) fun decoded hparse => ?_
  have hextent := Layout.extent_le_of_parse (lift_eq_ok.mp hparse)
  refine Stop.bind_eq rfl fun version _ => ?_
  rw [Bytes.slice_eq hextent (Nat.le_refl _), List.take_length]
  exact Stop.bind_eq (readBody_eq kind _ _) fun _ _ => Stop.bind_eq rfl fun _ _ =>
    Stop.bind_eq rfl fun _ _ => Stop.bind_eq rfl fun _ _ => rfl

/-! ## Hashes -/

def bodyEnd (bytes : Bytes) : Except (Stop PayloadError) Nat := do
  let kind ← kindAt Payload.kindPosition Payload.headerSize bytes
  let decoded ← parse [transactionHeader, kind.schema] bytes
  .ok decoded.extent

def signingHash (payload : Bytes) (generation : Option GenerationHash) :
    Except (Stop PayloadError) (Block 32) := do
  let stop ← bodyEnd payload
  let signed ← payload.slice Payload.signedPosition stop
  .ok (Hash.sha3_256 (Payload.salt generation ++ signed))

def transactionHash (payload : Bytes) (generation : Option GenerationHash) :
    Except (Stop PayloadError) TransactionHash := do
  let stop ← bodyEnd payload
  let signature ← payload.slice Payload.signaturePosition Payload.signedPosition
  let kind ← payload.slice Payload.kindPosition (Payload.kindPosition + 2)
  let body ← payload.slice Payload.headerSize stop
  .ok (Hash.sha3_256 (Payload.salt generation ++ signature ++ kind ++ body))

theorem bounds_of_bodyEnd {bytes : Bytes} {stop : Nat} (h : Payload.bodyEnd bytes = .ok stop) :
    Payload.headerSize ≤ stop ∧ stop ≤ bytes.length := by
  obtain ⟨kind, -, h⟩ := bind_eq_ok.mp h
  obtain ⟨decoded, hparse, h⟩ := bind_eq_ok.mp h
  cases h
  have hparse := lift_eq_ok.mp hparse
  refine ⟨?_, Layout.extent_le_of_parse hparse⟩
  obtain ⟨⟨-, hfits⟩, hextent, -⟩ := (isHeader_transaction.wellFormed kind).fits_of_parse hparse
  rw [hextent, isHeader_transaction.length_raw hfits]
  exact Nat.le_add_right _ _

theorem bodyEnd_eq (bytes : Bytes) :
    bodyEnd bytes = (Payload.bodyEnd bytes).mapError .refused :=
  Stop.bind_eq (kindAt_eq (by decide) bytes) fun _ _ => Stop.bind_eq (parse_eq _ bytes)
    fun _ _ => rfl

theorem signingHash_eq (payload : Bytes) (generation : Option GenerationHash) :
    signingHash payload generation
      = (Payload.signingHash payload generation).mapError .refused := by
  rw [Payload.signingHash, Payload.signingInput, bind_assoc]
  refine Stop.bind_eq (bodyEnd_eq payload) fun stop hstop => ?_
  obtain ⟨hheader, hinside⟩ := bounds_of_bodyEnd hstop
  rw [Bytes.slice_eq (Nat.le_trans (by decide) hheader) hinside]
  rfl

theorem transactionHash_eq (payload : Bytes) (generation : Option GenerationHash) :
    transactionHash payload generation
      = (Payload.transactionHash payload generation).mapError .refused := by
  rw [Payload.transactionHash, Payload.hashInput, bind_assoc]
  refine Stop.bind_eq (bodyEnd_eq payload) fun stop hstop => ?_
  obtain ⟨hheader, hinside⟩ := bounds_of_bodyEnd hstop
  have hlong := Nat.le_trans hheader hinside
  rw [Payload.headerSize] at hlong
  have hsigned : Payload.signedPosition ≤ payload.length := Nat.le_trans (by decide) hlong
  have hkind : Payload.kindPosition + 2 ≤ payload.length := Nat.le_trans (by decide) hlong
  have hcode : (payload.take (Payload.kindPosition + 2)).drop Payload.kindPosition
      = (payload.drop Payload.kindPosition).take 2 := by
    rw [List.drop_take, Nat.add_sub_cancel_left]
  rw [Bytes.slice_eq (by decide) hsigned, Bytes.slice_eq (Nat.le_add_right _ _) hkind,
    Bytes.slice_eq hheader hinside, hcode]
  rfl

end Positioned

/-! ## Every payload -/

theorem Embedded.operation_of_read {bytes : Bytes} {embedded : Embedded}
    (h : Embedded.read bytes = .ok embedded) :
    ∃ operation, embedded.body = .operation operation := by
  obtain ⟨_, _, _, operation, -, -, -, -, -, -, -, hbody⟩ := Embedded.read_eq_ok.mp h
  exact ⟨operation, hbody⟩

theorem Transaction.operation_of_read {bytes : Bytes} {tx : Transaction}
    (h : Transaction.read bytes = .ok tx) {bonded : Bool} {inner : List Embedded}
    {cosignatures : List Cosignature} (hbody : tx.body = .aggregate bonded inner cosignatures)
    {embedded : Embedded} (hmem : embedded ∈ inner) :
    ∃ operation, embedded.body = .operation operation := by
  obtain ⟨_, _, -, -, -, -, hread, -⟩ := Transaction.read_eq_ok.mp h
  rw [hbody] at hread
  rcases Transaction.readBody_eq_ok.mp hread with
    ⟨_, _, -, -, -, hother⟩ | ⟨_, joined, _, _, -, -, hinner, -, hsame⟩
  · cases hother
  · cases hsame
    obtain ⟨-, hpieces⟩ := Embedded.pieces_of_readAll hinner
    have hall : ∀ other ∈ inner, ∃ operation, other.body = .operation operation :=
      forall_of_forall₂ (fun _ _ hread => Embedded.operation_of_read hread) hpieces
    exact hall embedded hmem

/--
Whatever the bytes and the generation hash are, no reader of payloads steps
outside: reading by positions gives the transaction, the end of the body and
the hashes that reading gives, or refuses the payload with the same cause.
The end of a body is after the header and inside the payload, each turn of
the loop over embedded payloads goes forward by a header at least and stays
inside, and no aggregate that is read has an aggregate in it.
-/
theorem Payload.readers_stay_inside (bytes : Bytes) (generation : Option GenerationHash) :
    (Positioned.readTransaction bytes = (Transaction.read bytes).mapError .refused
      ∧ Positioned.readEmbedded bytes = (Embedded.read bytes).mapError .refused
      ∧ Positioned.bodyEnd bytes = (bodyEnd bytes).mapError .refused
      ∧ Positioned.signingHash bytes generation
        = (signingHash bytes generation).mapError .refused
      ∧ Positioned.transactionHash bytes generation
        = (transactionHash bytes generation).mapError .refused)
    ∧ (∀ stop, bodyEnd bytes = .ok stop → headerSize ≤ stop ∧ stop ≤ bytes.length)
    ∧ (∀ position embedded next,
      Positioned.nextInner bytes position = .ok (some (embedded, next)) →
        position + embeddedHeaderSize ≤ next ∧ next ≤ bytes.length)
    ∧ ∀ tx bonded inner cosignatures, Transaction.read bytes = .ok tx →
      tx.body = .aggregate bonded inner cosignatures →
        ∀ embedded ∈ inner, ∃ operation, embedded.body = .operation operation :=
  ⟨⟨Positioned.readTransaction_eq bytes, Positioned.readEmbedded_eq bytes,
      Positioned.bodyEnd_eq bytes, Positioned.signingHash_eq bytes generation,
      Positioned.transactionHash_eq bytes generation⟩,
    fun _ => Positioned.bounds_of_bodyEnd,
    fun _ _ _ => Positioned.nextInner_advances,
    fun _ _ _ _ h hbody _ => Transaction.operation_of_read h hbody⟩

theorem Payload.readers_stay_inside_cosignedAggregate :
    ∃ bytes stop piece embedded next,
      Positioned.readTransaction bytes = .ok Transaction.cosignedAggregate
      ∧ bodyEnd bytes = .ok stop ∧ headerSize ≤ stop ∧ stop ≤ bytes.length
      ∧ Positioned.nextInner piece 0 = .ok (some (embedded, next))
      ∧ embeddedHeaderSize ≤ next ∧ next ≤ piece.length
      ∧ ∃ operation, Embedded.levyRemoval.body = .operation operation := by
  have hend : Transaction.cosignedAggregate.write.toOption.any
      (fun bytes => (bodyEnd bytes).toOption.isSome) = true := by
    decide +kernel
  have hturn : Embedded.levyRemoval.write.toOption.any
      (fun piece => (Positioned.nextInner piece 0).toOption.any (·.isSome)) = true := by
    decide +kernel
  obtain ⟨bytes, hbytes, hend⟩ := Option.any_eq_true _ _ |>.mp hend
  obtain ⟨stop, hstop⟩ := Option.isSome_iff_exists.mp hend
  obtain ⟨piece, -, hturn⟩ := Option.any_eq_true _ _ |>.mp hturn
  obtain ⟨turn, hturn, hsome⟩ := Option.any_eq_true _ _ |>.mp hturn
  obtain ⟨⟨embedded, next⟩, rfl⟩ := Option.isSome_iff_exists.mp hsome
  have hread : Transaction.read bytes = .ok Transaction.cosignedAggregate :=
    Transaction.read_of_write Transaction.accepted_cosignedAggregate (eq_ok_of_toOption hbytes)
  obtain ⟨⟨hsame, -⟩, hbounds, -, hinner⟩ := readers_stay_inside bytes none
  obtain ⟨-, -, hforward, -⟩ := readers_stay_inside piece none
  obtain ⟨hheader, hinside⟩ := hbounds stop (eq_ok_of_toOption hstop)
  obtain ⟨hlong, hfits⟩ := hforward 0 embedded next (eq_ok_of_toOption hturn)
  rw [Nat.zero_add] at hlong
  refine ⟨bytes, stop, piece, embedded, next, ?_, eq_ok_of_toOption hstop, hheader, hinside,
    eq_ok_of_toOption hturn, hlong, hfits, ?_⟩
  · rw [hsame, hread]
    rfl
  · exact hinner _ _ _ _ hread rfl _ List.mem_cons_self

end LedgerTx
