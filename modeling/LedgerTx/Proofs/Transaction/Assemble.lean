import LedgerTx.Proofs.Transaction.Verify

/-!
# Assembled aggregates

Assembling appends cosignatures to the payload of a signed aggregate and
changes nothing else in it than the size in front.  The body ends where it
ended before, so both hashes stay.  What is read is the same transaction with
more cosigners, and it is valid as far as they are.
-/

namespace LedgerTx

open Layout (FieldSet FieldSpec Value Schema Same Fits fieldNames rawFields boundedFields)
open Layout.FieldSet

/-! ## Payloads that grow -/

namespace Payload

variable {payload more grown : Bytes} (hgrown : withSize (payload ++ more) = .ok grown)

include hgrown

theorem drop_grown {position : Nat} (hsize : 4 ≤ position) (hinside : position ≤ payload.length) :
    grown.drop position = payload.drop position ++ more := by
  have hfront : (LittleEndian.encode 4 (payload ++ more).length).drop position = [] :=
    List.drop_eq_nil_of_le (by rw [LittleEndian.length_encode]; exact hsize)
  rw [(withSize_eq_ok.mp hgrown).2, List.drop_append, hfront, List.nil_append,
    LittleEndian.length_encode, List.drop_drop, Nat.add_sub_cancel' hsize,
    List.drop_append_of_le_length hinside]

theorem slice_grown (start stop : Nat) (hsize : 4 ≤ start) (hle : start ≤ stop)
    (hinside : stop ≤ payload.length) :
    (grown.take stop).drop start = (payload.take stop).drop start := by
  rw [List.drop_take, List.drop_take, drop_grown hgrown hsize (Nat.le_trans hle hinside),
    List.take_append_of_le_length]
  rw [List.length_drop]
  omega

theorem length_grown (hlong : 4 ≤ payload.length) :
    grown.length = payload.length + more.length := by
  rw [Framed.length_withSize _ hgrown, List.length_append]
  rw [List.length_append]
  omega

theorem withSize_grown (hlong : 4 ≤ payload.length) (rest : Bytes) :
    withSize (grown ++ rest) = withSize (payload ++ (more ++ rest)) := by
  have hlength : (grown ++ rest).length = (payload ++ (more ++ rest)).length := by
    simp only [List.length_append, length_grown hgrown hlong, Nat.add_assoc]
  have hdrop : (grown ++ rest).drop 4 = (payload ++ (more ++ rest)).drop 4 := by
    rw [List.drop_append_of_le_length (by rw [length_grown hgrown hlong]; omega),
      drop_grown hgrown (Nat.le_refl 4) hlong, List.drop_append_of_le_length hlong,
      List.append_assoc]
  rw [withSize, withSize, hlength, hdrop]

end Payload

/-- A framed payload that grows is framed with the grown size and the new bytes at its end. -/
theorem Framed.grow {header : Schema} {kindPosition size : Nat} {kind : TransactionKind}
    {values : FieldSet} {post payload more grown : Bytes}
    (hheader : IsHeader header kindPosition size) (h : Framed header kind values post payload)
    (hgrown : Payload.withSize (payload ++ more) = .ok grown) :
    Framed header kind (("size", .number grown.length) :: values) (post ++ more) grown := by
  rw [h.bytes_eq, List.append_assoc] at hgrown
  exact of_raw hheader h.fits h.kind_eq hgrown

/-! ## Aggregates -/

theorem TransactionKind.schema_of_reader {kind : TransactionKind} {bonded : Bool}
    (h : kind.reader = .aggregate bonded) : kind.schema = aggregateSchema := by
  cases kind <;> cases h <;> rfl

theorem TransactionKind.bounded_of_reader {kind : TransactionKind} {bonded : Bool}
    (h : kind.reader = .aggregate bonded) :
    boundedFields (Schema.join [transactionHeader, kind.schema]) = true := by
  rw [schema_of_reader h]
  rfl

namespace Payload

theorem flatMap_cosignatureBytes_inj {list other : List Cosignature}
    (h : list.flatMap cosignatureBytes = other.flatMap cosignatureBytes) : list = other := by
  have hcut (list : List Cosignature) : Bytes.chunks cosignatureSize
      (list.flatMap cosignatureBytes) = list.map cosignatureBytes :=
    Bytes.chunks_flatMap (by decide) length_cosignatureBytes list
  have hrows : list.map cosignatureBytes = other.map cosignatureBytes := by
    rw [← hcut, h, hcut]
  refine List.map_injective_iff.mpr ?_ hrows
  rintro ⟨⟨signer⟩, ⟨signature⟩⟩ ⟨⟨signer'⟩, ⟨signature'⟩⟩ hbytes
  obtain ⟨hsigner, hsignature⟩ := List.append_inj hbytes
    (signer.length_bytes.trans signer'.length_bytes.symm)
  obtain rfl : signer = signer' := Block.ext hsigner
  obtain rfl : signature = signature' := Block.ext hsignature
  rfl

end Payload

def Body.cosigned (more : List Cosignature) : Body → Body
  | .operation op => .operation op
  | .aggregate bonded inner cosignatures => .aggregate bonded inner (cosignatures ++ more)

def Transaction.cosigned (tx : Transaction) (more : List Cosignature) : Transaction :=
  { tx with body := tx.body.cosigned more }

namespace Transaction

variable {tx : Transaction} {payload more grown : Bytes}

theorem kind_cosigned (tx : Transaction) (more : List Cosignature) :
    (tx.cosigned more).kind = tx.kind := by
  unfold kind cosigned Body.cosigned
  cases tx.body <;> rfl

theorem cosignatures_cosigned (haggregate : tx.kind.isAggregate = true) (more : List Cosignature) :
    (tx.cosigned more).body.cosignatures = tx.body.cosignatures ++ more := by
  obtain ⟨network, version, maxFee, deadline, signature, body⟩ := tx
  cases body with
  | operation operation =>
      rw [kind, Body.kind, operation.isAggregate_kind] at haggregate
      cases haggregate
  | aggregate bonded inner cosignatures => rfl

theorem aggregate_of_readBody {kind : TransactionKind} {fields : FieldSet} {trailing : Bytes}
    {body : Body} (haggregate : body.kind.isAggregate = true)
    (h : readBody kind fields trailing = .ok body) :
    ∃ bonded joined inner cosignatures, (kind.reader = .aggregate bonded ∧ kind = body.kind)
      ∧ fields.get? "transactions" = some (.vector joined)
      ∧ Embedded.readAll joined = .ok inner ∧ Payload.cosignatures trailing = .ok cosignatures
      ∧ body = .aggregate bonded inner cosignatures := by
  rcases readBody_eq_ok.mp h with ⟨read, operation, -, -, -, rfl⟩
    | ⟨bonded, joined, inner, cosignatures, hreader, hjoined, hinner, hcosignatures, rfl⟩
  · rw [Body.kind, operation.isAggregate_kind] at haggregate
    cases haggregate
  · have hkind : kind = (Body.aggregate bonded inner cosignatures).kind := by
      cases kind <;> cases hreader <;> rfl
    exact ⟨bonded, joined, inner, cosignatures, ⟨hreader, hkind⟩, hjoined, hinner,
      hcosignatures, rfl⟩

/--
The payload of an aggregate that grows is parsed to the same extent and to
the same values, but for the size.
-/
theorem parse_grown (hread : read payload = .ok tx) (haggregate : tx.kind.isAggregate = true)
    (hgrown : Payload.withSize (payload ++ more) = .ok grown) :
    ∃ decoded decoded', (Payload.kind payload = .ok tx.kind ∧ Payload.kind grown = .ok tx.kind
        ∧ Payload.checkSize grown = .ok ())
      ∧ Layout.parse (Schema.join [transactionHeader, tx.kind.schema]) payload = .ok decoded
      ∧ Layout.parse (Schema.join [transactionHeader, tx.kind.schema]) grown = .ok decoded'
      ∧ (decoded'.extent = decoded.extent ∧ Payload.headerSize ≤ decoded.extent
        ∧ decoded.extent ≤ payload.length)
      ∧ ∀ name ∈ fieldNames (Schema.join [transactionHeader, tx.kind.schema]), name ≠ "size" →
        decoded'.fields.get? name = decoded.fields.get? name := by
  obtain ⟨kind, decoded, hkind, hsize, hparse, -, hbody, -, -, -⟩ := read_eq_ok.mp hread
  obtain ⟨bonded, -, -, -, ⟨hreader, rfl⟩, -⟩ := aggregate_of_readBody haggregate hbody
  obtain ⟨hframed, hextent⟩ := Framed.of_parse isHeader_transaction hkind hsize hparse
  have hframed' := hframed.grow isHeader_transaction hgrown
  have hparse' := hframed'.parse_eq isHeader_transaction
    (.inl (TransactionKind.bounded_of_reader hreader))
  have hselect := hframed'.same_select isHeader_transaction
  have hsame (name : String) (hne : name ≠ "size") :
      get? (("size", .number grown.length) :: decoded.fields) name = decoded.fields.get? name :=
    get?_cons_ne hne _ _
  have hraw := Framed.length_raw_eq isHeader_transaction hframed'.fits hframed.fits
    fun name _ hne => hsame name hne
  have hheader := isHeader_transaction.length_raw hframed.fits
  have hlength := congrArg List.length hframed.bytes_eq
  rw [List.length_append] at hlength
  refine ⟨decoded, _, ⟨hkind, hframed'.kindAt_eq isHeader_transaction,
    hframed'.checkSize_eq isHeader_transaction⟩, hparse, hparse', ⟨?_, ?_, ?_⟩, ?_⟩
  · exact hraw.trans hextent.symm
  · omega
  · omega
  · intro name hname hne
    exact (hselect name hname).symm.trans (hsame name hne)

/-! ## Hashes of payloads that grow -/

theorem bodyEnd_grown (hread : read payload = .ok tx) (haggregate : tx.kind.isAggregate = true)
    (hgrown : Payload.withSize (payload ++ more) = .ok grown) :
    ∃ stop, Payload.bodyEnd payload = .ok stop ∧ Payload.bodyEnd grown = .ok stop
      ∧ Payload.headerSize ≤ stop ∧ stop ≤ payload.length := by
  obtain ⟨decoded, decoded', ⟨hkind, hkind', -⟩, hparse, hparse', ⟨hextent, hfront, hend⟩, -⟩ :=
    parse_grown hread haggregate hgrown
  refine ⟨decoded.extent, ?_, ?_, hfront, hend⟩
  · exact bind_eq_ok.mpr ⟨_, hkind, bind_eq_ok.mpr ⟨_, lift_eq_ok.mpr hparse, rfl⟩⟩
  · rw [← hextent]
    exact bind_eq_ok.mpr ⟨_, hkind', bind_eq_ok.mpr ⟨_, lift_eq_ok.mpr hparse', rfl⟩⟩

/-- Cosignatures have no part in what either hash is taken of. -/
theorem inputs_grown (hread : read payload = .ok tx) (haggregate : tx.kind.isAggregate = true)
    (hgrown : Payload.withSize (payload ++ more) = .ok grown)
    (generation : Option GenerationHash) :
    Payload.signingInput grown generation = Payload.signingInput payload generation
      ∧ Payload.hashInput grown generation = Payload.hashInput payload generation := by
  obtain ⟨stop, hstop, hstop', hfront, hend⟩ := bodyEnd_grown hread haggregate hgrown
  have hlong : Payload.headerSize ≤ payload.length := Nat.le_trans hfront hend
  have hsigned := Payload.slice_grown hgrown Payload.signedPosition stop (by decide)
    (Nat.le_trans (by decide) hfront) hend
  have hsignature := Payload.slice_grown hgrown Payload.signaturePosition Payload.signedPosition
    (by decide) (by decide) (Nat.le_trans (by decide) hlong)
  have hkind : (grown.drop Payload.kindPosition).take 2
      = (payload.drop Payload.kindPosition).take 2 := by
    rw [List.take_drop, List.take_drop]
    exact Payload.slice_grown hgrown Payload.kindPosition _ (by decide) (Nat.le_add_right _ _)
      (Nat.le_trans (by decide) hlong)
  have hbody := Payload.slice_grown hgrown Payload.headerSize stop (by decide) hfront hend
  constructor
  · rw [Payload.signingInput, Payload.signingInput, hstop, hstop']
    simp only [bind, Except.bind, hsigned]
  · rw [Payload.hashInput, Payload.hashInput, hstop, hstop']
    simp only [bind, Except.bind, hsignature, hkind, hbody]

theorem hashes_grown (hread : read payload = .ok tx) (haggregate : tx.kind.isAggregate = true)
    (hgrown : Payload.withSize (payload ++ more) = .ok grown)
    (generation : Option GenerationHash) :
    Payload.signingHash grown generation = Payload.signingHash payload generation
      ∧ Payload.transactionHash grown generation = Payload.transactionHash payload generation := by
  obtain ⟨hsigning, hhash⟩ := inputs_grown hread haggregate hgrown generation
  rw [Payload.signingHash, Payload.signingHash, Payload.transactionHash, Payload.transactionHash,
    hsigning, hhash]
  exact ⟨rfl, rfl⟩

/-! ## Reading payloads that grow -/

variable {list : List Cosignature}

theorem readBody_cosigned {kind : TransactionKind} {fields fields' : FieldSet} {trailing : Bytes}
    {body body' : Body} (haggregate : body.kind.isAggregate = true)
    (h : readBody kind fields trailing = .ok body)
    (hsame : fields'.get? "transactions" = fields.get? "transactions") :
    readBody kind fields' (trailing ++ list.flatMap Payload.cosignatureBytes) = .ok body'
      ↔ (∀ cosignature ∈ list, cosignature.signer.Accepted) ∧ body' = body.cosigned list := by
  obtain ⟨bonded, joined, inner, old, ⟨hreader, -⟩, hjoined, hinner, hold, rfl⟩ :=
    aggregate_of_readBody haggregate h
  obtain ⟨haccepted, rfl⟩ := Payload.cosignatures_eq_ok.mp hold
  rw [← List.flatMap_append, readBody_eq_ok]
  constructor
  · rintro (⟨_, _, hother, -⟩ | ⟨bonded', joined', inner', all, hreader', hjoined', hinner', hall,
      rfl⟩)
    · cases hreader.symm.trans hother
    · cases hreader.symm.trans hreader'
      cases (hjoined'.symm.trans hsame).trans hjoined
      cases hinner.symm.trans hinner'
      obtain ⟨hsigners, hbytes⟩ := Payload.cosignatures_eq_ok.mp hall
      obtain rfl := Payload.flatMap_cosignatureBytes_inj hbytes
      exact ⟨(List.forall_mem_append.mp hsigners).2, rfl⟩
  · rintro ⟨hlist, rfl⟩
    exact .inr ⟨bonded, joined, inner, old ++ list, hreader, hsame.trans hjoined, hinner,
      Payload.cosignatures_eq_ok.mpr ⟨List.forall_mem_append.mpr ⟨haccepted, hlist⟩, rfl⟩, rfl⟩

theorem read_grown (hread : read payload = .ok tx) (haggregate : tx.kind.isAggregate = true)
    (hgrown : Payload.withSize (payload ++ list.flatMap Payload.cosignatureBytes) = .ok grown)
    {tx' : Transaction} :
    read grown = .ok tx'
      ↔ (∀ cosignature ∈ list, cosignature.signer.Accepted) ∧ tx' = tx.cosigned list := by
  obtain ⟨decoded, decoded', ⟨hkind, hkind', hsize'⟩, hparse, hparse', ⟨hextent, hfront, hend⟩,
    hsame⟩ := parse_grown hread haggregate hgrown
  obtain ⟨_, _, hfound, -, hvalues, hversion, hbody, hmaxFee, hdeadline, hinfo⟩ :=
    read_eq_ok.mp hread
  cases hkind.symm.trans hfound
  cases hparse.symm.trans hvalues
  have hhead (name : String) (hname : name ∈ fieldNames transactionHeader.fields)
      (hne : name ≠ "size") : decoded'.fields.get? name = decoded.fields.get? name := by
    refine hsame name ?_ hne
    rw [fieldNames_join]
    exact List.mem_append_left _ hname
  have hjoined : decoded'.fields.get? "transactions" = decoded.fields.get? "transactions" := by
    obtain ⟨bonded, -, -, -, ⟨hreader, -⟩, -⟩ := aggregate_of_readBody haggregate hbody
    refine hsame "transactions" ?_ (by decide)
    rw [fieldNames_join, TransactionKind.schema_of_reader hreader]
    exact List.mem_append_right _ (by decide)
  have htrailing : grown.drop decoded'.extent
      = payload.drop decoded.extent ++ list.flatMap Payload.cosignatureBytes := by
    rw [hextent]
    exact Payload.drop_grown hgrown (Nat.le_trans (by decide) hfront) hend
  have hcosigned (hlist : ∀ cosignature ∈ list, cosignature.signer.Accepted) :
      read grown = .ok (tx.cosigned list) := by
    refine read_eq_ok.mpr ⟨tx.kind, decoded', hkind', hsize', hparse', ?_, ?_, ?_, ?_, ?_⟩
    · rw [Payload.networkVersion_eq_ok] at hversion ⊢
      exact (hhead "version" (by decide) (by decide)).trans hversion
    · rw [htrailing]
      exact (readBody_cosigned haggregate hbody hjoined).mpr ⟨hlist, rfl⟩
    · exact (hhead "max_fee" (by decide) (by decide)).trans hmaxFee
    · exact (hhead "deadline" (by decide) (by decide)).trans hdeadline
    · rw [Payload.signatureInfo_eq_ok] at hinfo ⊢
      refine ⟨hinfo.1, fun name hname => ?_⟩
      obtain ⟨hmem, hne⟩ := signatureFields_subset hname
      exact (hhead name hmem hne).trans (hinfo.2 name hname)
  constructor
  · intro h
    obtain ⟨_, _, hfound', -, hvalues', -, hbody', -⟩ := read_eq_ok.mp h
    cases hkind'.symm.trans hfound'
    cases hparse'.symm.trans hvalues'
    rw [htrailing] at hbody'
    obtain ⟨hlist, -⟩ := (readBody_cosigned haggregate hbody hjoined).mp hbody'
    exact ⟨hlist, Except.ok.inj (h.symm.trans (hcosigned hlist))⟩
  · rintro ⟨hlist, rfl⟩
    exact hcosigned hlist

end Transaction

/-! ## Assembling -/

def DetachedCosignature.attached (cosignature : DetachedCosignature) : Cosignature :=
  ⟨cosignature.signer, cosignature.signature⟩

def DetachedCosignature.rows (list : List DetachedCosignature) : Bytes :=
  (list.map attached).flatMap Payload.cosignatureBytes

namespace DetachedCosignature

theorem rows_cons (first : DetachedCosignature) (rest : List DetachedCosignature) :
    rows (first :: rest) = first.signer.bytes ++ first.signature.bytes ++ rows rest := by
  rw [rows, List.map_cons, List.flatMap_cons]
  rfl

theorem rows_append (list more : List DetachedCosignature) :
    rows (list ++ more) = rows list ++ rows more := by
  rw [rows, List.map_append, List.flatMap_append]
  rfl

theorem length_rows (list : List DetachedCosignature) : (rows list).length = 96 * list.length := by
  induction list with
  | nil => rfl
  | cons first rest ih =>
      have hsigner : first.signer.bytes.length = 32 := first.signer.block.length_bytes
      have hsignature : first.signature.bytes.length = 64 := first.signature.block.length_bytes
      rw [rows_cons, List.length_append, List.length_append, ih, hsigner, hsignature,
        List.length_cons]
      omega

end DetachedCosignature

namespace SignedTransaction

open DetachedCosignature (rows)

variable {signed : SignedTransaction} {list more : List DetachedCosignature}
  {hash : TransactionHash}

theorem appendAll_append (payload : Bytes) (h : ∀ cosignature ∈ list, cosignature.parent = hash) :
    appendAll hash payload (list ++ more) = appendAll hash (payload ++ rows list) more := by
  induction list generalizing payload with
  | nil => rw [rows, List.map_nil, List.flatMap_nil, List.append_nil, List.nil_append]
  | cons first rest ih =>
      obtain ⟨hfirst, hrest⟩ := List.forall_mem_cons.mp h
      rw [List.cons_append, appendAll, if_pos hfirst, ih _ hrest, DetachedCosignature.rows_cons]
      simp only [List.append_assoc]

theorem appendAll_eq_ok (payload : Bytes) (h : ∀ cosignature ∈ list, cosignature.parent = hash) :
    appendAll hash payload list = .ok (payload ++ rows list) := by
  have happend := @appendAll_append list [] hash payload h
  rw [List.append_nil] at happend
  rw [happend, appendAll]

theorem appendAll_eq_error (payload : Bytes) {other : DetachedCosignature}
    (h : list.find? (·.parent ≠ hash) = some other) :
    appendAll hash payload list = .error (.otherHash hash other.parent) := by
  induction list generalizing payload with
  | nil => cases h
  | cons first rest ih =>
      rw [appendAll]
      by_cases hfirst : first.parent = hash
      · rw [List.find?_cons_of_neg (by simpa using hfirst)] at h
        rw [if_pos hfirst]
        exact ih _ h
      · rw [List.find?_cons_of_pos (by simpa using hfirst)] at h
        cases h
        rw [if_neg hfirst]

theorem assemble_of_not_aggregate (h : signed.kind.isAggregate = false) :
    signed.assemble list = .error (.notAggregate signed.kind) := by
  rw [assemble, h]
  rfl

theorem assemble_eq_error (hkind : signed.kind.isAggregate = true) {other : DetachedCosignature}
    (h : list.find? (·.parent ≠ signed.hash) = some other) :
    signed.assemble list = .error (.otherHash signed.hash other.parent) := by
  rw [assemble, hkind, appendAll_eq_error _ h]
  rfl

theorem assemble_eq_of_room (hkind : signed.kind.isAggregate = true)
    (h : ∀ cosignature ∈ list, cosignature.parent = signed.hash)
    (hroom : 4 ≤ (signed.payload ++ rows list).length) :
    signed.assemble list = (do
      .ok { signed with payload := ← Payload.withSize (signed.payload ++ rows list) }) := by
  rw [assemble, hkind, appendAll_eq_ok _ h]
  exact if_neg (Nat.not_lt.mpr hroom)

theorem assemble_eq (hkind : signed.kind.isAggregate = true)
    (h : ∀ cosignature ∈ list, cosignature.parent = signed.hash)
    (hlength : 4 ≤ signed.payload.length) :
    signed.assemble list = (do
      .ok { signed with payload := ← Payload.withSize (signed.payload ++ rows list) }) := by
  refine assemble_eq_of_room hkind h ?_
  rw [List.length_append]
  exact Nat.le_trans hlength (Nat.le_add_right _ _)

theorem assemble_grown {grown : Bytes} (hkind : signed.kind.isAggregate = true)
    (h : ∀ cosignature ∈ list, cosignature.parent = signed.hash)
    (hlength : 4 ≤ signed.payload.length)
    (hgrown : Payload.withSize (signed.payload ++ rows list) = .ok grown) :
    { signed with payload := grown }.assemble more = signed.assemble (list ++ more) := by
  have hlength' : 4 ≤ grown.length := by
    rw [Payload.length_grown hgrown hlength]
    omega
  cases hmore : more.find? (·.parent ≠ signed.hash) with
  | some other =>
      have hall : (list ++ more).find? (·.parent ≠ signed.hash) = some other := by
        have hnone : list.find? (·.parent ≠ signed.hash) = none :=
          List.find?_eq_none.mpr fun cosignature hmem => by simp [h cosignature hmem]
        rw [List.find?_append, hnone, Option.none_or, hmore]
      rw [assemble_eq_error hkind hall]
      exact @assemble_eq_error { signed with payload := grown } more hkind other hmore
  | none =>
      have hrest : ∀ cosignature ∈ more, cosignature.parent = signed.hash := by
        intro cosignature hmem
        simpa using List.find?_eq_none.mp hmore cosignature hmem
      rw [assemble_eq hkind (List.forall_mem_append.mpr ⟨h, hrest⟩) hlength,
        DetachedCosignature.rows_append, ← Payload.withSize_grown hgrown hlength]
      exact assemble_eq hkind hrest hlength'

/-- A grown payload is valid as far as the old one and the new cosignatures are. -/
theorem verify_grown {tx : Transaction} {grown : Bytes} (generation : Option GenerationHash)
    (hread : Transaction.read signed.payload = .ok tx) (haggregate : tx.kind.isAggregate = true)
    (h : ∀ cosignature ∈ list, cosignature.parent = signed.hash)
    (hgrown : Payload.withSize (signed.payload ++ rows list) = .ok grown) :
    { signed with payload := grown }.verify generation = .ok ()
      ↔ signed.verify generation = .ok () ∧ ∀ cosignature ∈ list, cosignature.verify = .ok () := by
  obtain ⟨hsigning, hidentity⟩ := Transaction.hashes_grown hread haggregate hgrown generation
  have hcosignatures :=
    Transaction.cosignatures_cosigned haggregate (list.map DetachedCosignature.attached)
  have hverify : (∀ cosignature ∈ list, cosignature.verify = .ok ())
      ↔ ∀ cosignature ∈ list.map DetachedCosignature.attached,
        cosignature.signer.verify signed.hash.bytes cosignature.signature = .ok () := by
    rw [List.forall_mem_map]
    refine forall₂_congr fun cosignature hmem => ?_
    rw [DetachedCosignature.verify, h cosignature hmem]
    rfl
  rw [hverify]
  simp only [verify_eq_ok, hsigning, hidentity]
  constructor
  · rintro ⟨_, info, hash, hread', hinfo, ⟨hsigner, hkind⟩, hhash, hvalid, hsame, hall⟩
    obtain ⟨-, rfl⟩ := (Transaction.read_grown hread haggregate hgrown).mp hread'
    rw [hcosignatures, List.forall_mem_append] at hall
    rw [Transaction.kind_cosigned] at hkind
    exact ⟨⟨tx, info, hash, hread, hinfo, ⟨hsigner, hkind⟩, hhash, hvalid, hsame, hall.1⟩, hall.2⟩
  · rintro ⟨⟨_, info, hash, hread', hinfo, ⟨hsigner, hkind⟩, hhash, hvalid, hsame, hold⟩, hnew⟩
    cases hread.symm.trans hread'
    have haccepted : ∀ cosignature ∈ list.map DetachedCosignature.attached,
        cosignature.signer.Accepted :=
      fun cosignature hmem => PublicKey.accepted_of_verify (hnew cosignature hmem)
    refine ⟨_, info, hash, (Transaction.read_grown hread haggregate hgrown).mpr ⟨haccepted, rfl⟩,
      hinfo, ⟨hsigner, (tx.kind_cosigned _).trans hkind⟩, hhash, hvalid, hsame, ?_⟩
    rw [hcosignatures, List.forall_mem_append]
    exact ⟨hold, hnew⟩

/--
Cosignatures are appended to a signed aggregate in order, and only the size
in front changes besides.  Both hashes stay, the transaction is read with
the cosignatures after those it had when their keys encode points, it is
valid as far as it was and they are, and appending can be continued in a
further round.  A cosignature over another hash is refused, and so is a kind
that takes none.
-/
theorem assemble_appends (signed : SignedTransaction) (list : List DetachedCosignature) :
    (signed.kind.isAggregate = false →
      signed.assemble list = .error (.notAggregate signed.kind)
        ∧ (SignedError.aggregateFault signed.kind).field = "transaction_type")
    ∧ (signed.kind.isAggregate = true → (∃ other ∈ list, other.parent ≠ signed.hash) →
      ∃ other, list.find? (·.parent ≠ signed.hash) = some other
        ∧ signed.assemble list = .error (.otherHash signed.hash other.parent))
    ∧ ∀ tx, signed.kind.isAggregate = true → Transaction.read signed.payload = .ok tx →
      tx.kind.isAggregate = true → (∀ cosignature ∈ list, cosignature.parent = signed.hash) →
      signed.payload.length + 96 * list.length < 2 ^ 32 →
      ∃ assembled, signed.assemble list = .ok assembled
        ∧ assembled = { signed with
            payload := LittleEndian.encode 4 (signed.payload.length + 96 * list.length)
              ++ signed.payload.drop 4
              ++ list.flatMap fun cosignature =>
                cosignature.signer.bytes ++ cosignature.signature.bytes }
        ∧ (∀ generation,
          Payload.signingHash assembled.payload generation
              = Payload.signingHash signed.payload generation
            ∧ Payload.transactionHash assembled.payload generation
              = Payload.transactionHash signed.payload generation)
        ∧ ((∀ cosignature ∈ list, cosignature.signer.Accepted) →
          Transaction.read assembled.payload
            = .ok (tx.cosigned (list.map DetachedCosignature.attached)))
        ∧ (∀ generation, assembled.verify generation = .ok ()
          ↔ signed.verify generation = .ok ()
            ∧ ∀ cosignature ∈ list, cosignature.verify = .ok ())
        ∧ ∀ more, assembled.assemble more = signed.assemble (list ++ more) := by
  refine ⟨fun hkind => ⟨assemble_of_not_aggregate hkind, rfl⟩, ?_, ?_⟩
  · intro hkind hother
    obtain ⟨other, hfound⟩ : ∃ other, list.find? (·.parent ≠ signed.hash) = some other := by
      rw [← Option.isSome_iff_exists, List.find?_isSome]
      simpa using hother
    exact ⟨other, hfound, assemble_eq_error hkind hfound⟩
  · intro tx hkind hread haggregate h hshort
    have hlength : 4 ≤ signed.payload.length := by
      obtain ⟨kind, -, hkindAt, hsize, -⟩ := Transaction.read_eq_ok.mp hread
      exact Nat.le_trans (by decide) (Payload.length_of_kindAt hkindAt hsize).1
    have htotal : (signed.payload ++ rows list).length
        = signed.payload.length + 96 * list.length := by
      rw [List.length_append, DetachedCosignature.length_rows]
    have hrows : rows list
        = list.flatMap fun cosignature => cosignature.signer.bytes ++ cosignature.signature.bytes :=
      List.flatMap_map ..
    have hgrown : Payload.withSize (signed.payload ++ rows list) = .ok _ :=
      if_pos (htotal ▸ hshort)
    refine ⟨{ signed with payload := _ }, ?_, ?_,
      fun generation => Transaction.hashes_grown hread haggregate hgrown generation, ?_,
      fun generation => verify_grown generation hread haggregate h hgrown,
      fun more => assemble_grown hkind h hlength hgrown⟩
    · rw [assemble_eq hkind h hlength, hgrown]
      rfl
    · rw [htotal, List.drop_append_of_le_length hlength, hrows, List.append_assoc]
    · intro haccepted
      refine (Transaction.read_grown hread haggregate hgrown).mpr ⟨?_, rfl⟩
      rw [List.forall_mem_map]
      exact haccepted

theorem assemble_appends_cosignedAggregate :
    ∃ (signed : SignedTransaction) (cosignature : DetachedCosignature),
      Transaction.read signed.payload = .ok Transaction.cosignedAggregate
        ∧ (∃ assembled, signed.assemble [cosignature, cosignature] = .ok assembled
          ∧ Transaction.read assembled.payload = .ok (Transaction.cosignedAggregate.cosigned
            [cosignature.attached, cosignature.attached]))
        ∧ { signed with hash := .zero }.assemble [cosignature]
          = .error (.otherHash .zero cosignature.parent)
        ∧ { signed with kind := .transfer }.assemble [cosignature]
          = .error (.notAggregate .transfer) := by
  obtain ⟨bytes, hwrite, hlength⟩ := Transaction.write_cosignedAggregate
  have hread : Transaction.read bytes = .ok Transaction.cosignedAggregate :=
    Transaction.read_of_write Transaction.accepted_cosignedAggregate hwrite
  let signed : SignedTransaction := ⟨PublicKey.base.block, bytes, .base, .aggregateBonded, .testNet⟩
  let cosignature : DetachedCosignature := ⟨PublicKey.base.block, ⟨.zero⟩, .base⟩
  have hother : cosignature.parent ≠ .zero := by decide
  refine ⟨signed, cosignature, hread, ?_, ?_, ?_⟩
  · have hover : ∀ other ∈ [cosignature, cosignature], other.parent = signed.hash := by
      simp [signed, cosignature]
    have hshort : signed.payload.length + 96 * 2 < 2 ^ 32 := by
      simp only [signed]
      omega
    obtain ⟨assembled, hassemble, -, -, hassembled, -⟩ :=
      (assemble_appends signed [cosignature, cosignature]).2.2 _ rfl hread rfl hover hshort
    refine ⟨assembled, hassemble, hassembled ?_⟩
    simpa using PublicKey.accepted_base
  · obtain ⟨other, hfound, hassemble⟩ :=
      (assemble_appends { signed with hash := .zero } [cosignature]).2.1 rfl
        ⟨cosignature, List.mem_singleton_self _, hother⟩
    obtain rfl := List.mem_singleton.mp (List.mem_of_find?_eq_some hfound)
    exact hassemble
  · exact ((assemble_appends { signed with kind := .transfer } [cosignature]).1 rfl).1

end SignedTransaction

end LedgerTx
