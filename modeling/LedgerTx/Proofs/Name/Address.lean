import LedgerTx.Address
import LedgerTx.Proofs.Result
import LedgerTx.Proofs.Text.Base32

/-!
# Addresses as bytes and as text

The 25 bytes of an address open with the byte of a network and end with the
checksum of what precedes it; no other bytes are an address.  A text is read as
an address exactly when it is the address's own text up to blanks at the ends,
dashes and the case of ASCII letters.  Reading takes the padding of base32 for
the letter of zero, so that `=` stands for `A` except as the last letter.
-/

namespace LedgerTx

theorem Network.byte_of_ofByte? {byte : UInt8} {network : Network}
    (h : ofByte? byte = some network) : network.byte = byte := by
  apply UInt8.toNat_inj.mp
  rw [byte_toNat, Coded.code_of_ofCode? h]

namespace Address

variable {decode : List Char → Option Bytes} {text : String} {address : Address}

/-! ## Bytes -/

theorem head?_toBlock (address : Address) :
    address.toBlock.bytes.head? = some address.network.byte := rfl

theorem take_toBlock (address : Address) :
    address.toBlock.bytes.take 21 = address.network.byte :: address.keyHash.bytes := by
  simp [toBlock, address.keyHash.length_bytes]

theorem drop_toBlock (address : Address) :
    address.toBlock.bytes.drop 21
      = (checksum (address.network.byte :: address.keyHash.bytes)).bytes := by
  simp [toBlock, address.keyHash.length_bytes]

theorem ofBlock_eq_ok {block : Block 25} {address : Address} :
    ofBlock block = .ok address ↔ block = address.toBlock := by
  constructor
  · intro h
    obtain ⟨bytes, hlength⟩ := block
    cases bytes with
    | nil => cases hlength
    | cons byte rest =>
        simp only [ofBlock, List.head?_cons] at h
        split at h
        · cases h
        · rename_i network hnetwork
          split at h
          · rename_i hchecksum
            cases h
            apply Block.ext
            have hbyte : network.byte = byte := Network.byte_of_ofByte? hnetwork
            have hbody : byte :: ((byte :: rest).take 21).drop 1 = (byte :: rest).take 21 := rfl
            simp only [toBlock, hbyte, hbody, hchecksum, List.take_append_drop]
          · cases h
  · rintro rfl
    simp [ofBlock, head?_toBlock, take_toBlock, drop_toBlock]

/-- The bytes of an address: a network first, and a checksum of what precedes it last. -/
structure IsAddress (block : Block 25) : Prop where
  network : ∃ network : Network, block.bytes.head? = some network.byte
  checksum : block.bytes.drop 21 = (checksum (block.bytes.take 21)).bytes

theorem isAddress_toBlock (address : Address) : IsAddress address.toBlock :=
  ⟨⟨address.network, head?_toBlock address⟩, by rw [drop_toBlock, take_toBlock]⟩

theorem exists_ofBlock_eq_ok {block : Block 25} :
    (∃ address, ofBlock block = .ok address) ↔ IsAddress block := by
  constructor
  · rintro ⟨address, h⟩
    rw [ofBlock_eq_ok.mp h]
    exact isAddress_toBlock address
  · rintro ⟨⟨network, hnetwork⟩, hchecksum⟩
    simp only [ofBlock, hnetwork, Network.ofByte?_byte, if_pos hchecksum.symm]
    exact ⟨_, rfl⟩

/-! ## Letters -/

theorem grouped_block (block : Block 25) : Base32.Grouped 5 block.bytes := by
  rw [Base32.grouped_iff, block.length_bytes]
  decide

theorem length_plainChars (address : Address) : address.plainChars.length = 40 := by
  have hlength := Base32.length_encodeChars (grouped_block address.toBlock)
  rw [address.toBlock.length_bytes] at hlength
  rw [plainChars]
  omega

theorem mem_alphabet_of_mem_plainChars (address : Address) :
    ∀ c ∈ address.plainChars, c ∈ Base32.alphabet :=
  fun _ hc => Base32.mem_alphabet_of_mem_encodeChars hc

theorem letters_plainChars (address : Address) :
    ∀ c ∈ address.plainChars, c ∈ '=' :: Base32.alphabet :=
  fun c hc => List.mem_cons_of_mem _ (mem_alphabet_of_mem_plainChars address c hc)

theorem size_of_letters {chars : List Char} (h : ∀ c ∈ chars, c ∈ '=' :: Base32.alphabet) :
    Utf8.size (String.ofList chars) = chars.length :=
  Utf8.size_ofList_of_narrow fun c hc => Base32.utf8Size_of_readable c (h c hc)

/-! ## Reading -/

theorem ofTextWith_eq_ok :
    ofTextWith decode text = .ok address ↔ Utf8.size (String.ofList (normalize text)) = 40
      ∧ decode (normalize text) = some address.toBlock.bytes := by
  unfold ofTextWith
  rw [refuse_eq_ok, Decidable.not_not]
  refine and_congr_right fun _ => ?_
  constructor
  · intro h
    split at h
    · cases h
    · rename_i bytes hdecode
      split at h
      · cases h
      · rename_i block hblock
        rw [hdecode, ← ofBlock_eq_ok.mp h, Block.bytes_of_ofBytes? hblock]
  · intro h
    simp only [h, Block.ofBytes?_bytes]
    exact ofBlock_eq_ok.mpr rfl

theorem grouped_of_length {chars : List Char} (h : chars.length = 40) :
    Base32.Grouped 8 chars := by
  rw [Base32.grouped_iff, h]
  decide

theorem ofTextWith_eq_ok_iff (hreader : Base32.Reader decode) :
    ofTextWith decode text = .ok address ↔ normalize text = address.plainChars := by
  rw [ofTextWith_eq_ok]
  constructor
  · rintro ⟨hsize, hdecode⟩
    have hmem (c : Char) (hc : c ∈ normalize text) : c ∈ Base32.alphabet := by
      by_contra hout
      rw [hreader.refuses _ c hc hout] at hdecode
      cases hdecode
    rw [size_of_letters fun c hc => List.mem_cons_of_mem _ (hmem c hc)] at hsize
    exact ((hreader.decode_eq_some (grouped_of_length hsize)).mp hdecode).2.symm
  · intro h
    rw [h, size_of_letters (letters_plainChars address)]
    exact ⟨length_plainChars address,
      hreader.decode_encode _ (Base32.grouped_iff.mp (grouped_block address.toBlock))⟩

/-- Reading takes padding for the letter of zero unless the text ends in it. -/
theorem ofText_eq_ok :
    ofText text = .ok address ↔ (normalize text).getLast? ≠ some '='
      ∧ (normalize text).map Base32.unpadded = address.plainChars := by
  rw [ofText, ofTextWith_eq_ok]
  constructor
  · rintro ⟨hsize, hdecode⟩
    -- The size counts bytes; what was read shows that every character takes one.
    obtain ⟨whole, hwhole, -⟩ := Option.map_eq_some_iff.mp hdecode
    have hgrouped := Base32.grouped_of_decodeGroups hwhole
    rw [size_of_letters (Base32.mem_of_decodeGroups hgrouped hwhole)] at hsize
    have hlength : 8 * address.toBlock.bytes.length = 5 * (normalize text).length := by
      rw [address.toBlock.length_bytes, hsize]
    obtain ⟨hlast, hencode⟩ := (Base32.decodeChars_eq_some hgrouped hlength).mp hdecode
    exact ⟨hlast, hencode.symm⟩
  · rintro ⟨hlast, hencode⟩
    have hsize := length_plainChars address
    rw [← hencode, List.length_map] at hsize
    have hlength : 8 * address.toBlock.bytes.length = 5 * (normalize text).length := by
      rw [address.toBlock.length_bytes, hsize]
    have hdecode := (Base32.decodeChars_eq_some (grouped_of_length hsize) hlength).mpr
      ⟨hlast, hencode.symm⟩
    obtain ⟨whole, hwhole, -⟩ := Option.map_eq_some_iff.mp hdecode
    rw [size_of_letters (Base32.mem_of_decodeGroups (grouped_of_length hsize) hwhole)]
    exact ⟨hsize, hdecode⟩

theorem eq_of_toUpper_eq {c : Char} (h : c.toUpper = '=') : c = '=' := by
  have hupper : ∀ c ∈ Digits.between 'a' 'z', c.toUpper ≠ '=' :=
    Digits.forall_mem_of_all (by decide)
  by_cases hlower : 'a' ≤ c ∧ c ≤ 'z'
  · exact absurd h (hupper c (Digits.mem_between hlower))
  · have hsame : c.toUpper = c := dif_neg hlower
    exact hsame.symm.trans h

theorem ofText_eq_ok_iff (hpadding : '=' ∉ text.toList) :
    ofText text = .ok address ↔ normalize text = address.plainChars := by
  have hnormalize : '=' ∉ normalize text := by
    intro hmem
    obtain ⟨c, hc, hupper⟩ := List.mem_map.mp hmem
    cases eq_of_toUpper_eq hupper
    exact hpadding (Text.mem_of_mem_trim (List.mem_filter.mp hc).1)
  rw [ofText_eq_ok, Base32.map_unpadded hnormalize,
    and_iff_right fun hlast => hnormalize (List.mem_of_getLast? hlast)]

/-! ## The texts of an address -/

theorem filter_of_no_dash {chars : List Char} (h : '-' ∉ chars) :
    chars.filter (· != '-') = chars :=
  List.filter_eq_self.mpr fun _ hc => bne_iff_ne.mpr (ne_of_mem_of_not_mem hc h)

theorem filter_dashed {chars : List Char} (h : '-' ∉ chars) :
    (dashed chars).filter (· != '-') = chars := by
  fun_induction dashed chars with
  | case1 a b c d e f g rest ih =>
      obtain ⟨hfront, hrest⟩ := not_or.mp (mt List.mem_append.mpr
        (show '-' ∉ [a, b, c, d, e, f] ++ g :: rest from h))
      calc ([a, b, c, d, e, f] ++ '-' :: dashed (g :: rest)).filter (· != '-')
          = [a, b, c, d, e, f] ++ (dashed (g :: rest)).filter (· != '-') := by
            rw [List.filter_append, filter_of_no_dash hfront]
            rfl
        _ = [a, b, c, d, e, f] ++ g :: rest := by rw [ih hrest]
  | case2 chars => exact filter_of_no_dash h

def IsCase (change : Char → Char) : Prop :=
  ∀ c ∈ '-' :: Base32.alphabet, Text.isBlank (change c) = false
    ∧ (change c != '-') = (c != '-') ∧ (change c).toUpper = c

theorem normalize_eq {chars form : List Char} {change : Char → Char} (hchange : IsCase change)
    (hchars : ∀ c ∈ chars, c ∈ Base32.alphabet) (hform : form.filter (· != '-') = chars)
    (htext : text.toList = form.map change) : normalize text = chars := by
  have hmem (c : Char) (hc : c ∈ form) : c ∈ '-' :: Base32.alphabet := by
    by_cases hdash : c = '-'
    · exact hdash ▸ List.mem_cons_self
    · refine List.mem_cons_of_mem _ (hchars c (hform ▸ List.mem_filter.mpr ⟨hc, ?_⟩))
      exact bne_iff_ne.mpr hdash
  have hfilter : form.filter ((· != '-') ∘ change) = chars := by
    rw [← hform]
    exact List.filter_congr fun c hc => (hchange c (hmem c hc)).2.1
  have htrim : Text.trim (form.map change) = form.map change :=
    Text.trim_eq_self (List.forall_mem_map.mpr fun c hc => (hchange c (hmem c hc)).1)
  rw [normalize, htext, htrim, List.filter_map, hfilter]
  exact map_map_eq_self fun c hc => (hchange c (List.mem_cons_of_mem _ (hchars c hc))).2.2

/-- The plain and the dashed text of an address, as written and in lower case. -/
def forms (address : Address) : List String :=
  [address.plain, address.pretty, address.plain.toLower, address.pretty.toLower]

theorem normalize_form {form : String} (h : form ∈ address.forms) :
    normalize form = address.plainChars := by
  have hdash : '-' ∉ address.plainChars := by
    intro hmem
    have hout : '-' ∉ Base32.alphabet := by decide
    exact hout (mem_alphabet_of_mem_plainChars address _ hmem)
  have hplain := filter_of_no_dash hdash
  have hwritten : IsCase id := Digits.forall_mem_of_all (by decide)
  have hlower : IsCase Char.toLower := Digits.forall_mem_of_all (by decide)
  have hletters := mem_alphabet_of_mem_plainChars address
  have hcase (written : String) : written.toLower.toList = written.toList.map Char.toLower :=
    String.toList_map
  simp only [forms, List.mem_cons, List.not_mem_nil, or_false] at h
  rcases h with rfl | rfl | rfl | rfl
  · exact normalize_eq hwritten hletters hplain (by rw [plain, String.toList_ofList, List.map_id])
  · exact normalize_eq hwritten hletters (filter_dashed hdash)
      (by rw [pretty, String.toList_ofList, List.map_id])
  · exact normalize_eq hlower hletters hplain
      (by rw [hcase, plain, String.toList_ofList])
  · exact normalize_eq hlower hletters (filter_dashed hdash)
      (by rw [hcase, pretty, String.toList_ofList])

/--
A reader without padding reads a text as an address exactly when the text is the
address's own, up to blanks at the ends, dashes and the case of ASCII letters.
So all forms of an address are read as it, different bytes have different texts,
and the bytes of addresses are those with a network and a matching checksum,
which the address of a public key has as well.  The reader that takes padding
for the letter of zero agrees on texts without it.
-/
theorem read_from_own_text (hreader : Base32.Reader decode) (text : String) (address : Address) :
    (ofTextWith decode text = .ok address ↔ String.ofList (normalize text) = address.plain)
      ∧ (∀ block : Block 25, IsAddress block ↔ ∃ known : Address, block = known.toBlock)
      ∧ (∀ form ∈ address.forms, ofTextWith decode form = .ok address)
      ∧ (∀ block other : Block 25, String.ofList (Base32.encodeChars block.bytes)
          = String.ofList (Base32.encodeChars other.bytes) → block = other)
      ∧ (∀ key network, IsAddress (ofPublicKey key network).toBlock
          ∧ ofBlock (ofPublicKey key network).toBlock = .ok (ofPublicKey key network))
      ∧ ('=' ∉ text.toList →
          (ofText text = .ok address ↔ String.ofList (normalize text) = address.plain)) := by
  have hplain : String.ofList (normalize text) = address.plain
      ↔ normalize text = address.plainChars := String.ofList_inj
  refine ⟨?_, ?_, ?_, ?_, ?_, ?_⟩
  · rw [ofTextWith_eq_ok_iff hreader, hplain]
  · intro block
    rw [← exists_ofBlock_eq_ok]
    simp only [ofBlock_eq_ok]
  · intro form hform
    exact (ofTextWith_eq_ok_iff hreader).mpr (normalize_form hform)
  · intro block other h
    exact Block.ext (Base32.encodeChars_injective (grouped_block block) (grouped_block other)
      (String.ofList_inj.mp h))
  · intro key network
    exact ⟨isAddress_toBlock _, ofBlock_eq_ok.mpr rfl⟩
  · intro hpadding
    rw [ofText_eq_ok_iff hpadding, hplain]

def ofBasePoint : Address :=
  ofPublicKey ⟨⟨0x58 :: List.replicate 31 0x66, rfl⟩⟩ .mijinTest

theorem read_from_own_text_mixed :
    ofTextWith Base32.decodeUnpadded " scl4en-RIVVYKE5EIDS4FAFIOIO6FI2QQZ33MSG73"
        = .ok ofBasePoint
      ∧ ofText " scl4en-RIVVYKE5EIDS4FAFIOIO6FI2QQZ33MSG73" = .ok ofBasePoint := by
  have hread := read_from_own_text Base32.reader_decodeUnpadded
    " scl4en-RIVVYKE5EIDS4FAFIOIO6FI2QQZ33MSG73" ofBasePoint
  have hown : String.ofList (normalize " scl4en-RIVVYKE5EIDS4FAFIOIO6FI2QQZ33MSG73")
      = ofBasePoint.plain := by
    decide +kernel
  exact ⟨hread.1.mpr hown, (hread.2.2.2.2.2 (by decide)).mpr hown⟩

end Address

end LedgerTx
