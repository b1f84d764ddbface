import LedgerTx.Proofs.Text.Digits
import LedgerTx.Text.Base32

/-!
# Base32 text

Eight letters are the eight digits in base 32 of a number below 2 ^ 40, which
is the number of five bytes.  So whole groups of bytes are written one to one
as whole groups of letters, and every text of whole groups is written for some
bytes.  Reading takes padding for the letter of zero and is otherwise the
inverse of writing.
-/

namespace LedgerTx.Base32

/-! ## Letters -/

def alphabet : List Char := "ABCDEFGHIJKLMNOPQRSTUVWXYZ234567".toList

def valueOf (c : Char) : Nat := alphabet.idxOf c

/-- The letter that a character is read as. -/
def unpadded (c : Char) : Char := if c = '=' then 'A' else c

theorem alphabet_eq : alphabet = Digits.between 'A' 'Z' ++ Digits.between '2' '7' := by decide

theorem letter_mem_alphabet : ∀ d < 32, letter d ∈ alphabet := by decide

theorem valueOf_letter : ∀ d < 32, valueOf (letter d) = d := by decide

theorem letter_valueOf : ∀ c ∈ alphabet, letter (valueOf c) = c :=
  Digits.forall_mem_of_all (by decide)

theorem valueOf_lt : ∀ c ∈ alphabet, valueOf c < 32 := Digits.forall_mem_of_all (by decide)

theorem utf8Size_of_readable : ∀ c ∈ '=' :: alphabet, c.utf8Size = 1 :=
  Digits.forall_mem_of_all (by decide)

theorem padding_not_mem_alphabet : '=' ∉ alphabet := by decide

theorem value?_unpadded (c : Char) : value? (unpadded c) = value? c := by
  unfold unpadded
  split
  · rename_i h
    subst h
    rfl
  · rfl

theorem value?_eq_some {c : Char} {d : Nat} :
    value? c = some d ↔ c ∈ '=' :: alphabet ∧ valueOf (unpadded c) = d := by
  have hvalue : ∀ c ∈ '=' :: alphabet, value? c = some (valueOf (unpadded c)) :=
    Digits.forall_mem_of_all (by decide)
  refine Digits.eq_some_iff hvalue fun c h => ?_
  rw [List.mem_cons, alphabet_eq, List.mem_append]
  unfold value? at h
  split at h
  · exact .inr (.inl (Digits.mem_between ‹_›))
  · split at h
    · exact .inr (.inr (Digits.mem_between ‹_›))
    · split at h
      · exact .inl ‹_›
      · cases h

/-! ## Groups of letters -/

theorem letters_eq (width n : Nat) : letters width n = (Digits.fixed 32 width n).map letter := by
  induction width generalizing n with
  | zero => rfl
  | succ width ih => rw [letters, Digits.fixed, ih, List.map_append, List.map_singleton]

theorem length_letters (width n : Nat) : (letters width n).length = width := by
  rw [letters_eq, List.length_map, Digits.length_fixed]

theorem mem_alphabet_of_mem_letters {width n : Nat} {c : Char} (h : c ∈ letters width n) :
    c ∈ alphabet := by
  rw [letters_eq] at h
  obtain ⟨d, hd, rfl⟩ := List.mem_map.mp h
  exact letter_mem_alphabet d (Digits.lt_of_mem_fixed (by decide) hd)

def number (group : List Char) : Nat := Digits.value 32 (group.map valueOf)

theorem number_letters (width n : Nat) : number (letters width n) = n % 32 ^ width := by
  have hvalues : ((Digits.fixed 32 width n).map letter).map valueOf = Digits.fixed 32 width n :=
    map_map_eq_self fun d hd => valueOf_letter d (Digits.lt_of_mem_fixed (by decide) hd)
  rw [number, letters_eq, hvalues, Digits.value_fixed]

theorem values_lt {group : List Char} (h : ∀ c ∈ group, c ∈ alphabet) :
    ∀ d ∈ group.map valueOf, d < 32 :=
  List.forall_mem_map.mpr fun c hc => valueOf_lt c (h c hc)

theorem number_lt {group : List Char} (h : ∀ c ∈ group, c ∈ alphabet) :
    number group < 32 ^ group.length := by
  have hlt := Digits.value_lt (by decide) (values_lt h)
  rwa [List.length_map] at hlt

theorem letters_number {group : List Char} (h : ∀ c ∈ group, c ∈ alphabet) :
    letters group.length (number group) = group := by
  have hfixed := Digits.fixed_value (values_lt h)
  rw [List.length_map] at hfixed
  rw [letters_eq, number, hfixed]
  exact map_map_eq_self fun c hc => letter_valueOf c (h c hc)

theorem number?_eq_some {chars : List Char} {n : Nat} :
    number? chars = some n
      ↔ (∀ c ∈ chars, c ∈ '=' :: alphabet) ∧ n = number (chars.map unpadded) := by
  rw [number?, Digits.foldlM_eq_some fun c d => value?_eq_some, Nat.zero_mul, Nat.zero_add, number,
    List.map_map]
  rfl

/-! ## Groups of bytes -/

theorem length_bigEndian (width n : Nat) : (Bytes.bigEndian width n).length = width := by
  rw [Bytes.bigEndian, List.length_reverse, LittleEndian.length_encode]

theorem ofBigEndian_bigEndian (width n : Nat) :
    Bytes.ofBigEndian (Bytes.bigEndian width n) = n % 256 ^ width := by
  rw [Bytes.ofBigEndian, Bytes.bigEndian, List.reverse_reverse, LittleEndian.decode_encode]

theorem bigEndian_ofBigEndian (bytes : Bytes) :
    Bytes.bigEndian bytes.length (Bytes.ofBigEndian bytes) = bytes := by
  rw [Bytes.bigEndian, Bytes.ofBigEndian, ← List.length_reverse, LittleEndian.encode_decode,
    List.reverse_reverse]

theorem encodeChars_append {group : Bytes} (h : group.length = 5) (rest : Bytes) :
    encodeChars (group ++ rest) = letters 8 (Bytes.ofBigEndian group) ++ encodeChars rest := by
  match group, h with
  | [_, _, _, _, _], _ => rfl

theorem number_group {group : Bytes} (h : group.length = 5) :
    number (letters 8 (Bytes.ofBigEndian group)) = Bytes.ofBigEndian group := by
  have hlt := LittleEndian.decode_lt group.reverse
  rw [List.length_reverse, h] at hlt
  rw [number_letters]
  exact Nat.mod_eq_of_lt hlt

theorem letters_group {group : List Char} (h : ∀ c ∈ group, c ∈ alphabet)
    (hlength : group.length = 8) :
    letters 8 (Bytes.ofBigEndian (Bytes.bigEndian 5 (number group))) = group := by
  have hlt := number_lt h
  rw [hlength] at hlt
  have hmod : number group % 256 ^ 5 = number group := Nat.mod_eq_of_lt hlt
  rw [ofBigEndian_bigEndian, hmod, ← hlength]
  exact letters_number h

/-! ## Writing -/

/-- The lists that consist of whole groups. -/
inductive Grouped {α : Type} (size : Nat) : List α → Prop where
  | nil : Grouped size []
  | group {front rest : List α} (hfront : front.length = size) (hrest : Grouped size rest) :
      Grouped size (front ++ rest)

theorem grouped_iff {α : Type} {size : Nat} {list : List α} :
    Grouped size list ↔ size ∣ list.length := by
  constructor
  · intro h
    induction h with
    | nil => exact Nat.dvd_zero size
    | group hfront _ ih =>
        rw [List.length_append, hfront]
        exact Nat.dvd_add (Nat.dvd_refl size) ih
  · intro h
    obtain ⟨count, hcount⟩ := h
    induction count generalizing list with
    | zero =>
        rw [List.length_eq_zero_iff.mp hcount]
        exact .nil
    | succ count ih =>
        rw [Nat.mul_succ] at hcount
        have hrest : (list.drop size).length = size * count := by
          rw [List.length_drop]
          omega
        rw [← List.take_append_drop size list]
        exact .group (List.length_take_of_le (by omega)) (ih hrest)

theorem mem_alphabet_of_mem_encodeChars {bytes : Bytes} {c : Char} (h : c ∈ encodeChars bytes) :
    c ∈ alphabet := by
  fun_induction encodeChars bytes with
  | case1 _ _ _ _ _ rest ih => exact (List.mem_append.mp h).elim mem_alphabet_of_mem_letters ih
  | case2 => cases h

theorem length_encodeChars {bytes : Bytes} (h : Grouped 5 bytes) :
    5 * (encodeChars bytes).length = 8 * bytes.length := by
  induction h with
  | nil => rfl
  | group hfront _ ih =>
      rw [encodeChars_append hfront, List.length_append, List.length_append, length_letters, hfront,
        Nat.mul_add, ih, Nat.mul_add]

theorem exists_encodeChars {chars : List Char} (hgrouped : Grouped 8 chars)
    (h : ∀ c ∈ chars, c ∈ alphabet) : ∃ bytes, Grouped 5 bytes ∧ encodeChars bytes = chars := by
  induction hgrouped with
  | nil => exact ⟨[], .nil, rfl⟩
  | @group front rest hfront _ ih =>
      obtain ⟨hletters, hrest⟩ := List.forall_mem_append.mp h
      obtain ⟨bytes, hbytes, rfl⟩ := ih hrest
      have hgroup := length_bigEndian 5 (number front)
      refine ⟨Bytes.bigEndian 5 (number front) ++ bytes, .group hgroup hbytes, ?_⟩
      rw [encodeChars_append hgroup, letters_group hletters hfront]

/-! ## Reading -/

theorem decodeGroups_append {group : List Char} (h : group.length = 8) (rest : List Char) :
    decodeGroups (group ++ rest) = (number? group).bind fun n =>
      (decodeGroups rest).bind fun bytes => some (Bytes.bigEndian 5 n ++ bytes) := by
  match group, h with
  | [_, _, _, _, _, _, _, _], _ => rfl

theorem map_unpadded {chars : List Char} (h : '=' ∉ chars) : chars.map unpadded = chars := by
  have hsame : ∀ c ∈ chars, unpadded c = id c := fun c hc => if_neg (ne_of_mem_of_not_mem hc h)
  rw [List.map_congr_left hsame, List.map_id]

theorem decodeGroups_unpadded {chars : List Char} (h : Grouped 8 chars) :
    decodeGroups (chars.map unpadded) = decodeGroups chars := by
  induction h with
  | nil => rfl
  | @group front rest hfront _ ih =>
      have hnumber : number? (front.map unpadded) = number? front := by
        simp only [number?, List.foldlM_map, value?_unpadded]
      rw [List.map_append, decodeGroups_append ((List.length_map _).trans hfront),
        decodeGroups_append hfront, hnumber, ih]

theorem decodeGroups_encodeChars {bytes : Bytes} (h : Grouped 5 bytes) :
    decodeGroups (encodeChars bytes) = some bytes := by
  induction h with
  | nil => rfl
  | @group front rest hfront _ ih =>
      have hnumber : number? (letters 8 (Bytes.ofBigEndian front))
          = some (Bytes.ofBigEndian front) := by
        have hmem (c : Char) (hc : c ∈ letters 8 (Bytes.ofBigEndian front)) : c ∈ alphabet :=
          mem_alphabet_of_mem_letters hc
        refine number?_eq_some.mpr ⟨fun c hc => List.mem_cons_of_mem _ (hmem c hc), ?_⟩
        rw [map_unpadded fun hpadding => padding_not_mem_alphabet (hmem _ hpadding),
          number_group hfront]
      rw [encodeChars_append hfront, decodeGroups_append (length_letters _ _), hnumber,
        Option.bind_some, ih, Option.bind_some, ← hfront, bigEndian_ofBigEndian]

theorem encodeChars_injective {bytes others : Bytes} (h : Grouped 5 bytes)
    (hothers : Grouped 5 others) (heq : encodeChars bytes = encodeChars others) :
    bytes = others := by
  have hread := decodeGroups_encodeChars h
  rw [heq, decodeGroups_encodeChars hothers] at hread
  exact (Option.some_inj.mp hread).symm

theorem grouped_of_decodeGroups {chars : List Char} {bytes : Bytes}
    (h : decodeGroups chars = some bytes) : Grouped 8 chars := by
  fun_induction decodeGroups chars generalizing bytes with
  | case1 a b c d e f g h' rest ih =>
      obtain ⟨_, _, hrest⟩ := Option.bind_eq_some_iff.mp h
      obtain ⟨_, hlater, _⟩ := Option.bind_eq_some_iff.mp hrest
      exact @Grouped.group _ 8 [a, b, c, d, e, f, g, h'] rest rfl (ih hlater)
  | case2 => exact .nil
  | case3 => cases h

theorem mem_of_decodeGroups {chars : List Char} {bytes : Bytes} (h : Grouped 8 chars)
    (hread : decodeGroups chars = some bytes) : ∀ c ∈ chars, c ∈ '=' :: alphabet := by
  induction h generalizing bytes with
  | nil => exact List.forall_mem_nil _
  | group hfront _ ih =>
      rw [decodeGroups_append hfront, Option.bind_eq_some_iff] at hread
      obtain ⟨n, hnumber, hread⟩ := hread
      obtain ⟨later, hlater, -⟩ := Option.bind_eq_some_iff.mp hread
      exact List.forall_mem_append.mpr ⟨(number?_eq_some.mp hnumber).1, ih hlater⟩

theorem decodeGroups_eq_some {chars : List Char} {bytes : Bytes} (h : Grouped 8 chars) :
    decodeGroups chars = some bytes
      ↔ Grouped 5 bytes ∧ encodeChars bytes = chars.map unpadded := by
  have hgrouped : Grouped 8 (chars.map unpadded) := by
    rwa [grouped_iff, List.length_map, ← grouped_iff]
  constructor
  · intro hread
    have hletter : ∀ c ∈ '=' :: alphabet, unpadded c ∈ alphabet :=
      Digits.forall_mem_of_all (by decide)
    have hmem : ∀ c ∈ chars.map unpadded, c ∈ alphabet :=
      List.forall_mem_map.mpr fun c hc => hletter c (mem_of_decodeGroups h hread c hc)
    -- The letters are written for some bytes, and those are what is read from them.
    obtain ⟨written, hwritten, heq⟩ := exists_encodeChars hgrouped hmem
    have hsame := decodeGroups_encodeChars hwritten
    rw [heq, decodeGroups_unpadded h, hread] at hsame
    cases hsame
    exact ⟨hwritten, heq⟩
  · rintro ⟨hbytes, heq⟩
    rw [← decodeGroups_unpadded h, ← heq, decodeGroups_encodeChars hbytes]

/-! ## Padding at the end -/

theorem unpaddedLength_eq_length {chars : List Char} :
    unpaddedLength chars = chars.length ↔ chars.getLast? ≠ some '=' := by
  rw [unpaddedLength, ← List.head?_reverse]
  cases hreverse : chars.reverse with
  | nil => simp
  | cons last front =>
      have hpos : 0 < chars.length := by
        rw [← List.length_reverse, hreverse]
        exact Nat.zero_lt_succ _
      rw [List.takeWhile_cons, List.head?_cons]
      by_cases hlast : last = '='
      · subst hlast
        simp
        omega
      · simp [hlast]

theorem decodeChars_eq_some {chars : List Char} {bytes : Bytes} (h : Grouped 8 chars)
    (hlength : 8 * bytes.length = 5 * chars.length) :
    decodeChars chars = some bytes
      ↔ chars.getLast? ≠ some '=' ∧ encodeChars bytes = chars.map unpadded := by
  have hle : unpaddedLength chars ≤ chars.length := Nat.sub_le _ _
  rw [decodeChars, Option.map_eq_some_iff, ← unpaddedLength_eq_length]
  constructor
  · rintro ⟨whole, hwhole, rfl⟩
    -- As many bytes as the letters hold can only remain when none is dropped.
    obtain ⟨hgrouped, hencode⟩ := (decodeGroups_eq_some h).mp hwhole
    have hcount := length_encodeChars hgrouped
    rw [hencode, List.length_map] at hcount
    rw [List.length_take] at hlength
    refine ⟨by omega, ?_⟩
    rwa [List.take_of_length_le (by omega)]
  · rintro ⟨hfull, hencode⟩
    have hgrouped : Grouped 5 bytes := by
      rw [grouped_iff] at h ⊢
      omega
    refine ⟨bytes, (decodeGroups_eq_some h).mpr ⟨hgrouped, hencode⟩, ?_⟩
    exact List.take_of_length_le (by omega)

/-! ## Readers without padding -/

/--
What a reader of unpadded text does: it reads back whole groups, and refuses a
text with a character outside the alphabet.
-/
structure Reader (decode : List Char → Option Bytes) : Prop where
  decode_encode : ∀ bytes : Bytes, 5 ∣ bytes.length → decode (encodeChars bytes) = some bytes
  refuses : ∀ chars c, c ∈ chars → c ∉ alphabet → decode chars = none

theorem Reader.decode_eq_some {decode : List Char → Option Bytes} (hreader : Reader decode)
    {chars : List Char} {bytes : Bytes} (h : Grouped 8 chars) :
    decode chars = some bytes ↔ Grouped 5 bytes ∧ encodeChars bytes = chars := by
  constructor
  · intro hread
    have hmem (c : Char) (hc : c ∈ chars) : c ∈ alphabet := by
      by_contra hout
      rw [hreader.refuses chars c hc hout] at hread
      cases hread
    obtain ⟨written, hwritten, rfl⟩ := exists_encodeChars h hmem
    rw [hreader.decode_encode written (grouped_iff.mp hwritten)] at hread
    cases hread
    exact ⟨hwritten, rfl⟩
  · rintro ⟨hbytes, rfl⟩
    exact hreader.decode_encode bytes (grouped_iff.mp hbytes)

/-- Reading with every character outside the alphabet refused, padding too. -/
def decodeUnpadded (chars : List Char) : Option Bytes :=
  if chars.all alphabet.contains then decodeChars chars else none

theorem reader_decodeUnpadded : Reader decodeUnpadded where
  decode_encode bytes h := by
    have hgrouped : Grouped 5 bytes := grouped_iff.mpr h
    have hmem (c : Char) (hc : c ∈ encodeChars bytes) : c ∈ alphabet :=
      mem_alphabet_of_mem_encodeChars hc
    have hlength := length_encodeChars hgrouped
    have hletters : Grouped 8 (encodeChars bytes) := by
      rw [grouped_iff]
      omega
    have hpadding : '=' ∉ encodeChars bytes := fun hc => padding_not_mem_alphabet (hmem _ hc)
    have hall : (encodeChars bytes).all alphabet.contains = true :=
      List.all_eq_true.mpr fun c hc => List.contains_iff_mem.mpr (hmem c hc)
    rw [decodeUnpadded, if_pos hall, decodeChars_eq_some hletters hlength.symm,
      map_unpadded hpadding]
    exact ⟨fun hlast => hpadding (List.mem_of_getLast? hlast), rfl⟩
  refuses chars c hc hout := if_neg fun hall =>
    hout (List.contains_iff_mem.mp (List.all_eq_true.mp hall c hc))

end LedgerTx.Base32
