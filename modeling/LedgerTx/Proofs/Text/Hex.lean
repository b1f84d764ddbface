import LedgerTx.Mosaic
import LedgerTx.Namespace
import LedgerTx.Proofs.Result
import LedgerTx.Proofs.Text.Digits

/-!
# Words in hexadecimal text

A word is read from one to sixteen hexadecimal digits of either case, and a
plus sign may stand in front of fewer than sixteen.  Nothing else is accepted,
and what a word is written as reads back.  Texts of one word differ in the
sign, in case and in leading zeros.
-/

namespace LedgerTx

namespace Hex

/-! ## Digits -/

def digits : List Char := "0123456789abcdefABCDEF".toList

def valueOf (c : Char) : Nat := "0123456789abcdef".toList.idxOf c.toLower

theorem digits_eq : digits =
    Digits.between '0' '9' ++ (Digits.between 'a' 'f' ++ Digits.between 'A' 'F') := by
  decide

theorem value?_eq_some {c : Char} {d : Nat} : value? c = some d ↔ c ∈ digits ∧ valueOf c = d := by
  have hvalue : ∀ c ∈ digits, value? c = some (valueOf c) := Digits.forall_mem_of_all (by decide)
  refine Digits.eq_some_iff hvalue fun c h => ?_
  rw [digits_eq, List.mem_append, List.mem_append]
  unfold value? at h
  split at h
  · exact .inl (Digits.mem_between ‹_›)
  · split at h
    · exact .inr (.inr (Digits.mem_between ‹_›))
    · split at h
      · exact .inr (.inl (Digits.mem_between ‹_›))
      · cases h

theorem utf8Size_of_mem_digits : ∀ c ∈ digits, c.utf8Size = 1 :=
  Digits.forall_mem_of_all (by decide)

theorem valueOf_lt : ∀ c ∈ digits, valueOf c < 16 := Digits.forall_mem_of_all (by decide)

theorem digit_mem_digits : ∀ d < 16, digit d ∈ digits := by decide

theorem valueOf_digit : ∀ d < 16, valueOf (digit d) = d := by decide

theorem padded_eq (width n : Nat) : padded width n = (Digits.fixed 16 width n).map digit := by
  induction width generalizing n with
  | zero => rfl
  | succ width ih => rw [padded, Digits.fixed, ih, List.map_append, List.map_singleton]

/-! ## Case and leading zeros -/

theorem dropWhile_zero_toLower {chars : List Char} (h : ∀ c ∈ chars, c ∈ digits) :
    (chars.map Char.toLower).dropWhile (· == '0')
      = ((chars.map valueOf).dropWhile (· == 0)).map lowerDigit := by
  have hlower : ∀ c ∈ digits, c.toLower = lowerDigit (valueOf c) :=
    Digits.forall_mem_of_all (by decide)
  have hzero : ∀ c ∈ digits, (c.toLower == '0') = (valueOf c == 0) :=
    Digits.forall_mem_of_all (by decide)
  induction chars with
  | nil => rfl
  | cons c rest ih =>
      obtain ⟨hc, hrest⟩ := List.forall_mem_cons.mp h
      rw [List.map_cons, List.map_cons, List.dropWhile_cons, List.dropWhile_cons, hzero c hc]
      split
      · exact ih hrest
      · rw [List.map_cons, ← hlower c hc, List.map_map,
          List.map_congr_left fun c hc => hlower c (hrest c hc)]
        rfl

theorem value_eq_iff {chars others : List Char} (h : ∀ c ∈ chars, c ∈ digits)
    (hothers : ∀ c ∈ others, c ∈ digits) :
    Digits.value 16 (chars.map valueOf) = Digits.value 16 (others.map valueOf)
      ↔ (chars.map Char.toLower).dropWhile (· == '0')
          = (others.map Char.toLower).dropWhile (· == '0') := by
  have hlt {list : List Char} (hlist : ∀ c ∈ list, c ∈ digits) :
      ∀ d ∈ list.map valueOf, d < 16 :=
    List.forall_mem_map.mpr fun c hc => valueOf_lt c (hlist c hc)
  rw [dropWhile_zero_toLower h, dropWhile_zero_toLower hothers]
  constructor
  · intro hvalue
    rw [Digits.dropWhile_zero_eq (by decide) (hlt h) (hlt hothers) hvalue]
  · intro heq
    -- The lower-case digits of the values tell the values.
    have hvalues {list : List Char} (hlist : ∀ c ∈ list, c ∈ digits) :
        (((list.map valueOf).dropWhile (· == 0)).map lowerDigit).map valueOf
          = (list.map valueOf).dropWhile (· == 0) := by
      have hback : ∀ d < 16, valueOf (lowerDigit d) = d := by decide
      exact map_map_eq_self fun d hd => hback d (hlt hlist d ((List.dropWhile_sublist _).mem hd))
    rw [← Digits.value_dropWhile_zero 16 (chars.map valueOf), ← hvalues h, heq, hvalues hothers,
      Digits.value_dropWhile_zero]

end Hex

namespace Word64

/-! ## Reading -/

/-- One to sixteen hexadecimal digits and nothing else, with the word as their value. -/
structure Spells (chars : List Char) (word : UInt64) : Prop where
  length_pos : 0 < chars.length
  length_le : chars.length ≤ 16
  digits : ∀ c ∈ chars, c ∈ Hex.digits
  value : word.toNat = Digits.value 16 (chars.map Hex.valueOf)

def unsigned : List Char → List Char
  | '+' :: digits => digits
  | chars => chars

/-- The digits that count: in lower case, without a plus sign and leading zeros. -/
def significant (text : String) : List Char :=
  ((unsigned text.toList).map Char.toLower).dropWhile (· == '0')

theorem signedValue?_eq (chars : List Char) : signedValue? chars = digitsValue? (unsigned chars) := by
  fun_cases unsigned chars with
  | case1 digits => rfl
  | case2 _ hsign => exact signedValue?.eq_2 chars hsign

theorem length_unsigned_le (chars : List Char) : (unsigned chars).length ≤ chars.length := by
  unfold unsigned
  split
  · exact Nat.le_succ _
  · exact Nat.le_refl _

theorem utf8Size_of_unsigned {chars : List Char} (h : ∀ c ∈ unsigned chars, c ∈ Hex.digits) :
    ∀ c ∈ chars, c.utf8Size = 1 := by
  unfold unsigned at h
  split at h
  · exact List.forall_mem_cons.mpr ⟨rfl, fun c hc => Hex.utf8Size_of_mem_digits c (h c hc)⟩
  · exact fun c hc => Hex.utf8Size_of_mem_digits c (h c hc)

theorem digitsValue?_eq_some {chars : List Char} {n : Nat} :
    digitsValue? chars = some n ↔ 0 < chars.length ∧ (∀ c ∈ chars, c ∈ Hex.digits)
      ∧ n = Digits.value 16 (chars.map Hex.valueOf) := by
  unfold digitsValue?
  cases chars with
  | nil => simp
  | cons c rest =>
      rw [List.isEmpty_cons, if_neg Bool.false_ne_true,
        Digits.foldlM_eq_some fun c d => Hex.value?_eq_some, Nat.zero_mul, Nat.zero_add,
        and_iff_right (show 0 < (c :: rest).length from Nat.zero_lt_succ _)]

theorem toNat_toUInt64_of_value {chars : List Char} (hlength : chars.length ≤ 16)
    (h : ∀ c ∈ chars, c ∈ Hex.digits) :
    (Digits.value 16 (chars.map Hex.valueOf)).toUInt64.toNat
      = Digits.value 16 (chars.map Hex.valueOf) := by
  have hdigits : ∀ d ∈ chars.map Hex.valueOf, d < 16 :=
    List.forall_mem_map.mpr fun c hc => Hex.valueOf_lt c (h c hc)
  have hvalue := Digits.value_lt (by decide) hdigits
  rw [List.length_map] at hvalue
  have hpow : 16 ^ chars.length ≤ 16 ^ 16 := Nat.pow_le_pow_right (by decide) hlength
  exact UInt64.toNat_ofNat_of_lt (Nat.lt_of_lt_of_le hvalue hpow)

/-- A text of at most sixteen characters is read by the digits behind its sign. -/
theorem ofHex_eq_ok {text : String} {word : UInt64} :
    ofHex text = .ok word ↔ text.toList.length ≤ 16 ∧ Spells (unsigned text.toList) word := by
  -- The bound is one in bytes, which are the characters as soon as those are digits.
  have hsize (h : ∀ c ∈ unsigned text.toList, c ∈ Hex.digits) :
      Utf8.size text = text.toList.length := by
    rw [← Utf8.size_ofList_of_narrow (utf8Size_of_unsigned h), String.ofList_toList]
  unfold ofHex
  rw [refuse_eq_ok, signedValue?_eq]
  constructor
  · rintro ⟨hbound, h⟩
    cases hvalue : digitsValue? (unsigned text.toList) with
    | none =>
        rw [hvalue] at h
        cases h
    | some n =>
        rw [hvalue] at h
        cases h
        obtain ⟨hpos, hdigits, rfl⟩ := digitsValue?_eq_some.mp hvalue
        rw [hsize hdigits] at hbound
        have hunsigned := length_unsigned_le text.toList
        exact ⟨by omega, hpos, by omega, hdigits, toNat_toUInt64_of_value (by omega) hdigits⟩
  · rintro ⟨hlength, hpos, hle, hdigits, hvalue⟩
    have hunsigned := length_unsigned_le text.toList
    rw [digitsValue?_eq_some.mpr ⟨hpos, hdigits, rfl⟩, hsize hdigits]
    refine ⟨by omega, congrArg Except.ok (UInt64.toNat_inj.mp ?_)⟩
    rw [toNat_toUInt64_of_value hle hdigits, hvalue]

theorem spells_unsigned {chars : List Char} {word : UInt64} :
    chars.length ≤ 16 ∧ Spells (unsigned chars) word
      ↔ Spells chars word ∨ ∃ digits, chars = '+' :: digits ∧ digits.length < 16
          ∧ Spells digits word := by
  have hplus : '+' ∉ Hex.digits := by decide
  unfold unsigned
  split
  · rename_i digits
    constructor
    · rintro ⟨hlength, h⟩
      exact .inr ⟨digits, rfl, hlength, h⟩
    · rintro (h | ⟨_, heq, hlength, h⟩)
      · exact absurd (h.digits _ List.mem_cons_self) hplus
      · cases heq
        exact ⟨hlength, h⟩
  · rename_i hsign
    constructor
    · rintro ⟨-, h⟩
      exact .inl h
    · rintro (h | ⟨digits, heq, -⟩)
      · exact ⟨h.length_le, h⟩
      · exact absurd heq (hsign digits)

/-! ## Writing -/

theorem spells_toHex (word : UInt64) : Spells (toHex word).toList word := by
  have hlist : (toHex word).toList = (Digits.fixed 16 16 word.toNat).map Hex.digit := by
    rw [toHex, Hex.ofNat, String.toList_ofList, Hex.padded_eq]
  have hlength : (toHex word).toList.length = 16 := by
    rw [hlist, List.length_map, Digits.length_fixed]
  have hlt (d : Nat) (hd : d ∈ Digits.fixed 16 16 word.toNat) : d < 16 :=
    Digits.lt_of_mem_fixed (by decide) hd
  refine ⟨by omega, by omega, ?_, ?_⟩
  · rw [hlist, List.forall_mem_map]
    exact fun d hd => Hex.digit_mem_digits d (hlt d hd)
  · have hvalues : (toHex word).toList.map Hex.valueOf = Digits.fixed 16 16 word.toNat := by
      rw [hlist]
      exact map_map_eq_self fun d hd => Hex.valueOf_digit d (hlt d hd)
    rw [hvalues, Digits.value_fixed]
    exact (Nat.mod_eq_of_lt word.toNat_lt).symm

/--
A text is read as a word exactly when it consists of one to sixteen hexadecimal
digits of that value, or of a plus sign and fewer than sixteen; ids of mosaics
and of namespaces are read from the same texts.  A written word reads back, and
texts of one word differ in sign, case and leading zeros only.
-/
theorem read_from_digits (text : String) (word : UInt64) :
    (ofHex text = .ok word ↔ Spells text.toList word
        ∨ ∃ digits, text.toList = '+' :: digits ∧ digits.length < 16 ∧ Spells digits word)
      ∧ (MosaicId.ofHex text = .ok ⟨word⟩ ↔ ofHex text = .ok word)
      ∧ (NamespaceId.ofHex text = .ok ⟨word⟩ ↔ ofHex text = .ok word)
      ∧ ofHex (toHex word) = .ok word
      ∧ ∀ other otherWord, ofHex text = .ok word → ofHex other = .ok otherWord →
          (word = otherWord ↔ significant text = significant other) := by
  refine ⟨ofHex_eq_ok.trans spells_unsigned, ?_, ?_, ?_, ?_⟩
  · rw [MosaicId.ofHex, map_eq_ok]
    simp
  · rw [NamespaceId.ofHex, map_eq_ok]
    simp
  · exact ofHex_eq_ok.mpr (spells_unsigned.mpr (.inl (spells_toHex word)))
  · intro other otherWord h hother
    obtain ⟨-, hspells⟩ := ofHex_eq_ok.mp h
    obtain ⟨-, hothers⟩ := ofHex_eq_ok.mp hother
    rw [significant, significant, ← Hex.value_eq_iff hspells.digits hothers.digits,
      ← hspells.value, ← hothers.value, UInt64.toNat_inj]

theorem read_from_digits_fifteen :
    ofHex "0F" = .ok 15 ∧ ofHex "+f" = .ok 15 ∧ significant "0F" = significant "+f" := by
  have h : ofHex "0F" = .ok 15 := by decide
  have hother : ofHex "+f" = .ok 15 := by decide
  have hsame := (read_from_digits "0F" 15).2.2.2.2 "+f" 15 h hother
  exact ⟨h, hother, hsame.mp rfl⟩

theorem signed_text_read : ofHex "+F" = .ok 15 ∧ ∀ word, ¬Spells "+F".toList word := by
  have hplus : '+' ∉ Hex.digits := by decide
  exact ⟨by decide, fun word h => hplus (h.digits '+' (by decide))⟩

end Word64

end LedgerTx
