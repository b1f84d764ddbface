import LedgerTx.Bytes
import Mathlib.Data.List.Induction
import Mathlib.Data.Nat.Digits.Defs

/-!
# Digits of numbers

A number in a base is a list of digits, most significant first.  Texts of
digits are read by one fold, which is refused exactly when a character is no
digit; of a given length there is exactly one list of digits for each number
that is small enough.
-/

namespace LedgerTx

theorem map_map_eq_self {α β : Type} {write : α → β} {read : β → α} {list : List α}
    (h : ∀ a ∈ list, read (write a) = a) : (list.map write).map read = list := by
  rw [List.map_map]
  exact (List.map_congr_left h).trans (List.map_id list)

namespace Digits

/-! ## Characters -/

theorem forall_mem_of_all {chars : List Char} {p : Char → Prop} [DecidablePred p]
    (h : (chars.all fun c => decide (p c)) = true) : ∀ c ∈ chars, p c :=
  fun c hc => of_decide_eq_true (List.all_eq_true.mp h c hc)

theorem eq_some_iff {read : Char → Option Nat} {valueOf : Char → Nat} {chars : List Char}
    (hvalue : ∀ c ∈ chars, read c = some (valueOf c)) (hmem : ∀ c, (read c).isSome → c ∈ chars)
    {c : Char} {d : Nat} : read c = some d ↔ c ∈ chars ∧ valueOf c = d := by
  constructor
  · intro h
    have hc : c ∈ chars := hmem c (Option.isSome_of_eq_some h)
    exact ⟨hc, Option.some_inj.mp ((hvalue c hc).symm.trans h)⟩
  · rintro ⟨hc, rfl⟩
    exact hvalue c hc

def between (first last : Char) : List Char :=
  (List.range' first.toNat (last.toNat + 1 - first.toNat)).map Char.ofNat

theorem mem_between {first last c : Char} (h : first ≤ c ∧ c ≤ last) : c ∈ between first last := by
  obtain ⟨hfirst, hlast⟩ := h
  refine List.mem_map.mpr ⟨c.toNat, List.mem_range'_1.mpr ?_, Char.ofNat_toNat c⟩
  have hlow : first.toNat ≤ c.toNat := UInt32.le_iff_toNat_le.mp hfirst
  have hhigh : c.toNat ≤ last.toNat := UInt32.le_iff_toNat_le.mp hlast
  omega

/-! ## Values -/

variable {base n : Nat} {digits : List Nat}

def value (base : Nat) (digits : List Nat) : Nat :=
  Nat.ofDigits base digits.reverse

theorem value_cons (base d : Nat) (digits : List Nat) :
    value base (d :: digits) = d * base ^ digits.length + value base digits := by
  rw [value, List.reverse_cons, Nat.ofDigits_append, Nat.ofDigits_singleton, List.length_reverse,
    Nat.mul_comm, Nat.add_comm]
  rfl

theorem value_append_singleton (base : Nat) (digits : List Nat) (d : Nat) :
    value base (digits ++ [d]) = base * value base digits + d := by
  rw [value, List.reverse_append, List.reverse_singleton, List.singleton_append, Nat.ofDigits_cons,
    Nat.add_comm]
  rfl

theorem value_lt (hbase : 1 < base) (h : ∀ d ∈ digits, d < base) :
    value base digits < base ^ digits.length := by
  have hlt := Nat.ofDigits_lt_base_pow_length hbase fun d hd => h d (List.mem_reverse.mp hd)
  rwa [List.length_reverse] at hlt

theorem value_dropWhile_zero (base : Nat) (digits : List Nat) :
    value base (digits.dropWhile (· == 0)) = value base digits := by
  induction digits with
  | nil => rfl
  | cons d rest ih =>
      rw [List.dropWhile_cons]
      split
      · rename_i hzero
        rw [ih, value_cons, eq_of_beq hzero, Nat.zero_mul, Nat.zero_add]
      · rfl

/-- Digits without leading zeros are told by their number. -/
theorem dropWhile_zero_eq (hbase : 1 < base) {others : List Nat} (h : ∀ d ∈ digits, d < base)
    (hothers : ∀ d ∈ others, d < base) (hvalue : value base digits = value base others) :
    digits.dropWhile (· == 0) = others.dropWhile (· == 0) := by
  have hdigits {list : List Nat} (hlist : ∀ d ∈ list, d < base) :
      base.digits (value base list) = (list.dropWhile (· == 0)).reverse := by
    rw [← value_dropWhile_zero, value]
    refine Nat.digits_ofDigits base hbase _ (fun d hd => ?_) (fun hne => ?_)
    · exact hlist d ((List.dropWhile_sublist _).mem (List.mem_reverse.mp hd))
    · rw [List.getLast_reverse]
      exact ne_of_beq_false (List.head_dropWhile_not (· == 0) (List.reverse_ne_nil_iff.mp hne))
  have heq := (hdigits h).symm.trans ((congrArg base.digits hvalue).trans (hdigits hothers))
  exact List.reverse_inj.mp heq

/-! ## A fixed number of digits -/

def fixed (base : Nat) : (width : Nat) → Nat → List Nat
  | 0, _ => []
  | width + 1, n => fixed base width (n / base) ++ [n % base]

theorem length_fixed (base width n : Nat) : (fixed base width n).length = width := by
  induction width generalizing n with
  | zero => rfl
  | succ width ih => rw [fixed, List.length_append, ih, List.length_singleton]

theorem lt_of_mem_fixed (hbase : 0 < base) {width d : Nat} (h : d ∈ fixed base width n) :
    d < base := by
  induction width generalizing n with
  | zero => cases h
  | succ width ih =>
      rcases List.mem_append.mp h with h | h
      · exact ih h
      · cases List.mem_singleton.mp h
        exact Nat.mod_lt n hbase

theorem value_fixed (base width n : Nat) : value base (fixed base width n) = n % base ^ width := by
  induction width generalizing n with
  | zero =>
      rw [fixed, Nat.pow_zero, Nat.mod_one]
      rfl
  | succ width ih =>
      rw [fixed, value_append_singleton, ih, Nat.pow_succ', Nat.mod_mul, Nat.add_comm]

theorem fixed_value (h : ∀ d ∈ digits, d < base) :
    fixed base digits.length (value base digits) = digits := by
  induction digits using List.reverseRecOn with
  | nil => rfl
  | append_singleton front d ih =>
      obtain ⟨hfront, hd⟩ := List.forall_mem_append.mp h
      have hlt : d < base := hd d (List.mem_singleton_self d)
      have hdiv : (base * value base front + d) / base = value base front := by
        rw [Nat.mul_add_div (by omega), Nat.div_eq_of_lt hlt, Nat.add_zero]
      have hmod : (base * value base front + d) % base = d := by
        rw [Nat.mul_add_mod, Nat.mod_eq_of_lt hlt]
      rw [List.length_append, List.length_singleton, fixed, value_append_singleton, hdiv, hmod,
        ih hfront]

/-! ## Reading -/

/-- Reading digits one by one succeeds when all of them are digits, with their number. -/
theorem foldlM_eq_some {value? : Char → Option Nat} {valueOf : Char → Nat} {alphabet : List Char}
    (h : ∀ c d, value? c = some d ↔ c ∈ alphabet ∧ valueOf c = d) {chars : List Char}
    {start : Nat} :
    chars.foldlM (fun n c => (value? c).map (base * n + ·)) start = some n
      ↔ (∀ c ∈ chars, c ∈ alphabet)
        ∧ n = start * base ^ chars.length + value base (chars.map valueOf) := by
  induction chars generalizing start with
  | nil => simp [value, eq_comm]
  | cons c rest ih =>
      rw [List.foldlM_cons, List.forall_mem_cons, List.map_cons, value_cons, List.length_map,
        List.length_cons, Nat.pow_succ', Option.bind_eq_bind, Option.bind_eq_some_iff]
      simp only [Option.map_eq_some_iff, h, ih]
      constructor
      · rintro ⟨_, ⟨d, ⟨hc, rfl⟩, rfl⟩, hrest, rfl⟩
        refine ⟨⟨hc, hrest⟩, ?_⟩
        ring
      · rintro ⟨⟨hc, hrest⟩, rfl⟩
        refine ⟨_, ⟨_, ⟨hc, rfl⟩, rfl⟩, hrest, ?_⟩
        ring

end Digits

end LedgerTx
