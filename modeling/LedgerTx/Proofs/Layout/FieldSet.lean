import LedgerTx.Layout.Flat
import LedgerTx.Proofs.Result

/-!
# Lookups in field sets

The value under a name after an insertion, in joined sets and in a scope.  A
set whose names differ is determined by its names, in order, and by the
values under them.
-/

namespace LedgerTx.Layout

theorem toNat_toUInt64 {n : Nat} (h : n < 2 ^ 64) : n.toUInt64.toNat = n := by
  rw [Nat.toUInt64, UInt64.toNat_ofNat', Nat.mod_eq_of_lt h]

/-! ## Field sets -/

namespace FieldSet

variable {fields other : FieldSet} {name key : String} {value : Value}

@[simp] theorem get?_nil (name : String) : get? [] name = none := rfl

theorem get?_cons (key : String) (value : Value) (rest : FieldSet) (name : String) :
    get? ((key, value) :: rest) name = if name = key then some value else get? rest name := by
  simp only [get?, List.lookup_cons]
  split <;> simp_all

@[simp] theorem get?_cons_self (key : String) (value : Value) (rest : FieldSet) :
    get? ((key, value) :: rest) key = some value := by
  rw [get?_cons, if_pos rfl]

theorem get?_cons_ne (h : name ≠ key) (value : Value) (rest : FieldSet) :
    get? ((key, value) :: rest) name = get? rest name := by
  rw [get?_cons, if_neg h]

theorem get?_append (fields other : FieldSet) (name : String) :
    get? (fields ++ other) name = (get? fields name).or (get? other name) := by
  simp only [get?, List.lookup_append]

theorem get?_eq_none : get? fields name = none ↔ name ∉ fields.map Prod.fst := by
  simp only [get?, List.lookup_eq_none_iff, bne_iff_ne, List.mem_map, not_exists, not_and]
  constructor
  · intro h entry hentry heq
    exact h entry hentry heq.symm
  · intro h entry hentry heq
    exact h entry hentry heq.symm

theorem insert_of_get?_eq_none (h : get? fields name = none) (value : Value) :
    insert fields name value = fields ++ [(name, value)] := by
  induction fields with
  | nil => rfl
  | cons entry rest ih =>
      obtain ⟨key, old⟩ := entry
      rw [get?_cons] at h
      split at h
      · cases h
      · rename_i hne
        rw [insert, if_neg (Ne.symm hne), ih h]
        rfl

theorem get?_of_mem (hnodup : (fields.map Prod.fst).Nodup) (h : (name, value) ∈ fields) :
    get? fields name = some value := by
  induction fields with
  | nil => cases h
  | cons entry rest ih =>
      obtain ⟨key, old⟩ := entry
      obtain ⟨habsent, hnodup⟩ := List.nodup_cons.mp hnodup
      rcases List.mem_cons.mp h with heq | hrest
      · cases heq
        exact get?_cons_self _ _ _
      · have hne : name ≠ key := by
          rintro rfl
          exact habsent (List.mem_map.mpr ⟨_, hrest, rfl⟩)
        rw [get?_cons_ne hne]
        exact ih hnodup hrest

theorem get_eq_ok : get fields name = .ok value ↔ get? fields name = some value := by
  unfold get
  cases get? fields name with
  | none => simp
  | some found => simp

end FieldSet

/-! ## Scopes -/

namespace Scope

variable {scope outer : Scope} {fields : FieldSet} {name : String}

theorem lookup_cons_congr {other : FieldSet} {outer' : Scope} {value : Value}
    (h : fields.get? name = some value) (h' : other.get? name = some value) :
    lookup (fields :: outer) name = lookup (other :: outer') name := by
  cases value <;> simp only [lookup, h, h']

theorem lookup_cons_of_none (h : fields.get? name = none) :
    lookup (fields :: outer) name = lookup outer name := by
  simp only [lookup, h]

theorem lookup_cons_eq {other : FieldSet} (h : fields.get? name = other.get? name) :
    lookup (fields :: outer) name = lookup (other :: outer) name := by
  simp only [lookup, h]

/-- Scopes that give the same scalar under each of some names. -/
def Agree (names : List String) (scope scope' : Scope) : Prop :=
  ∀ name ∈ names, scope.lookup name = scope'.lookup name

theorem Agree.mono {names names' : List String} {scope scope' : Scope}
    (h : Agree names scope scope') (hsubset : ∀ name ∈ names', name ∈ names) :
    Agree names' scope scope' :=
  fun name hname => h name (hsubset name hname)

end Scope

end LedgerTx.Layout
