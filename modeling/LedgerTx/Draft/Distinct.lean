/-!
# Distinct keys

The search for the first entry of a list whose key an earlier entry has.  It
finds nothing exactly when all keys differ.
-/

namespace LedgerTx.Draft

variable {α κ : Type} [DecidableEq κ]

/-- The first entry whose key is among `seen` or belongs to an earlier entry. -/
def repeatAfter (key : α → κ) (seen : List κ) : List α → Option α
  | [] => none
  | a :: rest => if key a ∈ seen then some a else repeatAfter key (key a :: seen) rest

def firstRepeat? (key : α → κ) (entries : List α) : Option α :=
  repeatAfter key [] entries

theorem repeatAfter_eq_none_iff (key : α → κ) (entries : List α) (seen : List κ) :
    repeatAfter key seen entries = none ↔
      (entries.map key).Nodup ∧ ∀ a ∈ entries, key a ∉ seen := by
  induction entries generalizing seen with
  | nil => simp [repeatAfter]
  | cons a rest ih =>
      rw [repeatAfter]
      split
      · next mem => simp [mem]
      · next fresh =>
          rw [ih]
          simp only [List.map_cons, List.nodup_cons, List.mem_map, List.mem_cons]
          constructor
          · rintro ⟨distinct, others⟩
            refine ⟨⟨?_, distinct⟩, ?_⟩
            · rintro ⟨b, mem, same⟩
              exact others b mem (Or.inl same)
            · rintro b (rfl | mem)
              · exact fresh
              · exact fun seenB => others b mem (Or.inr seenB)
          · rintro ⟨⟨absent, distinct⟩, others⟩
            refine ⟨distinct, fun b mem => ?_⟩
            rintro (same | seenB)
            · exact absent ⟨b, mem, same⟩
            · exact others b (Or.inr mem) seenB

theorem firstRepeat?_eq_none_iff (key : α → κ) (entries : List α) :
    firstRepeat? key entries = none ↔ (entries.map key).Nodup := by
  simp [firstRepeat?, repeatAfter_eq_none_iff]

end LedgerTx.Draft
