/-!
# Coded enumerations

A finite type whose members have a name and a numeric code of their own.
Because the codes differ, reading a code gives the member that has it.
-/

namespace LedgerTx

/-- A finite type with a name and a distinct code for each member. -/
class Coded (α : Type) where
  all : List α
  code : α → Nat
  name : α → String
  mem_all : ∀ a, a ∈ all
  nodup_codes : (all.map code).Nodup

namespace Coded

variable {α : Type} [Coded α]

def ofCode? (n : Nat) : Option α :=
  all.find? fun a => code a == n

def ofName? (text : String) : Option α :=
  all.find? fun a => name a == text

omit [Coded α] in
theorem find?_of_nodup {β : Type} [BEq β] [LawfulBEq β] (f : α → β) :
    ∀ {members : List α}, (members.map f).Nodup → ∀ {a : α}, a ∈ members →
      members.find? (fun b => f b == f a) = some a
  | b :: rest, nodup, a, mem => by
      by_cases same : f b = f a
      · rcases List.mem_cons.mp mem with rfl | later
        · simp
        · have absent := (List.nodup_cons.mp nodup).1
          exact absurd (same ▸ List.mem_map_of_mem later) absent
      · have later : a ∈ rest := by
          rcases List.mem_cons.mp mem with rfl | later
          · exact absurd rfl same
          · exact later
        rw [List.find?_cons_of_neg (by simpa using same)]
        exact find?_of_nodup f (List.nodup_cons.mp nodup).2 later

@[simp]
theorem ofCode?_code (a : α) : ofCode? (code a) = some a :=
  find?_of_nodup code nodup_codes (mem_all a)

theorem code_of_ofCode? {n : Nat} {a : α} (h : ofCode? n = some a) : code a = n := by
  simpa using List.find?_some h

theorem code_inj {a b : α} (h : code a = code b) : a = b := by
  have := ofCode?_code a
  rw [h, ofCode?_code] at this
  exact (Option.some.inj this).symm

theorem forall_of_all {p : α → Prop} (h : ∀ a ∈ (all : List α), p a) (a : α) : p a :=
  h a (mem_all a)

end Coded

end LedgerTx
