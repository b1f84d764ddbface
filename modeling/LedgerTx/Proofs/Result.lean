import Mathlib.Algebra.GroupWithZero.Nat
import Mathlib.Data.List.Forall2

/-!
# Results of partial computations

A computation that may be refused succeeds exactly when its steps succeed.
These facts take a chain of steps apart, and a run over a list; what is
refused is refused by its first step that is.
-/

namespace LedgerTx

variable {ε α β : Type}

theorem bind_eq_ok {x : Except ε α} {f : α → Except ε β} {b : β} :
    (x >>= f) = .ok b ↔ ∃ a, x = .ok a ∧ f a = .ok b := by
  constructor
  · intro h
    cases x with
    | error e => cases h
    | ok a => exact ⟨a, rfl, h⟩
  · rintro ⟨a, rfl, h⟩
    exact h

theorem then_eq_ok {x : Except ε Unit} {y : Except ε β} {b : β} :
    (x >>= fun _ => y) = .ok b ↔ x = .ok () ∧ y = .ok b := by
  rw [bind_eq_ok]
  constructor
  · rintro ⟨⟨⟩, hx, hy⟩
    exact ⟨hx, hy⟩
  · rintro ⟨hx, hy⟩
    exact ⟨(), hx, hy⟩

theorem map_eq_ok {x : Except ε α} {f : α → β} {b : β} :
    x.map f = .ok b ↔ ∃ a, x = .ok a ∧ f a = b := by
  cases x with
  | error e => simp [Except.map]
  | ok a => simp [Except.map]

theorem mapError_eq_ok {ε' : Type} {report : ε → ε'} {x : Except ε α} {a : α} :
    x.mapError report = .ok a ↔ x = .ok a := by
  cases x with
  | error e => simp [Except.mapError]
  | ok b => simp [Except.mapError]

/-- Computations of one kind are lifted to another by reporting their refusals in another way. -/
class Reported (ε ε' : Type) [MonadLift (Except ε) (Except ε')] : Prop where
  exists_report {α : Type} (x : Except ε α) :
    ∃ report : ε → ε', (liftM x : Except ε' α) = x.mapError report

@[simp] theorem lift_eq_ok {ε' : Type} [MonadLift (Except ε) (Except ε')] [Reported ε ε']
    {x : Except ε α} {a : α} : (liftM x : Except ε' α) = .ok a ↔ x = .ok a := by
  obtain ⟨report, hreport⟩ : ∃ report : ε → ε', (liftM x : Except ε' α) = x.mapError report :=
    Reported.exists_report x
  rw [hreport, mapError_eq_ok]

theorem refuse_eq_ok {p : Prop} [Decidable p] {e : ε} {x : Except ε α} {a : α} :
    (if p then .error e else x) = .ok a ↔ ¬p ∧ x = .ok a := by
  by_cases h : p <;> simp [h]

theorem refuse_eq_error {p : Prop} [Decidable p] {e e' : ε} {x : Except ε α} :
    (if p then .error e else x) = .error e' ↔ p ∧ e = e' ∨ ¬p ∧ x = .error e' := by
  by_cases h : p <;> simp [h]

theorem eq_ok_of_toOption {x : Except ε α} {a : α} (h : x.toOption = some a) : x = .ok a := by
  cases x with
  | error e => cases h
  | ok b =>
      cases h
      rfl

theorem mapM_eq_ok {f : α → Except ε β} {list : List α} {results : List β} :
    list.mapM f = .ok results ↔ List.Forall₂ (fun a b => f a = .ok b) list results := by
  induction list generalizing results with
  | nil =>
      rw [List.mapM_nil]
      constructor
      · intro h
        cases h
        exact .nil
      · intro h
        cases h
        rfl
  | cons a list ih =>
      rw [List.mapM_cons, bind_eq_ok]
      constructor
      · rintro ⟨b, hb, h⟩
        obtain ⟨rest, hrest, h⟩ := bind_eq_ok.mp h
        cases h
        exact .cons hb (ih.mp hrest)
      · intro h
        cases h with
        | cons hb hrest => exact ⟨_, hb, bind_eq_ok.mpr ⟨_, ih.mpr hrest, rfl⟩⟩

theorem forM_eq_ok {check : α → Except ε Unit} {list : List α} :
    list.forM check = .ok () ↔ ∀ a ∈ list, check a = .ok () := by
  induction list with
  | nil =>
      constructor
      · intro _ _ hmem
        cases hmem
      · intro _
        rfl
  | cons a rest ih => rw [List.forM, then_eq_ok, List.forall_mem_cons, ih]

theorem exists_mapM_eq_ok {f : α → Except ε β} {list : List α}
    (h : ∀ a ∈ list, ∃ b, f a = .ok b) : ∃ results, list.mapM f = .ok results := by
  induction list with
  | nil => exact ⟨[], rfl⟩
  | cons a rest ih =>
      obtain ⟨⟨b, hb⟩, hrest⟩ := List.forall_mem_cons.mp h
      obtain ⟨results, hresults⟩ := ih hrest
      exact ⟨b :: results, mapM_eq_ok.mpr (.cons hb (mapM_eq_ok.mp hresults))⟩

theorem forall_of_forall₂ {R : α → β → Prop} {p : β → Prop}
    (hp : ∀ a b, R a b → p b) {list : List α} {results : List β}
    (h : List.Forall₂ R list results) : ∀ b ∈ results, p b := by
  induction h with
  | nil => exact fun _ hmem => nomatch hmem
  | cons hhead _ ih => exact List.forall_mem_cons.mpr ⟨hp _ _ hhead, ih⟩

/-! ## Refusals -/

theorem bind_eq_error {x : Except ε α} {f : α → Except ε β} {e : ε} :
    (x >>= f) = .error e ↔ x = .error e ∨ ∃ a, x = .ok a ∧ f a = .error e := by
  cases x with
  | error cause => simp [bind, Except.bind]
  | ok a => simp [bind, Except.bind]

theorem exists_of_forM_eq_error {check : α → Except ε Unit} {list : List α} {e : ε}
    (h : list.forM check = .error e) : ∃ a ∈ list, check a = .error e := by
  induction list with
  | nil => cases h
  | cons a rest ih =>
      rw [List.forM] at h
      rcases bind_eq_error.mp h with hhead | ⟨-, -, hrest⟩
      · exact ⟨a, List.mem_cons_self, hhead⟩
      · obtain ⟨b, hb, hcheck⟩ := ih hrest
        exact ⟨b, List.mem_cons_of_mem a hb, hcheck⟩

/-- A computation whose refusal, if any, is known beforehand. -/
def RefusedFor (x : Except ε α) (fault : Option ε) : Prop :=
  ∀ e, x = .error e ↔ fault = some e

namespace RefusedFor

variable {x : Except ε α} {fault : Option ε}

theorem of_cases (hok : fault = none → ∃ a, x = .ok a)
    (herror : ∀ e, fault = some e → x = .error e) : RefusedFor x fault := by
  intro e
  refine ⟨fun hx => ?_, herror e⟩
  cases hfault : fault with
  | none =>
      obtain ⟨a, ha⟩ := hok hfault
      cases hx.symm.trans ha
  | some cause =>
      cases hx.symm.trans (herror cause hfault)
      rfl

theorem exists_ok_iff (h : RefusedFor x fault) : (∃ a, x = .ok a) ↔ fault = none := by
  constructor
  · rintro ⟨a, hx⟩
    refine Option.eq_none_iff_forall_ne_some.mpr fun cause hfault => ?_
    cases hx.symm.trans ((h cause).mpr hfault)
  · intro hnone
    cases hx : x with
    | error cause => cases hnone.symm.trans ((h cause).mp hx)
    | ok a => exact ⟨a, rfl⟩

/-- A run over a list is refused for the first fault of an entry. -/
theorem mapM {f : α → Except ε β} {fault : α → Option ε} {list : List α}
    (h : ∀ a ∈ list, RefusedFor (f a) (fault a)) :
    RefusedFor (list.mapM f) (list.findSome? fault) := by
  intro e
  induction list with
  | nil => simp [pure, Except.pure]
  | cons a rest ih =>
      obtain ⟨hhead, hrest⟩ := List.forall_mem_cons.mp h
      rw [List.mapM_cons, bind_eq_error, List.findSome?_cons]
      cases hfault : fault a with
      | some cause =>
          have hcause := (hhead cause).mpr hfault
          simp [hcause]
      | none =>
          obtain ⟨b, hb⟩ := hhead.exists_ok_iff.mpr hfault
          simp [hb, bind_eq_error, ih hrest, pure, Except.pure]

end RefusedFor

/-- Computations that are refused alike: when one of them is, and for the same cause. -/
def SameRefusal (x : Except ε α) (y : Except ε β) : Prop :=
  ∀ e, x = .error e ↔ y = .error e

namespace SameRefusal

variable {γ δ : Type} {x : Except ε α} {y : Except ε β} {z : Except ε γ}

theorem refl (x : Except ε α) : SameRefusal x x :=
  fun _ => Iff.rfl

theorem symm (h : SameRefusal x y) : SameRefusal y x :=
  fun e => (h e).symm

theorem trans (h : SameRefusal x y) (h' : SameRefusal y z) : SameRefusal x z :=
  fun e => (h e).trans (h' e)

theorem of_fault {fault : Option ε} (hx : RefusedFor x fault) (hy : RefusedFor y fault) :
    SameRefusal x y :=
  fun e => (hx e).trans (hy e).symm

theorem of_ok {a : α} {b : β} (hx : x = .ok a) (hy : y = .ok b) : SameRefusal x y := by
  intro e
  simp [hx, hy]

theorem of_error {e : ε} (hx : x = .error e) (hy : y = .error e) : SameRefusal x y := by
  intro cause
  simp [hx, hy]

theorem exists_ok (h : SameRefusal x y) {a : α} (hx : x = .ok a) : ∃ b, y = .ok b := by
  cases hy : y with
  | error e => cases hx.symm.trans ((h e).mpr hy)
  | ok b => exact ⟨b, rfl⟩

theorem bind (h : SameRefusal x y) {f : α → Except ε γ} {g : β → Except ε δ}
    (hstep : ∀ a b, x = .ok a → y = .ok b → SameRefusal (f a) (g b)) :
    SameRefusal (x >>= f) (y >>= g) := by
  cases hx : x with
  | error e => exact of_error rfl (by rw [(h e).mp hx]; rfl)
  | ok a =>
      obtain ⟨b, hy⟩ := h.exists_ok hx
      rw [hy]
      exact hstep a b hx hy

theorem bind_ok {f : α → Except ε γ} (h : ∀ a, ∃ c, f a = .ok c) : SameRefusal (x >>= f) x := by
  cases hx : x with
  | error e => exact of_error rfl rfl
  | ok a =>
      obtain ⟨c, hc⟩ := h a
      exact of_ok hc rfl

end SameRefusal

/-! ## Lists that are written back -/

variable {γ : Type} {read : γ → Except ε α} {write : α → γ} {sources : List γ} {list : List α}

/-- A run that reads entries succeeds exactly when they are written for what it gives. -/
theorem mapM_eq_ok_map {good : α → Prop}
    (h : ∀ source ∈ sources, ∀ a, read source = .ok a ↔ good a ∧ source = write a) :
    sources.mapM read = .ok list ↔ (∀ a ∈ list, good a) ∧ sources = list.map write := by
  rw [mapM_eq_ok]
  induction sources generalizing list with
  | nil => cases list <;> simp
  | cons source rest ih =>
      cases list with
      | nil => simp
      | cons a list =>
          rw [List.forall₂_cons, h source List.mem_cons_self,
            ih fun other hother => h other (List.mem_cons_of_mem _ hother)]
          simp only [List.forall_mem_cons, List.map_cons, List.cons.injEq]
          tauto

theorem mapM_eq_ok_map_iff
    (h : ∀ source ∈ sources, ∀ a, read source = .ok a ↔ source = write a) :
    sources.mapM read = .ok list ↔ sources = list.map write := by
  have hread (source : γ) (hsource : source ∈ sources) (a : α) :
      read source = .ok a ↔ True ∧ source = write a :=
    (h source hsource a).trans (and_iff_right trivial).symm
  rw [mapM_eq_ok_map hread]
  exact and_iff_right fun _ _ => trivial

end LedgerTx
