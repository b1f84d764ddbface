import LedgerTx.Namespace
import LedgerTx.Proofs.Result
import Mathlib.Data.List.Basic

/-!
# The grammar of namespace names

A name is accepted exactly when it is one to three parts joined by single
dots, and a part exactly when it is a text of `[a-z0-9][a-z0-9_-]*` with at
most 64 bytes.  Whatever the parent, bit 63 of a derived id is set.
-/

namespace LedgerTx

namespace NamespaceName

/-! ## The grammar -/

def opening : List Char := "abcdefghijklmnopqrstuvwxyz0123456789".toList

def following : List Char := opening ++ ['_', '-']

/-- A text of `[a-z0-9][a-z0-9_-]*` with at most 64 bytes. -/
structure IsPart (part : String) : Prop where
  form : ∃ first later, part.toList = first :: later ∧ first ∈ opening
    ∧ ∀ c ∈ later, c ∈ following
  size_le : Utf8.size part ≤ 64

/-- One to three parts joined by single dots. -/
def IsName (name : String) : Prop :=
  ∃ parts : List String, (1 ≤ parts.length ∧ parts.length ≤ 3) ∧ (∀ part ∈ parts, IsPart part)
    ∧ name = ".".intercalate parts

def openingCodes : List Nat := List.range' 97 26 ++ List.range' 48 10

theorem opening_eq : opening = openingCodes.map Char.ofNat := by decide

theorem isFirst_iff {c : Char} : isFirst c = true ↔ c ∈ opening := by
  rw [opening_eq, List.mem_map]
  constructor
  · intro h
    refine ⟨c.toNat, ?_, Char.ofNat_toNat c⟩
    simp only [isFirst, Bool.or_eq_true, Bool.and_eq_true, decide_eq_true_eq, Char.le_def,
      UInt32.le_iff_toNat_le] at h
    simp only [openingCodes, List.mem_append, List.mem_range'_1]
    have ha : 'a'.val.toNat = 97 := rfl
    have hz : 'z'.val.toNat = 122 := rfl
    have h0 : '0'.val.toNat = 48 := rfl
    have h9 : '9'.val.toNat = 57 := rfl
    rw [ha, hz, h0, h9] at h
    show (97 ≤ c.val.toNat ∧ c.val.toNat < 97 + 26) ∨ (48 ≤ c.val.toNat ∧ c.val.toNat < 48 + 10)
    omega
  · rintro ⟨code, hcode, rfl⟩
    have hall : ∀ code ∈ openingCodes, isFirst (Char.ofNat code) = true := by decide
    exact hall code hcode

theorem isLater_iff {c : Char} : isLater c = true ↔ c ∈ following := by
  rw [following, List.mem_append, ← isFirst_iff]
  simp [isLater, or_assoc]

theorem IsPart.dot_not_mem {part : String} (h : IsPart part) : '.' ∉ part.toList := by
  obtain ⟨first, later, htext, hfirst, hlater⟩ := h.form
  have hopening : '.' ∉ opening := by decide
  have hfollowing : '.' ∉ following := by decide
  rw [htext, List.mem_cons, not_or]
  constructor
  · rintro rfl
    exact hopening hfirst
  · intro hmem
    exact hfollowing (hlater _ hmem)

theorem IsPart.ne_empty {part : String} (h : IsPart part) : part ≠ "" := by
  rintro rfl
  obtain ⟨first, later, htext, -⟩ := h.form
  cases htext

/-! ## Parts -/

theorem checkPart_eq_ok {part : String} : checkPart part = .ok () ↔ IsPart part := by
  unfold checkPart
  cases htext : part.toList with
  | nil =>
      constructor
      · intro h
        cases h
      · rintro ⟨⟨first, later, hform, -⟩, -⟩
        cases htext.symm.trans hform
  | cons first later =>
      have hpart : IsPart part ↔ isFirst first = true ∧ (∀ c ∈ later, isLater c = true)
          ∧ Utf8.size part ≤ maxSize := by
        simp only [isFirst_iff, isLater_iff]
        constructor
        · rintro ⟨⟨_, _, hform, hfirst, hlater⟩, hsize⟩
          cases htext.symm.trans hform
          exact ⟨hfirst, hlater, hsize⟩
        · rintro ⟨hfirst, hlater, hsize⟩
          exact ⟨⟨first, later, htext, hfirst, hlater⟩, hsize⟩
      rw [hpart, refuse_eq_ok]
      cases hfind : later.find? fun c => !isLater c with
      | some bad =>
          have hbad := List.find?_some hfind
          have hmem := List.mem_of_find?_eq_some hfind
          constructor
          · rintro ⟨-, h⟩
            cases h
          · rintro ⟨-, hlater, -⟩
            rw [hlater bad hmem] at hbad
            cases hbad
      | none =>
          have hlater : ∀ c ∈ later, isLater c = true := by
            simpa using List.find?_eq_none.mp hfind
          rw [refuse_eq_ok, Nat.not_lt, and_iff_right hlater, and_iff_left rfl]
          simp

/-! ## Splitting at dots -/

theorem splitDots_eq (text : List Char) : splitDots text = text.splitOn '.' := by
  induction text with
  | nil => rfl
  | cons c rest ih =>
      rw [splitDots, List.splitOn_cons_eq_if_modifyHead, ih]
      by_cases hdot : c = '.'
      · simp [hdot]
      · have hne := List.splitOn_ne_nil '.' rest
        cases hsplit : rest.splitOn '.' with
        | nil => exact absurd hsplit hne
        | cons piece others => simp [hdot]

theorem intercalate_splitDots (name : String) :
    ".".intercalate ((splitDots name.toList).map String.ofList) = name := by
  apply String.toList_inj.mp
  have hdot : ".".toList = ['.'] := rfl
  rw [String.toList_intercalate, List.map_map, hdot, splitDots_eq]
  simp [Function.comp_def, List.intercalate_splitOn]

theorem splitDots_intercalate {list : List String} (hne : list ≠ [])
    (hparts : ∀ part ∈ list, IsPart part) :
    (splitDots (".".intercalate list).toList).map String.ofList = list := by
  have hdot : ".".toList = ['.'] := rfl
  rw [String.toList_intercalate, hdot, splitDots_eq, List.splitOn_intercalate]
  · simp [Function.comp_def]
  · intro text htext
    obtain ⟨part, hpart, rfl⟩ := List.mem_map.mp htext
    exact (hparts part hpart).dot_not_mem
  · simpa using hne

theorem parts_eq_ok {name : String} {list : List String} : parts name = .ok list
    ↔ (1 ≤ list.length ∧ list.length ≤ 3) ∧ (∀ part ∈ list, IsPart part)
      ∧ name = ".".intercalate list := by
  have hpieces : splitDots name.toList ≠ [] := by
    rw [splitDots_eq]
    exact List.splitOn_ne_nil _ _
  rw [parts, refuse_eq_ok, refuse_eq_ok, then_eq_ok, forM_eq_ok, Nat.not_lt]
  simp only [checkPart_eq_ok]
  constructor
  · rintro ⟨-, hdepth, hparts, h⟩
    cases h
    refine ⟨⟨?_, hdepth⟩, hparts, (intercalate_splitDots name).symm⟩
    rw [List.length_map]
    exact List.length_pos_iff.mpr hpieces
  · rintro ⟨⟨hsome, hdepth⟩, hparts, rfl⟩
    have hne : list ≠ [] := List.length_pos_iff.mp hsome
    have hsplit := splitDots_intercalate hne hparts
    rw [hsplit]
    refine ⟨fun hempty => ?_, hdepth, hparts, rfl⟩
    -- the only piece of no text is empty, and no part is
    rw [String.isEmpty_iff.mp hempty] at hsplit
    rw [← hsplit] at hparts
    exact (hparts "" (by decide)).ne_empty rfl

theorem isName_iff {name : String} : IsName name ↔ ∃ list, parts name = .ok list := by
  simp only [parts_eq_ok, IsName]

theorem IsPart.parts_eq {part : String} (h : IsPart part) : parts part = .ok [part] :=
  parts_eq_ok.mpr ⟨⟨Nat.le_refl 1, Nat.le_add_left 1 2⟩, by simpa using h, rfl⟩

/-- Names joined by a dot have the parts of both. -/
theorem parts_join {a b : String} {front back : List String} (ha : parts a = .ok front)
    (hb : parts b = .ok back) (hdepth : front.length + back.length ≤ 3) :
    parts (a ++ "." ++ b) = .ok (front ++ back) := by
  obtain ⟨⟨hfront, -⟩, hfronts, rfl⟩ := parts_eq_ok.mp ha
  obtain ⟨⟨hback, -⟩, hbacks, rfl⟩ := parts_eq_ok.mp hb
  refine parts_eq_ok.mpr ⟨⟨?_, ?_⟩, ?_, ?_⟩
  · rw [List.length_append]
    omega
  · rwa [List.length_append]
  · exact List.forall_mem_append.mpr ⟨hfronts, hbacks⟩
  · exact (String.intercalate_append_of_ne_nil (List.length_pos_iff.mp hfront)
      (List.length_pos_iff.mp hback)).symm

theorem parts_take {name : String} {list : List String} (h : parts name = .ok list) (count : Nat) :
    parts (".".intercalate (list.take (count + 1))) = .ok (list.take (count + 1)) := by
  obtain ⟨⟨hsome, hdepth⟩, hparts, -⟩ := parts_eq_ok.mp h
  refine parts_eq_ok.mpr ⟨⟨?_, ?_⟩, fun part hpart => hparts part (List.mem_of_mem_take hpart), rfl⟩
  · rw [List.length_take]
    omega
  · rw [List.length_take]
    omega

theorem Error.field_fault (e : Error) : e.fault.field = "name" := by
  cases e <;> rfl

end NamespaceName

/-! ## Ids -/

namespace NamespaceId

theorem testBit_child (parent : NamespaceId) (part : String) :
    (parent.child part).value.toNat.testBit 63 = true := by
  have hflag : flag.toNat.testBit 63 = true := by decide
  rw [child, UInt64.toNat_or, Nat.testBit_or, hflag, Bool.or_true]

theorem testBit_descend {parent id : NamespaceId} {list : List String}
    (h : id ∈ descend parent list) : id.value.toNat.testBit 63 = true := by
  induction list generalizing parent with
  | nil => cases h
  | cons part rest ih =>
      rcases List.mem_cons.mp h with rfl | hrest
      · exact testBit_child parent part
      · exact ih hrest

/-- The ids along some parts are the states of a walk that starts at the parent. -/
theorem descend_eq (parent : NamespaceId) (list : List String) :
    descend parent list = (list.scanl child parent).tail := by
  induction list generalizing parent with
  | nil => rfl
  | cons part rest ih =>
      rw [descend, ih, List.scanl_cons, List.tail_cons]
      cases rest with
      | nil => rfl
      | cons next others => rw [List.scanl_cons, List.tail_cons]

theorem length_descend (parent : NamespaceId) (list : List String) :
    (descend parent list).length = list.length := by
  rw [descend_eq, List.length_tail, List.length_scanl, Nat.add_sub_cancel]

/-- An id along some parts is below all parts up to its own. -/
theorem getElem_descend (parent : NamespaceId) (list : List String) (i : Nat)
    (h : i < (descend parent list).length) :
    (descend parent list)[i] = (list.take (i + 1)).foldl child parent := by
  simp only [descend_eq, List.getElem_tail, List.getElem_scanl]

theorem getLast?_descend {list : List String} (hne : list ≠ []) (parent : NamespaceId) :
    (descend parent list).getLast? = some (list.foldl child parent) := by
  rw [descend_eq, List.getLast?_tail, List.getLast?_scanl]
  simp [hne]

theorem foldl_child_mem_descend {list : List String} (hne : list ≠ []) (parent : NamespaceId) :
    list.foldl child parent ∈ descend parent list :=
  List.mem_of_getLast? (getLast?_descend hne parent)

theorem derive_eq_ok {parent id : NamespaceId} {name : String} : derive parent name = .ok id
    ↔ ∃ list, NamespaceName.parts name = .ok list ∧ id = list.foldl child parent := by
  rw [derive, bind_eq_ok]
  simp only [Except.ok.injEq, @eq_comm _ id]

theorem path_eq_ok {ids : List NamespaceId} {name : String} : path name = .ok ids
    ↔ ∃ list, NamespaceName.parts name = .ok list ∧ ids = descend root list := by
  rw [path, bind_eq_ok]
  simp only [Except.ok.injEq, @eq_comm _ ids]

theorem testBit_of_derive {parent id : NamespaceId} {name : String}
    (h : derive parent name = .ok id) : id.value.toNat.testBit 63 = true := by
  obtain ⟨list, hlist, rfl⟩ := derive_eq_ok.mp h
  have hsome := (NamespaceName.parts_eq_ok.mp hlist).1.1
  exact testBit_descend (foldl_child_mem_descend (List.length_pos_iff.mp hsome) parent)

end NamespaceId

end LedgerTx
