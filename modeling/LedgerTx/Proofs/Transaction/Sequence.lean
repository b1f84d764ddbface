import LedgerTx.Proofs.Transaction.Position

/-!
# Sequences of embedded payloads

Bytes are read as a list of embedded transactions exactly when they are
payloads one after the other, each of which is read alone as the entry of the
list.  A payload declares its own length, so the bytes tell the payloads
apart in one way only.  The loop that reads them is followed turn by turn:
what it has passed are the payloads of what it has read, and each turn takes
a header at least, so no run of it is longer than the bytes allow.
-/

namespace LedgerTx

namespace Embedded

/-! ## Pieces one after the other -/

/-- Pieces that make up some bytes, with what is read from each piece alone. -/
structure Joins (pieces : List Bytes) (inner : List Embedded) (bytes : Bytes) : Prop where
  flatten_eq : pieces.flatten = bytes
  reads : List.Forall₂ (fun piece embedded => read piece = .ok embedded) pieces inner

namespace Joins

variable {pieces others : List Bytes} {inner inner' : List Embedded} {bytes more : Bytes}

theorem nil : Joins [] [] [] :=
  ⟨rfl, .nil⟩

theorem append (h : Joins pieces inner bytes) (hmore : Joins others inner' more) :
    Joins (pieces ++ others) (inner ++ inner') (bytes ++ more) where
  flatten_eq := by rw [List.flatten_append, h.flatten_eq, hmore.flatten_eq]
  reads := List.rel_append h.reads hmore.reads

theorem singleton {piece : Bytes} {embedded : Embedded} (h : read piece = .ok embedded) :
    Joins [piece] [embedded] piece :=
  ⟨List.flatten_singleton, .cons h .nil⟩

theorem readAll_eq (h : Joins pieces inner bytes) : readAll bytes = .ok inner := by
  rw [← h.flatten_eq]
  exact readAll_flatten h.reads

theorem pieces_eq (h : Joins pieces inner bytes) : pieces = Embedded.pieces bytes := by
  have hdeclared : ∀ piece ∈ pieces, Payload.embeddedHeaderSize ≤ piece.length
      ∧ Payload.declaredSize piece = piece.length :=
    forall_of_forall₂ (R := fun embedded piece => read piece = .ok embedded)
      (fun _ _ hread => length_of_read hread) h.reads.flip
  rw [← h.flatten_eq, pieces_flatten hdeclared]

end Joins

theorem readAll_eq_ok {bytes : Bytes} {inner : List Embedded} :
    readAll bytes = .ok inner ↔ ∃ pieces, Joins pieces inner bytes := by
  constructor
  · intro h
    obtain ⟨hflatten, hreads⟩ := pieces_of_readAll h
    exact ⟨_, hflatten, hreads⟩
  · rintro ⟨pieces, h⟩
    exact h.readAll_eq

/-! ## The loop -/

/-- Where the loop stands: what it has read, in order, and the position after that. -/
structure Stage where
  inner : List Embedded
  position : Nat

def Stage.first : Stage := ⟨[], 0⟩

inductive Turn (bytes : Bytes) : Stage → Stage → Prop where
  | read {inner : List Embedded} {position next : Nat} {embedded : Embedded}
      (h : Positioned.nextInner bytes position = .ok (some (embedded, next))) :
      Turn bytes ⟨inner, position⟩ ⟨inner ++ [embedded], next⟩

inductive Turns (bytes : Bytes) : Nat → Stage → Stage → Prop where
  | zero (stage : Stage) : Turns bytes 0 stage stage
  | succ {turns : Nat} {stage next last : Stage} (hturn : Turn bytes stage next)
      (hturns : Turns bytes turns next last) : Turns bytes (turns + 1) stage last

/-- What the loop has passed is what it has read, piece by piece. -/
structure Stage.Passed (bytes : Bytes) (turns : Nat) (stage : Stage) : Prop where
  inside : stage.position ≤ bytes.length
  room : Payload.embeddedHeaderSize * turns ≤ stage.position
  joins : ∃ pieces, pieces.length = turns ∧ Joins pieces stage.inner (bytes.take stage.position)

theorem Stage.passed_first (bytes : Bytes) : Stage.first.Passed bytes 0 :=
  ⟨Nat.zero_le _, Nat.le_refl _, [], rfl, .nil⟩

variable {bytes : Bytes} {turns : Nat} {stage next last : Stage}

theorem read_of_nextInner {position next : Nat} {embedded : Embedded}
    (h : Positioned.nextInner bytes position = .ok (some (embedded, next))) :
    read ((bytes.take next).drop position) = .ok embedded := by
  rcases Nat.lt_or_ge position bytes.length with hinside | hend
  · rw [Positioned.nextInner_of_lt hinside] at h
    obtain ⟨size, hsize, h⟩ := bind_eq_ok.mp h
    rw [Positioned.firstSize_eq] at hsize
    have hfits := (bounds_of_firstSize (mapError_eq_ok.mp hsize)).2
    obtain ⟨piece, hpiece, h⟩ := bind_eq_ok.mp h
    obtain ⟨found, hfound, h⟩ := bind_eq_ok.mp h
    cases h
    rw [Bytes.slice_eq (Nat.zero_le _) hfits, List.drop_zero] at hpiece
    cases hpiece
    rw [Positioned.readEmbedded_eq] at hfound
    rw [List.drop_take, Nat.add_sub_cancel_left]
    exact mapError_eq_ok.mp hfound
  · rw [Positioned.nextInner, if_neg (Nat.not_lt.mpr hend)] at h
    cases h

theorem Turn.passed (h : Turn bytes stage next) (hstage : stage.Passed bytes turns) :
    next.Passed bytes (turns + 1) := by
  obtain ⟨hnext⟩ := h
  obtain ⟨-, hroom, pieces, hcount, hjoins⟩ := hstage
  obtain ⟨hlong, hinside⟩ := Positioned.nextInner_advances hnext
  rename_i position next _
  have hpassed : bytes.take position ++ (bytes.take next).drop position = bytes.take next := by
    have hle : position ≤ next := Nat.le_of_add_right_le hlong
    have hfront := List.take_append_drop position (bytes.take next)
    rwa [List.take_take, Nat.min_eq_left hle] at hfront
  have hjoined := hjoins.append (.singleton (read_of_nextInner hnext))
  rw [hpassed] at hjoined
  refine ⟨hinside, ?_, _, ?_, hjoined⟩
  · dsimp only at hroom ⊢
    rw [Nat.mul_succ]
    omega
  · rw [List.length_append, hcount]
    rfl

theorem Turns.passed {count : Nat} (h : Turns bytes turns stage last)
    (hstage : stage.Passed bytes count) : last.Passed bytes (count + turns) := by
  induction h generalizing count with
  | zero stage => exact hstage
  | succ hturn _ ih =>
      rw [Nat.add_comm _ 1, ← Nat.add_assoc]
      exact ih (hturn.passed hstage)

/--
From every position the loop comes to its end: to the end of the bytes, with
what reading them from there gives added, or to a turn that is refused as
reading is.
-/
theorem exists_turns (bytes : Bytes) (position : Nat) (inner : List Embedded) :
    ∃ turns last, Turns bytes turns ⟨inner, position⟩ last
      ∧ ((Positioned.nextInner bytes last.position = .ok none
          ∧ ∃ rest, Positioned.readInner bytes position = .ok rest ∧ last.inner = inner ++ rest)
        ∨ ∃ e, Positioned.nextInner bytes last.position = .error e
          ∧ Positioned.readInner bytes position = .error e) := by
  -- Each turn leaves fewer bytes.
  induction hleft : bytes.length - position using Nat.strongRecOn generalizing position inner with
  | ind left ih =>
      subst hleft
      rw [Positioned.readInner_turn]
      cases hturn : Positioned.nextInner bytes position with
      | error e => exact ⟨0, _, .zero _, .inr ⟨e, hturn, rfl⟩⟩
      | ok turn =>
          cases turn with
          | none => exact ⟨0, _, .zero _, .inl ⟨hturn, [], rfl, (List.append_nil _).symm⟩⟩
          | some found =>
              obtain ⟨embedded, next⟩ := found
              obtain ⟨hlong, hinside⟩ := Positioned.nextInner_advances hturn
              rw [Payload.embeddedHeaderSize] at hlong
              obtain ⟨turns, last, hturns, hend⟩ :=
                ih (bytes.length - next) (by omega) next (inner ++ [embedded]) rfl
              refine ⟨turns + 1, last, .succ (.read hturn) hturns, ?_⟩
              rcases hend with ⟨hlast, rest, hrest, hinner⟩ | ⟨e, hlast, hrest⟩
              · refine .inl ⟨hlast, embedded :: rest, ?_, ?_⟩
                · dsimp only [bind, Except.bind]
                  rw [hrest]
                · rw [hinner, List.append_assoc]
                  rfl
              · refine .inr ⟨e, hlast, ?_⟩
                dsimp only [bind, Except.bind]
                rw [hrest]

theorem exists_last (bytes : Bytes) :
    ∃ turns last, Turns bytes turns .first last
      ∧ ((Positioned.nextInner bytes last.position = .ok none
          ∧ readAll bytes = .ok last.inner)
        ∨ ∃ e, Positioned.nextInner bytes last.position = .error (.refused e)
          ∧ readAll bytes = .error e) := by
  obtain ⟨turns, last, hturns, hend⟩ := exists_turns bytes 0 []
  have hsame := Positioned.readInner_eq (Nat.zero_le bytes.length)
  rw [List.drop_zero] at hsame
  rw [hsame] at hend
  refine ⟨turns, last, hturns, ?_⟩
  cases hread : readAll bytes with
  | error cause =>
      rw [hread] at hend
      rcases hend with ⟨-, rest, hrest, -⟩ | ⟨e, hlast, he⟩
      · cases hrest
      · cases he
        exact .inr ⟨cause, hlast, rfl⟩
  | ok inner =>
      rw [hread] at hend
      rcases hend with ⟨hlast, rest, hrest, hinner⟩ | ⟨e, -, he⟩
      · cases hrest
        rw [hinner]
        exact .inl ⟨hlast, rfl⟩
      · cases he

/-! ## What is accepted -/

/--
Whatever the bytes are, the list that is read from them is the one of the
pieces that they are put together from, and there is such a list only then.
No other pieces make up the same bytes.  The loop over the bytes comes to an
end, after no more turns than there is room for headers, and at any time it
has read just the pieces that it has passed.  What is accepted twice in a row
is accepted with both lists one after the other.
-/
theorem accepts_concatenations (bytes : Bytes) :
    (∀ inner, readAll bytes = .ok inner ↔ ∃ pieces, Joins pieces inner bytes)
      ∧ (∀ pieces others inner inner', Joins pieces inner bytes → Joins others inner' bytes →
        pieces = others ∧ inner = inner')
      ∧ (∀ turns stage, Turns bytes turns .first stage →
        Payload.embeddedHeaderSize * turns ≤ bytes.length
          ∧ ∃ pieces, pieces.length = turns
            ∧ Joins pieces stage.inner (bytes.take stage.position))
      ∧ (∃ turns last, Turns bytes turns .first last
        ∧ ((Positioned.nextInner bytes last.position = .ok none
            ∧ readAll bytes = .ok last.inner)
          ∨ ∃ e, Positioned.nextInner bytes last.position = .error (.refused e)
            ∧ readAll bytes = .error e))
      ∧ ∀ more inner others, readAll bytes = .ok inner → readAll more = .ok others →
        readAll (bytes ++ more) = .ok (inner ++ others) := by
  refine ⟨fun _ => readAll_eq_ok, fun pieces others inner inner' h h' => ⟨?_, ?_⟩,
    fun turns stage h => ?_, exists_last bytes, fun more inner others h hmore => ?_⟩
  · rw [h.pieces_eq, h'.pieces_eq]
  · exact Except.ok.inj (h.readAll_eq.symm.trans h'.readAll_eq)
  · obtain ⟨hinside, hroom, hjoins⟩ := h.passed (Stage.passed_first bytes)
    rw [Nat.zero_add] at hroom hjoins
    exact ⟨Nat.le_trans hroom hinside, hjoins⟩
  · obtain ⟨pieces, hpieces⟩ := readAll_eq_ok.mp h
    obtain ⟨pieces', hpieces'⟩ := readAll_eq_ok.mp hmore
    exact (hpieces.append hpieces').readAll_eq

theorem accepts_concatenations_twoPieces :
    ∃ piece, read piece = .ok levyRemoval
      ∧ readAll (piece ++ piece) = .ok [levyRemoval, levyRemoval]
      ∧ (∀ pieces inner, Joins pieces inner (piece ++ piece) → pieces = [piece, piece])
      ∧ ∃ turns stage, Turns (piece ++ piece) turns .first stage
        ∧ 12 * turns ≤ 2 * piece.length := by
  obtain ⟨piece, hwrite⟩ := write_levyRemoval
  have haccepted : levyRemoval.Accepted := fun _ hkey => nomatch hkey
  have hread : read piece = .ok levyRemoval := read_of_write haccepted hwrite
  have hone : readAll piece = .ok [levyRemoval] := (Joins.singleton hread).readAll_eq
  have htwo := (Joins.singleton hread).append (.singleton hread)
  obtain ⟨-, -, -, -, hsum⟩ := accepts_concatenations piece
  obtain ⟨-, hunique, hturns, ⟨turns, last, hrun, -⟩, -⟩ := accepts_concatenations (piece ++ piece)
  refine ⟨piece, hread, hsum _ _ _ hone hone, fun pieces inner h => (hunique _ _ _ _ h htwo).1,
    turns, last, hrun, ?_⟩
  have hroom := (hturns turns last hrun).1
  rw [List.length_append, ← Nat.two_mul] at hroom
  exact hroom

end Embedded

end LedgerTx
