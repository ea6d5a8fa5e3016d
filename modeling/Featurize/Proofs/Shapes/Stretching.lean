import Featurize.Proofs.Outcome
import Featurize.Proofs.Shapes.Walk
import Mathlib.Data.List.Forall2
import Mathlib.Data.Nat.ModEq

/-!
Stretching. Aligned at the last axis, a shape stretches to another one when each of its axes has
the size that it meets there or size one. Merging a list of shapes succeeds exactly when there
is a shape to which all of them stretch, and gives the least one. Strides of a stretched shape
read at the multi-index that drops the added leading coordinates and has zero on every axis of
size one.
-/

namespace Featurize.Shape

variable {shape middle target lead rest : Shape}

def Fits (size wanted : Nat) : Prop := size = wanted ∨ size = 1

instance : DecidableRel Fits := fun size wanted =>
  inferInstanceAs (Decidable (size = wanted ∨ size = 1))

theorem Fits.trans {size between wanted : Nat} (first : Fits size between)
    (second : Fits between wanted) : Fits size wanted := by
  rcases first with same | one
  · exact same ▸ second
  · exact Or.inr one

theorem forall₂_fits_refl (shape : Shape) : List.Forall₂ Fits shape shape :=
  List.forall₂_same.mpr fun _size _member => Or.inl rfl

theorem forall₂_fits_trans (first : List.Forall₂ Fits shape middle)
    (second : List.Forall₂ Fits middle target) : List.Forall₂ Fits shape target := by
  induction first generalizing target with
  | nil => exact second
  | cons head _tail ih =>
      cases second with
      | cons nextHead nextTail => exact .cons (head.trans nextHead) (ih nextTail)

/-- Aligned at the last axis, every axis can take the size that it meets. -/
def StretchesTo (shape target : Shape) : Prop :=
  shape.length ≤ target.length ∧
    List.Forall₂ Fits shape (target.drop (target.length - shape.length))

instance : DecidableRel StretchesTo := fun shape target =>
  inferInstanceAs (Decidable (shape.length ≤ target.length ∧
    List.Forall₂ Fits shape (target.drop (target.length - shape.length))))

theorem stretchesTo_iff_exists_append :
    shape.StretchesTo target ↔
      ∃ lead rest, target = lead ++ rest ∧ List.Forall₂ Fits shape rest := by
  constructor
  · intro stretches
    exact ⟨_, _, (List.take_append_drop _ _).symm, stretches.2⟩
  · rintro ⟨lead, rest, joined, fits⟩
    have aligned := fits.length_eq
    subst joined
    refine ⟨by rw [List.length_append]; omega, ?_⟩
    rw [List.length_append, aligned, Nat.add_sub_cancel, List.drop_left]
    exact fits

theorem stretchesTo_iff_of_length_eq (aligned : shape.length = target.length) :
    shape.StretchesTo target ↔ List.Forall₂ Fits shape target := by
  unfold StretchesTo
  rw [aligned, Nat.sub_self, List.drop_zero]
  exact ⟨fun stretches => stretches.2, fun fits => ⟨Nat.le_refl _, fits⟩⟩

theorem stretchesTo_refl (shape : Shape) : shape.StretchesTo shape :=
  (stretchesTo_iff_of_length_eq rfl).mpr (forall₂_fits_refl shape)

theorem StretchesTo.trans (first : shape.StretchesTo middle)
    (second : middle.StretchesTo target) : shape.StretchesTo target := by
  obtain ⟨lead, rest, joined, fits⟩ := stretchesTo_iff_exists_append.mp first
  obtain ⟨front, met, nextJoined, nextFits⟩ := stretchesTo_iff_exists_append.mp second
  subst joined
  refine stretchesTo_iff_exists_append.mpr
    ⟨front ++ met.take lead.length, met.drop lead.length, ?_, ?_⟩
  · rw [nextJoined, List.append_assoc, List.take_append_drop]
  · have metRest := List.forall₂_drop lead.length nextFits
    rw [List.drop_left] at metRest
    exact forall₂_fits_trans fits metRest

theorem StretchesTo.drop (stretches : shape.StretchesTo target) {rank : Nat}
    (enough : shape.length ≤ rank) :
    shape.StretchesTo (target.drop (target.length - rank)) := by
  refine ⟨?_, ?_⟩
  · have fits := stretches.1
    rw [List.length_drop]
    omega
  · have same : target.length - rank + ((target.drop (target.length - rank)).length -
        shape.length) = target.length - shape.length := by
      have fits := stretches.1
      rw [List.length_drop]
      omega
    rw [List.drop_drop, same]
    exact stretches.2

theorem forall₂_fits_replicate_append {count : Nat} :
    List.Forall₂ Fits (List.replicate count 1 ++ shape) target ↔
      ∃ lead rest, target = lead ++ rest ∧ lead.length = count ∧
        List.Forall₂ Fits shape rest := by
  induction count generalizing target with
  | zero =>
      constructor
      · intro fits
        exact ⟨[], target, rfl, rfl, fits⟩
      · rintro ⟨lead, rest, joined, none, fits⟩
        rw [List.length_eq_zero_iff.mp none] at joined
        exact joined ▸ fits
  | succ count ih =>
      rw [List.replicate_succ, List.cons_append]
      constructor
      · intro fits
        cases fits with
        | cons _one more =>
            obtain ⟨lead, rest, joined, counted, fits⟩ := ih.mp more
            exact ⟨_ :: lead, rest, congrArg _ joined, congrArg Nat.succ counted, fits⟩
      · rintro ⟨lead, rest, joined, counted, fits⟩
        cases lead with
        | nil => cases counted
        | cons size lead =>
            subst joined
            exact .cons (Or.inr rfl) (ih.mpr ⟨lead, rest, rfl, Nat.succ.inj counted, fits⟩)

theorem leftPad_stretchesTo_iff {rank : Nat} (enough : shape.length ≤ rank) :
    (shape.leftPad rank).StretchesTo target ↔
      rank ≤ target.length ∧ shape.StretchesTo target := by
  constructor
  · intro stretches
    have long := stretches.1
    rw [length_leftPad enough] at long
    obtain ⟨lead, rest, joined, fits⟩ := stretchesTo_iff_exists_append.mp stretches
    obtain ⟨ones, met, restJoined, _counted, metFits⟩ := forall₂_fits_replicate_append.mp fits
    refine ⟨long, stretchesTo_iff_exists_append.mpr ⟨lead ++ ones, met, ?_, metFits⟩⟩
    rw [joined, restJoined, List.append_assoc]
  · rintro ⟨long, stretches⟩
    refine ⟨by rw [length_leftPad enough]; exact long, ?_⟩
    rw [length_leftPad enough]
    refine forall₂_fits_replicate_append.mpr
      ⟨_, _, (List.take_append_drop (rank - shape.length) _).symm, ?_, ?_⟩
    · rw [List.length_take, List.length_drop]
      omega
    · rw [List.drop_drop]
      have same : target.length - rank + (rank - shape.length) =
          target.length - shape.length := by omega
      rw [same]
      exact stretches.2

/-! ### The common shape -/

/-- The least of the shapes to which all of the given ones stretch. -/
structure Joins (shapes : List Shape) (least : Shape) : Prop where
  above : ∀ shape ∈ shapes, shape.StretchesTo least
  below : ∀ target, (∀ shape ∈ shapes, shape.StretchesTo target) → least.StretchesTo target

theorem joins_iff {shapes : List Shape} {least : Shape} :
    Joins shapes least ↔ ∀ target, least.StretchesTo target ↔
      ∀ shape ∈ shapes, shape.StretchesTo target := by
  constructor
  · intro joins target
    exact ⟨fun stretches shape member => (joins.above shape member).trans stretches,
      joins.below target⟩
  · intro universal
    exact ⟨(universal least).mp (stretchesTo_refl least), fun target => (universal target).mpr⟩

theorem Joins.length_le {shapes : List Shape} {least : Shape} (joins : Joins shapes least)
    {rank : Nat} (short : ∀ shape ∈ shapes, shape.length ≤ rank) : least.length ≤ rank := by
  have cut := (joins.below (least.drop (least.length - rank)) fun shape member =>
    (joins.above shape member).drop (short shape member)).1
  rw [List.length_drop] at cut
  omega

theorem mergeAxes_cons_eq_ok_iff {given : Shape} {start size found : Nat} {sizes rest : Shape}
    {merged : Shape} :
    mergeAxes given start (size :: sizes) (found :: rest) = .ok merged ↔
      ∃ tail, mergeAxes given (start + 1) sizes rest = .ok tail ∧
        ((Fits size found ∧ merged = found :: tail) ∨
          (¬ Fits size found ∧ found = 1 ∧ merged = size :: tail)) := by
  rw [mergeAxes]
  by_cases fits : size = found ∨ size = 1
  · rw [if_pos fits]
    simp only [Outcome.bind_eq_ok_iff, Outcome.pure_eq_ok_iff]
    constructor
    · rintro ⟨tail, made, same⟩
      exact ⟨tail, made, Or.inl ⟨fits, same.symm⟩⟩
    · rintro ⟨tail, made, ⟨_fits, same⟩ | ⟨unfit, _⟩⟩
      · exact ⟨tail, made, same.symm⟩
      · exact absurd fits unfit
  · rw [if_neg fits]
    by_cases unit : found = 1
    · rw [if_neg (fun other => other unit)]
      simp only [Outcome.bind_eq_ok_iff, Outcome.pure_eq_ok_iff]
      constructor
      · rintro ⟨tail, made, same⟩
        exact ⟨tail, made, Or.inr ⟨fits, unit, same.symm⟩⟩
      · rintro ⟨tail, made, ⟨unfit, _⟩ | ⟨_unfit, _unit, same⟩⟩
        · exact absurd unfit fits
        · exact ⟨tail, made, same.symm⟩
    · rw [if_pos unit]
      constructor
      · intro succeeded
        cases succeeded
      · rintro ⟨tail, _made, ⟨unfit, _⟩ | ⟨_unfit, isUnit, _same⟩⟩
        · exact absurd unfit fits
        · exact absurd isUnit unit

theorem forall₂_fits_of_mergeAxes {given : Shape} {start : Nat} {sizes found merged : Shape}
    (aligned : sizes.length = found.length)
    (succeeded : mergeAxes given start sizes found = .ok merged) :
    merged.length = found.length ∧ ∀ target, List.Forall₂ Fits merged target ↔
      List.Forall₂ Fits sizes target ∧ List.Forall₂ Fits found target := by
  induction sizes generalizing start found merged with
  | nil =>
      rw [List.length_eq_zero_iff.mp aligned.symm] at succeeded ⊢
      cases succeeded
      exact ⟨rfl, fun target => and_self_iff.symm⟩
  | cons size sizes ih =>
      cases found with
      | nil => cases aligned
      | cons head rest =>
          obtain ⟨tail, made, same⟩ := mergeAxes_cons_eq_ok_iff.mp succeeded
          obtain ⟨counted, tailFits⟩ := ih (Nat.succ.inj aligned) made
          have longer := congrArg Nat.succ counted
          rcases same with ⟨fits, same⟩ | ⟨_unfit, unit, same⟩
          · subst same
            refine ⟨longer, fun target => ?_⟩
            cases target with
            | nil => exact ⟨nofun, fun both => nomatch both.1⟩
            | cons wanted target =>
                simp only [List.forall₂_cons, tailFits target]
                constructor
                · rintro ⟨headFits, sizesFit, restFit⟩
                  exact ⟨⟨fits.trans headFits, sizesFit⟩, headFits, restFit⟩
                · rintro ⟨⟨_sizeFits, sizesFit⟩, headFits, restFit⟩
                  exact ⟨headFits, sizesFit, restFit⟩
          · subst same
            refine ⟨longer, fun target => ?_⟩
            cases target with
            | nil => exact ⟨nofun, fun both => nomatch both.1⟩
            | cons wanted target =>
                simp only [List.forall₂_cons, tailFits target]
                constructor
                · rintro ⟨sizeFits, sizesFit, restFit⟩
                  exact ⟨⟨sizeFits, sizesFit⟩, Or.inr unit, restFit⟩
                · rintro ⟨⟨sizeFits, sizesFit⟩, _headFits, restFit⟩
                  exact ⟨sizeFits, sizesFit, restFit⟩

theorem exists_mergeAxes {given : Shape} {start : Nat} {sizes found : Shape}
    (sizesFit : List.Forall₂ Fits sizes target) (foundFit : List.Forall₂ Fits found target) :
    ∃ merged, mergeAxes given start sizes found = .ok merged := by
  induction sizesFit generalizing start found with
  | nil =>
      cases foundFit
      exact ⟨[], rfl⟩
  | cons sizeFits _sizesFit ih =>
      cases foundFit with
      | cons headFits restFit =>
          rename_i size wanted sizes target head rest
          obtain ⟨tail, made⟩ := @ih (start + 1) rest restFit
          by_cases fits : Fits size head
          · exact ⟨_, mergeAxes_cons_eq_ok_iff.mpr ⟨tail, made, Or.inl ⟨fits, rfl⟩⟩⟩
          · have unit : head = 1 := headFits.resolve_left fun same => fits (same ▸ sizeFits)
            exact ⟨_, mergeAxes_cons_eq_ok_iff.mpr ⟨tail, made, Or.inr ⟨fits, unit, rfl⟩⟩⟩

theorem stretchesTo_of_mergeAxes {given : Shape} {start : Nat} {sizes found merged : Shape}
    (aligned : sizes.length = found.length)
    (succeeded : mergeAxes given start sizes found = .ok merged) :
    merged.length = found.length ∧ ∀ target, merged.StretchesTo target ↔
      sizes.StretchesTo target ∧ found.StretchesTo target := by
  obtain ⟨counted, fits⟩ := forall₂_fits_of_mergeAxes aligned succeeded
  refine ⟨counted, fun target => ?_⟩
  unfold StretchesTo
  rw [counted, aligned, fits]
  exact and_and_left

/-- The merging loop finds a shape that stretches exactly where its start and all the shapes that
it meets do. -/
theorem stretchesTo_of_foldlM {rank : Nat} {shapes : List Shape} {found least : Shape}
    (short : ∀ shape ∈ shapes, shape.length ≤ rank) (aligned : found.length = rank)
    (succeeded : shapes.foldlM
      (fun found shape => mergeAxes shape 0 (shape.leftPad rank) found) found = .ok least)
    (target : Shape) : least.StretchesTo target ↔
      found.StretchesTo target ∧ ∀ shape ∈ shapes, shape.StretchesTo target := by
  induction shapes generalizing found with
  | nil =>
      cases succeeded
      exact ⟨fun stretches => ⟨stretches, nofun⟩, fun both => both.1⟩
  | cons head shapes ih =>
      rw [List.foldlM_cons, Outcome.bind_eq_ok_iff] at succeeded
      obtain ⟨merged, step, rest⟩ := succeeded
      obtain ⟨fits, shortRest⟩ := List.forall_mem_cons.mp short
      obtain ⟨counted, both⟩ :=
        stretchesTo_of_mergeAxes ((length_leftPad fits).trans aligned.symm) step
      rw [ih shortRest (counted.trans aligned) rest, both, leftPad_stretchesTo_iff fits,
        List.forall_mem_cons]
      constructor
      · rintro ⟨⟨⟨_enough, headTarget⟩, foundTarget⟩, restTarget⟩
        exact ⟨foundTarget, headTarget, restTarget⟩
      · rintro ⟨foundTarget, headTarget, restTarget⟩
        exact ⟨⟨⟨aligned ▸ foundTarget.1, headTarget⟩, foundTarget⟩, restTarget⟩

theorem exists_foldlM_mergeAxes {rank : Nat} {shapes : List Shape} {found : Shape}
    (short : ∀ shape ∈ shapes, shape.length ≤ rank) (aligned : found.length = rank)
    (foundTarget : found.StretchesTo target)
    (bounded : ∀ shape ∈ shapes, shape.StretchesTo target) :
    ∃ least, shapes.foldlM
      (fun found shape => mergeAxes shape 0 (shape.leftPad rank) found) found = .ok least := by
  induction shapes generalizing found with
  | nil => exact ⟨found, rfl⟩
  | cons head shapes ih =>
      obtain ⟨fits, shortRest⟩ := List.forall_mem_cons.mp short
      obtain ⟨headBounded, restBounded⟩ := List.forall_mem_cons.mp bounded
      have padded := length_leftPad fits
      have headTarget : (head.leftPad rank).StretchesTo target :=
        (leftPad_stretchesTo_iff fits).mpr ⟨aligned ▸ foundTarget.1, headBounded⟩
      have headFits := headTarget.2
      have foundFits := foundTarget.2
      rw [padded] at headFits
      rw [aligned] at foundFits
      obtain ⟨merged, step⟩ := @exists_mergeAxes _ head 0 _ found headFits foundFits
      obtain ⟨counted, both⟩ := stretchesTo_of_mergeAxes (padded.trans aligned.symm) step
      obtain ⟨least, rest⟩ := ih shortRest (counted.trans aligned)
        ((both target).mpr ⟨headTarget, foundTarget⟩) restBounded
      refine ⟨least, ?_⟩
      rw [List.foldlM_cons, step]
      exact rest

theorem maxRank_le_iff {shapes : List Shape} {rank : Nat} :
    maxRank shapes ≤ rank ↔ ∀ shape ∈ shapes, shape.length ≤ rank := by
  have largest : ∀ start, shapes.foldl (fun rank shape => max rank shape.length) start ≤ rank ↔
      start ≤ rank ∧ ∀ shape ∈ shapes, shape.length ≤ rank := by
    induction shapes with
    | nil => intro start; simp only [List.foldl_nil, List.not_mem_nil, false_implies,
        implies_true, and_true]
    | cons head shapes ih =>
        intro start
        rw [List.foldl_cons, ih, List.forall_mem_cons, Nat.max_le, and_assoc]
  exact (largest 0).trans ⟨fun both => both.2, fun short => ⟨Nat.zero_le _, short⟩⟩

theorem replicate_stretchesTo_iff {rank : Nat} :
    StretchesTo (List.replicate rank 1) target ↔ rank ≤ target.length := by
  have padded := @leftPad_stretchesTo_iff [] target rank (Nat.zero_le _)
  rw [leftPad, List.append_nil, List.length_nil, Nat.sub_zero] at padded
  exact padded.trans ⟨fun both => both.1, fun long =>
    ⟨long, stretchesTo_iff_exists_append.mpr ⟨target, [], (List.append_nil _).symm, .nil⟩⟩⟩

theorem joins_common {shapes : List Shape} {least : Shape} (succeeded : common shapes = .ok least) :
    Joins shapes least := by
  refine joins_iff.mpr fun target => ?_
  rw [stretchesTo_of_foldlM (maxRank_le_iff.mp (Nat.le_refl _)) List.length_replicate succeeded,
    replicate_stretchesTo_iff, maxRank_le_iff]
  exact ⟨fun both => both.2,
    fun stretch => ⟨fun shape member => (stretch shape member).1, stretch⟩⟩

theorem exists_common {shapes : List Shape}
    (bounded : ∀ shape ∈ shapes, shape.StretchesTo target) :
    ∃ least, common shapes = .ok least ∧ Joins shapes least := by
  have long : maxRank shapes ≤ target.length :=
    maxRank_le_iff.mpr fun shape member => (bounded shape member).1
  obtain ⟨least, succeeded⟩ := exists_foldlM_mergeAxes (maxRank_le_iff.mp (Nat.le_refl _))
    List.length_replicate (replicate_stretchesTo_iff.mpr long) bounded
  exact ⟨least, succeeded, joins_common succeeded⟩

/-! ### Reading a stretched shape -/

def pin (size coordinate : Nat) : Nat := if size = 1 then 0 else coordinate

theorem pin_of_lt {size coordinate : Nat} (inside : coordinate < size) :
    pin size coordinate = coordinate := by
  unfold pin
  split
  · omega
  · rfl

theorem pin_le (size coordinate : Nat) : pin size coordinate ≤ coordinate := by
  unfold pin
  split
  · exact Nat.zero_le _
  · exact Nat.le_refl _

/-- Where a shape is read for a multi-index of a shape to which it stretches: the added leading
coordinates are dropped, and every axis of size one is read at zero. -/
def readIndex (shape : Shape) (index : List Nat) : List Nat :=
  List.zipWith pin shape (index.drop (index.length - shape.length))

theorem readIndex_append {lead rest : List Nat} (aligned : shape.length = rest.length) :
    shape.readIndex (lead ++ rest) = List.zipWith pin shape rest := by
  rw [readIndex, List.length_append, aligned, Nat.add_sub_cancel, List.drop_left]

theorem readIndex_self (within : shape.Within index) : shape.readIndex index = index := by
  rw [readIndex, length_of_within within, Nat.sub_self, List.drop_zero]
  induction shape generalizing index with
  | nil => exact (List.length_eq_zero_iff.mp (length_of_within within)).symm
  | cons size sizes ih =>
      cases index with
      | nil => exact within.elim
      | cons coordinate coordinates =>
          obtain ⟨inside, rest⟩ := within_cons.mp within
          rw [List.zipWith_cons_cons, pin_of_lt inside, ih rest]

theorem volume_le_of_fits {index : List Nat} (fits : List.Forall₂ Fits shape target)
    (within : target.Within index) : shape.volume ≤ target.volume := by
  induction fits generalizing index with
  | nil => exact Nat.le_refl _
  | cons head _tail ih =>
      cases index with
      | nil => exact within.elim
      | cons coordinate coordinates =>
          obtain ⟨inside, rest⟩ := within_cons.mp within
          refine Nat.mul_le_mul ?_ (ih rest)
          rcases head with same | one
          · exact Nat.le_of_eq same
          · omega

theorem within_pin {index : List Nat} (fits : List.Forall₂ Fits shape target)
    (within : target.Within index) : shape.Within (List.zipWith pin shape index) := by
  induction fits generalizing index with
  | nil => exact trivial
  | cons head _tail ih =>
      cases index with
      | nil => exact within.elim
      | cons coordinate coordinates =>
          obtain ⟨inside, rest⟩ := within_cons.mp within
          refine within_cons.mpr ⟨?_, ih rest⟩
          rcases head with same | one
          · rw [same, pin_of_lt inside]
            exact inside
          · rw [one]
            exact Nat.one_pos

theorem position_pin_le {index : List Nat} (fits : List.Forall₂ Fits shape target)
    (within : target.Within index) :
    shape.position (List.zipWith pin shape index) ≤ target.position index := by
  induction fits generalizing index with
  | nil => exact Nat.zero_le _
  | cons _head tail ih =>
      cases index with
      | nil => exact within.elim
      | cons coordinate coordinates =>
          obtain ⟨_inside, rest⟩ := within_cons.mp within
          rw [List.zipWith_cons_cons, position_cons, position_cons]
          exact Nat.add_le_add
            (Nat.mul_le_mul (pin_le _ _) (volume_le_of_fits tail rest)) (ih rest)

theorem StretchesTo.within_readIndex {index : List Nat} (stretches : shape.StretchesTo target)
    (within : target.Within index) : shape.Within (shape.readIndex index) := by
  obtain ⟨lead, rest, joined, fits⟩ := stretchesTo_iff_exists_append.mp stretches
  subst joined
  obtain ⟨front, back, split, _frontWithin, backWithin⟩ := exists_append_of_within within
  subst split
  rw [readIndex_append (fits.length_eq.trans (length_of_within backWithin).symm)]
  exact within_pin fits backWithin

theorem StretchesTo.volume_le {index : List Nat} (stretches : shape.StretchesTo target)
    (within : target.Within index) : shape.volume ≤ target.volume := by
  obtain ⟨lead, rest, joined, fits⟩ := stretchesTo_iff_exists_append.mp stretches
  subst joined
  obtain ⟨front, back, _split, frontWithin, backWithin⟩ := exists_append_of_within within
  have below := position_lt_volume frontWithin
  rw [volume_append]
  exact Nat.le_trans (volume_le_of_fits fits backWithin) (Nat.le_mul_of_pos_left _ (by omega))

theorem pin_pin {size between : Nat} (fits : Fits size between) (coordinate : Nat) :
    pin size (pin between coordinate) = pin size coordinate := by
  rcases fits with same | one
  · unfold pin
    rw [same]
    split <;> rfl
  · rw [one]
    rfl

theorem zipWith_pin_pin (fits : List.Forall₂ Fits shape middle) (index : List Nat) :
    List.zipWith pin shape (List.zipWith pin middle index) = List.zipWith pin shape index := by
  induction fits generalizing index with
  | nil => rfl
  | cons head _tail ih =>
      cases index with
      | nil => rfl
      | cons coordinate coordinates =>
          rw [List.zipWith_cons_cons, List.zipWith_cons_cons, List.zipWith_cons_cons,
            pin_pin head, ih]

/-- Reading through a shape in between leads to the same place as reading at once. -/
theorem readIndex_readIndex {index : List Nat} (stretches : shape.StretchesTo middle)
    (enough : middle.length ≤ index.length) :
    shape.readIndex (middle.readIndex index) = shape.readIndex index := by
  have below := stretches.1
  have counted : (middle.readIndex index).length = middle.length := by
    rw [readIndex, List.length_zipWith, List.length_drop]
    omega
  have dropped : index.length - middle.length + (middle.length - shape.length) =
      index.length - shape.length := by omega
  calc shape.readIndex (middle.readIndex index)
      = List.zipWith pin shape (List.zipWith pin (middle.drop (middle.length - shape.length))
          (index.drop (index.length - shape.length))) := by
        rw [readIndex, counted, readIndex, List.drop_zipWith, List.drop_drop, dropped]
    _ = shape.readIndex index := zipWith_pin_pin stretches.2 _

theorem stretch?_cons_eq_some_iff {size wanted : Nat} {sizes rest : Shape} {strides : List Nat} :
    stretch? (size :: sizes) (wanted :: rest) = some strides ↔
      ∃ tail, stretch? sizes rest = some tail ∧
        ((size = wanted ∧ strides = elementCount sizes :: tail) ∨
          (size ≠ wanted ∧ size = 1 ∧ strides = 0 :: tail)) := by
  rw [stretch?, Option.bind_eq_bind, Option.bind_eq_some_iff]
  refine exists_congr fun tail => and_congr_right fun _found => ?_
  by_cases same : size = wanted
  · rw [if_pos same, Option.some.injEq]
    exact ⟨fun made => Or.inl ⟨same, made.symm⟩,
      fun either => (either.resolve_right fun other => other.1 same).2.symm⟩
  · rw [if_neg same]
    by_cases one : size = 1
    · rw [if_pos one, Option.some.injEq]
      exact ⟨fun made => Or.inr ⟨same, one, made.symm⟩,
        fun either => (either.resolve_left fun other => same other.1).2.2.symm⟩
    · rw [if_neg one]
      constructor
      · intro made
        cases made
      · rintro (⟨equal, _⟩ | ⟨_other, unit, _⟩)
        · exact absurd equal same
        · exact absurd unit one

theorem exists_stretch? (fits : List.Forall₂ Fits shape target) :
    ∃ strides, stretch? shape target = some strides := by
  induction fits with
  | nil => exact ⟨[], rfl⟩
  | cons head _tail ih =>
      obtain ⟨tail, found⟩ := ih
      rename_i size wanted sizes rest
      by_cases same : size = wanted
      · exact ⟨_, stretch?_cons_eq_some_iff.mpr ⟨tail, found, Or.inl ⟨same, rfl⟩⟩⟩
      · exact ⟨_, stretch?_cons_eq_some_iff.mpr
          ⟨tail, found, Or.inr ⟨same, head.resolve_left same, rfl⟩⟩⟩

theorem forall₂_fits_of_stretch? {strides : List Nat}
    (found : stretch? shape target = some strides) : List.Forall₂ Fits shape target := by
  induction shape generalizing target strides with
  | nil =>
      cases target with
      | nil => exact .nil
      | cons wanted rest => cases found
  | cons size sizes ih =>
      cases target with
      | nil => cases found
      | cons wanted rest =>
          obtain ⟨tail, tailFound, either⟩ := stretch?_cons_eq_some_iff.mp found
          rcases either with ⟨same, _made⟩ | ⟨_other, one, _made⟩
          · exact .cons (Or.inl same) (ih tailFound)
          · exact .cons (Or.inr one) (ih tailFound)

/-- Stretched strides lead, up to whole turns of the machine word, to the position at which the
shape is read. -/
theorem dot_stretch? {strides index : List Nat} (found : stretch? shape target = some strides)
    (within : target.Within index) :
    dot index strides ≡ shape.position (List.zipWith pin shape index) [MOD Word.modulus] := by
  induction shape generalizing target strides index with
  | nil =>
      cases target with
      | nil =>
          rw [List.length_eq_zero_iff.mp (length_of_within within)]
          rfl
      | cons wanted rest => cases found
  | cons size sizes ih =>
      cases target with
      | nil => cases found
      | cons wanted rest =>
          cases index with
          | nil => exact within.elim
          | cons coordinate coordinates =>
              obtain ⟨inside, restWithin⟩ := within_cons.mp within
              obtain ⟨tail, tailFound, either⟩ := stretch?_cons_eq_some_iff.mp found
              have reads := ih tailFound restWithin
              rw [List.zipWith_cons_cons, position_cons]
              rcases either with ⟨same, made⟩ | ⟨_other, one, made⟩
              · rw [made, pin_of_lt (same ▸ inside)]
                exact ((Nat.mod_modEq _ _).mul_left coordinate).add reads
              · have pinned : pin size coordinate = 0 := if_pos one
                rw [made, pinned, Nat.zero_mul, Nat.zero_add]
                change coordinate * 0 + dot coordinates tail ≡ _ [MOD Word.modulus]
                rw [Nat.mul_zero, Nat.zero_add]
                exact reads

theorem position_pin_replicate_append {count : Nat} {index : List Nat}
    (enough : count ≤ index.length) :
    position (List.replicate count 1 ++ shape)
        (List.zipWith pin (List.replicate count 1 ++ shape) index) =
      shape.position (List.zipWith pin shape (index.drop count)) := by
  induction count generalizing index with
  | zero => rfl
  | succ count ih =>
      cases index with
      | nil => cases enough
      | cons coordinate coordinates =>
          have rest := ih (Nat.le_of_succ_le_succ enough)
          have pinned : pin 1 coordinate = 0 := rfl
          rw [List.replicate_succ, List.cons_append, List.zipWith_cons_cons, position_cons, pinned,
            Nat.zero_mul, Nat.zero_add]
          exact rest

theorem position_pin_leftPad {index : List Nat} {rank : Nat} (enough : shape.length ≤ rank)
    (aligned : index.length = rank) :
    (shape.leftPad rank).position (List.zipWith pin (shape.leftPad rank) index) =
      shape.position (shape.readIndex index) := by
  rw [leftPad, position_pin_replicate_append (by omega), readIndex, aligned]

end Featurize.Shape
