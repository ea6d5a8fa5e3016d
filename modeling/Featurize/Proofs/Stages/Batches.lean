import Featurize.Proofs.Normalization.Masking
import Featurize.Proofs.Stages.Exactness
import Featurize.Proofs.Stages.Locality
import Featurize.Proofs.Tensors.Batches

/-!
Batches in stages. A stage is row-wise when it computes each row of its output from one row of its
input. Two records whose fields are stacked can then be given to it one by one or as one record: it
succeeds for the whole exactly if it succeeds for both parts, and the fields that it writes for the
whole are those for the parts, stacked.
-/

namespace Featurize

open Outcome (Splits)

/-! ### Stacked records -/

structure ValuePresence.Stacked (least : Nat) (first second whole : ValuePresence) : Prop where
  value : Tensor.Stacked least first.value second.value whole.value
  presence : Tensor.Stacked least first.presence second.presence whole.presence
  firstAligned : first.Aligned
  secondAligned : second.Aligned

inductive Field.Stacked (least : Nat) : Field → Field → Field → Prop where
  | tensor {first second whole : Tensor} (stacked : Tensor.Stacked least first second whole) :
      Stacked least (.tensor first) (.tensor second) (.tensor whole)
  | pair {first second whole : ValuePresence} (stacked : first.Stacked least second whole) :
      Stacked least (.valuePresence first) (.valuePresence second) (.valuePresence whole)
  | scalars {first second : List Double} (axes : least ≤ 1)
      (word : first.length + second.length < Word.modulus) :
      Stacked least (.scalarList first) (.scalarList second) (.scalarList (first ++ second))

/-- The fields of the whole under some keys are those of the first record with those of the second
below them. -/
def Record.StackedOn (least : Nat) (keys : List String) (first second whole : Record) : Prop :=
  ∀ key ∈ keys, ∃ a b c, first.find? key = some a ∧ second.find? key = some b ∧
    whole.find? key = some c ∧ Field.Stacked least a b c

namespace ValuePresence.Stacked

variable {least : Nat} {first second whole : ValuePresence} {key : String}

theorem aligned (stacked : first.Stacked least second whole) : whole.Aligned := by
  obtain ⟨top, bottom, rest, flat, maskFlat⟩ :=
    stacked.value.exists_flats stacked.presence stacked.firstAligned stacked.secondAligned
  exact flat.wholeShape.trans maskFlat.wholeShape.symm

theorem checkAligned (stacked : first.Stacked least second whole) :
    Splits (fun _ _ _ => True) (first.checkAligned key) (second.checkAligned key)
      (whole.checkAligned key) := by
  unfold ValuePresence.checkAligned
  rw [if_pos stacked.firstAligned, if_pos stacked.secondAligned, if_pos stacked.aligned]
  exact .passed trivial

end ValuePresence.Stacked

theorem Tensor.stacked_ofList {first second : List Double} {least : Nat} (axes : least ≤ 1)
    (word : first.length + second.length < Word.modulus) :
    Tensor.Stacked least (.ofList first) (.ofList second) (.ofList (first ++ second)) := by
  unfold ofList
  rw [List.length_append]
  have volume : Shape.volume [] = 1 := rfl
  refine stacked_tabulate axes word ?_ (fun position inside => ?_) (fun position _inside => ?_)
  · rwa [Shape.FitsWord, Shape.volume_cons, volume, Nat.mul_one]
  · rw [volume, Nat.mul_one] at inside
    rw [List.getElem?_toArray, List.getElem?_toArray, List.getElem?_append_left inside]
  · rw [volume, Nat.mul_one, List.getElem?_toArray, List.getElem?_toArray,
      List.getElem?_append_right (Nat.le_add_right ..), Nat.add_sub_cancel_left]

namespace Field.Stacked

variable {least : Nat} {first second whole : Field} {key : String}

theorem asTensor (stacked : Field.Stacked least first second whole) :
    Splits (Tensor.Stacked least) (first.asTensor key) (second.asTensor key)
      (whole.asTensor key) := by
  cases stacked with
  | tensor dense => exact .passed dense
  | pair pairs => exact .firstFailed
  | scalars axes word => exact .firstFailed

theorem asPair (stacked : Field.Stacked least first second whole) :
    Splits (ValuePresence.Stacked least) (first.asPair key) (second.asPair key)
      (whole.asPair key) := by
  cases stacked with
  | tensor dense => exact .firstFailed
  | pair pairs => exact .passed pairs
  | scalars axes word => exact .firstFailed

theorem columnValues (stacked : Field.Stacked least first second whole) :
    Splits (Tensor.Stacked least) (Record.columnValues key first) (Record.columnValues key second)
      (Record.columnValues key whole) := by
  cases stacked with
  | tensor dense => exact .passed dense
  | pair pairs => exact .passed pairs.value
  | scalars axes word => exact .passed (Tensor.stacked_ofList axes word)

end Field.Stacked

namespace Record

variable {first second whole : Record} {least : Nat} {keys names : List String}
  {change : String → Field → Except Fault Field} {ask : Field → Option Shape}

theorem StackedOn.set {a b c : Field} (stacked : StackedOn least names first second whole)
    (changed : Field.Stacked least a b c) (key : String) :
    StackedOn least names (first.set key a) (second.set key b) (whole.set key c) := by
  intro name member
  rw [find?_set, find?_set, find?_set]
  by_cases same : key = name
  · rw [if_pos same, if_pos same, if_pos same]
    exact ⟨a, b, c, rfl, rfl, rfl, changed⟩
  · rw [if_neg same, if_neg same, if_neg same]
    exact stacked name member

/-- What keeps a single field stacked keeps the fields under all keys stacked, as long as the shapes
asked for in the whole fit. A key can be met more than once. -/
theorem splits_replaceEach {replace : Record → String → Except Fault Record}
    (stacked : StackedOn least names first second whole) (listed : keys ⊆ names)
    (fits : ∀ shape ∈ whole.askedEach replace ask keys, shape.FitsWord)
    (alone : ∀ record key, replace record key = record.replaceEach [key] change)
    (step : ∀ key a b c, Field.Stacked least a b c → (∀ shape ∈ ask c, shape.FitsWord) →
      Splits (Field.Stacked least) (change key a) (change key b) (change key c)) :
    Splits (StackedOn least names) (first.replaceEach keys change)
      (second.replaceEach keys change) (whole.replaceEach keys change) := by
  -- All names stay stacked, so that a repeated key meets what was stored under it before.
  induction keys generalizing first second whole with
  | nil => exact .passed stacked
  | cons key keys ih =>
      obtain ⟨here, later⟩ := List.cons_subset.mp listed
      obtain ⟨a, b, c, foundFirst, foundSecond, foundWhole, held⟩ := stacked key here
      rw [askedEach, foundWhole] at fits
      obtain ⟨own, others⟩ := List.forall_mem_append.mp fits
      rw [replaceEach_cons, replaceEach_cons, replaceEach_cons, get_eq_ok_iff.mpr foundFirst,
        get_eq_ok_iff.mpr foundSecond, get_eq_ok_iff.mpr foundWhole]
      refine (step key a b c held fun shape asked =>
        own shape (Option.mem_toList.mpr asked)).traced.bind ?_
      rintro changedFirst changedSecond changedWhole ⟨changed, _madeFirst, _madeSecond, made⟩
      have single : replace whole key = .ok (whole.set key changedWhole) := by
        rw [alone]
        exact replaceEach_cons_eq_ok_iff.mpr ⟨c, changedWhole, foundWhole, made, rfl⟩
      rw [single] at others
      exact ih (stacked.set changed key) later others

theorem splits_replaceEach_of_keeps (stacked : StackedOn least keys first second whole)
    (keeps : ∀ key a b c, Field.Stacked least a b c →
      Splits (Field.Stacked least) (change key a) (change key b) (change key c)) :
    Splits (StackedOn least keys) (first.replaceEach keys change) (second.replaceEach keys change)
      (whole.replaceEach keys change) := by
  have fits : ∀ shape ∈ whole.askedEach (fun record key => record.replaceEach [key] change)
      (fun _field => none) keys, shape.FitsWord := by
    rw [askedEach_none]
    exact nofun
  exact splits_replaceEach stacked (List.Subset.refl keys) fits (fun _record _key => rfl)
    (fun key a b c held _fits => keeps key a b c held)

/-! ### Operations -/

theorem splits_maskByPresence (stacked : StackedOn least keys first second whole) :
    Splits (StackedOn least keys) (first.maskByPresence keys) (second.maskByPresence keys)
      (whole.maskByPresence keys) := by
  refine splits_replaceEach_of_keeps stacked fun key a b c held => ?_
  refine held.asPair.bind fun firstPair secondPair wholePair pairs => ?_
  refine pairs.checkAligned.liftShape.bind fun _ _ _ _ => ?_
  refine (pairs.value.multiply pairs.presence pairs.firstAligned
    pairs.secondAligned).liftShape.bind fun _ _ _ products => ?_
  exact .passed (.tensor products)

theorem isColumn_cons (rows other : Nat) (rest : Shape) :
    isColumn (rows :: rest) = isColumn (other :: rest) := by
  cases rest with
  | nil => rfl
  | cons size sizes =>
      cases sizes with
      | nil => rfl
      | cons next sizes => rfl

theorem splits_columnVector (stacked : StackedOn least keys first second whole)
    (enough : least ≤ 2) :
    Splits (StackedOn least keys) (first.columnVector keys) (second.columnVector keys)
      (whole.columnVector keys) := by
  refine splits_replaceEach_of_keeps stacked fun key a b c held => ?_
  refine held.columnValues.bind fun firstValue secondValue wholeValue values => ?_
  obtain ⟨top, bottom, rest, flat⟩ := values.flat
  refine Splits.guard ?_ ?_ fun _column => ?_
  · rw [flat.firstShape, flat.wholeShape, isColumn_cons top (top + bottom)]
  · rw [flat.secondShape, flat.wholeShape, isColumn_cons bottom (top + bottom)]
  · refine values.columns.liftShape.bind fun _ _ _ columns => ?_
    exact .passed (.tensor (columns.mono enough))

theorem splits_oneHotActions {actions : Nat} (stacked : StackedOn least keys first second whole)
    (fits : ∀ shape ∈ (Operation.oneHotActions keys actions).asked whole, shape.FitsWord) :
    Splits (StackedOn least keys) (first.oneHotActions keys actions)
      (second.oneHotActions keys actions) (whole.oneHotActions keys actions) := by
  refine splits_replaceEach stacked (List.Subset.refl keys) fits (fun _record _key => rfl)
    fun key a b c held fits => ?_
  refine held.asTensor.traced.bind ?_
  rintro firstDense secondDense wholeDense ⟨dense, _readFirst, _readSecond, read⟩
  have asked : Shape.FitsWord (wholeDense.shape ++ [Word.wrap (actions + 1)]) := by
    rw [Field.asTensor_eq_ok_iff.mp read] at fits
    exact fits _ rfl
  refine (dense.oneHot asked).liftShape.bind fun _ _ wholeRows rows => ?_
  have lines : 2 ≤ wholeRows.rank :=
    Nat.le_trans (Nat.succ_le_succ dense.rank_positive) rows.axes
  refine (rows.firstColumns lines).liftShape.bind fun _ _ _ chosen => ?_
  exact .passed (.tensor (chosen.mono (Nat.le_succ_of_le dense.axes)))

theorem splits_appendConstant {value : Double} (stacked : StackedOn least keys first second whole)
    (lines : 2 ≤ least)
    (fits : ∀ shape ∈ (Operation.appendConstant keys (-1) value).asked whole, shape.FitsWord) :
    Splits (StackedOn least keys) (first.appendConstant keys (-1) value)
      (second.appendConstant keys (-1) value) (whole.appendConstant keys (-1) value) := by
  refine splits_replaceEach stacked (List.Subset.refl keys) fits (fun _record _key => rfl)
    fun key a b c held fits => ?_
  refine held.asTensor.traced.bind ?_
  rintro firstDense secondDense wholeDense ⟨dense, _readFirst, _readSecond, read⟩
  obtain ⟨top, bottom, rest, flat⟩ := dense.flat
  have ranked : 2 ≤ wholeDense.rank := Nat.le_trans lines dense.axes
  have asked : Shape.FitsWord (wholeDense.shape.dropLast ++ [1 + wholeDense.width]) := by
    rw [Field.asTensor_eq_ok_iff.mp read] at fits
    exact fits _ (Tensor.joinedShape?_constant (Tensor.shape_eq_of_rank dense.rank_positive))
  refine Splits.guard (by rw [flat.firstRank]) (by rw [flat.secondRank]) fun _axes => ?_
  refine (dense.constant ranked asked).liftShape.bind fun _ _ _ extended => ?_
  exact .passed (.tensor extended)

theorem splits_selectColumns {source destination : String} {columns : List Nat}
    (stacked : StackedOn least [source] first second whole)
    (fits : ∀ pair, whole.pair source = .ok pair →
      Shape.FitsWord (pair.value.shape.dropLast ++ [columns.length])) :
    Splits (StackedOn least [destination]) (first.selectColumns source destination columns)
      (second.selectColumns source destination columns)
      (whole.selectColumns source destination columns) := by
  obtain ⟨a, b, c, foundFirst, foundSecond, foundWhole, held⟩ :=
    stacked source (List.mem_singleton_self source)
  have pairs : Splits (ValuePresence.Stacked least) (first.pair source) (second.pair source)
      (whole.pair source) := by
    unfold pair
    rw [get_eq_ok_iff.mpr foundFirst, get_eq_ok_iff.mpr foundSecond, get_eq_ok_iff.mpr foundWhole]
    exact held.asPair
  refine pairs.traced.bind ?_
  rintro firstPair secondPair wholePair ⟨pair, _readFirst, _readSecond, read⟩
  obtain ⟨top, bottom, rest, flat⟩ := pair.value.flat
  have valueFits := fits wholePair read
  have presenceFits := valueFits
  have ranks : wholePair.value.rank = wholePair.presence.rank := congrArg List.length pair.aligned
  rw [pair.aligned] at presenceFits
  refine pair.checkAligned.liftShape.bind fun _ _ _ _ => ?_
  refine Splits.guard (by rw [flat.firstRank]) (by rw [flat.secondRank]) fun matrix => ?_
  have lines : wholePair.value.rank = 2 := Decidable.not_not.mp matrix
  refine (pair.value.selectColumns (Nat.le_of_eq lines.symm)
    fun _inside => valueFits).traced.liftShape.bind ?_
  rintro firstValue secondValue wholeValue ⟨values, madeFirst, madeSecond, _madeWhole⟩
  refine (pair.presence.selectColumns (Nat.le_of_eq (lines.symm.trans ranks))
    fun _inside => presenceFits).traced.liftShape.bind ?_
  rintro firstMask secondMask wholeMask ⟨masks, maskedFirst, maskedSecond, _maskedWhole⟩
  have selected : ValuePresence.Stacked least ⟨firstValue, firstMask⟩ ⟨secondValue, secondMask⟩
      ⟨wholeValue, wholeMask⟩ :=
    ⟨values, masks, Tensor.same_shape_selectColumns pair.firstAligned madeFirst maskedFirst,
      Tensor.same_shape_selectColumns pair.secondAligned madeSecond maskedSecond⟩
  refine .passed fun name member => ?_
  cases List.mem_singleton.mp member
  rw [find?_set, find?_set, find?_set, if_pos rfl, if_pos rfl, if_pos rfl]
  exact ⟨_, _, _, rfl, rfl, rfl, .pair selected⟩

end Record

/-! ### Normalization -/

namespace DenseNormalization

variable {keys : List String} {data : NormalizationData} {device : Device}
  {stage : DenseNormalization} {normalizer : Normalizer} {key : String} {least : Nat}

theorem splits_scaled {first second whole : ValuePresence}
    (stacked : first.Stacked least second whole)
    (standard : data.normalizer device = .ok normalizer) :
    Splits (Field.Stacked least) (normalizeField normalizer key (.valuePresence first))
      (normalizeField normalizer key (.valuePresence second))
      (normalizeField normalizer key (.valuePresence whole)) := by
  rw [normalizeField_standard standard stacked.firstAligned,
    normalizeField_standard standard stacked.secondAligned,
    normalizeField_standard standard stacked.aligned]
  obtain ⟨top, bottom, rest, flat, maskFlat⟩ :=
    stacked.value.exists_flats stacked.presence stacked.firstAligned stacked.secondAligned
  have matrix : ∀ {pair : ValuePresence} {rows : Nat}, pair.value.shape = rows :: rest →
      (pair.value.shape = [pair.value.rows, data.size] ↔ rest = [data.size]) := by
    intro pair rows shaped
    rw [Tensor.rows_of_shape shaped, shaped, List.cons.injEq, and_iff_right rfl]
  by_cases columns : rest = [data.size]
  · rw [if_pos ((matrix flat.firstShape).mpr columns),
      if_pos ((matrix flat.secondShape).mpr columns), if_pos ((matrix flat.wholeShape).mpr columns)]
    have axes := stacked.value.axes
    rw [Tensor.rank, flat.wholeShape, List.length_cons] at axes
    have volume : Shape.volume rest = data.size := by
      rw [columns, Shape.volume_cons, Shape.volume, Nat.mul_one]
    refine .passed (.tensor ?_)
    unfold NormalizationData.scaled
    rw [flat.firstShape, flat.secondShape, flat.wholeShape]
    refine Tensor.stacked_tabulate axes flat.word flat.fits (fun position inside => ?_)
      (fun position _inside => ?_)
    · rw [flat.get_first inside, maskFlat.get_first inside]
    · rw [flat.get_second, maskFlat.get_second, volume, Nat.mul_comm, Nat.mul_add_mod]
  · rw [if_neg (mt (matrix flat.firstShape).mp columns),
      if_neg (mt (matrix flat.wholeShape).mp columns)]
    exact .firstFailed

theorem splits_normalized {first second whole : Record}
    (configured : configure keys data device (some .standard) = .ok stage)
    (stacked : Record.StackedOn least keys first second whole)
    (firstHistory secondHistory wholeHistory : List Record) :
    Splits (Record.StackedOn least keys) ((stage.after firstHistory).apply first).outcome
      ((stage.after secondHistory).apply second).outcome
      ((stage.after wholeHistory).apply whole).outcome := by
  rw [outcome_after_standard configured, outcome_after_standard configured,
    outcome_after_standard configured]
  cases standard : data.normalizer device with
  | error fault => exact .firstFailed
  | ok normalizer =>
      refine Record.splits_replaceEach_of_keeps stacked fun key a b c held => ?_
      cases held with
      | tensor dense => exact .firstFailed
      | pair pairs => exact splits_scaled pairs standard
      | scalars axes word => exact .firstFailed

end DenseNormalization

/-! ### Row-wise stages -/

namespace Stage

/-- Stages that compute every row of their output from one row of their input, with the number of
axes that a tensor then needs: with a single axis, the last axis is that of the rows, and along it
a constant is no part of any row. Numbers of actions are exact as doubles. -/
inductive RowWise : Nat → Stage → Prop where
  | normalization {keys : List String} {data : NormalizationData} {device : Device}
      {stage : DenseNormalization}
      (configured : DenseNormalization.configure keys data device (some .standard) = .ok stage) :
      RowWise 1 (.normalization stage)
  | maskByPresence (keys : List String) : RowWise 1 (.operation (.maskByPresence keys))
  | selectColumns (source destination : String) (columns : List Nat) :
      RowWise 1 (.operation (.selectColumns source destination columns))
  | oneHotActions (keys : List String) {actions : Nat} (exact : actions < 9007199254740992) :
      RowWise 1 (.operation (.oneHotActions keys actions))
  | columnVector (keys : List String) : RowWise 1 (.operation (.columnVector keys))
  | appendConstant (keys : List String) (value : Double) :
      RowWise 2 (.operation (.appendConstant keys (-1) value))

def made (record : Record) : Stage → List Shape
  | .operation (.selectColumns source _ columns) =>
      ((record.pair source).toOption.map fun pair =>
        pair.value.shape.dropLast ++ [columns.length]).toList
  | stage => stage.asked record

theorem after_operation (plain : Operation) (history : List Record) :
    (Stage.operation plain).after history = .operation plain := by
  induction history with
  | nil => rfl
  | cons record history ih => exact ih

theorem after_normalization (stage : DenseNormalization) (history : List Record) :
    (Stage.normalization stage).after history = .normalization (stage.after history) := by
  induction history generalizing stage with
  | nil => rfl
  | cons record history ih => exact ih (stage.apply record).state

variable {stage : Stage} {scope : Scope} {least : Nat} {first second whole : Record}

theorem splits_rowWise (rowWise : stage.RowWise least) (named : stage.scope? = some scope)
    (stacked : Record.StackedOn least scope.reads first second whole)
    (fits : ∀ shape ∈ stage.made whole, shape.FitsWord)
    (firstHistory secondHistory wholeHistory : List Record) :
    Splits (Record.StackedOn least scope.writes) ((stage.after firstHistory).apply first).outcome
      ((stage.after secondHistory).apply second).outcome
      ((stage.after wholeHistory).apply whole).outcome := by
  cases rowWise with
  | normalization configured =>
      cases named
      rw [after_normalization, after_normalization, after_normalization]
      obtain ⟨_make, _given, options⟩ := DenseNormalization.configure_eq_ok_iff.mp configured
      rw [options] at stacked ⊢
      rw [options] at configured
      exact DenseNormalization.splits_normalized configured stacked firstHistory secondHistory
        wholeHistory
  | maskByPresence keys =>
      cases named
      rw [after_operation, after_operation, after_operation]
      exact Record.splits_maskByPresence stacked
  | selectColumns source destination columns =>
      cases named
      rw [after_operation, after_operation, after_operation]
      refine Record.splits_selectColumns stacked fun pair read => fits _ ?_
      simp only [made, read]
      exact List.mem_singleton_self _
  | oneHotActions keys exact =>
      cases named
      rw [after_operation, after_operation, after_operation]
      exact Record.splits_oneHotActions stacked fits
  | columnVector keys =>
      cases named
      rw [after_operation, after_operation, after_operation]
      exact Record.splits_columnVector stacked (Nat.le_succ 1)
  | appendConstant keys value =>
      cases named
      rw [after_operation, after_operation, after_operation]
      exact Record.splits_appendConstant stacked (Nat.le_refl 2) fits

/-- A row-wise stage, behind whatever histories, succeeds for stacked records exactly if it succeeds
for both of them, and then writes for the whole what it writes for the two, stacked. No count of
elements that it makes exceeds a word. -/
theorem batches_commute (rowWise : stage.RowWise least) (named : stage.scope? = some scope)
    (stacked : Record.StackedOn least scope.reads first second whole)
    (fits : ∀ shape ∈ stage.made whole, shape.FitsWord)
    (firstHistory secondHistory wholeHistory : List Record) :
    ((∃ output, ((stage.after wholeHistory).apply whole).outcome = .ok output) ↔
      (∃ output, ((stage.after firstHistory).apply first).outcome = .ok output) ∧
        ∃ output, ((stage.after secondHistory).apply second).outcome = .ok output) ∧
    ∀ firstOutput secondOutput wholeOutput,
      ((stage.after firstHistory).apply first).outcome = .ok firstOutput →
      ((stage.after secondHistory).apply second).outcome = .ok secondOutput →
      ((stage.after wholeHistory).apply whole).outcome = .ok wholeOutput →
      Record.StackedOn least scope.writes firstOutput secondOutput wholeOutput := by
  have split := splits_rowWise rowWise named stacked fits firstHistory secondHistory wholeHistory
  exact ⟨split.succeeds_iff, fun _firstOutput _secondOutput _wholeOutput firstPassed secondPassed
    wholePassed => split.related_of_ok firstPassed secondPassed wholePassed⟩

/-- Two rows and one, with a constant in front of each. The stage of the whole was used before. -/
theorem batches_commute_constant :
    ∃ first second whole,
      ((Stage.operation (.appendConstant ["x"] (-1) 1.0)).apply
        (Record.empty.set "x" (.tensor (.numbered [2, 1] 5)))).outcome = .ok first ∧
      ((Stage.operation (.appendConstant ["x"] (-1) 1.0)).apply
        (Record.empty.set "x" (.tensor (.numbered [1, 1] 7)))).outcome = .ok second ∧
      (((Stage.operation (.appendConstant ["x"] (-1) 1.0)).after [Record.empty]).apply
        (Record.empty.set "x" (.tensor (.numbered [3, 1] 5)))).outcome = .ok whole ∧
      Record.StackedOn 2 ["x"] first second whole := by
  have stacked : Record.StackedOn 2 ["x"]
      (Record.empty.set "x" (.tensor (.numbered [2, 1] 5)))
      (Record.empty.set "x" (.tensor (.numbered [1, 1] 7)))
      (Record.empty.set "x" (.tensor (.numbered [3, 1] 5))) :=
    List.forall_mem_singleton.mpr ⟨_, _, _, rfl, rfl, rfl,
      .tensor ⟨rfl, rfl, by decide, by decide⟩⟩
  obtain ⟨succeeds, written⟩ := batches_commute (.appendConstant ["x"] 1.0) rfl stacked
    (by decide) [] [] [Record.empty]
  obtain ⟨⟨first, firstPassed⟩, second, secondPassed⟩ := succeeds.mp ⟨_, rfl⟩
  exact ⟨first, second, _, firstPassed, secondPassed, rfl,
    written first second _ firstPassed secondPassed rfl⟩

end Stage

end Featurize
