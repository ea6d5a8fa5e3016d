import Featurize.Proofs.Histories
import Featurize.Proofs.Outcome
import Featurize.Stage.Encoding
import Featurize.Stage.Normalization

/-!
Renewal of single stages. A stage that builds a collaborator is renewed by taking the
collaborator away again. When the builder gives one answer at every call, the renewed
stage makes the same of every record, and what a record changes in the stage is undone
by renewing it. The slate size that a record leaves behind is never read by the next one.
-/

namespace Featurize

/-! ### Normalization of pairs -/

namespace DenseNormalization

variable {stage : DenseNormalization} {record : Record}

def renewed (stage : DenseNormalization) : DenseNormalization :=
  { stage with normalizer := stage.normalizer.unbuilt }

theorem configure_eq_ok_iff {keys : List String} {data : NormalizationData} {device : Device}
    {factory : Option NormalizerFactory} :
    configure keys data device factory = .ok stage ↔
      ∃ make, factory = some make ∧ stage =
        { keys, data, device, normalizer := { build := fun call => make call data device } } := by
  unfold configure
  cases factory with
  | none => simp only [reduceCtorEq, false_and, exists_false]
  | some make =>
      simp only [Except.ok.injEq, Option.some.injEq, exists_eq_left']
      exact eq_comm

theorem state_apply (stage : DenseNormalization) (record : Record) :
    (stage.apply record).state =
      { stage with normalizer := stage.normalizer.supply.deferred } := by
  unfold apply
  cases supplied : stage.normalizer.supply.product with
  | error fault => simp only [supplied, Run.silent]
  | ok normalizer => simp only [supplied]

theorem outcome_apply (stage : DenseNormalization) (record : Record) :
    (stage.apply record).outcome =
      stage.normalizer.supply.product >>= fun normalizer =>
        record.replaceEach stage.keys (normalizeField normalizer) := by
  unfold apply
  cases supplied : stage.normalizer.supply.product with
  | error fault => simp only [supplied, Run.silent, bind, Except.bind]
  | ok normalizer => simp only [supplied, bind, Except.bind]

theorem renewed_apply (stage : DenseNormalization) (record : Record) :
    (stage.apply record).state.renewed = stage.renewed := by
  rw [state_apply]
  unfold renewed Deferred.unbuilt
  simp only [Deferred.build_supply]

theorem steady_apply (steady : stage.normalizer.Steady) (record : Record) :
    (stage.apply record).state.normalizer.Steady := by
  rw [state_apply]
  exact steady.deferred_supply

theorem outcome_renewed (steady : stage.normalizer.Steady) (record : Record) :
    (stage.renewed.apply record).outcome = (stage.apply record).outcome := by
  rw [outcome_apply, outcome_apply]
  unfold renewed
  simp only [steady.product_supply_unbuilt]

end DenseNormalization

/-! ### Normalization of sequences -/

namespace SequenceNormalization

variable {stage : SequenceNormalization} {record : Record}

def renewed (stage : SequenceNormalization) : SequenceNormalization :=
  { stage with normalization := stage.normalization.renewed, slateSize := 0 }

theorem configure_eq_ok_iff {keys : List String} {sequenceId : Int64} {data : NormalizationData}
    {stride : Option Nat} {device : Device} {factory : Option NormalizerFactory} :
    configure keys sequenceId data stride device factory = .ok stage ↔
      ∃ sequences normalization,
        FixedLengthSequences.configure keys sequenceId stride
          (some (keys.map (fun key => derivedKey key sequenceId))) = .ok sequences ∧
        DenseNormalization.configure (keys.map (fun key => derivedKey key sequenceId)) data device
          factory = .ok normalization ∧
        stage = { sequences, normalization } := by
  unfold configure
  simp only [Outcome.bind_eq_ok_iff, Outcome.pure_eq_ok_iff]
  constructor
  · rintro ⟨sequences, selected, normalization, made, same⟩
    exact ⟨sequences, normalization, selected, made, same.symm⟩
  · rintro ⟨sequences, normalization, selected, made, same⟩
    exact ⟨sequences, selected, normalization, made, same.symm⟩

theorem outcome_apply (stage : SequenceNormalization) (record : Record) :
    (stage.apply record).outcome =
      (stage.sequences.apply record).outcome >>= fun pairs =>
        (stage.normalization.apply pairs).outcome >>= fun rows =>
          rows.slateView stage.sequences.targets
            ((stage.sequences.apply record).state.stride.getD 0) := by
  unfold apply
  cases selected : (stage.sequences.apply record).outcome with
  | error fault => simp only [selected, bind, Except.bind]
  | ok pairs =>
      simp only [selected, bind, Except.bind]
      cases normalized : (stage.normalization.apply pairs).outcome with
      | error fault => rfl
      | ok rows => rfl

theorem sequences_apply (stage : SequenceNormalization) (record : Record) :
    (stage.apply record).state.sequences = (stage.sequences.apply record).state := by
  unfold apply
  cases selected : (stage.sequences.apply record).outcome with
  | error fault => simp only [selected]
  | ok pairs =>
      simp only [selected]
      cases normalized : (stage.normalization.apply pairs).outcome with
      | error fault => rfl
      | ok rows => rfl

theorem normalization_apply (stage : SequenceNormalization) (record : Record) :
    (stage.apply record).state.normalization = stage.normalization ∨
      ∃ pairs, (stage.apply record).state.normalization =
        (stage.normalization.apply pairs).state := by
  unfold apply
  cases selected : (stage.sequences.apply record).outcome with
  | error fault =>
      left
      simp only [selected]
  | ok pairs =>
      right
      refine ⟨pairs, ?_⟩
      simp only [selected]
      cases normalized : (stage.normalization.apply pairs).outcome with
      | error fault => rfl
      | ok rows => rfl

theorem renewed_normalization_apply (stage : SequenceNormalization) (record : Record) :
    (stage.apply record).state.normalization.renewed = stage.normalization.renewed := by
  rcases stage.normalization_apply record with same | ⟨pairs, reached⟩
  · rw [same]
  · rw [reached, DenseNormalization.renewed_apply]

theorem steady_apply (steady : stage.normalization.normalizer.Steady) (record : Record) :
    (stage.apply record).state.normalization.normalizer.Steady := by
  rcases stage.normalization_apply record with same | ⟨pairs, reached⟩
  · rw [same]
    exact steady
  · rw [reached]
    exact DenseNormalization.steady_apply steady pairs

theorem outcome_renewed (steady : stage.normalization.normalizer.Steady) (record : Record) :
    (stage.renewed.apply record).outcome = (stage.apply record).outcome := by
  rw [outcome_apply, outcome_apply]
  unfold renewed
  simp only [DenseNormalization.outcome_renewed steady]

end SequenceNormalization

/-! ### Encoding of id lists -/

namespace IdListMapping

variable {stage : IdListMapping} {record : Record}

def renewed (stage : IdListMapping) : IdListMapping :=
  { stage with encoder := stage.encoder.unbuilt }

theorem configure_eq_ok_iff {idListKeys idScoreListKeys : List String} {config : FeatureConfig}
    {device : Device} {factory : Option EncoderFactory} :
    configure idListKeys idScoreListKeys config device factory = .ok stage ↔
      idScoreListKeys.find? (fun key => idListKeys.contains key) = none ∧
        ∃ make, factory = some make ∧ stage =
          { idListKeys, idScoreListKeys, config, device
            encoder := { build := fun call => make call config device } } := by
  unfold configure
  cases shared : idScoreListKeys.find? (fun key => idListKeys.contains key) with
  | some key => simp only [reduceCtorEq, false_and]
  | none =>
      cases factory with
      | none => simp only [reduceCtorEq, false_and, exists_false, and_false]
      | some make =>
          simp only [Except.ok.injEq, Option.some.injEq, exists_eq_left', true_and]
          exact eq_comm

/-- What every need for the encoder keeps, a whole record keeps. -/
theorem encodeAll_keeps (Kept : Deferred SparseEncoder → Prop)
    (supplied : ∀ encoder, Kept encoder → Kept encoder.supply.deferred)
    (entries : List (String × SparseForm)) {encoder : Deferred SparseEncoder}
    (start : Kept encoder) (record : Record) :
    Kept (stage.encodeAll entries encoder record).state := by
  induction entries generalizing encoder record with
  | nil => exact start
  | cons entry entries ih =>
      obtain ⟨key, form⟩ := entry
      unfold encodeAll
      cases listed : (if stage.enabled then record.find? key else none) with
      | none => exact ih start (record.set key .absent)
      | some field =>
          simp only
          cases encoded : (encoder.supply.product >>= fun product =>
              encodeField product key field form) with
          | error fault => exact supplied encoder start
          | ok changed => exact ih (supplied encoder start) (record.set key changed)

theorem outcome_encodeAll_renewed {left right : Deferred SparseEncoder}
    (leftSteady : left.Steady) (rightSteady : right.Steady) (same : left.build = right.build)
    (entries : List (String × SparseForm)) (record : Record) :
    (stage.renewed.encodeAll entries left record).outcome =
      (stage.encodeAll entries right record).outcome := by
  induction entries generalizing left right record with
  | nil => rfl
  | cons entry entries ih =>
      obtain ⟨key, form⟩ := entry
      have sameProduct : left.supply.product = right.supply.product := by
        rw [leftSteady.product_supply, rightSteady.product_supply, same]
      have sameBuild : left.supply.deferred.build = right.supply.deferred.build := by
        rw [Deferred.build_supply, Deferred.build_supply, same]
      have sameEnabled : stage.renewed.enabled = stage.enabled := rfl
      unfold encodeAll
      rw [sameEnabled]
      cases listed : (if stage.enabled then record.find? key else none) with
      | none => exact ih leftSteady rightSteady same (record.set key .absent)
      | some field =>
          simp only [sameProduct]
          cases encoded : (right.supply.product >>= fun product =>
              encodeField product key field form) with
          | error fault => rfl
          | ok changed =>
              exact ih leftSteady.deferred_supply rightSteady.deferred_supply sameBuild
                (record.set key changed)

theorem renewed_apply (stage : IdListMapping) (record : Record) :
    (stage.apply record).state.renewed = stage.renewed := by
  have kept : (stage.encodeAll stage.entries stage.encoder record).state.build =
      stage.encoder.build :=
    encodeAll_keeps (fun encoder => encoder.build = stage.encoder.build)
      (fun encoder same => encoder.build_supply.trans same) stage.entries rfl record
  unfold apply renewed Deferred.unbuilt
  simp only [Run.map, kept]

theorem steady_apply (steady : stage.encoder.Steady) (record : Record) :
    (stage.apply record).state.encoder.Steady :=
  encodeAll_keeps Deferred.Steady (fun _encoder kept => kept.deferred_supply) stage.entries
    steady record

theorem outcome_renewed (steady : stage.encoder.Steady) (record : Record) :
    (stage.renewed.apply record).outcome = (stage.apply record).outcome :=
  outcome_encodeAll_renewed steady.unbuilt steady rfl stage.entries record

end IdListMapping

end Featurize
