import Featurize.Proofs.Normalization.Entries
import Featurize.Proofs.Sequences.Stride
import Featurize.Proofs.Stages.Renewal

/-!
Slates of normalized sequences. Selecting a sequence, normalizing its payload and cutting
the rows into slates puts each step of each batch element where its offset says: entry
`[batch, step, column]` comes from the payload row that lies `step` rows behind the offset
of that element. This holds for every accepted record, whatever came before it.
-/

namespace Featurize

/-- The slates of a sequence: one for each batch element, with one row for each step of the
stride and one column for each set of parameters. -/
structure NormalizationData.Slates (data : NormalizationData) (feature : SequenceFeature)
    (stride : Nat) (slates : Tensor) : Prop where
  value : feature.payload.value.shape = [feature.payload.value.rows, data.size]
  presence : feature.payload.presence.shape = feature.payload.value.shape
  shape : slates.shape = [feature.offsets.length, stride, data.size]
  element : ∀ batch step column offset parameters, feature.offsets[batch]? = some offset →
    step < stride → data.parameters[column]? = some parameters →
      ∃ row : Nat, (row : Int) = offset.toInt + step ∧ row < feature.payload.value.rows ∧
        slates.element [batch, step, column] =
          parameters.entry (feature.payload.value.element [row, column])
            (feature.payload.presence.element [row, column])

namespace Record

theorem slateView_eq_ok_iff {record output : Record} {keys : List String} {size : Nat} :
    record.slateView keys size = .ok output ↔
      size ≠ 0 ∧ record.replaceEach keys (cutSlates size) = .ok output := by
  unfold slateView
  simp only [Outcome.guard_eq_ok_iff, ne_eq]

theorem cutSlates_eq_ok_iff {size : Nat} {key : String} {field changed : Field} :
    cutSlates size key field = .ok changed ↔
      ∃ matrix rows columns slates, field = .tensor matrix ∧ matrix.shape = [rows, columns] ∧
        matrix.reshape [-1, Word.signed size, Word.signed columns] = .ok slates ∧
        changed = .tensor slates := by
  unfold cutSlates
  simp only [Outcome.bind_eq_ok_iff]
  constructor
  · rintro ⟨matrix, read, cut⟩
    cases field with
    | tensor dense =>
        cases read
        split at cut
        · rename_i rows columns shape
          simp only [Outcome.bind_eq_ok_iff, Outcome.liftShape_eq_ok_iff,
            Outcome.pure_eq_ok_iff] at cut
          obtain ⟨slates, regrouped, same⟩ := cut
          exact ⟨matrix, rows, columns, slates, rfl, shape, regrouped, same.symm⟩
        · cases cut
    | _ => cases read
  · rintro ⟨matrix, rows, columns, slates, read, shape, regrouped, same⟩
    subst read
    refine ⟨matrix, rfl, ?_⟩
    simp only [shape, Outcome.bind_eq_ok_iff, Outcome.liftShape_eq_ok_iff,
      Outcome.pure_eq_ok_iff]
    exact ⟨slates, regrouped, same.symm⟩

end Record

theorem NormalizationData.Scales.slates {data : NormalizationData} {feature : SequenceFeature}
    {stride : Nat} {scaled slates : Tensor} (scales : data.Scales feature.payload scaled)
    (keeps : feature.KeepsStride stride) (unwrapped : feature.payload.value.Exact)
    (word : stride < Word.modulus)
    (cut : scaled.reshape [-1, Word.signed stride, Word.signed data.size] = .ok slates) :
    data.Slates feature stride slates := by
  have scaledShape : scaled.shape = [feature.offsets.length * stride, data.size] := by
    rw [scales.shape, scales.value, keeps.rows]
  have scaledExact : scaled.Exact :=
    Tensor.exact_of_volume_lt (scales.shape ▸ unwrapped.volume_lt)
  obtain ⟨shape, sameData⟩ := Tensor.reshape_slates scaledExact scaledShape word cut
  refine ⟨scales.value, scales.presence, shape, ?_⟩
  intro batch step column offset parameters offsetAt inside listed
  have batchInside : batch < feature.offsets.length := (List.getElem?_eq_some_iff.mp offsetAt).1
  have start : offset.toInt = ((batch * stride : Nat) : Int) := by
    have aligned := congrArg (fun offsets => offsets[batch]?) keeps.offsets
    simp only [List.getElem?_map, offsetAt, Option.map_some, List.getElem?_range batchInside,
      Option.some.injEq] at aligned
    exact aligned
  have rowInside : batch * stride + step < feature.payload.value.rows := by
    rw [keeps.rows]
    exact Shape.entry_lt batchInside inside
  refine ⟨batch * stride + step, ?_, rowInside, ?_⟩
  · rw [start]
    exact Int.natCast_add (batch * stride) step
  · rw [Tensor.element_slates scaledShape shape sameData]
    exact scales.element (batch * stride + step) column parameters rowInside listed

namespace SequenceNormalization

variable {stage : SequenceNormalization} {keys : List String} {sequenceId : Int64}
  {data : NormalizationData} {length : Option Nat} {device : Device}

def after (stage : SequenceNormalization) (history : List Record) : SequenceNormalization :=
  Run.stateAfter apply stage history

theorem sequences_after (stage : SequenceNormalization) (history : List Record) :
    (stage.after history).sequences = stage.sequences.after history := by
  induction history generalizing stage with
  | nil => rfl
  | cons record history ih =>
      have step := ih (stage.apply record).state
      rw [sequences_apply] at step
      exact step

theorem normalization_after (steady : stage.normalization.normalizer.Steady)
    (history : List Record) :
    (stage.after history).normalization.renewed = stage.normalization.renewed ∧
      (stage.after history).normalization.normalizer.Steady :=
  Run.stateAfter_keeps
    (fun later : SequenceNormalization =>
      later.normalization.renewed = stage.normalization.renewed ∧
        later.normalization.normalizer.Steady)
    (fun later record kept =>
      ⟨(later.renewed_normalization_apply record).trans kept.1, steady_apply kept.2 record⟩)
    ⟨rfl, steady⟩ history

private theorem entries_derived (sequenceId : Int64) {key : String} (member : key ∈ keys) :
    ∃ before later : List String, keys = before ++ key :: later ∧
      keys.zip (keys.map (fun name => derivedKey name sequenceId)) =
        before.map (fun name => (name, derivedKey name sequenceId)) ++
          (key, derivedKey key sequenceId) ::
            later.map (fun name => (name, derivedKey name sequenceId)) := by
  obtain ⟨before, later, split⟩ := List.append_of_mem member
  refine ⟨before, later, split, ?_⟩
  rw [← List.map_prod_left_eq_zip, split, List.map_append, List.map_cons]

/-- An accepted record was selected under the stride, scaled by the standard normalizer and
cut into slates of the stride, each time under the derived keys. -/
private theorem accepted_stages
    (configured : configure keys sequenceId data length device (some .standard) = .ok stage)
    (history : List Record) {record output : Record}
    (accepted : ((stage.after history).apply record).outcome = .ok output) :
    ∃ pairs normalizer rows,
      ((stage.after history).sequences.apply record).outcome = .ok pairs ∧
      data.normalizer device = .ok normalizer ∧
      pairs.replaceEach (keys.map (fun key => derivedKey key sequenceId))
        (DenseNormalization.normalizeField normalizer) = .ok rows ∧
      rows.slateView (keys.map (fun key => derivedKey key sequenceId))
        (((stage.after history).apply record).state.sequences.stride.getD 0) = .ok output := by
  obtain ⟨sequences, normalization, selected, made, options⟩ := configure_eq_ok_iff.mp configured
  have sequencesIs : stage.sequences = sequences := congrArg SequenceNormalization.sequences options
  have normalizationIs : stage.normalization = normalization :=
    congrArg SequenceNormalization.normalization options
  obtain ⟨make, given, normalizationOptions⟩ := DenseNormalization.configure_eq_ok_iff.mp made
  obtain ⟨_parallel, _notEmpty, sequencesOptions⟩ :=
    FixedLengthSequences.configure_eq_ok_iff.mp selected
  cases given
  have steady : stage.normalization.normalizer.Steady := by
    rw [normalizationIs, normalizationOptions]
    exact Deferred.steady_of_constant (fun _call => rfl)
  obtain ⟨renewed, steadyLater⟩ := normalization_after steady history
  rw [normalizationIs, normalizationOptions] at renewed
  have keysLater : (stage.after history).normalization.keys =
      keys.map (fun key => derivedKey key sequenceId) :=
    congrArg DenseNormalization.keys renewed
  have buildLater : (stage.after history).normalization.normalizer.build 0 =
      (data.normalizer device).mapError Fault.config :=
    congrArg (fun later : DenseNormalization => later.normalizer.build 0) renewed
  have targetsLater : (stage.after history).sequences.targets =
      keys.map (fun key => derivedKey key sequenceId) := by
    rw [sequences_after, FixedLengthSequences.after_eq, sequencesIs, sequencesOptions]
    rfl
  rw [outcome_apply] at accepted
  simp only [Outcome.bind_eq_ok_iff, DenseNormalization.outcome_apply] at accepted
  obtain ⟨pairs, chosen, rows, ⟨normalizer, supplied, replaced⟩, cut⟩ := accepted
  rw [steadyLater.product_supply, buildLater] at supplied
  rw [keysLater] at replaced
  rw [targetsLater] at cut
  rw [sequences_apply]
  exact ⟨pairs, normalizer, rows, chosen, Outcome.mapError_eq_ok_iff.mp supplied, replaced, cut⟩

/-- The payload that is selected for a key is that of its sequence in the record, and keeps the
stride that holds after the record. -/
private theorem selected_payload {sequences : FixedLengthSequences}
    (configured : FixedLengthSequences.configure keys sequenceId length
      (some (keys.map (fun key => derivedKey key sequenceId))) = .ok sequences)
    (history : List Record) {record pairs : Record}
    (distinct : (keys.map (fun key => derivedKey key sequenceId)).Nodup)
    (small : ∀ key ∈ keys, ∀ feature stride, record.HoldsSequence key sequenceId feature →
      ((sequences.after history).apply record).state.stride = some stride →
        feature.StepsFit stride)
    (chosen : ((sequences.after history).apply record).outcome = .ok pairs) {key : String}
    (member : key ∈ keys) :
    ∃ feature stride, record.HoldsSequence key sequenceId feature ∧
      ((sequences.after history).apply record).state.stride = some stride ∧
      feature.KeepsStride stride ∧
      pairs.find? (derivedKey key sequenceId) = some (.valuePresence feature.payload) := by
  obtain ⟨before, later, split, entriesSplit⟩ := entries_derived sequenceId member
  obtain ⟨_parallel, _notEmpty, options⟩ := FixedLengthSequences.configure_eq_ok_iff.mp
    (FixedLengthSequences.configure_after configured history)
  have idLater : (sequences.after history).sequenceId = sequenceId :=
    congrArg FixedLengthSequences.sequenceId options
  have entriesLater : (sequences.after history).entries =
      keys.zip (keys.map (fun name => derivedKey name sequenceId)) := by
    rw [options]
    rfl
  have keyed : (sequences.after history).entries ≠ [] := by
    rw [entriesLater, entriesSplit]
    exact List.append_ne_nil_of_right_ne_nil _ (List.cons_ne_nil _ _)
  obtain ⟨stride, settled⟩ := FixedLengthSequences.exists_stride_of_accepted keyed chosen
  rw [FixedLengthSequences.outcome_apply settled, idLater, entriesLater, entriesSplit] at chosen
  have last : ∀ entry ∈ later.map (fun name => (name, derivedKey name sequenceId)),
      entry.2 ≠ derivedKey key sequenceId := by
    intro entry listed same
    obtain ⟨name, nameLater, isEntry⟩ := List.mem_map.mp listed
    rw [split, List.map_append, List.map_cons] at distinct
    have headTail := List.nodup_cons.mp (List.nodup_append.mp distinct).2.1
    subst isEntry
    exact headTail.1 (List.mem_map.mpr ⟨name, nameLater, same⟩)
  obtain ⟨feature, held, selected, found⟩ :=
    FixedLengthSequences.find?_store_of_last chosen last
  have fits := small key member feature stride held settled
  exact ⟨feature, stride, held, settled,
    ((FixedLengthSequences.select_eq_ok_iff fits).mp selected).1, found⟩

/-- Whatever records came before: when a record is accepted, the derived key of every key holds
the slates of its sequence in that record, under the stride that holds after it. A configured
length is a word, as every size is. -/
theorem slates_of_accepted
    (configured : configure keys sequenceId data length device (some .standard) = .ok stage)
    (word : ∀ stride, length = some stride → stride < Word.modulus)
    (history : List Record) {record output : Record}
    (unwrapped : ∀ key ∈ keys, ∀ feature, record.HoldsSequence key sequenceId feature →
      feature.payload.value.Exact)
    (small : ∀ key ∈ keys, ∀ feature stride, record.HoldsSequence key sequenceId feature →
      ((stage.after history).apply record).state.sequences.stride = some stride →
        feature.StepsFit stride)
    (accepted : ((stage.after history).apply record).outcome = .ok output) :
    ∀ key ∈ keys, ∃ feature stride slates,
      record.HoldsSequence key sequenceId feature ∧
      ((stage.after history).apply record).state.sequences.stride = some stride ∧
      output.find? (derivedKey key sequenceId) = some (.tensor slates) ∧
      data.Slates feature stride slates := by
  intro key member
  obtain ⟨pairs, normalizer, rows, chosen, standard, replaced, cut⟩ :=
    accepted_stages configured history accepted
  obtain ⟨sequences, normalization, selected, _made, options⟩ :=
    configure_eq_ok_iff.mp configured
  have sequencesIs : stage.sequences = sequences := congrArg SequenceNormalization.sequences options
  have once : ∀ name field changed,
      DenseNormalization.normalizeField normalizer name field = .ok changed →
        ∀ again, DenseNormalization.normalizeField normalizer name changed ≠ .ok again :=
    fun _name _field _changed normalized _again =>
      DenseNormalization.normalizeField_once normalized
  have distinct := Record.nodup_of_replaceEach once replaced
  rw [sequences_apply, sequences_after, sequencesIs] at small cut ⊢
  rw [sequences_after, sequencesIs] at chosen
  obtain ⟨feature, stride, held, settled, keeps, selectedPair⟩ :=
    selected_payload selected history distinct small chosen member
  have derived : derivedKey key sequenceId ∈ keys.map (fun name => derivedKey name sequenceId) :=
    List.mem_map_of_mem member
  obtain ⟨pair, changed, pairFound, normalized, changedFound⟩ :=
    Record.find?_replaceEach_of_mem distinct replaced derived
  cases pairFound.symm.trans selectedPair
  obtain ⟨scaled, changedIs, scales⟩ := DenseNormalization.scales_of_normalizeField standard
    (unwrapped key member feature held) normalized
  obtain ⟨_positive, cutEach⟩ := Record.slateView_eq_ok_iff.mp cut
  rw [settled] at cutEach
  obtain ⟨field, slated, fieldFound, cutField, slatedFound⟩ :=
    Record.find?_replaceEach_of_mem distinct cutEach derived
  cases fieldFound.symm.trans changedFound
  obtain ⟨matrix, rowCount, columns, slates, isMatrix, shape, regrouped, slatedIs⟩ :=
    Record.cutSlates_eq_ok_iff.mp cutField
  cases changedIs.symm.trans isMatrix
  have columnsIs : columns = data.size := by
    rw [scales.shape, scales.value] at shape
    exact (List.cons.inj (List.cons.inj shape).2).1.symm
  subst columnsIs
  have strideWord : stride < Word.modulus :=
    FixedLengthSequences.stride_lt_modulus selected word (history ++ [record]) stride
      ((FixedLengthSequences.after_append_singleton sequences history record).symm ▸ settled)
  exact ⟨feature, stride, slates, held, settled, slatedIs ▸ slatedFound,
    scales.slates keeps (unwrapped key member feature held) strideWord regrouped⟩

/-- A stride of three is learned from the record itself: two batch elements in one column make
two slates of three rows. -/
theorem slates_of_accepted_learned :
    ∃ stage output slates,
      configure ["steps"] 7 { parameters := [{ featureType := .doNotPreprocess }] } none {}
        (some .standard) = .ok stage ∧
      ((stage.after []).apply (Record.empty.withSequence "steps" 7 (.ones [0, 3] 6))).outcome =
        .ok output ∧
      output.find? "steps:7" = some (.tensor slates) ∧ slates.shape = [2, 3, 1] ∧
      slates.element [1, 2, 0] =
        (SequenceFeature.ones [0, 3] 6).payload.value.element [5, 0] := by
  have steps : (Record.empty.withSequence "steps" 7 (.ones [0, 3] 6)).HoldsSequence "steps" 7
      (.ones [0, 3] 6) := Record.holdsSequence_withSequence_iff.mpr rfl
  have configured : configure ["steps"] 7 { parameters := [{ featureType := .doNotPreprocess }] }
      none {} (some .standard) = .ok (_ : SequenceNormalization) := rfl
  obtain ⟨feature, stride, slates, held, settled, found, arranged⟩ :=
    slates_of_accepted configured (fun _stride given => by cases given) []
      (by
        intro key member feature held
        rw [List.mem_singleton.mp member] at held
        rw [held.unique steps]
        rfl)
      (by
        intro key member feature stride held learned
        rw [List.mem_singleton.mp member] at held
        rw [held.unique steps]
        cases learned
        decide)
      rfl "steps" (List.mem_singleton_self _)
  cases held.unique steps
  cases settled
  refine ⟨_, _, slates, configured, rfl, found, arranged.shape, ?_⟩
  obtain ⟨row, place, _inside, entry⟩ := arranged.element 1 2 0 3 _ rfl (by decide) rfl
  have fifth : row = 5 := Int.ofNat.inj place
  subst fifth
  rw [entry]
  decide

end SequenceNormalization

end Featurize
