import Featurize.Proofs.Pipelines.Validation
import Featurize.Proofs.Sequences.Slates

/-!
The stride under which slates are cut. It is read once a record was selected and normalized,
and by then it is set whenever the stage has a key, since selecting under a key settles it, or
was given a stride. Neither its constructor nor validation asks for one of the two, and
without them no record ever sets a stride.
-/

namespace Featurize

namespace FixedLengthSequences

variable {stage : FixedLengthSequences} {keys : List String} {sequenceId : Int64}
  {length : Option Nat} {targets : Option (List String)}

theorem entries_eq_nil_iff (configured : configure keys sequenceId length targets = .ok stage) :
    stage.entries = [] ↔ stage.keys = [] := by
  obtain ⟨parallel, _notEmpty, same⟩ := configure_eq_ok_iff.mp configured
  subst same
  unfold entries
  rw [← List.length_eq_zero_iff, List.length_zip, parallel, Nat.min_self, List.length_eq_zero_iff]

theorem keys_after (stage : FixedLengthSequences) (history : List Record) :
    (stage.after history).keys = stage.keys := by
  rw [after_eq]

theorem targets_after (stage : FixedLengthSequences) (history : List Record) :
    (stage.after history).targets = stage.targets := by
  rw [after_eq]

theorem after_of_no_entries (unkeyed : stage.entries = []) (history : List Record) :
    stage.after history = stage := by
  refine Run.stateAfter_keeps (fun later : FixedLengthSequences => later = stage)
    (fun later record same => ?_) rfl history
  subst same
  exact (apply_of_no_entries unkeyed record).1

/-- Behind an accepted record the stride is set, unless there is neither a key under which it
was settled nor a configured one. -/
theorem exists_stride_iff (configured : configure keys sequenceId length targets = .ok stage)
    (history : List Record) {record output : Record}
    (accepted : ((stage.after history).apply record).outcome = .ok output) :
    (∃ stride, ((stage.after history).apply record).state.stride = some stride) ↔
      stage.keys ≠ [] ∨ stage.stride ≠ none := by
  constructor
  · rintro ⟨stride, settled⟩
    by_cases unkeyed : stage.keys = []
    · have entriesNil := (entries_eq_nil_iff configured).mpr unkeyed
      rw [after_of_no_entries entriesNil, (apply_of_no_entries entriesNil record).1] at settled
      exact .inr (fun unset => nomatch unset.symm.trans settled)
    · exact .inl unkeyed
  · rintro (keyed | given)
    · refine exists_stride_of_accepted (fun unkeyed => keyed ?_) accepted
      rw [← stage.keys_after history]
      exact (entries_eq_nil_iff (configure_after configured history)).mp unkeyed
    · obtain ⟨stride, known⟩ := Option.ne_none_iff_exists'.mp given
      exact ⟨stride, (apply_of_known (stride_after_of_known known history)).1⟩

end FixedLengthSequences

namespace SequenceNormalization

variable {stage : SequenceNormalization}

/-- A stage that its constructor accepts, or that a pipeline built from a configuration has
among its stages. -/
inductive Produced (stage : SequenceNormalization) : Prop
  | configured {keys : List String} {sequenceId : Int64} {data : NormalizationData}
      {length : Option Nat} {device : Device} {factory : Option NormalizerFactory}
      (accepted : configure keys sequenceId data length device factory = .ok stage)
  | listed {surroundings : Surroundings} {config : Json} {stages : List Stage}
      (built : (buildPipeline surroundings config).outcome = .ok (.pipeline stages))
      (member : .sequenceNormalization stage ∈ stages)

theorem Produced.exists_configure (produced : stage.Produced) :
    ∃ keys sequenceId data length device factory,
      configure keys sequenceId data length device factory = .ok stage := by
  cases produced with
  | configured accepted => exact ⟨_, _, _, _, _, _, accepted⟩
  | @listed surroundings config stages built member =>
      cases checked : validatePipeline config with
      | cons first others =>
          unfold buildPipeline at built
          rw [checked] at built
          cases built
      | nil =>
          obtain ⟨items, listed, described⟩ := validatePipeline_eq_nil_iff.mp checked
          rw [outcome_buildPipeline_of_accepted checked, describedStages_of_listed listed] at built
          obtain ⟨made, listing, same⟩ := Outcome.map_eq_ok_iff.mp built
          cases same
          obtain ⟨item, inItems, single⟩ :=
            Collection.exists_item_of_mapM (Outcome.mapError_eq_ok_iff.mp listing) member
          obtain ⟨type, itemDescribed⟩ := described item inItems
          obtain ⟨plan, _read, _planned, sized, whole⟩ := itemDescribed.exists_plan surroundings
          rw [whole] at single
          have makes := StagePlan.makes_of_build (Outcome.mapError_eq_ok_iff.mp single)
          cases makes with
          | sequenceNormalization configured => exact ⟨_, _, _, _, _, _, configured⟩
          | within built => cases sized.typed

theorem slateSize_apply {record pairs rows : Record}
    (selected : (stage.sequences.apply record).outcome = .ok pairs)
    (normalized : (stage.normalization.apply pairs).outcome = .ok rows) :
    (stage.apply record).state.slateSize =
      (stage.sequences.apply record).state.stride.getD 0 := by
  unfold apply
  simp only [selected, normalized]

/-- Whatever records came before: once a record was selected and normalized, the stride is set
exactly if the stage has a key or was given a stride. It is then positive, and the rows are cut
into slates of that size. -/
theorem stride_set_iff (produced : stage.Produced) (history : List Record)
    {record pairs rows : Record}
    (selected : ((stage.after history).sequences.apply record).outcome = .ok pairs)
    (normalized : ((stage.after history).normalization.apply pairs).outcome = .ok rows) :
    (∃ stride, ((stage.after history).apply record).state.sequences.stride = some stride ∧
      0 < stride ∧ ((stage.after history).apply record).state.slateSize = stride ∧
      ((stage.after history).apply record).outcome =
        rows.slateView stage.sequences.targets stride) ↔
      stage.sequences.keys ≠ [] ∨ stage.sequences.stride ≠ none := by
  obtain ⟨keys, sequenceId, data, length, device, factory, configured⟩ :=
    produced.exists_configure
  obtain ⟨sequences, normalization, chosen, _made, same⟩ := configure_eq_ok_iff.mp configured
  have sequencesIs : stage.sequences = sequences := congrArg SequenceNormalization.sequences same
  have later := stage.sequences_after history
  have accepted := selected
  rw [later, sequencesIs] at accepted
  have known := FixedLengthSequences.exists_stride_iff chosen history accepted
  rw [← sequencesIs, ← later, ← sequences_apply] at known
  rw [← known]
  constructor
  · rintro ⟨stride, settled, _rest⟩
    exact ⟨stride, settled⟩
  · rintro ⟨stride, settled⟩
    have settledThere : ((stage.after history).sequences.apply record).state.stride =
        some stride := by
      rw [← sequences_apply]
      exact settled
    refine ⟨stride, settled, ?_, ?_, ?_⟩
    · refine FixedLengthSequences.stride_positive chosen (history ++ [record]) stride ?_
      rw [FixedLengthSequences.after_append_singleton, ← sequencesIs, ← later]
      exact settledThere
    · rw [slateSize_apply selected normalized, settledThere]
      rfl
    · rw [outcome_apply, selected, settledThere, later, FixedLengthSequences.targets_after]
      simp only [bind, Except.bind, normalized, Option.getD_some]

/-- Behind a record that is refused, a sequence of three steps sets the stride. -/
theorem stride_set_iff_learned :
    ∃ stage pairs rows,
      configure ["steps"] 7 { parameters := [{ featureType := .doNotPreprocess }] } none {}
        (some .standard) = .ok stage ∧
      ((stage.after [Record.empty]).sequences.apply
        (Record.empty.withSequence "steps" 7 (.ones [0, 3] 6))).outcome = .ok pairs ∧
      ((stage.after [Record.empty]).normalization.apply pairs).outcome = .ok rows ∧
      ∃ stride, ((stage.after [Record.empty]).apply
        (Record.empty.withSequence "steps" 7 (.ones [0, 3] 6))).state.slateSize = stride ∧
        0 < stride := by
  have configured : configure ["steps"] 7 { parameters := [{ featureType := .doNotPreprocess }] }
      none {} (some .standard) = .ok (_ : SequenceNormalization) := rfl
  obtain ⟨stride, _settled, positive, size, _cut⟩ :=
    (stride_set_iff (.configured configured) [Record.empty]
      (show (FixedLengthSequences.apply _
        (Record.empty.withSequence "steps" 7 (.ones [0, 3] 6))).outcome = _ from rfl) rfl).mpr
      (.inl (List.cons_ne_nil _ _))
  exact ⟨_, _, _, configured, rfl, rfl, stride, size, positive⟩

/-- A configuration with an empty list of keys is accepted and built, and every record is
selected and normalized, but there is no stride to cut under. -/
theorem no_keys_no_stride :
    ∃ config stage,
      config = Json.obj [("transforms", .arr [
        .obj [("keys", .arr []), ("sequence_id", .int 1),
          ("type", .str "FixedLengthSequenceDenseNormalization")]])] ∧
      validatePipeline config = [] ∧
      (buildPipeline {} config).outcome = .ok (.pipeline [.sequenceNormalization stage]) ∧
      (stage.sequences.apply Record.empty).outcome = .ok Record.empty ∧
      (stage.normalization.apply Record.empty).outcome = .ok Record.empty ∧
      (stage.apply Record.empty).state.sequences.stride = none :=
  ⟨_, _, rfl, rfl, rfl, rfl, rfl, rfl⟩

end SequenceNormalization

end Featurize
