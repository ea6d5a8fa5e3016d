import Featurize.Proofs.Sequences.Stride
import Featurize.Proofs.Stages.Renewal
import Featurize.Stage.Plan

/-!
History independence. A stage, however deep the pipelines in it, remembers nothing of
the records before but the strides that its selections of sequences have learned. It
gives every record the outcome that a new stage would give, built from the same plan
with those strides written into it.
-/

namespace Featurize

/-! ### Plans of plans -/

@[elab_as_elim, induction_eliminator]
theorem StagePlan.treeInduction {motive : StagePlan → Prop}
    (operation : ∀ plain, motive (.operation plain))
    (filter : ∀ keep remove, motive (.filter keep remove))
    (mapTensors : ∀ keys function name, motive (.mapTensors keys function name))
    (sequences : ∀ keys sequenceId stride targets,
      motive (.sequences keys sequenceId stride targets))
    (normalization : ∀ keys, motive (.normalization keys))
    (sequenceNormalization : ∀ keys sequenceId stride,
      motive (.sequenceNormalization keys sequenceId stride))
    (encoding : ∀ idListKeys idScoreListKeys, motive (.encoding idListKeys idScoreListKeys))
    (pipeline : ∀ plans, (∀ plan ∈ plans, motive plan) → motive (.pipeline plans))
    (within : ∀ own plan, motive plan → motive (.within own plan)) (plan : StagePlan) :
    motive plan := by
  refine @StagePlan.rec motive (fun plans => ∀ plan ∈ plans, motive plan) operation filter
    mapTensors sequences normalization sequenceNormalization encoding pipeline within ?_ ?_ plan
  · intro plan member
    cases member
  · intro head plans headHolds tailHolds plan member
    rcases List.mem_cons.mp member with same | later
    · exact same ▸ headHolds
    · exact tailHolds plan later

/-! ### Pure factories -/

def NormalizerFactory.Pure (factory : NormalizerFactory) : Prop :=
  ∀ call data device, factory call data device = factory 0 data device

def EncoderFactory.Pure (factory : EncoderFactory) : Prop :=
  ∀ call config device, factory call config device = factory 0 config device

theorem NormalizerFactory.pure_standard : NormalizerFactory.standard.Pure :=
  fun _call _data _device => rfl

theorem EncoderFactory.pure_standard : EncoderFactory.standard.Pure :=
  fun _call _config _device => rfl

structure Surroundings.Pure (surroundings : Surroundings) : Prop where
  normalizer : ∀ factory, surroundings.normalizerFactory = some factory → factory.Pure
  encoder : ∀ factory, surroundings.encoderFactory = some factory → factory.Pure

theorem Surroundings.pure_standard (normalization : NormalizationData) (features : FeatureConfig)
    (device : Device) : Surroundings.Pure { normalization, features, device } where
  normalizer := by
    intro factory given
    cases given
    exact NormalizerFactory.pure_standard
  encoder := by
    intro factory given
    cases given
    exact EncoderFactory.pure_standard

namespace StagePlan

mutual

def settings (surroundings : Surroundings) : StagePlan → List Surroundings
  | .pipeline plans => settingsAll surroundings plans
  | .within own plan => settings own plan
  | _ => [surroundings]

def settingsAll (surroundings : Surroundings) : List StagePlan → List Surroundings
  | [] => []
  | plan :: plans => settings surroundings plan ++ settingsAll surroundings plans

end

/-! ### What a plan becomes -/

mutual

/-- The plan with the strides that hold in a stage built from it. A selection without a
stride is planned without one. -/
def withStrides : StagePlan → Stage → StagePlan
  | .sequences keys sequenceId _ targets, .sequences current =>
      .sequences keys sequenceId current.stride targets
  | .sequenceNormalization keys sequenceId _, .sequenceNormalization current =>
      .sequenceNormalization keys sequenceId current.sequences.stride
  | .pipeline plans, .pipeline stages => .pipeline (withStridesAll plans stages)
  | .within own plan, stage => .within own (withStrides plan stage)
  | plan, _ => plan

def withStridesAll : List StagePlan → List Stage → List StagePlan
  | plan :: plans, stage :: stages => withStrides plan stage :: withStridesAll plans stages
  | plans, _ => plans

end

mutual

/-- The stage was built from the plan, and records may have been applied to it since:
with its present stride, a selection could be configured anew; without its collaborators,
so could a stage that has them, and the collaborators are those of a steady builder. -/
def Becomes (surroundings : Surroundings) : StagePlan → Stage → Prop
  | .operation plain, stage => plain.check = .ok () ∧ stage = .operation plain
  | .filter keep remove, stage =>
      ∃ plain, filterOperation keep remove = .ok plain ∧ stage = .operation plain
  | .mapTensors keys function name, stage =>
      ∃ plain, mapOperation keys name function = .ok plain ∧ stage = .operation plain
  | .sequences keys sequenceId _ targets, stage =>
      ∃ current, FixedLengthSequences.configure keys sequenceId current.stride targets =
          .ok current ∧ stage = .sequences current
  | .normalization keys, stage =>
      ∃ current, DenseNormalization.configure keys surroundings.normalization
          surroundings.device surroundings.normalizerFactory = .ok current.renewed ∧
        current.normalizer.Steady ∧ stage = .normalization current
  | .sequenceNormalization keys sequenceId _, stage =>
      ∃ current, SequenceNormalization.configure keys sequenceId surroundings.normalization
          current.sequences.stride surroundings.device surroundings.normalizerFactory =
            .ok current.renewed ∧
        current.normalization.normalizer.Steady ∧ stage = .sequenceNormalization current
  | .encoding idListKeys idScoreListKeys, stage =>
      ∃ current, IdListMapping.configure idListKeys idScoreListKeys surroundings.features
          surroundings.device surroundings.encoderFactory = .ok current.renewed ∧
        current.encoder.Steady ∧ stage = .encoding current
  | .pipeline plans, stage =>
      ∃ stages, BecomesAll surroundings plans stages ∧ stage = .pipeline stages
  | .within own plan, stage => Becomes own plan stage

def BecomesAll (surroundings : Surroundings) : List StagePlan → List Stage → Prop
  | [], [] => True
  | plan :: plans, stage :: stages =>
      Becomes surroundings plan stage ∧ BecomesAll surroundings plans stages
  | _, _ => False

end

variable {surroundings : Surroundings} {plan : StagePlan} {stage : Stage}

/-! ### Construction -/

private theorem becomesAll_of_buildAll {plans : List StagePlan} {stages : List Stage}
    (each : ∀ plan ∈ plans, ∀ stage, (∀ own ∈ plan.settings surroundings, own.Pure) →
      plan.build surroundings = .ok stage → plan.Becomes surroundings stage)
    (pure : ∀ own ∈ settingsAll surroundings plans, own.Pure)
    (built : buildAll surroundings plans = .ok stages) :
    BecomesAll surroundings plans stages := by
  induction plans generalizing stages with
  | nil =>
      cases built
      trivial
  | cons plan plans ih =>
      unfold settingsAll at pure
      obtain ⟨pureFirst, pureRest⟩ := List.forall_mem_append.mp pure
      unfold buildAll at built
      simp only [Outcome.bind_eq_ok_iff, Outcome.pure_eq_ok_iff] at built
      obtain ⟨first, builtFirst, rest, builtRest, joined⟩ := built
      subst joined
      constructor
      · exact each plan (List.mem_cons_self ..) first pureFirst builtFirst
      · exact ih (fun later member => each later (List.mem_cons_of_mem _ member)) pureRest
          builtRest

theorem becomes_of_build (pure : ∀ own ∈ plan.settings surroundings, own.Pure)
    (built : plan.build surroundings = .ok stage) : plan.Becomes surroundings stage := by
  induction plan generalizing surroundings stage with
  | operation plain =>
      unfold build at built
      obtain ⟨_checked, accepted, same⟩ := Outcome.bind_eq_ok_iff.mp built
      exact ⟨accepted, (Outcome.pure_eq_ok_iff.mp same).symm⟩
  | filter keep remove =>
      unfold build at built
      obtain ⟨plain, chosen, same⟩ := Outcome.map_eq_ok_iff.mp built
      exact ⟨plain, chosen, same.symm⟩
  | mapTensors keys function name =>
      unfold build at built
      obtain ⟨plain, chosen, same⟩ := Outcome.map_eq_ok_iff.mp built
      exact ⟨plain, chosen, same.symm⟩
  | sequences keys sequenceId stride targets =>
      unfold build at built
      obtain ⟨current, configured, same⟩ := Outcome.map_eq_ok_iff.mp built
      obtain ⟨parallel, notEmpty, options⟩ :=
        FixedLengthSequences.configure_eq_ok_iff.mp configured
      refine ⟨current, ?_, same.symm⟩
      rw [options]
      exact FixedLengthSequences.configure_eq_ok_iff.mpr ⟨parallel, notEmpty, rfl⟩
  | normalization keys =>
      unfold build at built
      obtain ⟨current, configured, same⟩ := Outcome.map_eq_ok_iff.mp built
      obtain ⟨make, given, options⟩ := DenseNormalization.configure_eq_ok_iff.mp configured
      have constant := (pure surroundings (List.mem_singleton_self _)).normalizer make given
      refine ⟨current, ?_, ?_, same.symm⟩
      · rw [options] at configured ⊢
        exact configured
      · rw [options]
        exact Deferred.steady_of_constant (fun call => constant call _ _)
  | sequenceNormalization keys sequenceId stride =>
      unfold build at built
      obtain ⟨current, configured, same⟩ := Outcome.map_eq_ok_iff.mp built
      obtain ⟨sequences, normalization, selected, made, options⟩ :=
        SequenceNormalization.configure_eq_ok_iff.mp configured
      obtain ⟨_parallel, _notEmpty, sequencesOptions⟩ :=
        FixedLengthSequences.configure_eq_ok_iff.mp selected
      obtain ⟨make, given, normalizationOptions⟩ :=
        DenseNormalization.configure_eq_ok_iff.mp made
      have constant := (pure surroundings (List.mem_singleton_self _)).normalizer make given
      refine ⟨current, ?_, ?_, same.symm⟩
      · rw [options, sequencesOptions, normalizationOptions] at configured ⊢
        exact configured
      · rw [options, normalizationOptions]
        exact Deferred.steady_of_constant (fun call => constant call _ _)
  | encoding idListKeys idScoreListKeys =>
      unfold build at built
      obtain ⟨current, configured, same⟩ := Outcome.map_eq_ok_iff.mp built
      obtain ⟨_disjoint, make, given, options⟩ := IdListMapping.configure_eq_ok_iff.mp configured
      have constant := (pure surroundings (List.mem_singleton_self _)).encoder make given
      refine ⟨current, ?_, ?_, same.symm⟩
      · rw [options] at configured ⊢
        exact configured
      · rw [options]
        exact Deferred.steady_of_constant (fun call => constant call _ _)
  | pipeline plans each =>
      unfold build at built
      obtain ⟨stages, builtAll, same⟩ := Outcome.map_eq_ok_iff.mp built
      unfold settings at pure
      exact ⟨stages, becomesAll_of_buildAll (fun plan member _stage => each plan member) pure
        builtAll, same.symm⟩
  | within own plan ih =>
      unfold build at built
      unfold settings at pure
      exact ih pure built

/-! ### One record -/

private theorem becomesAll_applyAll {plans : List StagePlan} {stages : List Stage}
    (each : ∀ plan ∈ plans, ∀ stage record, plan.Becomes surroundings stage →
      plan.Becomes surroundings (stage.apply record).state)
    (become : BecomesAll surroundings plans stages) (number : Nat) (record : Record) :
    BecomesAll surroundings plans (Stage.applyAll number record stages).state := by
  induction plans generalizing stages number record with
  | nil =>
      cases stages with
      | nil => trivial
      | cons stage stages => exact become.elim
  | cons plan plans ih =>
      cases stages with
      | nil => exact become.elim
      | cons stage stages =>
          have first := each plan (List.mem_cons_self ..) stage record become.1
          have tail := fun later member => each later (List.mem_cons_of_mem plan member)
          unfold Stage.applyAll
          cases outcome : (stage.apply record).outcome with
          | error fault =>
              simp only [outcome]
              exact ⟨first, become.2⟩
          | ok next =>
              simp only [outcome]
              exact ⟨first, ih tail become.2 (number + 1) next⟩

/-- A record, accepted or refused, leaves a stage that its plan becomes. -/
theorem becomes_apply (become : plan.Becomes surroundings stage) (record : Record) :
    plan.Becomes surroundings (stage.apply record).state := by
  induction plan generalizing surroundings stage record with
  | operation plain =>
      obtain ⟨accepted, same⟩ := become
      subst same
      exact ⟨accepted, rfl⟩
  | filter keep remove =>
      obtain ⟨plain, chosen, same⟩ := become
      subst same
      exact ⟨plain, chosen, rfl⟩
  | mapTensors keys function name =>
      obtain ⟨plain, chosen, same⟩ := become
      subst same
      exact ⟨plain, chosen, rfl⟩
  | sequences keys sequenceId stride targets =>
      obtain ⟨current, configured, same⟩ := become
      subst same
      exact ⟨(current.apply record).state,
        FixedLengthSequences.configure_after configured [record], rfl⟩
  | normalization keys =>
      obtain ⟨current, configured, steady, same⟩ := become
      subst same
      refine ⟨(current.apply record).state, ?_, DenseNormalization.steady_apply steady record, rfl⟩
      rw [DenseNormalization.renewed_apply]
      exact configured
  | sequenceNormalization keys sequenceId stride =>
      obtain ⟨current, configured, steady, same⟩ := become
      subst same
      refine ⟨(current.apply record).state, ?_,
        SequenceNormalization.steady_apply steady record, rfl⟩
      obtain ⟨sequences, normalization, selected, made, options⟩ :=
        SequenceNormalization.configure_eq_ok_iff.mp configured
      cases options
      rw [SequenceNormalization.sequences_apply]
      refine SequenceNormalization.configure_eq_ok_iff.mpr
        ⟨_, _, FixedLengthSequences.configure_after selected [record], made, ?_⟩
      unfold SequenceNormalization.renewed
      rw [SequenceNormalization.sequences_apply,
        SequenceNormalization.renewed_normalization_apply]
      rfl
  | encoding idListKeys idScoreListKeys =>
      obtain ⟨current, configured, steady, same⟩ := become
      subst same
      refine ⟨(current.apply record).state, ?_, IdListMapping.steady_apply steady record, rfl⟩
      rw [IdListMapping.renewed_apply]
      exact configured
  | pipeline plans each =>
      obtain ⟨stages, becomeAll, same⟩ := become
      subst same
      exact ⟨_, becomesAll_applyAll
        (fun plan member _stage record become => each plan member become record) becomeAll 0
        record, rfl⟩
  | within own plan ih => exact ih become record

/-! ### The new stage -/

private theorem buildAll_withStridesAll {plans : List StagePlan} {stages : List Stage}
    (each : ∀ plan ∈ plans, ∀ stage, plan.Becomes surroundings stage →
      ∃ fresh, (plan.withStrides stage).build surroundings = .ok fresh ∧
        ∀ record, (fresh.apply record).outcome = (stage.apply record).outcome)
    (become : BecomesAll surroundings plans stages) :
    ∃ fresh, buildAll surroundings (withStridesAll plans stages) = .ok fresh ∧
      ∀ number record, (Stage.applyAll number record fresh).outcome =
        (Stage.applyAll number record stages).outcome := by
  induction plans generalizing stages with
  | nil =>
      cases stages with
      | nil => exact ⟨[], rfl, fun _number _record => rfl⟩
      | cons stage stages => exact become.elim
  | cons plan plans ih =>
      cases stages with
      | nil => exact become.elim
      | cons stage stages =>
          obtain ⟨first, builtFirst, sameFirst⟩ :=
            each plan (List.mem_cons_self ..) stage become.1
          obtain ⟨rest, builtRest, sameRest⟩ :=
            ih (fun later member => each later (List.mem_cons_of_mem plan member)) become.2
          refine ⟨first :: rest, ?_, fun number record => ?_⟩
          · unfold withStridesAll buildAll
            simp only [Outcome.bind_eq_ok_iff, Outcome.pure_eq_ok_iff]
            exact ⟨first, builtFirst, rest, builtRest, rfl⟩
          · unfold Stage.applyAll
            simp only [sameFirst record]
            cases outcome : (stage.apply record).outcome with
            | error fault => rfl
            | ok next => exact sameRest (number + 1) next

/-- From the plan with the present strides a stage is built that gives every record the
outcome that it has in the present one. -/
theorem build_withStrides (become : plan.Becomes surroundings stage) :
    ∃ fresh, (plan.withStrides stage).build surroundings = .ok fresh ∧
      ∀ record, (fresh.apply record).outcome = (stage.apply record).outcome := by
  induction plan generalizing surroundings stage with
  | operation plain =>
      obtain ⟨accepted, same⟩ := become
      subst same
      refine ⟨.operation plain, ?_, fun _record => rfl⟩
      unfold withStrides build
      rw [accepted]
      rfl
  | filter keep remove =>
      obtain ⟨plain, chosen, same⟩ := become
      subst same
      refine ⟨.operation plain, ?_, fun _record => rfl⟩
      unfold withStrides build
      rw [chosen]
      rfl
  | mapTensors keys function name =>
      obtain ⟨plain, chosen, same⟩ := become
      subst same
      refine ⟨.operation plain, ?_, fun _record => rfl⟩
      unfold withStrides build
      rw [chosen]
      rfl
  | sequences keys sequenceId stride targets =>
      obtain ⟨current, configured, same⟩ := become
      subst same
      refine ⟨.sequences current, ?_, fun _record => rfl⟩
      unfold withStrides build
      rw [configured]
      rfl
  | normalization keys =>
      obtain ⟨current, configured, steady, same⟩ := become
      subst same
      refine ⟨.normalization current.renewed, ?_, DenseNormalization.outcome_renewed steady⟩
      unfold withStrides build
      rw [configured]
      rfl
  | sequenceNormalization keys sequenceId stride =>
      obtain ⟨current, configured, steady, same⟩ := become
      subst same
      refine ⟨.sequenceNormalization current.renewed, ?_,
        SequenceNormalization.outcome_renewed steady⟩
      unfold withStrides build
      rw [configured]
      rfl
  | encoding idListKeys idScoreListKeys =>
      obtain ⟨current, configured, steady, same⟩ := become
      subst same
      refine ⟨.encoding current.renewed, ?_, IdListMapping.outcome_renewed steady⟩
      unfold withStrides build
      rw [configured]
      rfl
  | pipeline plans each =>
      obtain ⟨stages, becomeAll, same⟩ := become
      subst same
      obtain ⟨fresh, built, alike⟩ :=
        buildAll_withStridesAll (fun plan member _stage become => each plan member become) becomeAll
      refine ⟨.pipeline fresh, ?_, alike 0⟩
      unfold withStrides build
      rw [built]
      rfl
  | within own plan ih =>
      obtain ⟨fresh, built, alike⟩ := ih become
      exact ⟨fresh, built, alike⟩

end StagePlan

/-! ### Any history -/

def Stage.after (stage : Stage) (history : List Record) : Stage :=
  Run.stateAfter (fun stage record => stage.apply record) stage history

/-- Whatever records were applied to a stage before, each of them accepted or refused half way,
the next record has the outcome that it has in a stage newly built from the same plan, with
the learned strides written into it. -/
theorem StagePlan.outcome_after_history {plan : StagePlan} {surroundings : Surroundings}
    {stage : Stage} (pure : ∀ own ∈ plan.settings surroundings, own.Pure)
    (built : plan.build surroundings = .ok stage) (history : List Record) (next : Record) :
    ∃ fresh, (plan.withStrides (stage.after history)).build surroundings = .ok fresh ∧
      ((stage.after history).apply next).outcome = (fresh.apply next).outcome := by
  have become : plan.Becomes surroundings (stage.after history) :=
    Run.stateAfter_keeps (plan.Becomes surroundings)
      (fun _stage record become => becomes_apply become record) (becomes_of_build pure built)
      history
  obtain ⟨fresh, renewed, alike⟩ := build_withStrides become
  exact ⟨fresh, renewed, (alike next).symm⟩

/-- A selection in front of a normalization learns the stride three from a record that it
refuses; the next record fares as in a pipeline that is planned with that stride. -/
theorem StagePlan.outcome_after_history_refused :
    ∃ surroundings stage fault fresh output,
      surroundings = { normalization := { parameters := [{ featureType := .doNotPreprocess }] } } ∧
      (StagePlan.pipeline [.sequences ["steps"] 7 none none, .normalization ["steps"]]).build
        surroundings = .ok stage ∧
      (stage.apply (Record.empty.withSequence "steps" 7 (.ones [0, 3] 2))).outcome =
        .error fault ∧
      (StagePlan.pipeline [.sequences ["steps"] 7 (some 3) none, .normalization ["steps"]]).build
        surroundings = .ok fresh ∧
      ((stage.after [Record.empty.withSequence "steps" 7 (.ones [0, 3] 2)]).apply
        (Record.empty.withSequence "steps" 7 (.ones [0, 3] 6))).outcome =
          (fresh.apply (Record.empty.withSequence "steps" 7 (.ones [0, 3] 6))).outcome ∧
      (fresh.apply (Record.empty.withSequence "steps" 7 (.ones [0, 3] 6))).outcome =
        .ok output := by
  have pure := Surroundings.pure_standard
    { parameters := [{ featureType := .doNotPreprocess }] } {} {}
  have settled : ∀ own ∈ (StagePlan.pipeline [.sequences ["steps"] 7 none none,
      .normalization ["steps"]]).settings
        { normalization := { parameters := [{ featureType := .doNotPreprocess }] } },
      own.Pure := by
    intro own member
    rcases List.mem_cons.mp member with same | later
    · exact same ▸ pure
    · exact (List.mem_singleton.mp later) ▸ pure
  obtain ⟨fresh, renewed, alike⟩ := StagePlan.outcome_after_history settled rfl
    [Record.empty.withSequence "steps" 7 (.ones [0, 3] 2)]
    (Record.empty.withSequence "steps" 7 (.ones [0, 3] 6))
  cases renewed
  exact ⟨_, _, _, _, _, rfl, rfl, rfl, rfl, alike, rfl⟩

end Featurize
