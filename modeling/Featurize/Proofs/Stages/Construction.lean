import Featurize.Proofs.Outcome
import Featurize.Stage.Plan

/-!
Construction. What is known of a stage that was built from a plan, one case for each form
of plan: the constructor that made it accepted the options, and nothing else happened.
-/

namespace Featurize.StagePlan

inductive Makes (surroundings : Surroundings) : StagePlan → Stage → Prop
  | operation {plain : Operation} (accepted : plain.check = .ok ()) :
      Makes surroundings (.operation plain) (.operation plain)
  | filter {keep remove : Option (List String)} {plain : Operation}
      (chosen : filterOperation keep remove = .ok plain) :
      Makes surroundings (.filter keep remove) (.operation plain)
  | mapTensors {keys : List String} {function : Option (Tensor → Except Fault Tensor)}
      {name : String} {plain : Operation} (chosen : mapOperation keys name function = .ok plain) :
      Makes surroundings (.mapTensors keys function name) (.operation plain)
  | sequences {keys : List String} {sequenceId : Int64} {stride : Option Nat}
      {targets : Option (List String)} {current : FixedLengthSequences}
      (configured : FixedLengthSequences.configure keys sequenceId stride targets = .ok current) :
      Makes surroundings (.sequences keys sequenceId stride targets) (.sequences current)
  | normalization {keys : List String} {current : DenseNormalization}
      (configured : DenseNormalization.configure keys surroundings.normalization
        surroundings.device surroundings.normalizerFactory = .ok current) :
      Makes surroundings (.normalization keys) (.normalization current)
  | sequenceNormalization {keys : List String} {sequenceId : Int64} {stride : Option Nat}
      {current : SequenceNormalization}
      (configured : SequenceNormalization.configure keys sequenceId surroundings.normalization
        stride surroundings.device surroundings.normalizerFactory = .ok current) :
      Makes surroundings (.sequenceNormalization keys sequenceId stride)
        (.sequenceNormalization current)
  | encoding {idListKeys idScoreListKeys : List String} {current : IdListMapping}
      (configured : IdListMapping.configure idListKeys idScoreListKeys surroundings.features
        surroundings.device surroundings.encoderFactory = .ok current) :
      Makes surroundings (.encoding idListKeys idScoreListKeys) (.encoding current)
  | pipeline {plans : List StagePlan} {stages : List Stage}
      (built : buildAll surroundings plans = .ok stages) :
      Makes surroundings (.pipeline plans) (.pipeline stages)
  | within {own : Surroundings} {plan : StagePlan} {stage : Stage}
      (built : plan.build own = .ok stage) : Makes surroundings (.within own plan) stage

variable {surroundings : Surroundings} {plan : StagePlan} {stage : Stage}

theorem makes_of_build (built : plan.build surroundings = .ok stage) :
    plan.Makes surroundings stage := by
  cases plan with
  | operation plain =>
      unfold build at built
      obtain ⟨_checked, accepted, same⟩ := Outcome.bind_eq_ok_iff.mp built
      cases same
      exact .operation accepted
  | filter keep remove =>
      unfold build at built
      obtain ⟨plain, chosen, same⟩ := Outcome.map_eq_ok_iff.mp built
      subst same
      exact .filter chosen
  | mapTensors keys function name =>
      unfold build at built
      obtain ⟨plain, chosen, same⟩ := Outcome.map_eq_ok_iff.mp built
      subst same
      exact .mapTensors chosen
  | sequences keys sequenceId stride targets =>
      unfold build at built
      obtain ⟨current, configured, same⟩ := Outcome.map_eq_ok_iff.mp built
      subst same
      exact .sequences configured
  | normalization keys =>
      unfold build at built
      obtain ⟨current, configured, same⟩ := Outcome.map_eq_ok_iff.mp built
      subst same
      exact .normalization configured
  | sequenceNormalization keys sequenceId stride =>
      unfold build at built
      obtain ⟨current, configured, same⟩ := Outcome.map_eq_ok_iff.mp built
      subst same
      exact .sequenceNormalization configured
  | encoding idListKeys idScoreListKeys =>
      unfold build at built
      obtain ⟨current, configured, same⟩ := Outcome.map_eq_ok_iff.mp built
      subst same
      exact .encoding configured
  | pipeline plans =>
      unfold build at built
      obtain ⟨stages, builtAll, same⟩ := Outcome.map_eq_ok_iff.mp built
      subst same
      exact .pipeline builtAll
  | within own plan =>
      unfold build at built
      exact .within built

theorem buildAll_cons_eq_ok_iff {plans : List StagePlan} {stages : List Stage} :
    buildAll surroundings (plan :: plans) = .ok stages ↔
      ∃ first rest, plan.build surroundings = .ok first ∧
        buildAll surroundings plans = .ok rest ∧ stages = first :: rest := by
  rw [buildAll]
  simp only [Outcome.bind_eq_ok_iff, Outcome.pure_eq_ok_iff]
  constructor
  · intro ⟨first, builtFirst, rest, builtRest, same⟩
    exact ⟨first, rest, builtFirst, builtRest, same.symm⟩
  · intro ⟨first, rest, builtFirst, builtRest, same⟩
    exact ⟨first, builtFirst, rest, builtRest, same.symm⟩

end Featurize.StagePlan
