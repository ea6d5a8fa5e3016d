import Featurize.Proofs.Grouping
import Featurize.Proofs.Stages.Confinement
import Featurize.Proofs.Stages.HistoryIndependence

/-!
Groupings of stages. A pipeline hands the record on from stage to stage; around that it only
reports and counts, and a fault that cannot be reported is replaced once, by the innermost
pipeline. Stages that are grouped into pipelines within pipelines, however deep, therefore make
of every record what they make of it in one pipeline, and are in the same states afterwards,
also when a stage in the middle of an inner pipeline has failed.
-/

namespace Featurize

/-! ### Stages in a row -/

namespace Stage

/-- The record handed from stage to stage, up to the first one that fails; nothing is reported
about it. -/
def relay (record : Record) : List Stage → PipelineRun
  | [] => .silent [] (.ok record)
  | stage :: stages =>
      (stage.apply record).sequel (fun state fault => (state :: stages, [], fault))
        (fun state next => (relay next stages).map (state :: ·))

variable {stage : Stage} {stages : List Stage} {record next : Record} {fault : Fault}

theorem relay_cons_of_error (stopped : (stage.apply record).outcome = .error fault) :
    relay record (stage :: stages) =
      { state := (stage.apply record).state :: stages
        effects := (stage.apply record).effects
        outcome := .error fault } := by
  rw [relay, Run.sequel_of_error stopped, List.append_nil]

theorem relay_cons_of_ok (passed : (stage.apply record).outcome = .ok next) :
    relay record (stage :: stages) =
      ((relay next stages).map ((stage.apply record).state :: ·)).after
        (stage.apply record).effects := by
  rw [relay, Run.sequel_of_ok passed]

theorem relay_append_of_error {first : List Stage} (later : List Stage)
    (stopped : (relay record first).outcome = .error fault) :
    relay record (first ++ later) =
      { state := (relay record first).state ++ later
        effects := (relay record first).effects
        outcome := .error fault } := by
  induction first generalizing record with
  | nil => cases stopped
  | cons stage stages ih =>
      cases outcome : (stage.apply record).outcome with
      | error cause =>
          rw [relay_cons_of_error outcome] at stopped
          cases stopped
          rw [List.cons_append, relay_cons_of_error outcome, relay_cons_of_error outcome]
          rfl
      | ok next =>
          rw [relay_cons_of_ok outcome] at stopped
          rw [List.cons_append, relay_cons_of_ok outcome, relay_cons_of_ok outcome, ih stopped]
          rfl

theorem relay_append_of_ok {first : List Stage} (later : List Stage)
    (passed : (relay record first).outcome = .ok next) :
    relay record (first ++ later) =
      ((relay next later).map ((relay record first).state ++ ·)).after
        (relay record first).effects := by
  induction first generalizing record with
  | nil =>
      cases passed
      rfl
  | cons stage stages ih =>
      cases outcome : (stage.apply record).outcome with
      | error fault =>
          rw [relay_cons_of_error outcome] at passed
          cases passed
      | ok between =>
          rw [relay_cons_of_ok outcome] at passed
          rw [List.cons_append, relay_cons_of_ok outcome, relay_cons_of_ok outcome, ih passed]
          simp only [Run.after, Run.map, List.append_assoc, List.cons_append]

/-- A pipeline makes of a record what its stages make of it in a row, and passes their fault
on. -/
theorem applyAll_eq_relay (number : Nat) (record : Record) (stages : List Stage) :
    (applyAll number record stages).state = (relay record stages).state ∧
      (applyAll number record stages).outcome =
        (relay record stages).outcome.mapError Fault.passedOn := by
  induction stages generalizing number record with
  | nil => exact ⟨rfl, rfl⟩
  | cons stage stages ih =>
      unfold applyAll
      cases outcome : (stage.apply record).outcome with
      | error fault =>
          rw [relay_cons_of_error outcome]
          simp only [outcome, true_and]
          rfl
      | ok next =>
          rw [relay_cons_of_ok outcome]
          obtain ⟨state, result⟩ := ih (number + 1) next
          simp only [outcome, Run.after, Run.map, state, result, and_self]

theorem relay_of_applyAll_ok {number : Nat} {output : Record}
    (passed : (applyAll number record stages).outcome = .ok output) :
    (relay record stages).outcome = .ok output :=
  Outcome.mapError_eq_ok_iff.mp ((applyAll_eq_relay number record stages).2.symm.trans passed)

def outcomes (stage : Stage) (records : List Record) : List (Except Fault Record) :=
  Run.outcomes (fun stage record => stage.apply record) stage records

end Stage

/-! ### Groups within groups -/

/-- Two outcomes of which a pipeline passes on the same. -/
def PassedAlike (first second : Except Fault Record) : Prop :=
  first.mapError Fault.passedOn = second.mapError Fault.passedOn

theorem PassedAlike.eq_ok {first second : Except Fault Record} {output : Record}
    (alike : PassedAlike first second) (passed : first = .ok output) : second = .ok output :=
  Outcome.mapError_eq_ok_iff.mp (alike.symm.trans (Outcome.mapError_eq_ok_iff.mpr passed))

theorem PassedAlike.eq_error {first second : Except Fault Record} {fault : Fault}
    (alike : PassedAlike first second) (failed : first = .error fault) :
    ∃ cause, second = .error cause ∧ cause.passedOn = fault.passedOn := by
  subst failed
  cases second with
  | ok output => cases alike
  | error cause => exact ⟨cause, rfl, (Except.error.inj alike).symm⟩

theorem passedAlike_mapError (outcome : Except Fault Record) :
    PassedAlike (outcome.mapError Fault.passedOn) outcome := by
  cases outcome with
  | ok output => rfl
  | error fault => exact congrArg Except.error fault.passedOn_passedOn

namespace Grouping

mutual

def toStage : Grouping Stage → Stage
  | .single stage => stage
  | .group parts => .pipeline (toStages parts)

def toStages : List (Grouping Stage) → List Stage
  | [] => []
  | part :: parts => toStage part :: toStages parts

end

/-- The pipeline of the groups; a stage on its own makes a pipeline of one. -/
def nested : Grouping Stage → Stage
  | .single stage => .pipeline [stage]
  | .group parts => .pipeline (toStages parts)

structure Follows (grouping later : Grouping Stage) (record : Record) : Prop where
  form : later.form = grouping.form
  toStage : (grouping.toStage.apply record).state = later.toStage
  members : (Stage.relay record grouping.members).state = later.members
  outcome : PassedAlike (grouping.toStage.apply record).outcome
    (Stage.relay record grouping.members).outcome

private theorem exists_followsAll {parts : List (Grouping Stage)}
    (each : ∀ part ∈ parts, ∀ record, ∃ later, Follows part later record) (record : Record) :
    ∃ later, formAll later = formAll parts ∧
      (Stage.relay record (toStages parts)).state = toStages later ∧
      (Stage.relay record (membersAll parts)).state = membersAll later ∧
      PassedAlike (Stage.relay record (toStages parts)).outcome
        (Stage.relay record (membersAll parts)).outcome := by
  induction parts generalizing record with
  | nil => exact ⟨[], rfl, rfl, rfl, rfl⟩
  | cons part parts ih =>
      obtain ⟨first, rest⟩ := List.forall_mem_cons.mp each
      obtain ⟨head, follows⟩ := first record
      cases outcome : (part.toStage.apply record).outcome with
      | error fault =>
          obtain ⟨cause, inRow, alike⟩ := follows.outcome.eq_error outcome
          refine ⟨head :: parts, ?_, ?_, ?_, ?_⟩
          · rw [formAll, follows.form, formAll]
          · rw [toStages, Stage.relay_cons_of_error outcome, follows.toStage, toStages]
          · rw [membersAll, Stage.relay_append_of_error _ inRow, follows.members, membersAll]
          · rw [toStages, membersAll, Stage.relay_cons_of_error outcome,
              Stage.relay_append_of_error _ inRow]
            exact congrArg Except.error alike.symm
      | ok next =>
          have inRow := follows.outcome.eq_ok outcome
          obtain ⟨tail, sameForm, nestedState, rowState, sameOutcome⟩ := ih rest next
          refine ⟨head :: tail, ?_, ?_, ?_, ?_⟩
          · rw [formAll, follows.form, sameForm, formAll]
          · rw [toStages, Stage.relay_cons_of_ok outcome, toStages, ← nestedState,
              ← follows.toStage]
            rfl
          · rw [membersAll, Stage.relay_append_of_ok _ inRow, membersAll, ← rowState,
              ← follows.members]
            rfl
          · rw [toStages, membersAll, Stage.relay_cons_of_ok outcome,
              Stage.relay_append_of_ok _ inRow]
            exact sameOutcome

theorem exists_follows (grouping : Grouping Stage) (record : Record) :
    ∃ later, grouping.Follows later record := by
  induction grouping generalizing record with
  | single stage =>
      refine ⟨.single (stage.apply record).state, rfl, rfl, ?_, ?_⟩
      · cases outcome : (stage.apply record).outcome with
        | error fault => rw [members, Stage.relay_cons_of_error outcome]; rfl
        | ok next => rw [members, Stage.relay_cons_of_ok outcome]; rfl
      · cases outcome : (stage.apply record).outcome with
        | error fault => rw [members, Stage.relay_cons_of_error outcome, toStage, outcome]; rfl
        | ok next => rw [members, Stage.relay_cons_of_ok outcome, toStage, outcome]; rfl
  | group parts each =>
      obtain ⟨later, sameForm, nestedState, rowState, alike⟩ := exists_followsAll each record
      obtain ⟨state, outcome⟩ := Stage.applyAll_eq_relay 0 record (toStages parts)
      refine ⟨.group later, congrArg group sameForm, ?_, rowState, ?_⟩
      · exact congrArg Stage.pipeline (state.trans nestedState)
      · change PassedAlike (Stage.applyAll 0 record (toStages parts)).outcome _
        rw [outcome]
        exact (passedAlike_mapError _).trans alike

theorem exists_follows_pipeline (parts : List (Grouping Stage)) (record : Record) :
    ∃ later, formAll later = formAll parts ∧
      ((Stage.pipeline (toStages parts)).apply record).state = .pipeline (toStages later) ∧
      ((Stage.pipeline (membersAll parts)).apply record).state =
        .pipeline (membersAll later) ∧
      ((Stage.pipeline (toStages parts)).apply record).outcome =
        ((Stage.pipeline (membersAll parts)).apply record).outcome := by
  obtain ⟨later, sameForm, nestedState, rowState, alike⟩ :=
    exists_followsAll (fun part _member => part.exists_follows) record
  obtain ⟨state, outcome⟩ := Stage.applyAll_eq_relay 0 record (toStages parts)
  obtain ⟨flatState, flatOutcome⟩ := Stage.applyAll_eq_relay 0 record (membersAll parts)
  exact ⟨later, sameForm, congrArg Stage.pipeline (state.trans nestedState),
    congrArg Stage.pipeline (flatState.trans rowState),
    outcome.trans (alike.trans flatOutcome.symm)⟩

theorem exists_follows_history (parts : List (Grouping Stage)) (records : List Record) :
    (Stage.pipeline (toStages parts)).outcomes records =
        (Stage.pipeline (membersAll parts)).outcomes records ∧
      ∃ later, formAll later = formAll parts ∧
        (Stage.pipeline (toStages parts)).after records = .pipeline (toStages later) ∧
        (Stage.pipeline (membersAll parts)).after records = .pipeline (membersAll later) := by
  induction records generalizing parts with
  | nil => exact ⟨rfl, parts, rfl, rfl, rfl⟩
  | cons record records ih =>
      obtain ⟨next, form, nestedNext, flatNext, sameFirst⟩ := exists_follows_pipeline parts record
      obtain ⟨sameRest, later, laterForm, nestedAfter, flatAfter⟩ := ih next
      refine ⟨?_, later, laterForm.trans form, ?_, ?_⟩
      · change ((Stage.pipeline (toStages parts)).apply record).outcome ::
            ((Stage.pipeline (toStages parts)).apply record).state.outcomes records =
          ((Stage.pipeline (membersAll parts)).apply record).outcome ::
            ((Stage.pipeline (membersAll parts)).apply record).state.outcomes records
        rw [sameFirst, nestedNext, flatNext, sameRest]
      · change ((Stage.pipeline (toStages parts)).apply record).state.after records = _
        rw [nestedNext, nestedAfter]
      · change ((Stage.pipeline (membersAll parts)).apply record).state.after records = _
        rw [flatNext, flatAfter]

/-- Grouping makes no difference to the data. Stages that are grouped into pipelines within
pipelines give every record of a history the outcome that it has in one pipeline of the same
stages in the same order, and after the history the stages are, group by group, in the states
in which they are in that pipeline. -/
theorem nesting_transparent (grouping : Grouping Stage) (records : List Record) :
    grouping.nested.outcomes records = (Stage.pipeline grouping.members).outcomes records ∧
      ∃ later : Grouping Stage, later.form = grouping.form ∧
        grouping.nested.after records = later.nested ∧
        (Stage.pipeline grouping.members).after records = .pipeline later.members := by
  cases grouping with
  | single stage =>
      obtain ⟨same, later, form, nestedAfter, flatAfter⟩ :=
        exists_follows_history [.single stage] records
      refine ⟨same, ?_⟩
      match later, form with
      | [.single final], _ => exact ⟨.single final, rfl, nestedAfter, flatAfter⟩
  | group parts =>
      obtain ⟨same, later, form, nestedAfter, flatAfter⟩ := exists_follows_history parts records
      exact ⟨same, .group later, congrArg group form, nestedAfter, flatAfter⟩

end Grouping

end Featurize
