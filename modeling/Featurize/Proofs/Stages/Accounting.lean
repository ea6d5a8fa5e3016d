import Featurize.Proofs.Stages.Grouping
import Featurize.Proofs.Stages.Locality
import Featurize.Proofs.Telemetry.Tallies

/-!
Accounts of records. Every pipeline of a tree that passes a record on counts it once and
times it once. When a stage fails, each pipeline around it, from the innermost to the
outermost, reports which of its own stages the fault came out of and counts it once under its
code; the pipelines that were passed before have counted the record, and nothing behind the
failing stage has seen it. Of a fault that cannot be written the innermost pipeline keeps no
account, and what it passes on in its place is reported by the others; what is no exception
leaves no account at all.
-/

namespace Featurize

namespace Effect

/-- Whether accounts are kept of the effect: everything but the reports that stages make of
their own. -/
def isAccount : Effect → Bool
  | .reported (.stageFailed ..) => true
  | .reported _ => false
  | _ => true

def errorFields? (effect : Effect) : Option (List (String × Json)) :=
  match effect.event? with
  | some event => if event.line.event = "transform_error" then some event.line.fields else none
  | none => none

theorem errorFields?_of_not_account {effect : Effect} (quiet : effect.isAccount = false) :
    effect.errorFields? = none := by
  cases effect with
  | reported event =>
      cases event with
      | stageFailed stage description fault => cases quiet
      | _ => rfl
  | counted name labels amount => cases quiet
  | timed name labels => cases quiet

def accounts (effects : List Effect) : List Effect := effects.filter isAccount

theorem accounts_append (first later : List Effect) :
    accounts (first ++ later) = accounts first ++ accounts later :=
  List.filter_append ..

theorem total_accounts {measure : Effect → Int64}
    (reports : ∀ event, measure (.reported event) = 0) (effects : List Effect) :
    total measure (accounts effects) = total measure effects := by
  refine total_filter (fun effect quiet => ?_) effects
  cases effect with
  | reported event => exact reports event
  | counted name labels amount => cases quiet
  | timed name labels => cases quiet

theorem errorFields_accounts (effects : List Effect) :
    (accounts effects).filterMap errorFields? = effects.filterMap errorFields? := by
  unfold accounts
  rw [List.filterMap_filter]
  refine List.filterMap_congr (fun effect _member => ?_)
  cases kept : effect.isAccount with
  | true => rfl
  | false => exact (errorFields?_of_not_account kept).symm

def Quiet (effects : List Effect) : Prop := ∀ effect ∈ effects, effect.isAccount = false

theorem quiet_nil : Quiet [] := fun _effect member => by cases member

theorem Quiet.append {first later : List Effect} (head : Quiet first) (tail : Quiet later) :
    Quiet (first ++ later) :=
  List.forall_mem_append.mpr ⟨head, tail⟩

theorem accounts_of_quiet {effects : List Effect} (quiet : Quiet effects) :
    accounts effects = [] :=
  List.filter_eq_nil_iff.mpr (fun effect member => Bool.eq_false_iff.mp (quiet effect member))

end Effect

/-! ### Stages that are no pipelines -/

theorem FixedLengthSequences.quiet_selectAll (sequenceId : Int64)
    (entries : List (String × String)) (stride : Option Nat) (record : Record) :
    Effect.Quiet (selectAll sequenceId entries stride record).effects := by
  induction entries generalizing stride record with
  | nil => exact Effect.quiet_nil
  | cons entry entries ih =>
      obtain ⟨key, target⟩ := entry
      unfold selectAll
      split
      · exact Effect.quiet_nil
      · split
        · exact Effect.quiet_nil
        · rename_i feature _found known effects settled
          have quiet : Effect.Quiet effects := by
            unfold settle at settled
            split at settled
            · cases settled
              exact Effect.quiet_nil
            · obtain ⟨learned, _taught, same⟩ := Outcome.bind_eq_ok_iff.mp settled
              cases same
              intro effect member
              rw [List.mem_singleton.mp member]
              rfl
          split
          · exact quiet.append Effect.quiet_nil
          · exact quiet.append (ih _ _)

theorem DenseNormalization.quiet_apply (stage : DenseNormalization) (record : Record) :
    Effect.Quiet (stage.apply record).effects := by
  unfold apply
  simp only
  split
  · exact Effect.quiet_nil
  · split
    · intro effect member
      rw [List.mem_singleton.mp member]
      rfl
    · exact Effect.quiet_nil

theorem SequenceNormalization.quiet_apply (stage : SequenceNormalization) (record : Record) :
    Effect.Quiet (stage.apply record).effects := by
  have selected : Effect.Quiet (stage.sequences.apply record).effects :=
    FixedLengthSequences.quiet_selectAll _ _ _ _
  unfold apply
  simp only
  split
  · exact selected
  · split
    · exact selected.append (DenseNormalization.quiet_apply _ _)
    · exact selected.append (DenseNormalization.quiet_apply _ _)

theorem IdListMapping.quiet_encodeAll (stage : IdListMapping)
    (entries : List (String × SparseForm)) (encoder : Deferred SparseEncoder) (record : Record) :
    Effect.Quiet (stage.encodeAll entries encoder record).effects := by
  induction entries generalizing encoder record with
  | nil => exact Effect.quiet_nil
  | cons entry entries ih =>
      obtain ⟨key, form⟩ := entry
      unfold encodeAll
      split
      · exact ih _ _
      · have quiet : Effect.Quiet (if encoder.supply.built then
            [.reported (.encoderBuilt stage.device.name stage.config.names.size)] else []) := by
          split
          · intro effect member
            rw [List.mem_singleton.mp member]
            rfl
          · exact Effect.quiet_nil
        simp only
        split
        · exact quiet.append Effect.quiet_nil
        · exact quiet.append (ih _ _)

namespace Stage

def Plain (stage : Stage) : Prop := ∀ stages, stage ≠ .pipeline stages

theorem quiet_of_plain {stage : Stage} (plain : stage.Plain) (record : Record) :
    Effect.Quiet (stage.apply record).effects := by
  cases stage with
  | operation plain => exact Effect.quiet_nil
  | sequences stage => exact FixedLengthSequences.quiet_selectAll _ _ _ _
  | normalization stage => exact stage.quiet_apply record
  | sequenceNormalization stage => exact stage.quiet_apply record
  | encoding stage => exact stage.quiet_encodeAll _ _ _
  | pipeline stages => exact (plain stages rfl).elim

/-! ### Records that pass -/

mutual

def pipelines : Stage → Nat
  | .pipeline stages => pipelinesAll stages + 1
  | _ => 0

def pipelinesAll : List Stage → Nat
  | [] => 0
  | stage :: stages => pipelines stage + pipelinesAll stages

end

variable {stage : Stage} {stages : List Stage} {record next output : Record} {fault : Fault}

theorem applyAll_append_of_ok (number : Nat) (later : List Stage)
    (passed : (relay record stages).outcome = .ok next) :
    applyAll number record (stages ++ later) =
      ((applyAll (number + stages.length) next later).map
        ((relay record stages).state ++ ·)).after (relay record stages).effects := by
  induction stages generalizing number record with
  | nil =>
      cases passed
      rfl
  | cons stage stages ih =>
      cases outcome : (stage.apply record).outcome with
      | error fault =>
          rw [relay_cons_of_error outcome] at passed
          cases passed
      | ok between =>
          rw [relay_cons_of_ok outcome] at passed
          have rest := ih (number + 1) passed
          rw [List.cons_append, applyAll, relay_cons_of_ok outcome]
          simp only [outcome, rest, Run.after, Run.map, List.append_assoc, List.cons_append,
            List.length_cons, Nat.add_assoc, Nat.add_comm 1]

private theorem accounts_relay_of_ok
    (each : ∀ stage ∈ stages, ∀ record output, (stage.apply record).outcome = .ok output →
      Effect.accounts (stage.apply record).effects =
        (List.replicate stage.pipelines successEffects).flatten)
    (passed : (relay record stages).outcome = .ok output) :
    Effect.accounts (relay record stages).effects =
      (List.replicate (pipelinesAll stages) successEffects).flatten := by
  induction stages generalizing record with
  | nil => rfl
  | cons stage stages ih =>
      obtain ⟨first, rest⟩ := List.forall_mem_cons.mp each
      cases outcome : (stage.apply record).outcome with
      | error fault =>
          rw [relay_cons_of_error outcome] at passed
          cases passed
      | ok next =>
          rw [relay_cons_of_ok outcome] at passed ⊢
          change Effect.accounts ((stage.apply record).effects ++ (relay next stages).effects) = _
          rw [Effect.accounts_append, first record next outcome, ih rest passed, pipelinesAll,
            List.replicate_add, List.flatten_append]

/-- Of a record that passes, each pipeline in the tree keeps one account. -/
theorem accounts_of_ok (passed : (stage.apply record).outcome = .ok output) :
    Effect.accounts (stage.apply record).effects =
      (List.replicate stage.pipelines successEffects).flatten := by
  induction stage generalizing record output with
  | pipeline stages each =>
      have inRow := relay_of_applyAll_ok passed
      have row := applyAll_append_of_ok 0 [] inRow
      rw [List.append_nil] at row
      change Effect.accounts (applyAll 0 record stages).effects = _
      rw [row]
      change Effect.accounts ((relay record stages).effects ++ successEffects) = _
      rw [Effect.accounts_append,
        accounts_relay_of_ok (fun stage member _record _output => each stage member) inRow,
        pipelines, List.replicate_succ', List.flatten_append]
      rfl
  | _ => exact Effect.accounts_of_quiet (quiet_of_plain (fun _stages same => by cases same) record)

theorem accounts_relay (passed : (relay record stages).outcome = .ok output) :
    Effect.accounts (relay record stages).effects =
      (List.replicate (pipelinesAll stages) successEffects).flatten :=
  accounts_relay_of_ok (fun _stage _member _record _output => accounts_of_ok) passed

/-! ### Records that fail -/

/-- The row of stages in a pipeline around the place of one of them. -/
structure Level where
  earlier : List Stage
  later : List Stage

def inside (part : Stage) : List Level → Stage
  | [] => part
  | level :: levels => .pipeline (level.earlier ++ inside part levels :: level.later)

def before (levels : List Level) : List Stage := levels.flatMap Level.earlier

def carried (fault : Fault) : List Level → Fault
  | [] => fault
  | _ :: levels => (carried fault levels).passedOn

def exits (part : Stage) (fault : Fault) : List Level → List Effect
  | [] => []
  | level :: levels =>
      exits part fault levels ++
        failureEffects level.earlier.length (inside part levels) (carried fault levels)

/-- The levels after a record has passed everything in front of the place inside them: what
was in front is in its new states, what lies behind is as it was. -/
structure Reached (record : Record) (levels reached : List Level) : Prop where
  before : before reached = (relay record (before levels)).state
  numbers : reached.map (fun level => level.earlier.length) =
    levels.map (fun level => level.earlier.length)
  later : reached.map Level.later = levels.map Level.later

variable {part : Stage} {input : Record} {levels : List Level}

theorem length_state_relay (record : Record) (stages : List Stage) :
    (relay record stages).state.length = stages.length := by
  induction stages generalizing record with
  | nil => rfl
  | cons stage stages ih =>
      cases outcome : (stage.apply record).outcome with
      | error fault => rw [relay_cons_of_error outcome]; rfl
      | ok next =>
          rw [relay_cons_of_ok outcome]
          exact congrArg (· + 1) (ih next)

theorem carried_of_same_length {reached : List Level}
    (same : reached.length = levels.length) : carried fault reached = carried fault levels := by
  induction reached generalizing levels with
  | nil => rw [List.length_eq_zero_iff.mp same.symm]
  | cons level reached ih =>
      obtain ⟨outer, rest, rfl⟩ := List.exists_cons_of_length_eq_add_one same.symm
      rw [carried, carried, ih (Nat.succ.inj same)]

theorem Reached.length {reached : List Level} (reaches : Reached record levels reached) :
    reached.length = levels.length := by
  rw [← List.length_map (f := Level.later), reaches.later, List.length_map]

/-- A fault of a part comes out of all pipelines around it, and each of them on the way out adds
its report. -/
theorem apply_inside_of_error (passed : (relay record (before levels)).outcome = .ok input)
    (refused : (part.apply input).outcome = .error fault) :
    ∃ reached, Reached record levels reached ∧
      (inside part levels).apply record =
        { state := inside (part.apply input).state reached
          effects := (relay record (before levels)).effects ++ ((part.apply input).effects ++
            exits (part.apply input).state fault reached)
          outcome := .error (carried fault levels) } := by
  induction levels generalizing record with
  | nil =>
      cases passed
      refine ⟨[], ⟨rfl, rfl, rfl⟩, ?_⟩
      change part.apply _ = _
      rw [exits, List.append_nil]
      exact congrArg (Run.mk _ _) refused
  | cons level levels ih =>
      have rows : before (level :: levels) = level.earlier ++ before levels := List.flatMap_cons
      rw [rows] at passed
      cases outcome : (relay record level.earlier).outcome with
      | error cause =>
          rw [relay_append_of_error _ outcome] at passed
          cases passed
      | ok between =>
          have row := relay_append_of_ok (before levels) outcome
          rw [row] at passed
          obtain ⟨reached, reaches, inner⟩ := ih passed
          refine ⟨⟨(relay record level.earlier).state, level.later⟩ :: reached, ⟨?_, ?_, ?_⟩, ?_⟩
          · rw [rows, row]
            change (relay record level.earlier).state ++ before reached = _
            rw [reaches.before]
            rfl
          · rw [List.map_cons, List.map_cons, reaches.numbers, length_state_relay]
          · rw [List.map_cons, List.map_cons, reaches.later]
          · change (applyAll 0 record (level.earlier ++ inside part levels :: level.later)).map
              Stage.pipeline = _
            rw [applyAll_append_of_ok 0 _ outcome, applyAll, inner, rows, row, exits,
              carried_of_same_length reaches.length]
            simp only [Run.after, Run.map, inside, carried, List.append_assoc, Nat.zero_add,
              length_state_relay]

/-! ### Reports on the way out -/

theorem failureEffects_of_reported {report : FaultReport}
    (reported : fault.report? = some report) (number : Nat) (stage : Stage) :
    failureEffects number stage fault =
      [.reported (.stageFailed number stage.describe report),
        .counted "transform_errors" (.single "code" report.code) 1] := by
  unfold failureEffects
  rw [reported]
  rfl

theorem failureEffects_of_unreported (unreported : fault.report? = none) (number : Nat)
    (stage : Stage) : failureEffects number stage fault = [] := by
  unfold failureEffects
  rw [unreported]

theorem accounts_exits (part : Stage) (fault : Fault) (levels : List Level) :
    Effect.accounts (exits part fault levels) = exits part fault levels := by
  induction levels with
  | nil => rfl
  | cons level levels ih =>
      rw [exits, Effect.accounts_append, ih]
      cases reported : (carried fault levels).report? with
      | none => rw [failureEffects_of_unreported reported]; rfl
      | some report => rw [failureEffects_of_reported reported]; rfl

structure Reporting (levels : List Level) (code : String) (effects : List Effect) : Prop where
  total : ∀ measure : Effect → Int64, (∀ event, measure (.reported event) = 0) →
    Effect.total measure effects =
      Int64.ofNat levels.length * measure (.counted "transform_errors" (.single "code" code) 1)
  numbers : (effects.filterMap Effect.errorFields?).map (List.lookup "stage") =
    levels.reverse.map (fun level => some (.ofNat level.earlier.length))

/-- Where a record stops in a tree: at a part that is no pipeline, inside these levels. The
record passes everything in front of the part and comes to it as the input that it refuses. -/
structure StopsAt (record : Record) (stage : Stage) (levels : List Level) (part : Stage)
    (input : Record) (fault : Fault) : Prop where
  tree : stage = inside part levels
  plain : part.Plain
  passed : (relay record (before levels)).outcome = .ok input
  refused : (part.apply input).outcome = .error fault

/-- What the tree leaves when a record stops in it: what the stages in front of the part leave,
what the part leaves, and what the pipelines around the part add to that. -/
theorem StopsAt.exists_reached (stops : StopsAt record stage levels part input fault) :
    ∃ reached, Reached record levels reached ∧
      stage.apply record =
        { state := inside (part.apply input).state reached
          effects := (relay record (before levels)).effects ++ ((part.apply input).effects ++
            exits (part.apply input).state fault reached)
          outcome := .error (carried fault levels) } := by
  rw [stops.tree]
  exact apply_inside_of_error stops.passed stops.refused

theorem StopsAt.accounts (stops : StopsAt record stage levels part input fault) :
    ∃ reached, Reached record levels reached ∧
      Effect.accounts (stage.apply record).effects =
        (List.replicate (pipelinesAll (before levels)) successEffects).flatten ++
          exits (part.apply input).state fault reached := by
  obtain ⟨reached, reaches, run⟩ := stops.exists_reached
  refine ⟨reached, reaches, ?_⟩
  rw [run, Effect.accounts_append, accounts_relay stops.passed, Effect.accounts_append,
    Effect.accounts_of_quiet (quiet_of_plain stops.plain input), List.nil_append, accounts_exits]

/-! ### The registry and the log -/

theorem filterMap_errorFields_success (count : Nat) :
    ((List.replicate count successEffects).flatten).filterMap Effect.errorFields? = [] := by
  rw [List.filterMap_eq_nil_iff]
  intro effect member
  obtain ⟨effects, repeated, within⟩ := List.mem_flatten.mp member
  rw [List.eq_of_mem_replicate repeated] at within
  rcases List.mem_pair.mp within with rfl | rfl
  · rfl
  · rfl

end Stage

theorem metricKey_errors_ne (labels : Labels) :
    metricKey "transform_errors" labels ≠ metricKey "records_transformed" ∅ := by
  intro same
  obtain ⟨mark, key⟩ := exists_metricKey_eq_append "transform_errors" labels
  have letters := congrArg (fun text => text.toList.head?) (key.symm.trans same)
  simp only [String.toList_append, metricKey_empty] at letters
  rw [List.head?_append_of_ne_nil _ (by decide)] at letters
  exact absurd letters (by decide)

namespace Stage

/-- The books of a tree after a record that has stopped in it: one error under the code for each
level that reports, with one report each from the innermost to the outermost, and one record and
one duration for each pipeline that the record had passed before. -/
structure Stopped (passed : List Stage) (reporting : List Level) (code : String)
    (effects : List Effect) (registry later : Registry) : Prop where
  errors : later.counterValue "transform_errors" (.single "code" code) =
    registry.counterValue "transform_errors" (.single "code" code) + Int64.ofNat reporting.length
  otherErrors : ∀ labels,
    metricKey "transform_errors" labels ≠ metricKey "transform_errors" (.single "code" code) →
    later.counterValue "transform_errors" labels = registry.counterValue "transform_errors" labels
  otherLabels : '=' ∉ code.toList ∧ '"' ∉ code.toList → ∀ labels, labels ≠ .single "code" code →
    later.counterValue "transform_errors" labels = registry.counterValue "transform_errors" labels
  reports : (effects.filterMap Effect.errorFields?).map (List.lookup "stage") =
    reporting.reverse.map (fun level => some (.ofNat level.earlier.length))
  records : later.counterValue "records_transformed" ∅ =
    registry.counterValue "records_transformed" ∅ + Int64.ofNat (pipelinesAll passed)
  durations : later.sampleCount "pipeline_apply_duration_ms" ∅ =
    registry.sampleCount "pipeline_apply_duration_ms" ∅ + Int64.ofNat (pipelinesAll passed)

variable {registry : Registry}

theorem total_success_records :
    Effect.total (Effect.amountUnder (metricKey "records_transformed" ∅)) successEffects = 1 := by
  decide

theorem total_success_durations :
    Effect.total (Effect.samplesUnder (metricKey "pipeline_apply_duration_ms" ∅))
      successEffects = 1 := by
  decide

theorem total_success_errors (labels : Labels) :
    Effect.total (Effect.amountUnder (metricKey "transform_errors" labels))
      successEffects = 0 := by
  have apart : metricKey "records_transformed" ∅ ≠ metricKey "transform_errors" labels :=
    (metricKey_errors_ne labels).symm
  simp only [successEffects, Effect.total, Effect.amountUnder, if_neg apart, Int64.add_zero]

theorem StopsAt.stopped (elapsed : Nat → Double)
    (stops : StopsAt record stage levels part input fault) {reporting : List Level} {code : String}
    (outward : ∀ reached, Reached record levels reached →
      Reporting reporting code (exits (part.apply input).state fault reached)) :
    Stopped (before levels) reporting code (stage.apply record).effects registry
      (registry.absorbAll elapsed (stage.apply record).effects) := by
  obtain ⟨reached, reaches, accounts⟩ := stops.accounts
  have reports := outward reached reaches
  have totals (measure : Effect → Int64) (silent : ∀ event, measure (.reported event) = 0) :
      Effect.total measure (stage.apply record).effects =
        Int64.ofNat (pipelinesAll (before levels)) * Effect.total measure successEffects +
          Int64.ofNat reporting.length *
            measure (.counted "transform_errors" (.single "code" code) 1) := by
    rw [← Effect.total_accounts silent, accounts, Effect.total_append,
      Effect.total_flatten_replicate, reports.total measure silent]
  have amounts (key : String) := totals (Effect.amountUnder key) (fun _event => rfl)
  have samples (key : String) := totals (Effect.samplesUnder key) (fun _event => rfl)
  have counted (key : String) : Effect.amountUnder key
      (.counted "transform_errors" (.single "code" code) 1) =
      if metricKey "transform_errors" (.single "code" code) = key then 1 else 0 := rfl
  have others : ∀ labels,
      metricKey "transform_errors" labels ≠ metricKey "transform_errors" (.single "code" code) →
      (registry.absorbAll elapsed (stage.apply record).effects).counterValue "transform_errors"
        labels = registry.counterValue "transform_errors" labels := by
    intro labels apart
    rw [Registry.counterValue_absorbAll, amounts, total_success_errors, counted,
      if_neg apart.symm, Int64.mul_zero, Int64.zero_add, Int64.mul_zero, Int64.add_zero]
  constructor
  · rw [Registry.counterValue_absorbAll, amounts, total_success_errors, counted, if_pos rfl,
      Int64.mul_zero, Int64.zero_add, Int64.mul_one]
  · exact others
  · intro plain labels other
    exact others labels (fun same => other (eq_single_of_metricKey_eq (by decide) plain same))
  · rw [← Effect.errorFields_accounts, accounts, List.filterMap_append,
      filterMap_errorFields_success, List.nil_append, reports.numbers]
  · rw [Registry.counterValue_absorbAll, amounts, total_success_records, counted,
      if_neg (metricKey_errors_ne _), Int64.mul_one, Int64.mul_zero, Int64.add_zero]
  · rw [Registry.sampleCount_absorbAll, samples, total_success_durations, Int64.mul_one]
    exact congrArg _ ((congrArg _ Int64.mul_zero).trans (Int64.add_zero _))

theorem StopsAt.outcome (stops : StopsAt record stage levels part input fault) :
    (stage.apply record).outcome = .error (carried fault levels) := by
  obtain ⟨reached, _reaches, run⟩ := stops.exists_reached
  rw [run]

end Stage

end Featurize
