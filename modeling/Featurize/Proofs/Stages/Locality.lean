import Featurize.Proofs.Stages.Confinement
import Featurize.Proofs.Stages.Construction
import Featurize.Proofs.Stages.HistoryIndependence

/-!
Locality of stages. Every stage but the pairing of presence masks and the keeping of
listed fields names the fields that it reads and those that it writes or drops, and is
confined to them in every state it can be in. The names of a pipeline are those of its
stages together, however deep they lie.
-/

namespace Featurize

/-! ### Operations -/

/-- The names in the options of an operation. Pairing goes by the names of the record
itself, and keeping drops all names but its own: they have no scope. -/
def Operation.scope? : Operation → Option Scope
  | .pairPresence => none
  | .maskByPresence keys => some (.inPlace keys)
  | .selectColumns source destination _ => some ⟨[source], [destination]⟩
  | .columnVector keys => some (.inPlace keys)
  | .oneHotActions keys _ => some (.inPlace keys)
  | .stackRows keys _ => some (.inPlace keys)
  | .slateView keys _ => some (.inPlace keys)
  | .appendConstant keys _ _ => some (.inPlace keys)
  | .unsqueezeRepeat keys _ _ => some (.inPlace keys)
  | .outerProduct left right output dropInputs =>
      some ⟨[left, right], output :: if dropInputs then [left, right] else []⟩
  | .identityMatrix key _ => some ⟨[], [key]⟩
  | .concatenate inputs output _ _ => some ⟨inputs, [output]⟩
  | .rename old new => some ⟨old, old ++ new⟩
  | .keep _ => none
  | .remove keys => some ⟨[], keys⟩
  | .mapTensors keys _ _ => some (.inPlace keys)

namespace Record

variable {left right : Record} {key : String}

private theorem tensor_eq_of_find? (same : left.find? key = right.find? key) :
    left.tensor key = right.tensor key := by
  unfold tensor
  rw [get_eq_of_find? same]

private theorem pair_eq_of_find? (same : left.find? key = right.find? key) :
    left.pair key = right.pair key := by
  unfold pair
  rw [get_eq_of_find? same]

private theorem mapM_tensor_eq {keys : List String} (agree : AgreeOn keys left right) :
    keys.mapM left.tensor = keys.mapM right.tensor := by
  induction keys with
  | nil => rfl
  | cons key keys ih =>
      rw [List.mapM_cons, List.mapM_cons, tensor_eq_of_find? (agree key (List.mem_cons_self ..)),
        ih (agree.mono (List.subset_cons_self ..))]

end Record

namespace Scope

variable {scope : Scope}

theorem confines_selectColumns (source destination : String) (columns : List Nat) :
    Confines ⟨[source], [destination]⟩
      (fun record => Run.silent () (record.selectColumns source destination columns)) := by
  refine confines_store (fun left right agree => ?_)
  unfold Record.selectColumns
  rw [Record.pair_eq_of_find? (agree source (List.mem_singleton_self source))]
  refine .bind (fun pair => .bind (fun _aligned => ?_))
  split
  · exact .fail _
  · exact .bind (fun value => .bind (fun presence => .store _))

theorem confines_identityMatrix (key : String) (size : Nat) :
    Confines ⟨[], [key]⟩ (fun record => Run.silent () (.ok (record.identityMatrix key size))) :=
  confines_store (fun _left _right _agree => .store _)

theorem confines_concatenate (inputs : List String) (output : String) (axis : Int)
    (broadcast : Bool) :
    Confines ⟨inputs, [output]⟩
      (fun record => Run.silent () (record.concatenate inputs output axis broadcast)) := by
  refine confines_store (fun left right agree => ?_)
  unfold Record.concatenate
  rw [Record.mapM_tensor_eq agree]
  refine .bind (fun tensors => ?_)
  split
  · exact .bind (fun parts => .bind (fun joined => .store _))
  · exact .bind (fun _same => .bind (fun joined => .store _))

theorem confines_remove (keys : List String) :
    Confines ⟨[], keys⟩ (fun record => Run.silent () (.ok (record.remove keys))) := by
  have stepwise : (fun record : Record => Run.silent () (.ok (record.remove keys))) =
      fun record => Run.silent () (keys.foldlM
        (fun record key => pure (record.erase key)) record) := by
    funext record
    rw [List.foldlM_pure]
    rfl
  rw [stepwise]
  refine (confines_foldlM confines_erase keys).congr ?_ (fun name => ?_)
  · rw [reads_all, List.flatMap_eq_nil_iff.mpr (fun _key _member => rfl)]
    exact List.nil_subset _
  · rw [writes_all, List.flatMap_singleton']

theorem confines_outerProduct (left right output : String) (dropInputs : Bool) :
    Confines ⟨[left, right], output :: if dropInputs then [left, right] else []⟩
      (fun record => Run.silent () (record.outerProduct left right output dropInputs)) := by
  have stored : Confines ⟨[left, right], [output]⟩
      (fun record => Run.silent () (record.outerProduct left right output false)) := by
    refine confines_store (fun first second agree => ?_)
    unfold Record.outerProduct
    rw [Record.tensor_eq_of_find? (agree left (List.mem_cons_self ..)),
      Record.tensor_eq_of_find? (agree right (List.mem_cons_of_mem _ (List.mem_singleton_self _)))]
    exact .bind (fun rightFactor => .bind (fun leftFactor => .bind (fun product => .store _)))
  have dropped : (fun record => Run.silent () (record.outerProduct left right output dropInputs)) =
      fun record : Record => (Run.silent () (record.outerProduct left right output false)).sequel
        (fun state fault => (state, [], fault))
        (fun _state product => Run.silent ()
          (.ok (product.remove (if dropInputs then [left, right] else [])))) := by
    funext record
    unfold Record.outerProduct
    dsimp only [bind, Except.bind]
    cases record.tensor right with
    | error fault => rfl
    | ok rightFactor =>
        dsimp only
        cases record.tensor left with
        | error fault => rfl
        | ok leftFactor =>
            dsimp only
            cases leftFactor.outerProduct rightFactor <;> cases dropInputs <;> rfl
  rw [dropped]
  refine stored.sequel (fun _state => confines_remove _) (List.Subset.refl _)
    (List.nil_subset _) (fun name => ?_)
  rw [List.mem_cons, List.mem_singleton]

theorem confines_move (old new : String) :
    Confines ⟨[old], [old, new]⟩ (fun record => Run.silent () (do
      let (field, rest) ← record.take old
      return rest.set new field)) := by
  have moved : (fun record : Record => Run.silent () (do
      let (field, rest) ← record.take old
      return rest.set new field)) = fun record => Run.silent () (record.get old >>= fun field =>
        .ok ((record.erase old).set new field)) := by
    funext record
    unfold Record.take
    cases record.get old <;> rfl
  have replaced : ∀ field, Confines ⟨[], [old, new]⟩
      (fun record => Run.silent () (.ok ((record.erase old).set new field))) := by
    intro field
    have inTurn : (fun record : Record => Run.silent () (.ok ((record.erase old).set new field))) =
        fun record => (Run.silent () (.ok (record.erase old))).sequel
          (fun state fault => (state, [], fault))
          (fun _state rest => Run.silent () (.ok (rest.set new field))) := rfl
    rw [inTurn]
    refine (confines_erase old).sequel
      (fun _state => confines_store (fun _left _right _agree => .store field))
      (List.Subset.refl _) (List.nil_subset _) (fun name => ?_)
    simp only [List.mem_cons, List.not_mem_nil, or_false]
  rw [moved]
  exact confines_read (fun left right agree =>
    Record.get_eq_of_find? (agree old (List.mem_singleton_self old))) replaced

theorem confines_rename {old new : List String} (parallel : old.length = new.length) :
    Confines ⟨old, old ++ new⟩ (fun record => Run.silent () (record.rename (old.zip new))) := by
  refine (confines_foldlM (fun names => confines_move names.1 names.2) (old.zip new)).congr ?_
    (fun name => ?_)
  · rw [reads_all, ← List.map_eq_flatMap, List.map_fst_zip (Nat.le_of_eq parallel)]
    exact List.Subset.refl _
  · have isOld : name ∈ old ↔ ∃ names ∈ old.zip new, names.1 = name := by
      have members := List.mem_map (f := Prod.fst) (l := old.zip new) (b := name)
      rwa [List.map_fst_zip (Nat.le_of_eq parallel)] at members
    have isNew : name ∈ new ↔ ∃ names ∈ old.zip new, names.2 = name := by
      have members := List.mem_map (f := Prod.snd) (l := old.zip new) (b := name)
      rwa [List.map_snd_zip (Nat.le_of_eq parallel.symm)] at members
    rw [writes_all, List.mem_append, isOld, isNew]
    simp only [List.mem_flatMap, List.mem_cons, List.not_mem_nil, or_false, and_or_left, exists_or,
      eq_comm]

theorem confines_slateView (keys : List String) (size : Nat) :
    (inPlace keys).Confines (fun record => Run.silent () (record.slateView keys size)) := by
  unfold Record.slateView
  by_cases unset : size = 0
  · simp only [if_pos unset]
    exact confines_error (inPlace keys) () (.config .noSlateSize)
  · simp only [if_neg unset]
    exact confines_replaceEach (Record.cutSlates size) keys

end Scope

theorem Operation.confines {plain : Operation} {scope : Scope} (accepted : plain.check = .ok ())
    (named : plain.scope? = some scope) :
    scope.Confines (fun record => Run.silent () (plain.run record)) := by
  cases plain with
  | pairPresence => cases named
  | keep keys => cases named
  | maskByPresence keys =>
      cases named
      exact Scope.confines_replaceEach _ keys
  | selectColumns source destination columns =>
      cases named
      exact Scope.confines_selectColumns source destination columns
  | columnVector keys =>
      cases named
      exact Scope.confines_replaceEach _ keys
  | oneHotActions keys actions =>
      cases named
      exact Scope.confines_replaceEach _ keys
  | stackRows keys size =>
      cases named
      exact Scope.confines_replaceEach _ keys
  | slateView keys size =>
      cases named
      exact Scope.confines_slateView keys size
  | appendConstant keys axis value =>
      cases named
      exact Scope.confines_replaceEach _ keys
  | unsqueezeRepeat keys axis count =>
      cases named
      exact Scope.confines_replaceEach _ keys
  | outerProduct left right output dropInputs =>
      cases named
      exact Scope.confines_outerProduct left right output dropInputs
  | identityMatrix key size =>
      cases named
      exact Scope.confines_identityMatrix key size
  | concatenate inputs output axis broadcast =>
      cases named
      exact Scope.confines_concatenate inputs output axis broadcast
  | rename old new =>
      cases named
      have parallel : old.length = new.length := by
        refine Decidable.byContradiction (fun different => ?_)
        rw [check, if_pos different] at accepted
        cases accepted
      exact Scope.confines_rename parallel
  | remove keys =>
      cases named
      exact Scope.confines_remove keys
  | mapTensors keys function name =>
      cases named
      exact Scope.confines_replaceEach _ keys

/-! ### Selections of sequences -/

namespace FixedLengthSequences

theorem confines_selectOne (sequenceId : Int64) (key target : String) (stride : Option Nat) :
    Scope.Confines ⟨[key], [target]⟩ (selectAll sequenceId [(key, target)] stride) := by
  refine Scope.confines_write (fun left right agree => ?_)
  have sameFind : find left key sequenceId = find right key sequenceId := by
    unfold find Record.sequences
    rw [Record.get_eq_of_find? (agree key (List.mem_singleton_self key))]
  unfold selectAll
  rw [sameFind]
  cases find right key sequenceId with
  | error fault => exact ⟨rfl, rfl, .fail fault⟩
  | ok feature =>
      dsimp only
      cases settle key sequenceId stride feature with
      | error fault => exact ⟨rfl, rfl, .fail fault⟩
      | ok settled =>
          dsimp only
          cases select key sequenceId settled.1 feature with
          | error fault => exact ⟨rfl, rfl, .fail fault⟩
          | ok payload => exact ⟨rfl, rfl, .store _⟩

theorem confines_selectAll (sequenceId : Int64) (entries : List (String × String))
    (stride : Option Nat) :
    (Scope.all (fun entry : String × String => ⟨[entry.1], [entry.2]⟩) entries).Confines
      (selectAll sequenceId entries stride) := by
  induction entries generalizing stride with
  | nil => exact Scope.confines_ok stride []
  | cons entry entries ih =>
      obtain ⟨key, target⟩ := entry
      have inTurn : selectAll sequenceId ((key, target) :: entries) stride = fun record =>
          (selectAll sequenceId [(key, target)] stride record).sequel
            (fun stride fault => (stride, [], fault)) (selectAll sequenceId entries) := by
        funext record
        simp only [selectAll]
        cases find record key sequenceId with
        | error fault => rfl
        | ok feature =>
            dsimp only
            cases settle key sequenceId stride feature with
            | error fault => rfl
            | ok settled =>
                dsimp only
                cases select key sequenceId settled.1 feature with
                | error fault => simp only [Run.sequel, Run.after, Run.silent, List.append_nil]
                | ok payload => simp only [Run.sequel, Run.after, Run.silent, List.append_nil]
      rw [inTurn]
      exact (confines_selectOne sequenceId key target stride).union ih

theorem confines (stage : FixedLengthSequences)
    (parallel : stage.targets.length = stage.keys.length) :
    Scope.Confines ⟨stage.keys, stage.targets⟩ stage.apply := by
  have confined := (confines_selectAll stage.sequenceId (stage.keys.zip stage.targets)
    stage.stride).map (fun stride => { stage with stride })
  refine confined.congr ?_ (fun name => ?_)
  · rw [Scope.reads_all, ← List.map_eq_flatMap, List.map_fst_zip (Nat.le_of_eq parallel.symm)]
    exact List.Subset.refl _
  · rw [Scope.writes_all, ← List.map_eq_flatMap, List.map_snd_zip (Nat.le_of_eq parallel)]

end FixedLengthSequences

/-! ### Stages with collaborators -/

theorem DenseNormalization.confines (stage : DenseNormalization) :
    (Scope.inPlace stage.keys).Confines stage.apply := by
  cases supplied : stage.normalizer.supply.product with
  | error fault =>
      have whole : stage.apply = fun _record =>
          Run.silent { stage with normalizer := stage.normalizer.supply.deferred }
            (.error fault) := by
        funext record
        simp only [apply, supplied]
      rw [whole]
      exact Scope.confines_error _ _ fault
  | ok normalizer =>
      have whole : stage.apply = fun record =>
          ((Run.silent () (record.replaceEach stage.keys (normalizeField normalizer))).map
            (fun _state => { stage with normalizer := stage.normalizer.supply.deferred })).after
              (if stage.normalizer.supply.built then
                [.reported (.normalizerBuilt stage.keys stage.device.name stage.data.size)]
              else []) := by
        funext record
        simp only [apply, supplied, Run.after, Run.map, Run.silent, List.append_nil]
      rw [whole]
      exact ((Scope.confines_replaceEach _ stage.keys).map _).after _

namespace SequenceNormalization

variable (stage : SequenceNormalization)

def finish (sequences : FixedLengthSequences) (pairs : Record) : Run SequenceNormalization :=
  (stage.normalization.apply pairs).sequel
    (fun normalization fault => ({ stage with sequences, normalization }, [], fault))
    (fun normalization rows =>
      (Run.silent () (rows.slateView stage.sequences.targets (sequences.stride.getD 0))).map
        (fun _state => { sequences, normalization, slateSize := sequences.stride.getD 0 }))

theorem apply_eq_sequel (record : Record) :
    stage.apply record = (stage.sequences.apply record).sequel
      (fun sequences fault => ({ stage with sequences }, [], fault)) stage.finish := by
  unfold apply finish Run.sequel
  cases selected : (stage.sequences.apply record).outcome with
  | error fault => simp only [selected, List.append_nil]
  | ok pairs =>
      simp only [selected]
      cases (stage.normalization.apply pairs).outcome with
      | error fault => simp only [Run.after, List.append_nil]
      | ok rows => simp only [Run.after, Run.map, Run.silent, List.append_nil]

theorem confines_finish (derived : stage.normalization.keys = stage.sequences.targets)
    (sequences : FixedLengthSequences) :
    (Scope.inPlace stage.sequences.targets).Confines (stage.finish sequences) := by
  have scaled := stage.normalization.confines
  rw [derived] at scaled
  exact scaled.sequel (fun _normalization => (Scope.confines_slateView _ _).map _)
    (List.Subset.refl _) (List.subset_append_left ..) (fun _name => or_self_iff.symm)

theorem confines (parallel : stage.sequences.targets.length = stage.sequences.keys.length)
    (derived : stage.normalization.keys = stage.sequences.targets) :
    Scope.Confines ⟨stage.sequences.keys, stage.sequences.targets⟩ stage.apply := by
  rw [funext stage.apply_eq_sequel]
  exact (stage.sequences.confines parallel).sequel (stage.confines_finish derived)
    (List.Subset.refl _) (List.subset_append_right ..) (fun _name => or_self_iff.symm)

end SequenceNormalization

namespace IdListMapping

variable (stage : IdListMapping)

theorem confines_encodeOne (key : String) (form : SparseForm) (encoder : Deferred SparseEncoder) :
    Scope.Confines ⟨[key], [key]⟩ (stage.encodeAll [(key, form)] encoder) := by
  refine Scope.confines_write (fun left right agree => ?_)
  simp only [encodeAll, agree key (List.mem_singleton_self key)]
  cases if stage.enabled then right.find? key else none with
  | none => exact ⟨rfl, rfl, .store _⟩
  | some field =>
      dsimp only
      cases encoder.supply.product >>= fun product => encodeField product key field form with
      | error fault => exact ⟨rfl, rfl, .fail fault⟩
      | ok encoded => exact ⟨rfl, rfl, .store _⟩

theorem confines_encodeAll (entries : List (String × SparseForm))
    (encoder : Deferred SparseEncoder) :
    (Scope.all (fun entry : String × SparseForm => ⟨[entry.1], [entry.1]⟩) entries).Confines
      (stage.encodeAll entries encoder) := by
  induction entries generalizing encoder with
  | nil => exact Scope.confines_ok encoder []
  | cons entry entries ih =>
      obtain ⟨key, form⟩ := entry
      have inTurn : stage.encodeAll ((key, form) :: entries) encoder = fun record =>
          (stage.encodeAll [(key, form)] encoder record).sequel
            (fun encoder fault => (encoder, [], fault)) (stage.encodeAll entries) := by
        funext record
        simp only [encodeAll]
        cases if stage.enabled then record.find? key else none with
        | none => rfl
        | some field =>
            dsimp only
            cases encoder.supply.product >>= fun product => encodeField product key field form with
            | error fault => simp only [Run.sequel, Run.after, Run.silent, List.append_nil]
            | ok encoded => simp only [Run.sequel, Run.after, Run.silent, List.append_nil]
      rw [inTurn]
      exact (stage.confines_encodeOne key form encoder).union ih

theorem confines :
    (Scope.inPlace (stage.idListKeys ++ stage.idScoreListKeys)).Confines stage.apply := by
  have names : stage.entries.flatMap (fun entry => [entry.1]) =
      stage.idListKeys ++ stage.idScoreListKeys := by
    unfold entries
    rw [← List.map_eq_flatMap, List.map_append, List.map_map, List.map_map]
    simp only [Function.comp_def, List.map_id']
  refine ((stage.confines_encodeAll stage.entries stage.encoder).map _).congr ?_ (fun name => ?_)
  · rw [Scope.reads_all, names]
    exact List.Subset.refl _
  · rw [Scope.writes_all, names]
    rfl

end IdListMapping

/-! ### Stages in stages -/

namespace Stage

/-- Induction over stages: of a pipeline, the statement may be assumed for every stage in it. -/
@[elab_as_elim, induction_eliminator]
theorem treeInduction {motive : Stage → Prop} (operation : ∀ plain, motive (.operation plain))
    (sequences : ∀ stage, motive (.sequences stage))
    (normalization : ∀ stage, motive (.normalization stage))
    (sequenceNormalization : ∀ stage, motive (.sequenceNormalization stage))
    (encoding : ∀ stage, motive (.encoding stage))
    (pipeline : ∀ stages, (∀ stage ∈ stages, motive stage) → motive (.pipeline stages))
    (stage : Stage) : motive stage := by
  refine @Stage.rec motive (fun stages => ∀ stage ∈ stages, motive stage) operation sequences
    normalization sequenceNormalization encoding pipeline ?_ ?_ stage
  · intro stage member
    cases member
  · intro head stages headHolds tailHolds stage member
    rcases List.mem_cons.mp member with same | later
    · exact same ▸ headHolds
    · exact tailHolds stage later

mutual

def scope? : Stage → Option Scope
  | .operation plain => plain.scope?
  | .sequences stage => some ⟨stage.keys, stage.targets⟩
  | .normalization stage => some (.inPlace stage.keys)
  | .sequenceNormalization stage => some ⟨stage.sequences.keys, stage.sequences.targets⟩
  | .encoding stage => some (.inPlace (stage.idListKeys ++ stage.idScoreListKeys))
  | .pipeline stages => scopeAll? stages

def scopeAll? : List Stage → Option Scope
  | [] => some .empty
  | stage :: stages => do
      let first ← scope? stage
      return first.union (← scopeAll? stages)

end

mutual

/-- What the constructors see to: options that pass their check, and lists of names that
belong together. -/
def Configured : Stage → Prop
  | .operation plain => plain.check = .ok ()
  | .sequences stage => stage.targets.length = stage.keys.length
  | .normalization _ => True
  | .sequenceNormalization stage =>
      stage.sequences.targets.length = stage.sequences.keys.length ∧
        stage.normalization.keys = stage.sequences.targets
  | .encoding _ => True
  | .pipeline stages => ConfiguredAll stages

def ConfiguredAll : List Stage → Prop
  | [] => True
  | stage :: stages => Configured stage ∧ ConfiguredAll stages

end

private theorem confines_applyAll {stages : List Stage} {scope : Scope}
    (each : ∀ stage ∈ stages, ∀ scope, stage.Configured → stage.scope? = some scope →
      scope.Confines (fun record => stage.apply record))
    (configured : ConfiguredAll stages) (named : scopeAll? stages = some scope) (number : Nat) :
    scope.Confines (fun record => applyAll number record stages) := by
  induction stages generalizing scope number with
  | nil =>
      cases named
      exact Scope.confines_ok [] successEffects
  | cons stage stages ih =>
      unfold scopeAll? at named
      obtain ⟨first, namedFirst, rest⟩ := Option.bind_eq_some_iff.mp named
      obtain ⟨later, namedLater, joined⟩ := Option.bind_eq_some_iff.mp rest
      cases joined
      have inTurn : (fun record => applyAll number record (stage :: stages)) = fun record =>
          (stage.apply record).sequel
            (fun state fault =>
              (state :: stages, failureEffects number state fault, fault.passedOn))
            (fun state next => (applyAll (number + 1) next stages).map (state :: ·)) := by
        funext record
        cases outcome : (stage.apply record).outcome with
        | error fault => simp only [applyAll, outcome, Run.sequel_of_error outcome]
        | ok next => simp only [applyAll, outcome, Run.sequel_of_ok outcome]
      rw [inTurn]
      have head := each stage (List.mem_cons_self ..) first configured.1 namedFirst
      have tail := ih (fun other member => each other (List.mem_cons_of_mem _ member))
        configured.2 namedLater (number + 1)
      exact head.union (fun state => tail.map (state :: ·))

/-- A stage with coherent options is confined to the names in them, whatever its state. -/
theorem confines {stage : Stage} {scope : Scope} (configured : stage.Configured)
    (named : stage.scope? = some scope) : scope.Confines (fun record => stage.apply record) := by
  induction stage generalizing scope with
  | operation plain =>
      exact (Operation.confines configured named).map (fun _state => operation plain)
  | sequences stage =>
      cases named
      exact (stage.confines configured).map sequences
  | normalization stage =>
      cases named
      exact stage.confines.map normalization
  | sequenceNormalization stage =>
      cases named
      exact (stage.confines configured.1 configured.2).map sequenceNormalization
  | encoding stage =>
      cases named
      exact stage.confines.map encoding
  | pipeline stages each =>
      exact (confines_applyAll (fun stage member _scope => each stage member) configured named
        0).map pipeline

/-! ### The states of a stage -/

mutual

/-- The stage without what records change in it: the learned stride, the collaborators
that are there, and the last slate size. -/
def blank : Stage → Stage
  | .operation plain => .operation plain
  | .sequences stage => .sequences { stage with stride := none }
  | .normalization stage => .normalization stage.renewed
  | .sequenceNormalization stage =>
      .sequenceNormalization
        { stage.renewed with sequences := { stage.sequences with stride := none } }
  | .encoding stage => .encoding stage.renewed
  | .pipeline stages => .pipeline (blankAll stages)

def blankAll : List Stage → List Stage
  | [] => []
  | stage :: stages => blank stage :: blankAll stages

end

private theorem scopeAll?_blankAll {stages : List Stage}
    (each : ∀ stage ∈ stages, stage.blank.scope? = stage.scope?) :
    scopeAll? (blankAll stages) = scopeAll? stages := by
  induction stages with
  | nil => rfl
  | cons stage stages ih =>
      obtain ⟨first, rest⟩ := List.forall_mem_cons.mp each
      simp only [blankAll, scopeAll?, first, ih rest]

theorem scope?_blank (stage : Stage) : stage.blank.scope? = stage.scope? := by
  induction stage with
  | operation plain => rfl
  | sequences stage => rfl
  | normalization stage => rfl
  | sequenceNormalization stage => rfl
  | encoding stage => rfl
  | pipeline stages each => exact scopeAll?_blankAll each

private theorem configuredAll_blankAll {stages : List Stage}
    (each : ∀ stage ∈ stages, (stage.blank.Configured ↔ stage.Configured)) :
    ConfiguredAll (blankAll stages) ↔ ConfiguredAll stages := by
  induction stages with
  | nil => rfl
  | cons stage stages ih =>
      obtain ⟨first, rest⟩ := List.forall_mem_cons.mp each
      simp only [blankAll, ConfiguredAll, first, ih rest]

theorem configured_blank (stage : Stage) : stage.blank.Configured ↔ stage.Configured := by
  induction stage with
  | operation plain => rfl
  | sequences stage => rfl
  | normalization stage => rfl
  | sequenceNormalization stage => rfl
  | encoding stage => rfl
  | pipeline stages each => exact configuredAll_blankAll each

private theorem configuredAll_of_buildAll {surroundings : Surroundings} {plans : List StagePlan}
    {stages : List Stage}
    (each : ∀ plan ∈ plans, ∀ stage, plan.build surroundings = .ok stage → stage.Configured)
    (built : StagePlan.buildAll surroundings plans = .ok stages) : ConfiguredAll stages := by
  induction plans generalizing stages with
  | nil =>
      cases built
      trivial
  | cons plan plans ih =>
      obtain ⟨first, rest, builtFirst, builtRest, joined⟩ :=
        StagePlan.buildAll_cons_eq_ok_iff.mp built
      subst joined
      obtain ⟨head, tail⟩ := List.forall_mem_cons.mp each
      exact ⟨head first builtFirst, ih tail builtRest⟩

theorem configured_of_build {surroundings : Surroundings} {plan : StagePlan} {stage : Stage}
    (built : plan.build surroundings = .ok stage) : stage.Configured := by
  induction plan generalizing surroundings stage with
  | operation plain =>
      cases StagePlan.makes_of_build built with
      | operation accepted => exact accepted
  | filter keep remove =>
      cases StagePlan.makes_of_build built with
      | filter chosen => cases keep <;> cases remove <;> cases chosen <;> exact rfl
  | mapTensors keys function name =>
      cases StagePlan.makes_of_build built with
      | mapTensors chosen =>
          cases function <;> cases chosen
          exact rfl
  | sequences keys sequenceId stride targets =>
      cases StagePlan.makes_of_build built with
      | sequences configured =>
          obtain ⟨parallel, _notEmpty, options⟩ :=
            FixedLengthSequences.configure_eq_ok_iff.mp configured
          subst options
          exact parallel
  | normalization keys =>
      cases StagePlan.makes_of_build built with
      | normalization configured => trivial
  | sequenceNormalization keys sequenceId stride =>
      cases StagePlan.makes_of_build built with
      | sequenceNormalization configured =>
          obtain ⟨sequences, normalization, selected, made, options⟩ :=
            SequenceNormalization.configure_eq_ok_iff.mp configured
          obtain ⟨parallel, _notEmpty, sequencesOptions⟩ :=
            FixedLengthSequences.configure_eq_ok_iff.mp selected
          obtain ⟨_make, _given, normalizationOptions⟩ :=
            DenseNormalization.configure_eq_ok_iff.mp made
          subst options sequencesOptions normalizationOptions
          exact ⟨parallel, rfl⟩
  | encoding idListKeys idScoreListKeys =>
      cases StagePlan.makes_of_build built with
      | encoding configured => trivial
  | pipeline plans each =>
      cases StagePlan.makes_of_build built with
      | pipeline builtAll =>
          exact configuredAll_of_buildAll (fun plan member _stage => each plan member) builtAll
  | within own plan ih =>
      cases StagePlan.makes_of_build built with
      | within builtOwn => exact ih builtOwn

private theorem blankAll_applyAll {stages : List Stage}
    (each : ∀ stage ∈ stages, ∀ record, (stage.apply record).state.blank = stage.blank)
    (number : Nat) (record : Record) :
    blankAll (applyAll number record stages).state = blankAll stages := by
  induction stages generalizing number record with
  | nil => rfl
  | cons stage stages ih =>
      obtain ⟨first, rest⟩ := List.forall_mem_cons.mp each
      cases outcome : (stage.apply record).outcome with
      | error fault => simp only [applyAll, outcome, blankAll, first]
      | ok next =>
          simp only [applyAll, outcome, Run.after, Run.map, blankAll, first,
            ih rest (number + 1) next]

/-- The states in which records leave a stage differ in nothing else. -/
theorem blank_apply (stage : Stage) (record : Record) :
    (stage.apply record).state.blank = stage.blank := by
  induction stage generalizing record with
  | operation plain => rfl
  | sequences stage => rfl
  | normalization stage => exact congrArg normalization (stage.renewed_apply record)
  | sequenceNormalization stage =>
      have selection := stage.sequences_apply record
      have scaling := stage.renewed_normalization_apply record
      simp only [apply, Run.map, blank, SequenceNormalization.renewed, selection, scaling]
      rfl
  | encoding stage => exact congrArg encoding (stage.renewed_apply record)
  | pipeline stages each => exact congrArg pipeline (blankAll_applyAll each 0 record)

theorem blank_after (stage : Stage) (history : List Record) :
    (stage.after history).blank = stage.blank :=
  Run.stateAfter_keeps (fun state => blank state = blank stage)
    (fun state record same => (blank_apply state record).trans same) rfl history

/-- A stage that was built from a plan, in whatever state it is by now, touches no field but
those that its options name as written or dropped. The fields that they name as read decide
whether and how it fails, the fields it writes, and the state it is in afterwards. -/
theorem confined_to_scope {surroundings : Surroundings} {plan : StagePlan} {fresh state : Stage}
    {scope : Scope} (built : plan.build surroundings = .ok fresh)
    (same : state.blank = fresh.blank) (named : fresh.scope? = some scope) :
    (∀ record output, (state.apply record).outcome = .ok output →
      ∀ name, name ∉ scope.writes → output.find? name = record.find? name) ∧
    ∀ left right, Record.AgreeOn scope.reads left right →
      (state.apply left).Alike (scope.reads ++ scope.writes) (state.apply right) := by
  have configured : state.Configured := by
    rw [← configured_blank, same, configured_blank]
    exact configured_of_build built
  have namedToo : state.scope? = some scope := by
    rw [← scope?_blank, same, scope?_blank, named]
  have confined := confines configured namedToo
  exact ⟨confined.frame, confined.alike⟩

/-- The selection has learned its stride from a record that it refused. A field that no stage
names is still there behind the pipeline, and makes no difference to anything else. -/
theorem confined_to_scope_refused :
    ∃ fresh fault output other,
      (StagePlan.pipeline [.sequences ["steps"] 7 none (some ["picked"]),
        .operation (.maskByPresence ["picked"]), .operation (.rename ["picked"] ["row"])]).build
          {} = .ok fresh ∧
      fresh.scope? = some ⟨["steps", "picked", "picked"], ["picked", "picked", "picked", "row"]⟩ ∧
      (fresh.apply (Record.empty.withSequence "steps" 7 (.ones [0, 3] 2))).outcome =
        .error fault ∧
      ((fresh.after [Record.empty.withSequence "steps" 7 (.ones [0, 3] 2)]).apply
        ((Record.empty.withSequence "steps" 7 (.ones [0, 3] 6)).set "spare" .absent)).outcome =
          .ok output ∧
      output.find? "spare" = some .absent ∧
      ((fresh.after [Record.empty.withSequence "steps" 7 (.ones [0, 3] 2)]).apply
        (Record.empty.withSequence "steps" 7 (.ones [0, 3] 6))).outcome = .ok other ∧
      Record.AgreeOn ["steps", "picked", "picked", "picked", "picked", "picked", "row"]
        output other := by
  have built : (StagePlan.pipeline [.sequences ["steps"] 7 none (some ["picked"]),
      .operation (.maskByPresence ["picked"]), .operation (.rename ["picked"] ["row"])]).build
        {} = .ok (.pipeline [
          .sequences { keys := ["steps"], sequenceId := 7, stride := none, targets := ["picked"] },
          .operation (.maskByPresence ["picked"]), .operation (.rename ["picked"] ["row"])]) := rfl
  obtain ⟨frame, alike⟩ := confined_to_scope built
    (blank_after _ [Record.empty.withSequence "steps" 7 (.ones [0, 3] 2)]) rfl
  have agree : Record.AgreeOn ["steps", "picked", "picked"]
      ((Record.empty.withSequence "steps" 7 (.ones [0, 3] 6)).set "spare" .absent)
      (Record.empty.withSequence "steps" 7 (.ones [0, 3] 6)) := by
    intro name member
    have different : "spare" ≠ name := by
      intro same
      subst same
      revert member
      decide
    rw [Record.find?_set, if_neg different]
  have same := alike _ _ agree
  rcases same.outcome with ⟨fault, stopped, _again⟩ | ⟨output, other, passed, passedToo, met⟩
  · cases stopped
  · exact ⟨_, _, output, other, built, rfl, rfl, passed,
      (frame _ output passed "spare" (by decide)).trans rfl, passedToo, met⟩

end Stage

end Featurize
