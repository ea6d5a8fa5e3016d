import Featurize.Proofs.Pipelines.Validation
import Featurize.Proofs.Stages.ExactOperations
import Featurize.Proofs.Stages.Grouping
import Featurize.Proofs.Stages.Locality

/-!
Exactness along pipelines. Besides the operations, only the cutting of normalized sequences
into slates asks for shapes of its own. What a pipeline asks for is what its stages ask about
the records that reach them, and as long as these shapes fit a word, all tensors that come out
of it are exact when those that went in were. This holds behind any history of records, since
a stage remembers nothing but strides and collaborators that keep tensors exact.
-/

namespace Featurize

/-! ### Stages with a memory -/

theorem FixedLengthSequences.exact_selectAll {sequenceId : Int64}
    {entries : List (String × String)} {stride : Option Nat} {record output : Record}
    (exact : record.Exact)
    (passed : (selectAll sequenceId entries stride record).outcome = .ok output) :
    output.Exact := by
  induction entries generalizing stride record with
  | nil =>
      cases passed
      exact exact
  | cons entry entries ih =>
      obtain ⟨key, target⟩ := entry
      unfold selectAll at passed
      split at passed
      · cases passed
      · rename_i feature found
        split at passed
        · cases passed
        · split at passed
          · cases passed
          · rename_i payload selected
            refine ih (exact.set target ?_) passed
            obtain ⟨sequences, held, listed⟩ := find_eq_ok_iff.mp found
            exact payload_of_select selected ▸ exact key _ held sequenceId feature listed

def Normalizer.KeepsExact (normalizer : Normalizer) : Prop :=
  ∀ value presence scaled, value.Exact → presence.Exact →
    normalizer.normalize value presence = .ok scaled → scaled.Exact

theorem DenseNormalization.exact_normalizeField {normalizer : Normalizer}
    (keeps : normalizer.KeepsExact) {key : String} {field changed : Field} (held : field.Exact)
    (made : normalizeField normalizer key field = .ok changed) : changed.Exact := by
  obtain ⟨pair, scaled, rfl, _aligned, normalized, rfl⟩ := normalizeField_eq_ok_iff.mp made
  refine keeps _ _ _ ?_ ?_ normalized
  · exact Tensor.exact_of_same_shape held.value (pair.value.shape_tabulate_shape _)
  · exact Tensor.exact_of_same_shape held.presence (pair.presence.shape_tabulate_shape _)

theorem DenseNormalization.exact_apply {stage : DenseNormalization} {record output : Record}
    (gives : stage.normalizer.Gives Normalizer.KeepsExact) (exact : record.Exact)
    (passed : (stage.apply record).outcome = .ok output) : output.Exact := by
  rw [outcome_apply] at passed
  obtain ⟨normalizer, supplied, replaced⟩ := Outcome.bind_eq_ok_iff.mp passed
  exact Record.exact_replaceEach_of_keeps exact replaced (fun _key _field _changed made held =>
    exact_normalizeField (gives.product_supply supplied) held made)

def SequenceNormalization.asked (stage : SequenceNormalization) (record : Record) : List Shape :=
  match (stage.sequences.apply record).outcome with
  | .error _ => []
  | .ok pairs =>
      match (stage.normalization.apply pairs).outcome with
      | .error _ => []
      | .ok rows =>
          rows.askedSlates stage.sequences.targets
            ((stage.sequences.apply record).state.stride.getD 0)

theorem SequenceNormalization.exact_apply {stage : SequenceNormalization}
    {record output : Record} (gives : stage.normalization.normalizer.Gives Normalizer.KeepsExact)
    (exact : record.Exact) (fits : ∀ shape ∈ stage.asked record, shape.FitsWord)
    (passed : (stage.apply record).outcome = .ok output) : output.Exact := by
  rw [outcome_apply] at passed
  obtain ⟨pairs, selected, passed⟩ := Outcome.bind_eq_ok_iff.mp passed
  obtain ⟨rows, normalized, cut⟩ := Outcome.bind_eq_ok_iff.mp passed
  unfold asked at fits
  simp only [selected, normalized] at fits
  exact Record.exact_slateView (DenseNormalization.exact_apply gives
    (FixedLengthSequences.exact_selectAll exact selected) normalized) fits cut

theorem IdListMapping.exact_encodeField {encoder : SparseEncoder} {key : String}
    {field encoded : Field} {form : SparseForm}
    (made : encodeField encoder key field form = .ok encoded) : encoded.Exact := by
  cases form with
  | ids =>
      unfold encodeField at made
      simp only [Outcome.bind_eq_ok_iff, Outcome.pure_eq_ok_iff] at made
      obtain ⟨_features, _read, _sent, _encoded, rfl⟩ := made
      trivial
  | scoredIds =>
      unfold encodeField at made
      simp only [Outcome.bind_eq_ok_iff, Outcome.pure_eq_ok_iff] at made
      obtain ⟨_features, _read, _sent, _encoded, rfl⟩ := made
      trivial

theorem IdListMapping.exact_encodeAll {stage : IdListMapping}
    {entries : List (String × SparseForm)} {encoder : Deferred SparseEncoder}
    {record output : Record} (exact : record.Exact)
    (passed : (stage.encodeAll entries encoder record).outcome = .ok output) : output.Exact := by
  induction entries generalizing encoder record with
  | nil =>
      cases passed
      exact exact
  | cons entry entries ih =>
      obtain ⟨key, form⟩ := entry
      unfold encodeAll at passed
      split at passed
      · exact ih (exact.set key (show Field.absent.Exact from trivial)) passed
      · simp only at passed
        split at passed
        · cases passed
        · rename_i encoded made
          obtain ⟨_product, _supplied, encodes⟩ := Outcome.bind_eq_ok_iff.mp made
          exact ih (exact.set key (exact_encodeField encodes)) passed

/-! ### Stages in stages -/

namespace Stage

mutual

/-- The shapes for which a stage makes elements on a record. In a pipeline every stage is asked
about the record that reaches it. -/
def asked (record : Record) : Stage → List Shape
  | .operation plain => plain.asked record
  | .sequenceNormalization stage => stage.asked record
  | .pipeline stages => askedAll record stages
  | _ => []

def askedAll (record : Record) : List Stage → List Shape
  | [] => []
  | stage :: stages =>
      asked record stage ++
        match (stage.apply record).outcome with
        | .ok next => askedAll next stages
        | .error _ => []

end

mutual

/-- What the stage was given to compute with gives exact tensors for exact ones. -/
def KeepsExact : Stage → Prop
  | .operation plain => plain.KeepsExact
  | .normalization stage => stage.normalizer.Gives Normalizer.KeepsExact
  | .sequenceNormalization stage =>
      stage.normalization.normalizer.Gives Normalizer.KeepsExact
  | .pipeline stages => KeepsExactAll stages
  | _ => True

def KeepsExactAll : List Stage → Prop
  | [] => True
  | stage :: stages => KeepsExact stage ∧ KeepsExactAll stages

end

variable {stage : Stage} {stages : List Stage} {record output : Record}

theorem keepsExactAll_iff : KeepsExactAll stages ↔ ∀ stage ∈ stages, stage.KeepsExact := by
  induction stages with
  | nil => simp only [KeepsExactAll, List.not_mem_nil, false_implies, implies_true]
  | cons stage stages ih => rw [KeepsExactAll, ih, List.forall_mem_cons]

private theorem exact_relay
    (each : ∀ stage ∈ stages, ∀ record output, record.Exact →
      (∀ shape ∈ stage.asked record, shape.FitsWord) →
      (stage.apply record).outcome = .ok output → output.Exact)
    (exact : record.Exact) (fits : ∀ shape ∈ askedAll record stages, shape.FitsWord)
    (passed : (relay record stages).outcome = .ok output) : output.Exact := by
  induction stages generalizing record with
  | nil =>
      cases passed
      exact exact
  | cons stage stages ih =>
      obtain ⟨first, rest⟩ := List.forall_mem_cons.mp each
      cases outcome : (stage.apply record).outcome with
      | error fault =>
          rw [relay_cons_of_error outcome] at passed
          cases passed
      | ok next =>
          rw [relay_cons_of_ok outcome] at passed
          rw [askedAll, outcome] at fits
          obtain ⟨here, later⟩ := List.forall_mem_append.mp fits
          exact ih rest (first record next exact here outcome) later passed

/-- An exact record stays exact in a stage, however deep the pipelines in it, as long as no shape
is asked for whose sizes multiply to more than a word holds. -/
theorem exact_apply (keeps : stage.KeepsExact) (exact : record.Exact)
    (fits : ∀ shape ∈ stage.asked record, shape.FitsWord)
    (passed : (stage.apply record).outcome = .ok output) : output.Exact := by
  induction stage generalizing record output with
  | operation plain => exact Operation.exact_run keeps exact fits passed
  | sequences stage => exact FixedLengthSequences.exact_selectAll exact passed
  | normalization stage => exact DenseNormalization.exact_apply keeps exact passed
  | sequenceNormalization stage =>
      exact SequenceNormalization.exact_apply keeps exact fits passed
  | encoding stage => exact IdListMapping.exact_encodeAll exact passed
  | pipeline stages each =>
      have inRow := relay_of_applyAll_ok passed
      have keepsEach := keepsExactAll_iff.mp keeps
      exact exact_relay (fun stage member _record _output => each stage member
        (keepsEach stage member)) exact fits inRow

/-! ### The states of a stage -/

private theorem keepsExactAll_relay
    (each : ∀ stage ∈ stages, ∀ record, (stage.apply record).state.KeepsExact)
    (keeps : KeepsExactAll stages) (record : Record) :
    KeepsExactAll (relay record stages).state := by
  induction stages generalizing record with
  | nil => trivial
  | cons stage stages ih =>
      obtain ⟨first, rest⟩ := List.forall_mem_cons.mp each
      cases outcome : (stage.apply record).outcome with
      | error fault =>
          rw [relay_cons_of_error outcome]
          exact ⟨first record, keeps.2⟩
      | ok next =>
          rw [relay_cons_of_ok outcome]
          exact ⟨first record, ih rest keeps.2 next⟩

theorem keepsExact_apply (keeps : stage.KeepsExact) (record : Record) :
    (stage.apply record).state.KeepsExact := by
  induction stage generalizing record with
  | operation plain => exact keeps
  | sequences stage => trivial
  | normalization stage =>
      change (stage.apply record).state.normalizer.Gives _
      rw [DenseNormalization.state_apply]
      exact keeps.deferred_supply
  | sequenceNormalization stage =>
      change (stage.apply record).state.normalization.normalizer.Gives _
      rcases stage.normalization_apply record with same | ⟨pairs, reached⟩
      · rw [same]
        exact keeps
      · rw [reached, DenseNormalization.state_apply]
        exact keeps.deferred_supply
  | encoding stage => trivial
  | pipeline stages each =>
      change KeepsExactAll (applyAll 0 record stages).state
      rw [(applyAll_eq_relay 0 record stages).1]
      have keepsEach := keepsExactAll_iff.mp keeps
      exact keepsExactAll_relay (fun stage member record => each stage member
        (keepsEach stage member) record) keeps record

theorem keepsExact_after (keeps : stage.KeepsExact) (history : List Record) :
    (stage.after history).KeepsExact :=
  Run.stateAfter_keeps KeepsExact (fun _stage record kept => keepsExact_apply kept record) keeps
    history

end Stage

/-! ### Pipelines of a configuration -/

def NormalizerFactory.KeepsExact (factory : NormalizerFactory) : Prop :=
  ∀ call data device normalizer, factory call data device = .ok normalizer →
    normalizer.KeepsExact

theorem NormalizerFactory.keepsExact_standard : NormalizerFactory.standard.KeepsExact := by
  intro call data device normalizer made value presence scaled valueExact _presenceExact normalized
  have accepted := Outcome.mapError_eq_ok_iff.mp made
  unfold NormalizationData.normalizer at accepted
  split at accepted
  · cases accepted
    obtain ⟨_aligned, _matrix, kept⟩ :=
      NormalizationData.shape_of_normalize (Outcome.mapError_eq_ok_iff.mp normalized)
    exact Tensor.exact_of_same_shape valueExact kept
  · cases accepted

def Surroundings.KeepExact (surroundings : Surroundings) : Prop :=
  ∀ factory, surroundings.normalizerFactory = some factory → factory.KeepsExact

theorem Surroundings.keepExact_standard (normalization : NormalizationData)
    (features : FeatureConfig) (device : Device) :
    Surroundings.KeepExact { normalization, features, device } := by
  intro factory given
  cases given
  exact NormalizerFactory.keepsExact_standard

theorem DenseNormalization.gives_of_configure {keys : List String} {data : NormalizationData}
    {device : Device} {factory : Option NormalizerFactory} {stage : DenseNormalization}
    (keeps : ∀ make, factory = some make → make.KeepsExact)
    (configured : configure keys data device factory = .ok stage) :
    stage.normalizer.Gives Normalizer.KeepsExact := by
  obtain ⟨make, given, rfl⟩ := configure_eq_ok_iff.mp configured
  exact ⟨fun call normalizer made => keeps make given call data device normalizer made, nofun⟩

theorem Stage.keepsExact_of_build {surroundings : Surroundings} {plan : StagePlan}
    {type : StageType} {stage : Stage} (keeps : surroundings.KeepExact)
    (typed : plan.type? = some type) (built : plan.build surroundings = .ok stage) :
    stage.KeepsExact := by
  cases StagePlan.makes_of_build built with
  | @operation plain accepted =>
      cases plain with
      | mapTensors keys function name => cases typed
      | _ => trivial
  | @filter keep remove plain chosen =>
      cases keep <;> cases remove <;> cases chosen <;> trivial
  | sequences configured => trivial
  | normalization configured =>
      exact DenseNormalization.gives_of_configure keeps configured
  | sequenceNormalization configured =>
      obtain ⟨_sequences, normalization, _selected, scaled, rfl⟩ :=
        SequenceNormalization.configure_eq_ok_iff.mp configured
      exact DenseNormalization.gives_of_configure keeps scaled
  | encoding configured => trivial
  | mapTensors chosen => cases typed
  | pipeline built => cases typed
  | within built => cases typed

theorem Stage.keepsExact_of_buildPipeline {surroundings : Surroundings} {config : Json}
    {pipeline : Stage} (keeps : surroundings.KeepExact)
    (built : (buildPipeline surroundings config).outcome = .ok pipeline) :
    pipeline.KeepsExact := by
  cases checked : validatePipeline config with
  | cons first others =>
      unfold buildPipeline at built
      rw [checked] at built
      cases built
  | nil =>
      rw [outcome_buildPipeline_of_accepted checked] at built
      obtain ⟨stages, listing, rfl⟩ := Outcome.map_eq_ok_iff.mp built
      obtain ⟨items, listed, described⟩ := validatePipeline_eq_nil_iff.mp checked
      rw [describedStages_of_listed listed] at listing
      refine keepsExactAll_iff.mpr (fun stage member => ?_)
      obtain ⟨item, itemListed, made⟩ :=
        Collection.exists_item_of_mapM (Outcome.mapError_eq_ok_iff.mp listing) member
      obtain ⟨type, itemDescribed⟩ := described item itemListed
      obtain ⟨plan, _read, _planned, sized, whole⟩ := itemDescribed.exists_plan surroundings
      rw [whole] at made
      exact keepsExact_of_build keeps sized.typed (Outcome.mapError_eq_ok_iff.mp made)

/-- Exactness in 64-bit arithmetic. A tensor, wherever it comes from, has one element for each
position of its shape if and only if its sizes multiply to a machine word. All tensors of a
record are exact when the sizes of those in the document do so, and all tensors that come out
of a pipeline behind any history of records are when no shape that its stages ask for on the
way has sizes that multiply to more than a word holds. -/
theorem tensors_exact_of_fitting {surroundings : Surroundings} {document config : Json}
    {record : Record} {pipeline : Stage} (keeps : surroundings.KeepExact)
    (written : document.TensorsFit) (read : Record.ofJson document = .ok record)
    (built : (buildPipeline surroundings config).outcome = .ok pipeline) (history : List Record)
    (asked : ∀ shape ∈ (pipeline.after history).asked record, shape.FitsWord) :
    (∀ tensor : Tensor, tensor.Exact ↔ tensor.shape.FitsWord) ∧ record.Exact ∧
      ∀ output, ((pipeline.after history).apply record).outcome = .ok output → output.Exact := by
  have exact := Record.exact_of_ofJson written read
  have kept := Stage.keepsExact_after (Stage.keepsExact_of_buildPipeline keeps built) history
  exact ⟨fun _tensor => Tensor.exact_iff_fitsWord, exact,
    fun _output passed => Stage.exact_apply kept exact asked passed⟩

/-- A row of the document and an identity matrix, joined. -/
theorem tensors_exact_of_fitting_joined :
    ∃ document config record pipeline output,
      document = Json.obj [("a", .obj [("data", .arr [.int 5, .int 6]),
        ("shape", .arr [.int 1, .int 2])])] ∧
      config = Json.obj [("transforms", .arr [
        .obj [("key", .str "e"), ("size", .int 2), ("type", .str "GetEye")],
        .obj [("dim", .int 0), ("input_keys", .arr [.str "a", .str "e"]),
          ("output_key", .str "joined"), ("type", .str "Cat")]])] ∧
      Record.ofJson document = .ok record ∧
      (buildPipeline {} config).outcome = .ok pipeline ∧
      (pipeline.apply record).outcome = .ok output ∧ record.Exact ∧ output.Exact := by
  have written : (Json.obj [("a", .obj [("data", .arr [.int 5, .int 6]),
      ("shape", .arr [.int 1, .int 2])])]).TensorsFit := by
    refine Json.tensorsFit_of_closed (List.mem_cons_self (l := [
      .obj [("data", .arr [.int 5, .int 6]), ("shape", .arr [.int 1, .int 2])],
      .arr [.int 5, .int 6], .arr [.int 1, .int 2], .int 5, .int 6, .int 1, .int 2])) ?_ ?_
    · simp [Json.parts, or_imp, forall_and]
    · intro value member tensor read
      simp only [List.mem_cons, List.not_mem_nil, or_false] at member
      rcases member with rfl | rfl | rfl | rfl | rfl | rfl | rfl | rfl
      case inr.inl =>
        cases read
        decide
      all_goals cases read
  refine ⟨_, _, _, _, _, rfl, rfl, rfl, rfl, rfl, ?_⟩
  have every := @tensors_exact_of_fitting {} _ (.obj [("transforms", .arr [
    .obj [("key", .str "e"), ("size", .int 2), ("type", .str "GetEye")],
    .obj [("dim", .int 0), ("input_keys", .arr [.str "a", .str "e"]),
      ("output_key", .str "joined"), ("type", .str "Cat")]])]) _ _
    (Surroundings.keepExact_standard {} {} {}) written rfl rfl [] (by decide)
  exact ⟨every.2.1, every.2.2 _ rfl⟩

end Featurize
