import Featurize.Pipeline.Build
import Featurize.Proofs.Collection
import Featurize.Proofs.Stages.Construction

/-!
What validation promises to the builder. A configuration without complaints lists stages
of the known types whose options all have the kinds of the schema, and an option of that
kind can be read in every way in which the builder reads it. So building gets as far as the
constructors, which never find a size of zero, and makes stages of the listed types.
-/

namespace Featurize

/-! ### Accepted options -/

/-- The option has the form that its kind asks for, or may be missing and is. -/
structure StageOption.Accepts (option : StageOption) (item : Json) : Prop where
  given : ∀ value, item.member? option.name = some value → option.kind.accepts value = true
  missing : item.member? option.name = none → option.mandatory = false

/-- A stage of a configuration that is of the type, with accepted options. -/
structure Json.Describes (item : Json) (type : StageType) : Prop where
  named : item.member? "type" = some (.str type.name)
  accepted : ∀ option ∈ type.options, option.Accepts item

namespace StageType

theorem name_of_ofName? {name : String} {type : StageType} (found : ofName? name = some type) :
    type.name = name := by
  have matched : (type.name == name) = true :=
    List.find?_some (p := fun type : StageType => type.name == name) found
  exact eq_of_beq matched

theorem name_ne_lambda (type : StageType) : type.name ≠ "Lambda" := by
  cases type <;> decide

theorem name_injective {type other : StageType} (same : type.name = other.name) :
    type = other := by
  have found := ofName?_name type
  rw [same, ofName?_name] at found
  exact (Option.some.inj found).symm

end StageType

namespace Complaint

variable {number : Nat} {type : StageType} {item : Json} {option : StageOption}

theorem ofOption?_eq_none_iff : ofOption? number type item option = none ↔ option.Accepts item := by
  unfold ofOption?
  cases found : item.member? option.name with
  | none =>
      constructor
      · intro silent
        refine ⟨fun value given => ?_, fun _missing => ?_⟩
        · rw [found] at given
          cases given
        · cases required : option.mandatory with
          | false => rfl
          | true =>
              simp only [required, ↓reduceIte, reduceCtorEq] at silent
      · intro accepts
        simp only [accepts.missing found, Bool.false_eq_true, ↓reduceIte]
  | some value =>
      constructor
      · intro silent
        refine ⟨fun other given => ?_, fun missing => ?_⟩
        · rw [found, Option.some.injEq] at given
          subst given
          cases fits : option.kind.accepts value with
          | true => rfl
          | false => simp only [fits, Bool.false_eq_true, ↓reduceIte, reduceCtorEq] at silent
        · rw [found] at missing
          cases missing
      · intro accepts
        simp only [accepts.given value found, ↓reduceIte]

theorem ofStage_eq_nil_iff : ofStage number item = [] ↔ ∃ type, item.Describes type := by
  constructor
  · intro silent
    unfold ofStage at silent
    split at silent
    case h_1 name named =>
      split at silent
      case isTrue supplied => cases silent
      case isFalse known =>
        cases found : StageType.ofName? name with
        | none =>
            rw [found] at silent
            cases silent
        | some type =>
            rw [found] at silent
            refine ⟨type, ?_, fun option member => ?_⟩
            · rw [StageType.name_of_ofName? found, named]
            · exact ofOption?_eq_none_iff.mp (List.filterMap_eq_nil_iff.mp silent option member)
    case h_2 => cases silent
  · intro ⟨type, described⟩
    unfold ofStage
    rw [described.named]
    simp only [if_neg type.name_ne_lambda, StageType.ofName?_name]
    exact List.filterMap_eq_nil_iff.mpr (fun option member =>
      ofOption?_eq_none_iff.mpr (described.accepted option member))

theorem ofStages_eq_nil_iff {items : List Json} :
    ofStages number items = [] ↔ ∀ item ∈ items, ∃ type, item.Describes type := by
  induction items generalizing number with
  | nil => simp only [ofStages, List.not_mem_nil, false_implies, implies_true]
  | cons item items ih =>
      rw [ofStages, List.append_eq_nil_iff, ofStage_eq_nil_iff, ih, List.forall_mem_cons]

end Complaint

/-- Without complaints are exactly the lists of stages of known types with accepted options. -/
theorem validatePipeline_eq_nil_iff {config : Json} :
    validatePipeline config = [] ↔
      ∃ items, config.member? "transforms" = some (.arr items) ∧
        ∀ item ∈ items, ∃ type, item.Describes type := by
  unfold validatePipeline
  split
  case h_1 items listed =>
    rw [Complaint.ofStages_eq_nil_iff]
    constructor
    · intro described
      exact ⟨items, listed, described⟩
    · intro ⟨others, same, described⟩
      cases listed.symm.trans same
      exact described
  case h_2 unlisted =>
    constructor
    · intro silent
      cases silent
    · intro ⟨items, listed, _described⟩
      exact (unlisted items listed).elim

/-! ### Reading accepted options -/

def OptionKind.Reads {Value : Type} (kind : OptionKind) (read : Json → Except ReadFault Value)
    (Wanted : Value → Prop) : Prop :=
  ∀ value, kind.accepts value = true → ∃ result, read value = .ok result ∧ Wanted result

namespace OptionKind

theorem reads_text : text.Reads Json.asString (fun _text => True) := by
  intro value accepted
  cases value with
  | str text => exact ⟨text, rfl, trivial⟩
  | _ => cases accepted

theorem reads_truth : truth.Reads Json.asBool (fun _truth => True) := by
  intro value accepted
  cases value with
  | bool truth => exact ⟨truth, rfl, trivial⟩
  | _ => cases accepted

theorem reads_number : number.Reads Json.asDouble (fun _number => True) := by
  intro value accepted
  cases value with
  | int number => exact ⟨_, rfl, trivial⟩
  | double number => exact ⟨number, rfl, trivial⟩
  | _ => cases accepted

theorem reads_axis : integer.Reads Json.asAxis (fun _axis => True) := by
  intro value accepted
  cases value with
  | int integer => exact ⟨_, rfl, trivial⟩
  | _ => cases accepted

theorem reads_id : integer.Reads Json.asId (fun _id => True) := by
  intro value accepted
  cases value with
  | int integer => exact ⟨_, rfl, trivial⟩
  | _ => cases accepted

theorem reads_size : positive.Reads Json.asSize (fun size => size ≠ 0) := by
  intro value accepted
  cases value with
  | int integer =>
      refine ⟨Word.ofInt integer, rfl, fun zero => ?_⟩
      have above : 0 < Word.signed integer := of_decide_eq_true accepted
      have divisible : integer % Word.modulus = 0 := by
        have bounded := Int.emod_nonneg integer (b := Word.modulus) (by decide)
        exact Int.le_antisymm (Int.toNat_eq_zero.mp zero) bounded
      rw [Word.signed, Int.bmod_eq_zero_of_dvd (Int.dvd_of_emod_eq_zero divisible)] at above
      exact absurd above (Int.lt_irrefl 0)
  | _ => cases accepted

theorem reads_list {Value : Type} {test : Json → Bool} {read : Json → Except ReadFault Value}
    (each : ∀ item, test item = true → ∃ result, read item = .ok result) {value : Json}
    (accepted : allItems test value = true) : ∃ results, Json.asList read value = .ok results := by
  cases value with
  | arr items =>
      have readable : ∀ item ∈ items, ∃ result, read item = .ok result :=
        fun item member => each item (List.all_eq_true.mp accepted item member)
      obtain ⟨results, made⟩ := Collection.exists_forall₂ readable
      exact ⟨results, Collection.mapM_eq_ok_iff.mpr made⟩
  | _ => cases accepted

theorem reads_texts : texts.Reads Json.asStrings (fun _texts => True) := by
  intro value accepted
  have each : ∀ item, Json.isString item = true → ∃ result, Json.asString item = .ok result := by
    intro item string
    obtain ⟨text, read, _wanted⟩ := reads_text item string
    exact ⟨text, read⟩
  obtain ⟨texts, read⟩ := reads_list each accepted
  exact ⟨texts, read, trivial⟩

theorem reads_sizes : indices.Reads Json.asSizes (fun _sizes => True) := by
  intro value accepted
  have each : ∀ item, (signedInteger? item).any (fun index => 0 ≤ index) = true →
      ∃ result, Json.asSize item = .ok result := by
    intro item index
    cases item with
    | int integer => exact ⟨_, rfl⟩
    | _ => cases index
  obtain ⟨sizes, read⟩ := reads_list each accepted
  exact ⟨sizes, read, trivial⟩

end OptionKind

section Reading

variable {Value : Type} {item : Json} {name : String} {kind : OptionKind} {mandatory : Bool}
  {read : Json → Except ReadFault Value} {Wanted : Value → Prop}

theorem exists_require (reads : kind.Reads read Wanted)
    (accepts : (StageOption.must name kind).Accepts item) :
    ∃ result, (item.require name >>= read) = .ok result ∧ Wanted result := by
  cases found : item.member? name with
  | none => cases accepts.missing found
  | some value =>
      obtain ⟨result, made, wanted⟩ := reads value (accepts.given value found)
      refine ⟨result, ?_, wanted⟩
      simp only [Json.require, found]
      exact made

theorem exists_optional (reads : kind.Reads read Wanted)
    (accepts : (StageOption.mk name kind mandatory).Accepts item) :
    ∃ result, item.optional name read = .ok result ∧ ∀ value ∈ result.toList, Wanted value := by
  unfold Json.optional
  cases found : item.member? name with
  | none => exact ⟨none, rfl, List.forall_mem_nil _⟩
  | some value =>
      obtain ⟨result, made, wanted⟩ := reads value (accepts.given value found)
      simp only [made]
      exact ⟨some result, rfl, List.forall_mem_singleton.mpr wanted⟩

theorem exists_withDefault (default : Value) (wanted : Wanted default)
    (reads : kind.Reads read Wanted) (object : item.isObject = true)
    (accepts : (StageOption.mk name kind mandatory).Accepts item) :
    ∃ result, item.withDefault name default read = .ok result ∧ Wanted result := by
  obtain ⟨result, made, good⟩ := exists_optional reads accepts
  simp only [Json.withDefault, if_pos object, made]
  cases result with
  | none => exact ⟨default, rfl, wanted⟩
  | some value => exact ⟨value, rfl, good value (List.mem_singleton_self value)⟩

theorem exists_namesAt (accepts : (StageOption.mk name .texts mandatory).Accepts item) :
    ∃ names, StagePlan.namesAt item name = .ok names := by
  obtain ⟨names, made, _wanted⟩ := exists_optional OptionKind.reads_texts accepts
  unfold StagePlan.namesAt
  simp only [made]
  exact ⟨_, rfl⟩

theorem exists_textAt (accepts : (StageOption.must name .text).Accepts item) :
    ∃ text, StagePlan.textAt item name = .ok text := by
  obtain ⟨text, made, _wanted⟩ := exists_require OptionKind.reads_text accepts
  exact ⟨text, made⟩

theorem exists_axisAt (accepts : (StageOption.must name .integer).Accepts item) :
    ∃ axis, StagePlan.axisAt item name = .ok axis := by
  obtain ⟨axis, made, _wanted⟩ := exists_require OptionKind.reads_axis accepts
  exact ⟨axis, made⟩

theorem exists_idAt (accepts : (StageOption.must name .integer).Accepts item) :
    ∃ id, StagePlan.idAt item name = .ok id := by
  obtain ⟨id, made, _wanted⟩ := exists_require OptionKind.reads_id accepts
  exact ⟨id, made⟩

theorem exists_sizeAt (accepts : (StageOption.must name .positive).Accepts item) :
    ∃ size, StagePlan.sizeAt item name = .ok size ∧ size ≠ 0 :=
  exists_require OptionKind.reads_size accepts

end Reading

/-! ### Plans of accepted options -/

def Operation.type? : Operation → Option StageType
  | .pairPresence => some .pairPresence
  | .maskByPresence _ => some .maskByPresence
  | .selectColumns _ _ _ => some .selectColumns
  | .columnVector _ => some .columnVector
  | .oneHotActions _ _ => some .oneHotActions
  | .stackRows _ _ => some .stackRows
  | .slateView _ _ => some .slateView
  | .appendConstant _ _ _ => some .appendConstant
  | .unsqueezeRepeat _ _ _ => some .unsqueezeRepeat
  | .outerProduct _ _ _ _ => some .outerProduct
  | .identityMatrix _ _ => some .identityMatrix
  | .concatenate _ _ _ _ => some .concatenate
  | .rename _ _ => some .rename
  | .keep _ => some .filter
  | .remove _ => some .filter
  | .mapTensors _ _ _ => none

def Stage.type? : Stage → Option StageType
  | .operation plain => plain.type?
  | .sequences _ => some .sequences
  | .normalization _ => some .normalization
  | .sequenceNormalization _ => some .sequenceNormalization
  | .encoding _ => some .encoding
  | .pipeline _ => none

def Operation.sizes : Operation → List Nat
  | .oneHotActions _ actions => [actions]
  | .stackRows _ size => [size]
  | .unsqueezeRepeat _ _ count => [count]
  | .identityMatrix _ size => [size]
  | _ => []

def ConfigFault.refusesSize : ConfigFault → Bool
  | .noActions => true
  | .emptyStackRow => true
  | .noRepeats => true
  | .emptyIdentity => true
  | .emptySequence => true
  | _ => false

namespace StagePlan

def type? : StagePlan → Option StageType
  | .operation plain => plain.type?
  | .filter _ _ => some .filter
  | .mapTensors _ _ _ => none
  | .sequences _ _ _ _ => some .sequences
  | .normalization _ => some .normalization
  | .sequenceNormalization _ _ _ => some .sequenceNormalization
  | .encoding _ _ => some .encoding
  | .pipeline _ => none
  | .within _ _ => none

def sizes : StagePlan → List Nat
  | .operation plain => plain.sizes
  | .sequences _ _ stride _ => stride.toList
  | .sequenceNormalization _ _ stride => stride.toList
  | _ => []

structure Sized (plan : StagePlan) (type : StageType) : Prop where
  typed : plan.type? = some type
  positive : ∀ size ∈ plan.sizes, size ≠ 0

end StagePlan

theorem Json.Describes.isObject {item : Json} {type : StageType} (described : item.Describes type) :
    item.isObject = true := by
  cases item with
  | obj members => rfl
  | _ => cases described.named

theorem Json.Describes.exists_ofOptions {item : Json} {type : StageType}
    (described : item.Describes type) :
    ∃ plan, StagePlan.ofOptions item type = .ok plan ∧ plan.Sized type := by
  have object := described.isObject
  have accepted := described.accepted
  cases type <;> simp only [StageType.options, List.forall_mem_cons] at accepted
  case pairPresence => exact ⟨_, rfl, rfl, List.forall_mem_nil _⟩
  case normalization =>
    obtain ⟨keys, readKeys⟩ := exists_namesAt accepted.1
    refine ⟨.normalization keys, ?_, rfl, List.forall_mem_nil _⟩
    simp only [StagePlan.ofOptions, readKeys]
    rfl
  case encoding =>
    obtain ⟨idLists, idScoreLists, _rest⟩ := accepted
    obtain ⟨idListKeys, readIdLists⟩ := exists_namesAt idLists
    obtain ⟨idScoreListKeys, readIdScoreLists⟩ := exists_namesAt idScoreLists
    refine ⟨.encoding idListKeys idScoreListKeys, ?_, rfl, List.forall_mem_nil _⟩
    simp only [StagePlan.ofOptions, readIdLists, readIdScoreLists]
    rfl
  case oneHotActions =>
    obtain ⟨names, count, _rest⟩ := accepted
    obtain ⟨keys, readKeys⟩ := exists_namesAt names
    obtain ⟨actions, readActions, positive⟩ := exists_sizeAt count
    refine ⟨.operation (.oneHotActions keys actions), ?_, rfl,
      List.forall_mem_singleton.mpr positive⟩
    simp only [StagePlan.ofOptions, readKeys, readActions]
    rfl
  case columnVector =>
    obtain ⟨keys, readKeys⟩ := exists_namesAt accepted.1
    refine ⟨.operation (.columnVector keys), ?_, rfl, List.forall_mem_nil _⟩
    simp only [StagePlan.ofOptions, readKeys]
    rfl
  case maskByPresence =>
    obtain ⟨keys, readKeys⟩ := exists_namesAt accepted.1
    refine ⟨.operation (.maskByPresence keys), ?_, rfl, List.forall_mem_nil _⟩
    simp only [StagePlan.ofOptions, readKeys]
    rfl
  case stackRows =>
    obtain ⟨names, count, _rest⟩ := accepted
    obtain ⟨keys, readKeys⟩ := exists_namesAt names
    obtain ⟨size, readSize, positive⟩ := exists_sizeAt count
    refine ⟨.operation (.stackRows keys size), ?_, rfl, List.forall_mem_singleton.mpr positive⟩
    simp only [StagePlan.ofOptions, readKeys, readSize]
    rfl
  case sequences =>
    obtain ⟨names, sequence, length, derived, _rest⟩ := accepted
    obtain ⟨keys, readKeys⟩ := exists_namesAt names
    obtain ⟨sequenceId, readId⟩ := exists_idAt sequence
    obtain ⟨stride, readStride, positive⟩ := exists_optional OptionKind.reads_size length
    obtain ⟨targets, readTargets, _wanted⟩ := exists_optional OptionKind.reads_texts derived
    refine ⟨.sequences keys sequenceId stride targets, ?_, rfl, positive⟩
    simp only [StagePlan.ofOptions, readKeys, readId, readStride, readTargets]
    rfl
  case slateView =>
    obtain ⟨names, count, _rest⟩ := accepted
    obtain ⟨keys, readKeys⟩ := exists_namesAt names
    obtain ⟨size, readSize, _positive⟩ := exists_sizeAt count
    refine ⟨.operation (.slateView keys size), ?_, rfl, List.forall_mem_nil _⟩
    simp only [StagePlan.ofOptions, readKeys, readSize]
    rfl
  case sequenceNormalization =>
    obtain ⟨names, sequence, length, _rest⟩ := accepted
    obtain ⟨keys, readKeys⟩ := exists_namesAt names
    obtain ⟨sequenceId, readId⟩ := exists_idAt sequence
    obtain ⟨stride, readStride, positive⟩ := exists_optional OptionKind.reads_size length
    refine ⟨.sequenceNormalization keys sequenceId stride, ?_, rfl, positive⟩
    simp only [StagePlan.ofOptions, readKeys, readId, readStride]
    rfl
  case appendConstant =>
    obtain ⟨names, dimension, constant, _rest⟩ := accepted
    obtain ⟨keys, readKeys⟩ := exists_namesAt names
    obtain ⟨axis, readAxis, _wanted⟩ :=
      exists_withDefault (-1) trivial OptionKind.reads_axis object dimension
    obtain ⟨value, readValue, _wanted⟩ :=
      exists_withDefault 1.0 trivial OptionKind.reads_number object constant
    refine ⟨.operation (.appendConstant keys axis value), ?_, rfl, List.forall_mem_nil _⟩
    simp only [StagePlan.ofOptions, readKeys, readAxis, readValue]
    rfl
  case unsqueezeRepeat =>
    obtain ⟨names, dimension, repeats, _rest⟩ := accepted
    obtain ⟨keys, readKeys⟩ := exists_namesAt names
    obtain ⟨axis, readAxis⟩ := exists_axisAt dimension
    obtain ⟨count, readCount, positive⟩ :=
      exists_withDefault 1 Nat.one_ne_zero OptionKind.reads_size object repeats
    refine ⟨.operation (.unsqueezeRepeat keys axis count), ?_, rfl,
      List.forall_mem_singleton.mpr positive⟩
    simp only [StagePlan.ofOptions, readKeys, readAxis, readCount]
    rfl
  case outerProduct =>
    obtain ⟨first, second, written, dropping, _rest⟩ := accepted
    obtain ⟨left, readLeft⟩ := exists_textAt first
    obtain ⟨right, readRight⟩ := exists_textAt second
    obtain ⟨output, readOutput⟩ := exists_textAt written
    obtain ⟨dropInputs, readDrop, _wanted⟩ :=
      exists_withDefault false trivial OptionKind.reads_truth object dropping
    refine ⟨.operation (.outerProduct left right output dropInputs), ?_, rfl,
      List.forall_mem_nil _⟩
    simp only [StagePlan.ofOptions, readLeft, readRight, readOutput, readDrop]
    rfl
  case identityMatrix =>
    obtain ⟨name, count, _rest⟩ := accepted
    obtain ⟨key, readKey⟩ := exists_textAt name
    obtain ⟨size, readSize, positive⟩ := exists_sizeAt count
    refine ⟨.operation (.identityMatrix key size), ?_, rfl, List.forall_mem_singleton.mpr positive⟩
    simp only [StagePlan.ofOptions, readKey, readSize]
    rfl
  case concatenate =>
    obtain ⟨names, written, dimension, stretching, _rest⟩ := accepted
    obtain ⟨inputs, readInputs⟩ := exists_namesAt names
    obtain ⟨output, readOutput⟩ := exists_textAt written
    obtain ⟨axis, readAxis⟩ := exists_axisAt dimension
    obtain ⟨broadcast, readBroadcast, _wanted⟩ :=
      exists_withDefault true trivial OptionKind.reads_truth object stretching
    refine ⟨.operation (.concatenate inputs output axis broadcast), ?_, rfl,
      List.forall_mem_nil _⟩
    simp only [StagePlan.ofOptions, readInputs, readOutput, readAxis, readBroadcast]
    rfl
  case rename =>
    obtain ⟨before, after, _rest⟩ := accepted
    obtain ⟨old, readOld⟩ := exists_namesAt before
    obtain ⟨new, readNew⟩ := exists_namesAt after
    refine ⟨.operation (.rename old new), ?_, rfl, List.forall_mem_nil _⟩
    simp only [StagePlan.ofOptions, readOld, readNew]
    rfl
  case filter =>
    obtain ⟨kept, removed, _rest⟩ := accepted
    obtain ⟨keep, readKeep, _wanted⟩ := exists_optional OptionKind.reads_texts kept
    obtain ⟨remove, readRemove, _wanted⟩ := exists_optional OptionKind.reads_texts removed
    refine ⟨.filter keep remove, ?_, rfl, List.forall_mem_nil _⟩
    simp only [StagePlan.ofOptions, readKeep, readRemove]
    rfl
  case selectColumns =>
    obtain ⟨first, second, chosen, _rest⟩ := accepted
    obtain ⟨source, readSource⟩ := exists_textAt first
    obtain ⟨destination, readDestination⟩ := exists_textAt second
    obtain ⟨columns, readColumns, _wanted⟩ := exists_require OptionKind.reads_sizes chosen
    obtain ⟨value, found, read⟩ := Outcome.bind_eq_ok_iff.mp readColumns
    refine ⟨.operation (.selectColumns source destination columns), ?_, rfl,
      List.forall_mem_nil _⟩
    simp only [StagePlan.ofOptions, readSource, readDestination, found, bind, Except.bind, read]
    rfl

/-! ### Construction -/

namespace StagePlan

variable {surroundings : Surroundings} {plan : StagePlan} {type : StageType} {stage : Stage}
  {cause : ConfigFault}

theorem type?_of_build (typed : plan.type? = some type)
    (built : plan.build surroundings = .ok stage) : stage.type? = some type := by
  cases makes_of_build built with
  | operation accepted => exact typed
  | @filter keep remove plain chosen =>
      cases keep <;> cases remove <;> cases chosen <;> exact typed
  | sequences configured => exact typed
  | normalization configured => exact typed
  | sequenceNormalization configured => exact typed
  | encoding configured => exact typed
  | mapTensors chosen => cases typed
  | pipeline built => cases typed
  | within built => cases typed

end StagePlan

theorem Operation.refusesSize_of_check {plain : Operation} {cause : ConfigFault}
    (positive : ∀ size ∈ plain.sizes, size ≠ 0) (refused : plain.check = .error cause) :
    cause.refusesSize = false := by
  cases plain with
  | oneHotActions keys actions =>
      rw [check, if_neg (positive actions (List.mem_singleton_self _))] at refused
      cases refused
  | stackRows keys size =>
      rw [check, if_neg (positive size (List.mem_singleton_self _))] at refused
      cases refused
  | unsqueezeRepeat keys axis count =>
      rw [check, if_neg (positive count (List.mem_singleton_self _))] at refused
      cases refused
  | identityMatrix key size =>
      rw [check, if_neg (positive size (List.mem_singleton_self _))] at refused
      cases refused
  | outerProduct left right output dropInputs =>
      rw [check] at refused
      split at refused <;> cases refused
      rfl
  | concatenate inputs output axis broadcast =>
      rw [check] at refused
      split at refused <;> cases refused
      rfl
  | rename old new =>
      rw [check] at refused
      split at refused <;> cases refused
      rfl
  | _ => cases refused

theorem DenseNormalization.refusesSize_of_configure {keys : List String}
    {data : NormalizationData} {device : Device} {factory : Option NormalizerFactory}
    {cause : ConfigFault} (refused : configure keys data device factory = .error cause) :
    cause.refusesSize = false := by
  unfold configure at refused
  split at refused <;> cases refused
  rfl

theorem FixedLengthSequences.refusesSize_of_configure {keys : List String} {sequenceId : Int64}
    {stride : Option Nat} {targets : Option (List String)} {cause : ConfigFault}
    (positive : ∀ size ∈ stride.toList, size ≠ 0)
    (refused : configure keys sequenceId stride targets = .error cause) :
    cause.refusesSize = false := by
  have known : stride ≠ some 0 := by
    intro empty
    subst empty
    exact positive 0 (List.mem_singleton_self 0) rfl
  unfold configure at refused
  simp only [if_neg known] at refused
  split at refused <;> cases refused
  rfl

namespace StagePlan

variable {surroundings : Surroundings} {plan : StagePlan} {type : StageType} {cause : ConfigFault}

theorem refusesSize_of_build (sized : plan.Sized type)
    (refused : plan.build surroundings = .error cause) : cause.refusesSize = false := by
  obtain ⟨typed, positive⟩ := sized
  cases plan with
  | operation plain =>
      unfold build at refused
      rcases Outcome.bind_eq_error_iff.mp refused with checked | ⟨_checked, _accepted, refused⟩
      · exact Operation.refusesSize_of_check positive checked
      · cases refused
  | filter keep remove => cases keep <;> cases remove <;> cases refused <;> rfl
  | sequences keys sequenceId stride targets =>
      unfold build at refused
      exact FixedLengthSequences.refusesSize_of_configure positive
        (Outcome.map_eq_error_iff.mp refused)
  | normalization keys =>
      unfold build at refused
      exact DenseNormalization.refusesSize_of_configure (Outcome.map_eq_error_iff.mp refused)
  | sequenceNormalization keys sequenceId stride =>
      unfold build SequenceNormalization.configure at refused
      rcases Outcome.bind_eq_error_iff.mp (Outcome.map_eq_error_iff.mp refused) with
        selection | ⟨_sequences, _selected, refused⟩
      · exact FixedLengthSequences.refusesSize_of_configure positive selection
      · rcases Outcome.bind_eq_error_iff.mp refused with scaling | ⟨_made, _scaled, refused⟩
        · exact DenseNormalization.refusesSize_of_configure scaling
        · cases refused
  | encoding idListKeys idScoreListKeys =>
      unfold build IdListMapping.configure at refused
      have refused := Outcome.map_eq_error_iff.mp refused
      split at refused
      · cases refused
        rfl
      · split at refused <;> cases refused
        rfl
  | mapTensors keys function name => cases typed
  | pipeline plans => cases typed
  | within own plan => cases typed

end StagePlan

/-! ### Whole pipelines -/

section Pipeline

variable {surroundings : Surroundings} {config item : Json} {type : StageType}

/-- A described stage is planned, and building it is left to the constructors. -/
theorem Json.Describes.exists_plan (described : item.Describes type)
    (surroundings : Surroundings) :
    ∃ plan, StagePlan.ofOptions item type = .ok plan ∧ StagePlan.ofJson item = .ok plan ∧
      plan.Sized type ∧
      Stage.ofJson surroundings item = (plan.build surroundings).mapError Fault.config := by
  obtain ⟨plan, read, sized⟩ := described.exists_ofOptions
  have typed : StagePlan.textAt item "type" = .ok type.name := by
    simp only [StagePlan.textAt, Json.require, described.named]
    rfl
  have planned : StagePlan.ofJson item = .ok plan := by
    unfold StagePlan.ofJson
    refine Outcome.bind_eq_ok_iff.mpr ⟨type.name, Outcome.mapError_eq_ok_iff.mpr typed, ?_⟩
    simp only [StageType.ofName?_name]
    exact Outcome.mapError_eq_ok_iff.mpr read
  refine ⟨plan, read, planned, sized, ?_⟩
  simp only [Stage.ofJson, planned]
  rfl

theorem Json.Describes.type?_of_ofJson (described : item.Describes type) {stage : Stage}
    (built : Stage.ofJson surroundings item = .ok stage) : stage.type? = some type := by
  obtain ⟨plan, _read, _planned, sized, whole⟩ := described.exists_plan surroundings
  rw [whole] at built
  exact StagePlan.type?_of_build sized.typed (Outcome.mapError_eq_ok_iff.mp built)

theorem Json.Describes.config_of_ofJson (described : item.Describes type) {fault : Fault}
    (refused : Stage.ofJson surroundings item = .error fault) :
    ∃ cause, fault = .config cause := by
  obtain ⟨plan, _read, _planned, _sized, whole⟩ := described.exists_plan surroundings
  rw [whole] at refused
  cases built : plan.build surroundings with
  | error cause =>
      rw [built] at refused
      cases refused
      exact ⟨cause, rfl⟩
  | ok stage =>
      rw [built] at refused
      cases refused

theorem outcome_buildPipeline_of_accepted (accepted : validatePipeline config = []) :
    (buildPipeline surroundings config).outcome =
      Stage.pipeline <$>
        (Stage.listOfJson surroundings (describedStages config)).mapError Fault.inPipeline := by
  unfold buildPipeline
  rw [accepted]
  cases (Stage.listOfJson surroundings (describedStages config)).mapError Fault.inPipeline <;> rfl

theorem describedStages_of_listed {items : List Json}
    (listed : config.member? "transforms" = some (.arr items)) :
    describedStages config = items := by
  unfold describedStages
  rw [listed]

theorem outcome_buildPipeline_cases (surroundings : Surroundings) (config : Json) :
    (∃ stages, (buildPipeline surroundings config).outcome = .ok (.pipeline stages)) ∨
      ∃ cause, (buildPipeline surroundings config).outcome = .error (.config cause) := by
  cases checked : validatePipeline config with
  | cons first others =>
      refine .inr ⟨.invalidStage first.stage first.option first.message, ?_⟩
      unfold buildPipeline
      rw [checked]
      rfl
  | nil =>
      rw [outcome_buildPipeline_of_accepted checked]
      obtain ⟨items, listed, described⟩ := validatePipeline_eq_nil_iff.mp checked
      rw [describedStages_of_listed listed]
      cases made : Stage.listOfJson surroundings items with
      | ok stages => exact .inl ⟨stages, rfl⟩
      | error fault =>
          obtain ⟨item, member, refused⟩ := Collection.exists_error_of_mapM made
          obtain ⟨type, itemDescribed⟩ := described item member
          obtain ⟨cause, same⟩ := itemDescribed.config_of_ofJson refused
          subst same
          exact .inr ⟨cause, rfl⟩

/-- Building a pipeline ends with a pipeline or with a fault of its configuration. Where
validation has no complaint, the options of every stage are there and can be read, its type
is known, its constructor finds no size of zero, and the stages of the pipeline are of the
listed types, one for each. -/
theorem validation_covers_building (surroundings : Surroundings) (config : Json) :
    ((∃ stages, (buildPipeline surroundings config).outcome = .ok (.pipeline stages)) ∨
      ∃ cause, (buildPipeline surroundings config).outcome = .error (.config cause)) ∧
    (validatePipeline config = [] →
      ∃ items, config.member? "transforms" = some (.arr items) ∧
        (∀ item ∈ items, ∃ (type : StageType) (plan : StagePlan),
          item.member? "type" = some (.str type.name) ∧ StagePlan.ofJson item = .ok plan ∧
          Stage.ofJson surroundings item = (plan.build surroundings).mapError Fault.config ∧
          ∀ cause, plan.build surroundings = .error cause → cause.refusesSize = false) ∧
        ∀ stages, (buildPipeline surroundings config).outcome = .ok (.pipeline stages) →
          List.Forall₂ (fun item stage => ∃ type : StageType,
            item.member? "type" = some (.str type.name) ∧ stage.type? = some type) items stages) := by
  refine ⟨outcome_buildPipeline_cases surroundings config, fun accepted => ?_⟩
  obtain ⟨items, listed, described⟩ := validatePipeline_eq_nil_iff.mp accepted
  refine ⟨items, listed, fun item member => ?_, fun stages built => ?_⟩
  · obtain ⟨type, itemDescribed⟩ := described item member
    obtain ⟨plan, _read, planned, sized, whole⟩ := itemDescribed.exists_plan surroundings
    exact ⟨type, plan, itemDescribed.named, planned, whole,
      fun cause => StagePlan.refusesSize_of_build sized⟩
  · rw [outcome_buildPipeline_of_accepted accepted, describedStages_of_listed listed] at built
    obtain ⟨made, listing, same⟩ := Outcome.map_eq_ok_iff.mp built
    cases same
    have related := Collection.mapM_eq_ok_iff.mp (Outcome.mapError_eq_ok_iff.mp listing)
    refine List.forall₂_iff_get.mpr ⟨related.length_eq, fun position inItems inStages => ?_⟩
    have single := related.get inItems inStages
    obtain ⟨type, itemDescribed⟩ := described _ (List.get_mem ..)
    exact ⟨type, itemDescribed.named, itemDescribed.type?_of_ofJson single⟩

/-- Of two accepted stages both are built, each of its type. -/
theorem validation_covers_building_two :
    ∃ config items stages,
      config = Json.obj [("transforms", .arr [
        .obj [("keys", .arr [.str "a"]), ("num_actions", .int 4), ("type", .str "OneHotActions")],
        .obj [("dim", .int (-1)), ("keys", .arr [.str "a"]), ("num_repeat", .int 2),
          ("type", .str "UnsqueezeRepeat")]])] ∧
      validatePipeline config = [] ∧
      config.member? "transforms" = some (.arr items) ∧
      (buildPipeline {} config).outcome = .ok (.pipeline stages) ∧
      List.Forall₂ (fun item stage => ∃ type : StageType,
        item.member? "type" = some (.str type.name) ∧ stage.type? = some type) items stages := by
  obtain ⟨items, listed, _planned, typed⟩ := (validation_covers_building {}
    (Json.obj [("transforms", .arr [
      .obj [("keys", .arr [.str "a"]), ("num_actions", .int 4), ("type", .str "OneHotActions")],
      .obj [("dim", .int (-1)), ("keys", .arr [.str "a"]), ("num_repeat", .int 2),
        ("type", .str "UnsqueezeRepeat")]])])).2 rfl
  have built : (buildPipeline {} (Json.obj [("transforms", .arr [
      .obj [("keys", .arr [.str "a"]), ("num_actions", .int 4), ("type", .str "OneHotActions")],
      .obj [("dim", .int (-1)), ("keys", .arr [.str "a"]), ("num_repeat", .int 2),
        ("type", .str "UnsqueezeRepeat")]])])).outcome =
      .ok (.pipeline [.operation (.oneHotActions ["a"] 4),
        .operation (.unsqueezeRepeat ["a"] (-1) 2)]) := rfl
  exact ⟨_, items, _, rfl, rfl, listed, built, typed _ built⟩

end Pipeline

end Featurize
