import Featurize.Proofs.Pipelines.Validation
import Featurize.Proofs.Sequences.Stride
import Featurize.Proofs.Stages.Renewal

/-!
The integers of accepted options. Sizes, counts and indices are checked in the signed
reading and arrive in the stage as they are written. An axis is only checked to be an
integer and read with 32 bits, a sequence id with 64 bits and a sign: they arrive exactly
when they are in that range, and wrap when they are not.
-/

namespace Featurize

/-! ### Integers on both sides -/

def Json.integer? : Json → Option Int
  | .int value => some value
  | _ => none

def Json.integers : Json → List Int
  | .int value => [value]
  | .arr items => items.filterMap Json.integer?
  | _ => []

def Operation.integers : Operation → List (String × List Int)
  | .selectColumns _ _ columns => [("indices", columns.map Int.ofNat)]
  | .oneHotActions _ actions => [("num_actions", [(actions : Int)])]
  | .stackRows _ size => [("size", [(size : Int)])]
  | .slateView _ size => [("slate_size", [(size : Int)])]
  | .appendConstant _ axis _ => [("dim", [axis])]
  | .unsqueezeRepeat _ axis count => [("dim", [axis]), ("num_repeat", [(count : Int)])]
  | .identityMatrix _ size => [("size", [(size : Int)])]
  | .concatenate _ _ axis _ => [("dim", [axis])]
  | _ => []

def FixedLengthSequences.integersOf (sequenceId : Int64) (stride : Option Nat) :
    List (String × List Int) :=
  [("sequence_id", [sequenceId.toInt]), ("expected_length", stride.toList.map Int.ofNat)]

/-- The integers that a stage holds, under the names of the options that give them. -/
def Stage.integers : Stage → List (String × List Int)
  | .operation plain => plain.integers
  | .sequences stage => FixedLengthSequences.integersOf stage.sequenceId stage.stride
  | .sequenceNormalization stage =>
      FixedLengthSequences.integersOf stage.sequences.sequenceId stage.sequences.stride
  | _ => []

def StagePlan.integers : StagePlan → List (String × List Int)
  | .operation plain => plain.integers
  | .sequences _ sequenceId stride _ => FixedLengthSequences.integersOf sequenceId stride
  | .sequenceNormalization _ sequenceId stride =>
      FixedLengthSequences.integersOf sequenceId stride
  | _ => []

def OptionKind.isIntegral : OptionKind → Bool
  | .integer => true
  | .positive => true
  | .indices => true
  | _ => false

namespace StageOption

def readIntegers (option : StageOption) (value : Json) : Except ReadFault (List Int) :=
  match option.kind with
  | .positive => (fun size : Nat => [(size : Int)]) <$> value.asSize
  | .indices => (fun sizes : List Nat => sizes.map Int.ofNat) <$> value.asSizes
  | _ =>
      if option.name = "dim" then (fun axis => [axis]) <$> value.asAxis
      else (fun id : Int64 => [id.toInt]) <$> value.asId

/-- The option has room for the integer: an axis has 32 bits and a sequence id 64, with a
sign. Of the other options the check leaves only integers for which there is room. -/
def Holds (option : StageOption) (integer : Int) : Prop :=
  option.kind = .integer →
    if option.name = "dim" then
      -Word.signedLimit32 ≤ integer ∧ integer < Word.signedLimit32
    else integer < Word.signedLimit

end StageOption

/-! ### Words -/

namespace Word

variable {integer : Int}

theorem signed32_eq_self_iff :
    signed32 integer = integer ↔ -signedLimit32 ≤ integer ∧ integer < signedLimit32 := by
  unfold signed32 signedLimit32
  rw [Int.bmod_eq_iff (by decide)]
  omega

theorem signed_eq_self_iff (above : -signedLimit ≤ integer) :
    signed integer = integer ↔ integer < signedLimit := by
  unfold signedLimit at above
  unfold signed signedLimit modulus
  rw [Int.bmod_eq_iff (by decide)]
  omega

theorem toInt_ofInt (integer : Int) : (Int64.ofInt integer).toInt = signed integer :=
  Int64.toInt_ofInt

theorem ofInt_of_signed (above : -signedLimit ≤ integer) (below : integer < modulus)
    (positive : 0 ≤ signed integer) : (ofInt integer : Int) = integer := by
  unfold signedLimit at above
  unfold modulus at below
  have bounded : signed integer < 9223372036854775808 := Int.bmod_lt (by decide)
  have congruent : (18446744073709551616 : Int) ∣ signed integer - integer :=
    ((Int.bmod_eq_iff (by decide)).mp (rfl : integer.bmod modulus = signed integer)).2.2
  unfold ofInt modulus
  omega

end Word

/-! ### Reading given options -/

section Given

variable {item value : Json} {name : String} (given : item.member? name = some value)

include given

theorem sizeAt_of_given : StagePlan.sizeAt item name = value.asSize := by
  simp only [StagePlan.sizeAt, Json.require, given]
  rfl

theorem axisAt_of_given : StagePlan.axisAt item name = value.asAxis := by
  simp only [StagePlan.axisAt, Json.require, given]
  rfl

theorem idAt_of_given : StagePlan.idAt item name = value.asId := by
  simp only [StagePlan.idAt, Json.require, given]
  rfl

theorem optional_of_given {Value : Type} (read : Json → Except ReadFault Value) :
    item.optional name read = some <$> read value := by
  simp only [Json.optional, given]

theorem withDefault_of_given {Value : Type} (default : Value)
    (read : Json → Except ReadFault Value) : item.withDefault name default read = read value := by
  have object : item.isObject = true := by
    cases item with
    | obj members => rfl
    | _ => cases given
  simp only [Json.withDefault, if_pos object, optional_of_given given]
  cases read value <;> rfl

end Given

namespace StageOption

variable {option : StageOption} {value : Json}

theorem readIntegers_size (kind : option.kind = .positive) {size : Nat}
    (read : value.asSize = .ok size) : option.readIntegers value = .ok [(size : Int)] := by
  unfold readIntegers
  rw [kind]
  exact Outcome.map_eq_ok_iff.mpr ⟨size, read, rfl⟩

theorem readIntegers_sizes (kind : option.kind = .indices) {sizes : List Nat}
    (read : value.asSizes = .ok sizes) :
    option.readIntegers value = .ok (sizes.map Int.ofNat) := by
  unfold readIntegers
  rw [kind]
  exact Outcome.map_eq_ok_iff.mpr ⟨sizes, read, rfl⟩

theorem readIntegers_axis (kind : option.kind = .integer) (name : option.name = "dim") {axis : Int}
    (read : value.asAxis = .ok axis) : option.readIntegers value = .ok [axis] := by
  unfold readIntegers
  simp only [kind, if_pos name]
  exact Outcome.map_eq_ok_iff.mpr ⟨axis, read, rfl⟩

theorem readIntegers_id (kind : option.kind = .integer) (name : option.name ≠ "dim") {id : Int64}
    (read : value.asId = .ok id) : option.readIntegers value = .ok [id.toInt] := by
  unfold readIntegers
  simp only [kind, if_neg name]
  exact Outcome.map_eq_ok_iff.mpr ⟨id, read, rfl⟩

end StageOption

variable {surroundings : Surroundings} {config item value : Json} {type : StageType}
  {option : StageOption} {plan : StagePlan} {stage : Stage}

private theorem lookup_integersOf {sequenceId : Int64} {stride : Option Nat}
    (counted : option ∈ [.must "sequence_id" .integer, .may "expected_length" .positive])
    (readId : StagePlan.idAt item "sequence_id" = .ok sequenceId)
    (readStride : item.optional "expected_length" Json.asSize = .ok stride)
    (given : item.member? option.name = some value) :
    ∃ integers, option.readIntegers value = .ok integers ∧
      (FixedLengthSequences.integersOf sequenceId stride).lookup option.name = some integers := by
  rcases List.mem_cons.mp counted with same | later
  · subst same
    have read : value.asId = .ok sequenceId := (idAt_of_given given).symm.trans readId
    exact ⟨_, StageOption.readIntegers_id rfl (by decide) read, rfl⟩
  · cases List.mem_singleton.mp later
    obtain ⟨length, read, same⟩ :=
      Outcome.map_eq_ok_iff.mp ((optional_of_given given Json.asSize).symm.trans readStride)
    subst same
    exact ⟨_, StageOption.readIntegers_size rfl read, rfl⟩

/-- What a plan holds under an option with integers is what the builder reads there. -/
theorem StagePlan.lookup_integers_of_ofOptions (read : ofOptions item type = .ok plan)
    (offered : option ∈ type.options) (integral : option.kind.isIntegral = true)
    (given : item.member? option.name = some value) :
    ∃ integers, option.readIntegers value = .ok integers ∧
      plan.integers.lookup option.name = some integers := by
  have counted : option ∈ type.options.filter (fun option => option.kind.isIntegral) :=
    List.mem_filter.mpr ⟨offered, integral⟩
  cases type with
  | oneHotActions =>
      cases List.mem_singleton.mp counted
      simp only [ofOptions, Outcome.bind_eq_ok_iff, Outcome.pure_eq_ok_iff] at read
      obtain ⟨keys, _readKeys, actions, readActions, same⟩ := read
      subst same
      have read : value.asSize = .ok actions := (sizeAt_of_given given).symm.trans readActions
      exact ⟨_, StageOption.readIntegers_size rfl read, rfl⟩
  | stackRows =>
      cases List.mem_singleton.mp counted
      simp only [ofOptions, Outcome.bind_eq_ok_iff, Outcome.pure_eq_ok_iff] at read
      obtain ⟨keys, _readKeys, size, readSize, same⟩ := read
      subst same
      have read : value.asSize = .ok size := (sizeAt_of_given given).symm.trans readSize
      exact ⟨_, StageOption.readIntegers_size rfl read, rfl⟩
  | sequences =>
      simp only [ofOptions, Outcome.bind_eq_ok_iff, Outcome.pure_eq_ok_iff] at read
      obtain ⟨keys, _readKeys, sequenceId, readId, stride, readStride, targets, _readTargets,
        same⟩ := read
      subst same
      exact lookup_integersOf counted readId readStride given
  | slateView =>
      cases List.mem_singleton.mp counted
      simp only [ofOptions, Outcome.bind_eq_ok_iff, Outcome.pure_eq_ok_iff] at read
      obtain ⟨keys, _readKeys, size, readSize, same⟩ := read
      subst same
      have read : value.asSize = .ok size := (sizeAt_of_given given).symm.trans readSize
      exact ⟨_, StageOption.readIntegers_size rfl read, rfl⟩
  | sequenceNormalization =>
      simp only [ofOptions, Outcome.bind_eq_ok_iff, Outcome.pure_eq_ok_iff] at read
      obtain ⟨keys, _readKeys, sequenceId, readId, stride, readStride, same⟩ := read
      subst same
      exact lookup_integersOf counted readId readStride given
  | appendConstant =>
      cases List.mem_singleton.mp counted
      simp only [ofOptions, Outcome.bind_eq_ok_iff, Outcome.pure_eq_ok_iff] at read
      obtain ⟨keys, _readKeys, axis, readAxis, constant, _readConstant, same⟩ := read
      subst same
      have read : value.asAxis = .ok axis := (withDefault_of_given given (-1) _).symm.trans readAxis
      exact ⟨_, StageOption.readIntegers_axis rfl rfl read, rfl⟩
  | unsqueezeRepeat =>
      simp only [ofOptions, Outcome.bind_eq_ok_iff, Outcome.pure_eq_ok_iff] at read
      obtain ⟨keys, _readKeys, axis, readAxis, count, readCount, same⟩ := read
      subst same
      rcases List.mem_cons.mp counted with same | later
      · subst same
        have read : value.asAxis = .ok axis := (axisAt_of_given given).symm.trans readAxis
        exact ⟨_, StageOption.readIntegers_axis rfl rfl read, rfl⟩
      · cases List.mem_singleton.mp later
        have read : value.asSize = .ok count :=
          (withDefault_of_given given 1 _).symm.trans readCount
        exact ⟨_, StageOption.readIntegers_size rfl read, rfl⟩
  | identityMatrix =>
      cases List.mem_singleton.mp counted
      simp only [ofOptions, Outcome.bind_eq_ok_iff, Outcome.pure_eq_ok_iff] at read
      obtain ⟨key, _readKey, size, readSize, same⟩ := read
      subst same
      have read : value.asSize = .ok size := (sizeAt_of_given given).symm.trans readSize
      exact ⟨_, StageOption.readIntegers_size rfl read, rfl⟩
  | concatenate =>
      cases List.mem_singleton.mp counted
      simp only [ofOptions, Outcome.bind_eq_ok_iff, Outcome.pure_eq_ok_iff] at read
      obtain ⟨inputs, _readInputs, output, _readOutput, axis, readAxis, broadcast, _readBroadcast,
        same⟩ := read
      subst same
      have read : value.asAxis = .ok axis := (axisAt_of_given given).symm.trans readAxis
      exact ⟨_, StageOption.readIntegers_axis rfl rfl read, rfl⟩
  | selectColumns =>
      cases List.mem_singleton.mp counted
      simp only [ofOptions, Outcome.bind_eq_ok_iff, Outcome.pure_eq_ok_iff] at read
      obtain ⟨source, _readSource, destination, _readDestination, found, required, columns,
        readColumns, same⟩ := read
      subst same
      have read : value.asSizes = .ok columns := by
        unfold Json.require at required
        have given : item.member? "indices" = some value := given
        rw [given] at required
        cases required
        exact readColumns
      exact ⟨_, StageOption.readIntegers_sizes rfl read, rfl⟩
  | _ => exact absurd counted List.not_mem_nil

theorem StagePlan.integers_of_build (typed : plan.type? = some type)
    (built : plan.build surroundings = .ok stage) : stage.integers = plan.integers := by
  cases makes_of_build built with
  | operation accepted => rfl
  | @filter keep remove plain chosen => cases keep <;> cases remove <;> cases chosen <;> rfl
  | sequences configured =>
      obtain ⟨_parallel, _notEmpty, options⟩ :=
        FixedLengthSequences.configure_eq_ok_iff.mp configured
      subst options
      rfl
  | normalization configured => rfl
  | sequenceNormalization configured =>
      obtain ⟨sequences, normalization, selected, _made, options⟩ :=
        SequenceNormalization.configure_eq_ok_iff.mp configured
      obtain ⟨_parallel, _notEmpty, sequencesOptions⟩ :=
        FixedLengthSequences.configure_eq_ok_iff.mp selected
      subst options sequencesOptions
      rfl
  | encoding configured => rfl
  | mapTensors chosen => cases typed
  | pipeline built => cases typed
  | within built => cases typed

/-! ### Exactness -/

def Json.Machine (value : Json) : Prop :=
  ∀ integer ∈ value.integers, -Word.signedLimit ≤ integer ∧ integer < Word.modulus

theorem Json.integer?_of_index {item : Json} {size : Nat}
    (accepted : (OptionKind.signedInteger? item).any (fun index => 0 ≤ index) = true)
    (machine : ∀ integer, item.integer? = some integer →
      -Word.signedLimit ≤ integer ∧ integer < Word.modulus)
    (read : item.asSize = .ok size) : item.integer? = some (size : Int) := by
  cases item with
  | int integer =>
      obtain ⟨above, below⟩ := machine integer rfl
      cases read
      exact congrArg some (Word.ofInt_of_signed above below (of_decide_eq_true accepted)).symm
  | _ => cases accepted

theorem Json.filterMap_integer?_of_indices {items : List Json} {sizes : List Nat}
    (accepted : ∀ item ∈ items,
      (OptionKind.signedInteger? item).any (fun index => 0 ≤ index) = true)
    (machine : ∀ item ∈ items, ∀ integer, item.integer? = some integer →
      -Word.signedLimit ≤ integer ∧ integer < Word.modulus)
    (read : List.Forall₂ (fun item size => item.asSize = .ok size) items sizes) :
    items.filterMap Json.integer? = sizes.map Int.ofNat := by
  induction read with
  | nil => rfl
  | cons readItem _rest ih =>
      obtain ⟨head, tail⟩ := List.forall_mem_cons.mp accepted
      obtain ⟨headMachine, tailMachine⟩ := List.forall_mem_cons.mp machine
      rw [List.filterMap_cons_some (Json.integer?_of_index head headMachine readItem),
        ih tail tailMachine, List.map_cons]
      rfl

namespace StageOption

variable {integers : List Int}

/-- An axis and an id are read with a sign, and so are exact where the sign fits. -/
private theorem integers_of_integer (kind : option.kind = .integer)
    (accepted : option.kind.accepts value = true) (machine : value.Machine)
    (read : option.readIntegers value = .ok integers) :
    integers = value.integers ↔ ∀ integer ∈ value.integers, option.Holds integer := by
  rw [kind] at accepted
  cases value with
  | int integer =>
      obtain ⟨above, _below⟩ := machine integer (List.mem_singleton_self integer)
      have given : (Json.int integer).integers = [integer] := rfl
      rw [given, List.forall_mem_singleton, Holds]
      by_cases name : option.name = "dim"
      · rw [readIntegers_axis kind name rfl, Except.ok.injEq] at read
        subst read
        simp only [kind, if_pos name, forall_const, List.cons.injEq, and_true]
        exact Word.signed32_eq_self_iff
      · rw [readIntegers_id kind name rfl, Except.ok.injEq] at read
        subst read
        simp only [kind, if_neg name, forall_const, List.cons.injEq, and_true, Word.toInt_ofInt]
        exact Word.signed_eq_self_iff above
  | _ => cases accepted

private theorem integers_of_positive (kind : option.kind = .positive)
    (accepted : option.kind.accepts value = true) (machine : value.Machine)
    (read : option.readIntegers value = .ok integers) : integers = value.integers := by
  rw [kind] at accepted
  cases value with
  | int integer =>
      obtain ⟨above, below⟩ := machine integer (List.mem_singleton_self integer)
      have positive : 0 < Word.signed integer := of_decide_eq_true accepted
      rw [readIntegers_size kind rfl, Except.ok.injEq] at read
      rw [← read, Word.ofInt_of_signed above below (Int.le_of_lt positive)]
      rfl
  | _ => cases accepted

private theorem integers_of_indices (kind : option.kind = .indices)
    (accepted : option.kind.accepts value = true) (machine : value.Machine)
    (read : option.readIntegers value = .ok integers) : integers = value.integers := by
  rw [kind] at accepted
  cases value with
  | arr items =>
      unfold readIntegers at read
      rw [kind] at read
      obtain ⟨sizes, readSizes, same⟩ := Outcome.map_eq_ok_iff.mp read
      have bounded : ∀ item ∈ items, ∀ integer, item.integer? = some integer →
          -Word.signedLimit ≤ integer ∧ integer < Word.modulus :=
        fun item member integer found =>
          machine integer (List.mem_filterMap.mpr ⟨item, member, found⟩)
      rw [← same, Json.integers, Json.filterMap_integer?_of_indices
        (List.all_eq_true.mp accepted) bounded (Collection.mapM_eq_ok_iff.mp readSizes)]
  | _ => cases accepted

theorem integers_eq_iff (integral : option.kind.isIntegral = true)
    (accepted : option.kind.accepts value = true) (machine : value.Machine)
    (read : option.readIntegers value = .ok integers) :
    integers = value.integers ↔ ∀ integer ∈ value.integers, option.Holds integer := by
  cases kind : option.kind with
  | integer => exact integers_of_integer kind accepted machine read
  | positive =>
      have roomy : ∀ integer ∈ value.integers, option.Holds integer :=
        fun _integer _member signed => absurd (kind.symm.trans signed) (by decide)
      exact iff_of_true (integers_of_positive kind accepted machine read) roomy
  | indices =>
      have roomy : ∀ integer ∈ value.integers, option.Holds integer :=
        fun _integer _member signed => absurd (kind.symm.trans signed) (by decide)
      exact iff_of_true (integers_of_indices kind accepted machine read) roomy
  | _ =>
      rw [kind] at integral
      cases integral

end StageOption

/-- Of an accepted configuration, a stage holds under each option with integers exactly the
given ones, if and only if there is room for them: if an axis fits 32 bits and a sequence id
64 bits with a sign. All other accepted integers are held as they are written. -/
theorem Stage.integers_exact_iff (accepted : validatePipeline config = [])
    (listed : item ∈ describedStages config) (built : Stage.ofJson surroundings item = .ok stage)
    (typed : item.member? "type" = some (.str type.name)) (offered : option ∈ type.options)
    (integral : option.kind.isIntegral = true)
    (given : item.member? option.name = some value) (machine : value.Machine) :
    stage.integers.lookup option.name = some value.integers ↔
      ∀ integer ∈ value.integers, option.Holds integer := by
  obtain ⟨items, list, described⟩ := validatePipeline_eq_nil_iff.mp accepted
  rw [describedStages_of_listed list] at listed
  obtain ⟨named, itemDescribed⟩ := described item listed
  have same : named = type := by
    have names := itemDescribed.named.symm.trans typed
    rw [Option.some.injEq, Json.str.injEq] at names
    exact StageType.name_injective names
  subst same
  obtain ⟨plan, read, _planned, sized, whole⟩ := itemDescribed.exists_plan surroundings
  have taken : stage.integers = plan.integers := by
    rw [whole] at built
    exact StagePlan.integers_of_build sized.typed (Outcome.mapError_eq_ok_iff.mp built)
  obtain ⟨integers, readIntegers, held⟩ :=
    StagePlan.lookup_integers_of_ofOptions read offered integral given
  have fits := (itemDescribed.accepted option offered).given value given
  rw [taken, held, Option.some.injEq]
  exact StageOption.integers_eq_iff integral fits machine readIntegers

/-- The least id of 64 bits is accepted and held as it is. -/
theorem Stage.integers_exact_iff_least_id :
    ∃ config item stage,
      item = Json.obj [("keys", .arr [.str "steps"]), ("sequence_id", .int (-9223372036854775808)),
        ("type", .str "FixedLengthSequences")] ∧
      config = Json.obj [("transforms", .arr [item])] ∧
      validatePipeline config = [] ∧
      Stage.ofJson {} item = .ok stage ∧
      stage.integers.lookup "sequence_id" = some [-9223372036854775808] := by
  have machine : (Json.int (-9223372036854775808)).Machine := by
    intro integer member
    cases List.mem_singleton.mp member
    decide
  have offered : StageOption.must "sequence_id" .integer ∈ StageType.sequences.options :=
    List.mem_cons_of_mem _ (List.mem_cons_self ..)
  have roomy : ∀ integer ∈ (Json.int (-9223372036854775808)).integers,
      (StageOption.must "sequence_id" .integer).Holds integer := by
    intro integer member _kind
    cases List.mem_singleton.mp member
    decide
  refine ⟨_, _, _, rfl, rfl, rfl, rfl, ?_⟩
  exact (@Stage.integers_exact_iff {}
    (.obj [("transforms", .arr [.obj [("keys", .arr [.str "steps"]),
      ("sequence_id", .int (-9223372036854775808)), ("type", .str "FixedLengthSequences")]])])
    _ _ .sequences _ _ rfl (List.mem_singleton_self _) rfl rfl offered rfl rfl machine).mpr roomy

/-- An accepted axis of two to the thirty-second is held as zero, and an accepted sequence id of
two to the sixty-third as its negation. -/
theorem Stage.integers_wrap :
    ∃ config unsqueeze select first second,
      unsqueeze = Json.obj [("dim", .int 4294967296), ("keys", .arr [.str "a"]),
        ("type", .str "UnsqueezeRepeat")] ∧
      select = Json.obj [("keys", .arr [.str "steps"]), ("sequence_id", .int 9223372036854775808),
        ("type", .str "FixedLengthSequences")] ∧
      config = Json.obj [("transforms", .arr [unsqueeze, select])] ∧
      validatePipeline config = [] ∧
      Stage.ofJson {} unsqueeze = .ok first ∧
      Stage.ofJson {} select = .ok second ∧
      first.integers.lookup "dim" = some [0] ∧
      second.integers.lookup "sequence_id" = some [-9223372036854775808] :=
  ⟨_, _, _, _, _, rfl, rfl, rfl, rfl, rfl, rfl, rfl, rfl⟩

end Featurize
