import Featurize.Json.Access
import Featurize.Pipeline.StageType

/-!
The configuration of pipelines: a list of stages, each a type with its options.
For every type the schema names the options with their kinds and says which are
required. Validation goes through all stages and all options and lists every
complaint; options that the schema does not name are passed over.
-/

namespace Featurize

/-- The form that an option's value must have. -/
inductive OptionKind where
  | text
  | texts
  | integer
  | positive
  | indices
  | number
  | truth
  deriving Repr, DecidableEq

namespace OptionKind

def name : OptionKind → String
  | .text => "a string"
  | .texts => "an array of strings"
  | .integer => "an integer"
  | .positive => "a positive integer"
  | .indices => "an array of non-negative integers"
  | .number => "a number"
  | .truth => "a boolean"

def signedInteger? : Json → Option Int
  | .int value => some (Word.signed value)
  | _ => none

def allItems (test : Json → Bool) : Json → Bool
  | .arr items => items.all test
  | _ => false

def accepts : OptionKind → Json → Bool
  | .text, value => value.isString
  | .texts, value => allItems Json.isString value
  | .integer, value => value.isInteger
  | .positive, value => (signedInteger? value).any (fun integer => 0 < integer)
  | .indices, value =>
      allItems (fun item => (signedInteger? item).any (fun index => 0 ≤ index)) value
  | .number, value => value.isNumber
  | .truth, value => value.isBool

end OptionKind

/-- An option of a stage type. -/
structure StageOption where
  name : String
  kind : OptionKind
  mandatory : Bool

namespace StageOption

def must (name : String) (kind : OptionKind) : StageOption := ⟨name, kind, true⟩

def may (name : String) (kind : OptionKind) : StageOption := ⟨name, kind, false⟩

end StageOption

/-- The options of a stage type, in the order in which they are checked. -/
def StageType.options : StageType → List StageOption
  | .pairPresence => []
  | .normalization => [.must "keys" .texts]
  | .encoding => [.may "id_list_keys" .texts, .may "id_score_list_keys" .texts]
  | .oneHotActions => [.must "keys" .texts, .must "num_actions" .positive]
  | .columnVector => [.must "keys" .texts]
  | .maskByPresence => [.must "keys" .texts]
  | .stackRows => [.must "keys" .texts, .must "size" .positive]
  | .sequences =>
      [.must "keys" .texts, .must "sequence_id" .integer, .may "expected_length" .positive,
        .may "to_keys" .texts]
  | .slateView => [.must "keys" .texts, .must "slate_size" .positive]
  | .sequenceNormalization =>
      [.must "keys" .texts, .must "sequence_id" .integer, .may "expected_length" .positive]
  | .appendConstant => [.must "keys" .texts, .may "dim" .integer, .may "const" .number]
  | .unsqueezeRepeat => [.must "keys" .texts, .must "dim" .integer, .may "num_repeat" .positive]
  | .outerProduct =>
      [.must "key1" .text, .must "key2" .text, .must "output_key" .text, .may "drop_inputs" .truth]
  | .identityMatrix => [.must "key" .text, .must "size" .positive]
  | .concatenate =>
      [.must "input_keys" .texts, .must "output_key" .text, .must "dim" .integer,
        .may "broadcast" .truth]
  | .rename => [.must "old_names" .texts, .must "new_names" .texts]
  | .filter => [.may "keep_keys" .texts, .may "remove_keys" .texts]
  | .selectColumns => [.must "source" .text, .must "dest" .text, .must "indices" .indices]

/-- What is wrong with a configuration at one place. -/
inductive ConfigFlaw where
  | noStages
  | noType
  | suppliedFunction
  | unknownType (name : String)
  | missing (type : StageType)
  | wrongKind (kind : OptionKind)
  deriving Repr, DecidableEq

namespace ConfigFlaw

def message : ConfigFlaw → String
  | .noStages => "Pipeline config requires a transforms array"
  | .noType => "Stage requires a string type"
  | .suppliedFunction => "Lambda stages take a callable and cannot be built from configuration"
  | .unknownType name => "Unknown transform type: " ++ name
  | .missing type => "Missing required option for " ++ type.name
  | .wrongKind kind => "Option must be " ++ kind.name

end ConfigFlaw

/-- A flaw with the stage and the option where it was found. -/
structure Complaint where
  stage : Nat
  option : String
  flaw : ConfigFlaw
  deriving Repr, DecidableEq

namespace Complaint

def message (complaint : Complaint) : String := complaint.flaw.message

def ofOption? (number : Nat) (type : StageType) (stage : Json) (option : StageOption) :
    Option Complaint :=
  match stage.member? option.name with
  | none => if option.mandatory then some ⟨number, option.name, .missing type⟩ else none
  | some value =>
      if option.kind.accepts value then none
      else some ⟨number, option.name, .wrongKind option.kind⟩

def ofStage (number : Nat) (stage : Json) : List Complaint :=
  match stage.member? "type" with
  | some (.str name) =>
      if name = "Lambda" then [⟨number, "type", .suppliedFunction⟩]
      else
        match StageType.ofName? name with
        | none => [⟨number, "type", .unknownType name⟩]
        | some type => type.options.filterMap (ofOption? number type stage)
  | _ => [⟨number, "type", .noType⟩]

def ofStages (number : Nat) : List Json → List Complaint
  | [] => []
  | stage :: stages => ofStage number stage ++ ofStages (number + 1) stages

end Complaint

/-- Every complaint about a pipeline configuration, in the order of the stages. -/
def validatePipeline (config : Json) : List Complaint :=
  match config.member? "transforms" with
  | some (.arr stages) => Complaint.ofStages 0 stages
  | _ => [⟨0, "transforms", .noStages⟩]

end Featurize
