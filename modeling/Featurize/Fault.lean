import Featurize.Decimal.Text
import Featurize.Field.Kind
import Featurize.Shape.Basic
import Featurize.Text

/-!
Everything that can go wrong while a pipeline is configured, built or run. A
fault is a cause with its circumstances; wording belongs to `message` alone, so
that two faults are the same exactly when their causes are. The text that is
shown of a fault ends before the first NUL character of its wording, which only a
name, a path or a caller's own words can bring in. Names and paths are Unicode
text; only a caller's words may be other bytes, and a fault told in such words
cannot be reported.
-/

namespace Featurize

def jsonMarker : String := "[json.exception]"

def integerMarker : String := "stoll"

def bracketed (names : List String) : String := "[" ++ ", ".intercalate names ++ "]"

def offsetsText (offsets : List Int64) : String :=
  bracketed (offsets.map (fun offset => toString offset.toInt))

/-- A rank or shape that an operation does not accept. -/
inductive ShapeFault where
  | dataCount (count : Nat) (shape : Shape)
  | axisOutOfRange (axis : Int) (rank : Nat)
  | secondInferredSize
  | negativeSize (size : Int)
  | indivisible (shape : Shape) (known : Nat)
  | reshapedCount (shape target : Shape)
  | tooFewRepeats (rank given : Nat)
  | notBroadcastable (shape : Shape) (axis : Nat)
  | notExpandable (shape target : Shape)
  | nothingToConcatenate
  | concatenatedRank (shape first : Shape)
  | concatenatedSizes (axis : Nat) (shape first : Shape)
  | classOutOfRange (index : Double) (classes : Nat)
  | noColumns
  | columnOutOfRange (column : Nat) (shape : Shape)
  | multipliedShapes (left right : Shape)
  | noOuterAxis
  | normalizedPresence (value presence : Shape)
  | normalizedColumns (columns : Nat) (shape : Shape)
  | scoreCount (feature : Int64) (ids scores : Nat)
  | constantRank (key : String)
  | presenceShape (key : String) (value presence : Shape)
  | payloadRank (key : String) (sequence : Int64)
  | slateRank (key : String) (shape : Shape)
  | selectedRank (key : String) (shape : Shape)
  | columnShape (key : String) (shape : Shape)
  | stackedShape (key : String) (shape : Shape)

namespace ShapeFault

def message : ShapeFault → String
  | .dataCount count shape =>
      "Tensor data size " ++ toString count ++ " does not match shape " ++ shape.render
  | .axisOutOfRange axis rank =>
      "Dimension " ++ toString axis ++ " out of range for rank " ++ toString rank
  | .secondInferredSize => "Reshape allows only one inferred dimension"
  | .negativeSize size => "Reshape got negative dimension " ++ toString size
  | .indivisible shape known =>
      "Cannot reshape tensor of shape " ++ shape.render ++ " with " ++ toString known ++
        " elements per inferred slot"
  | .reshapedCount shape target =>
      "Cannot reshape tensor of shape " ++ shape.render ++ " to " ++ target.render
  | .tooFewRepeats rank given =>
      "Repeat needs at least " ++ toString rank ++ " repeat counts, got " ++ toString given
  | .notBroadcastable shape axis =>
      "Shapes are not broadcastable: " ++ shape.render ++ " at dim " ++ toString axis
  | .notExpandable shape target =>
      "Cannot expand tensor of shape " ++ shape.render ++ " to " ++ target.render
  | .nothingToConcatenate => "Cat requires at least one tensor"
  | .concatenatedRank shape first =>
      "Cat rank mismatch: " ++ shape.render ++ " vs " ++ first.render
  | .concatenatedSizes axis shape first =>
      "Cat shape mismatch outside dim " ++ toString axis ++ ": " ++ shape.render ++ " vs " ++
        first.render
  | .classOutOfRange index classes =>
      "One-hot index " ++ Decimal.significant 6 index ++ " outside [0, " ++ toString classes ++ ")"
  | .noColumns => "SelectLast requires at least one dimension"
  | .columnOutOfRange column shape =>
      "Column index " ++ toString column ++ " out of range for shape " ++ shape.render
  | .multipliedShapes left right =>
      "Multiply shape mismatch: " ++ left.render ++ " vs " ++ right.render
  | .noOuterAxis => "Outer product requires at least one dimension"
  | .normalizedPresence value presence =>
      "Normalize value shape " ++ value.render ++ " does not match presence shape " ++
        presence.render
  | .normalizedColumns columns shape =>
      "Normalize expects shape (batch, " ++ toString columns ++ "), got " ++ shape.render
  | .scoreCount feature ids scores =>
      "Sparse feature " ++ toString feature.toInt ++ " has " ++ toString ids ++ " ids but " ++
        toString scores ++ " scores"
  | .constantRank key => "AppendConstant needs at least one dimension for key " ++ key
  | .presenceShape key value presence =>
      "Unmatching value shape " ++ value.render ++ " and presence shape " ++ presence.render ++
        " for key " ++ key
  | .payloadRank key sequence =>
      "Sequence payload for " ++ key ++ " " ++ toString sequence.toInt ++ " has no dimensions"
  | .slateRank key shape =>
      "SlateView expects a 2-D tensor for key " ++ key ++ ", got " ++ shape.render
  | .selectedRank key shape =>
      "SelectValuePresenceColumns expects a 2-D field " ++ key ++ ", got " ++ shape.render
  | .columnShape key shape => "Invalid shape for key " ++ key ++ ": " ++ shape.render
  | .stackedShape key shape => "Wrong shape for key " ++ key ++ ": " ++ shape.render

end ShapeFault

/-- A field, or the JSON of a field, in a representation that is not handled. -/
inductive FieldFault where
  | unexpectedKind (key : String) (expected : List FieldKind) (actual : FieldKind)
  | notAColumn (key : String) (actual : FieldKind)
  | malformed (key : String)
  | malformedId (key : String)
  | unrecognized (key : String)
  | recordNotAnObject

namespace FieldFault

def message : FieldFault → String
  | .unexpectedKind key expected actual =>
      "Field " ++ key ++ " has type " ++ actual.name ++ ", expected " ++
        " or ".intercalate (expected.map FieldKind.name)
  | .notAColumn key actual =>
      "ColumnVector does not support value of type " ++ actual.name ++ " for key " ++ key
  | .malformed key => "Malformed JSON for field " ++ key ++ ": " ++ jsonMarker
  | .malformedId key => "Malformed id in JSON for field " ++ key ++ ": " ++ integerMarker
  | .unrecognized key => "Unrecognized JSON encoding for field " ++ key
  | .recordNotAnObject => "A record must be a JSON object"

end FieldFault

/-- A ragged sequence that does not keep the fixed stride. -/
inductive AlignmentFault where
  | noStride (key : String) (sequence : Int64) (offsets : List Int64)
  | misaligned (key : String) (sequence : Int64) (actual expected : List Int64)
  | steps (key : String) (sequence : Int64) (rows count stride : Nat)

namespace AlignmentFault

def message : AlignmentFault → String
  | .noStride key sequence offsets =>
      "Cannot infer a positive sequence length for " ++ key ++ " " ++ toString sequence.toInt ++
        " from offsets " ++ offsetsText offsets
  | .misaligned key sequence actual expected =>
      "Unexpected offsets for " ++ key ++ " " ++ toString sequence.toInt ++ ": " ++
        offsetsText actual ++ ". Expected " ++ offsetsText expected
  | .steps key sequence rows count stride =>
      "Payload for " ++ key ++ " " ++ toString sequence.toInt ++ " has " ++ toString rows ++
        " steps, expected " ++ toString count ++ " x " ++ toString stride

end AlignmentFault

inductive ConfigFile where
  | plain
  | normalization
  | features
  deriving Repr, DecidableEq

namespace ConfigFile

/-- A path with what the file should hold in front of it, the two held apart by `mark`. -/
def locate (file : ConfigFile) (mark path : String) : String :=
  match file with
  | .plain => path
  | .normalization => "normalization data" ++ mark ++ path
  | .features => "feature config" ++ mark ++ path

end ConfigFile

/-- A configuration that is refused before any record is processed. -/
inductive ConfigFault where
  | renamedNames (old new : Nat)
  | filterLists
  | noFunction
  | noRepeats
  | outputDropped (key : String)
  | emptyIdentity
  | noConcatenatedKeys
  | noNormalizerFactory
  | noEncoderFactory
  | keyInBothLists (key : String) (idLists idScoreLists : List String)
  | sequenceTargets (keys targets : Nat)
  | emptySequence
  | noSlateSize
  | noActions
  | emptyStackRow
  | normalizationDevice (name : String)
  | encodingDevice (name : String)
  | unknownFeatureType (name : String)
  | deviationNotPositive (feature : Int64)
  | missingBounds (feature : Int64)
  | emptyBounds (feature : Int64)
  | noParameters
  | malformedParameters
  | featuresNotAnObject
  | malformedFeatures
  | featureKeyNotAnInteger
  | unknownStage (name : String)
  | invalidStage (index : Nat) (option message : String)
  | malformedPipeline
  | unopened (file : ConfigFile) (path : String)
  | unparsed (file : ConfigFile) (path : String)

namespace ConfigFault

def featureText (feature : Int64) (complaint : String) : String :=
  "feature " ++ toString feature.toInt ++ ": " ++ complaint

def message : ConfigFault → String
  | .renamedNames old new =>
      "Rename got " ++ toString old ++ " old names but " ++ toString new ++ " new names"
  | .filterLists => "Filter requires exactly one of keep_keys and remove_keys"
  | .noFunction => "Lambda requires a callable"
  | .noRepeats => "UnsqueezeRepeat requires num_repeat >= 1"
  | .outputDropped key => "OuterProduct output_key " ++ key ++ " would be dropped with its inputs"
  | .emptyIdentity => "GetEye requires size > 0"
  | .noConcatenatedKeys => "Cat requires at least one input key"
  | .noNormalizerFactory => "DenseNormalization requires a normalizer factory"
  | .noEncoderFactory => "MapIDListFeatures requires a sparse encoder factory"
  | .keyInBothLists key idLists idScoreLists =>
      "Key " ++ key ++ " is in both id_list_keys " ++ bracketed idLists ++
        " and id_score_list_keys " ++ bracketed idScoreLists
  | .sequenceTargets keys targets =>
      "FixedLengthSequences got " ++ toString keys ++ " keys but " ++ toString targets ++ " to_keys"
  | .emptySequence => "FixedLengthSequences expected_length must be positive"
  | .noSlateSize => "SlateView slate_size is not set"
  | .noActions => "OneHotActions requires num_actions > 0"
  | .emptyStackRow => "StackDenseFixedSizeArray requires size > 0"
  | .normalizationDevice name => "Unsupported device for normalization: " ++ name
  | .encodingDevice name => "Unsupported device for sparse encoding: " ++ name
  | .unknownFeatureType name => "Unknown feature_type: " ++ name
  | .deviationNotPositive feature => featureText feature "CONTINUOUS requires stddev > 0"
  | .missingBounds feature =>
      featureText feature "CONTINUOUS_ACTION requires min_value and max_value"
  | .emptyBounds feature =>
      featureText feature "CONTINUOUS_ACTION requires max_value > min_value"
  | .noParameters => "Normalization data requires a dense_normalization_parameters array"
  | .malformedParameters => "Malformed normalization data: " ++ jsonMarker
  | .featuresNotAnObject => "Feature config must be a JSON object"
  | .malformedFeatures => "Malformed feature config: " ++ jsonMarker
  | .featureKeyNotAnInteger =>
      "Feature config id2name keys must be integers: " ++ integerMarker
  | .unknownStage name => "Unknown transform type: " ++ name
  | .invalidStage index option message =>
      "Invalid pipeline config at stage " ++ toString index ++ ", " ++ option ++ ": " ++ message
  | .malformedPipeline => "Invalid pipeline config: " ++ jsonMarker
  | .unopened file path => "Failed to open " ++ file.locate ": " path
  | .unparsed file path => "Failed to parse " ++ file.locate " " path ++ ": " ++ jsonMarker

end ConfigFault

/-- Why an operation gave no result. -/
inductive Fault where
  | shape (cause : ShapeFault)
  | missingField (key : String)
  | field (cause : FieldFault)
  | alignment (cause : AlignmentFault)
  | config (cause : ConfigFault)
  /-- A JSON value of the wrong form, met where nothing names its context, or a text
  that JSON cannot hold. -/
  | json
  /-- A directory was opened and read as if it were a file. -/
  | directoryRead
  /-- Raised by a function that a caller supplied, with a code where it is one of the
  pipeline's own kind. -/
  | supplied (code? : Option Text) (text : Text)
  /-- Thrown by a function that a caller supplied, and no exception: it has no text,
  and nothing catches it. -/
  | foreign

/-- What is reported of a fault. -/
structure FaultReport where
  code : String
  message : String

namespace Fault

def wording : Fault → Text
  | .shape cause => cause.message
  | .missingField key => "Missing field: " ++ key
  | .field cause => cause.message
  | .alignment cause => cause.message
  | .config cause => cause.message
  | .json => jsonMarker
  | .directoryRead => "basic_filebuf::underflow error reading the file: Is a directory"
  | .supplied _ text => text
  | .foreign => ""

def message (fault : Fault) : Text := fault.wording.upToNul

/-- The code under which faults of one kind are counted; faults that are not of the
pipeline's own kind have none. -/
def code? : Fault → Option Text
  | .shape _ => some "E_SHAPE_VIOLATION"
  | .missingField _ => some "E_MISSING_FIELD"
  | .field _ => some "E_TYPE_VIOLATION"
  | .alignment _ => some "E_SEQUENCE_ALIGNMENT"
  | .config _ => some "E_CONFIG"
  | .json => none
  | .directoryRead => none
  | .supplied code? _ => code?.map Text.upToNul
  | .foreign => none

def code (fault : Fault) : Text := fault.code?.getD "E_INTERNAL"

/-- The report of a fault, where it is an exception and its code and text can be
written. -/
def report? : Fault → Option FaultReport
  | .foreign => none
  | fault => do return { code := (← fault.code.utf8?), message := (← fault.message.utf8?) }

/-- What becomes of a fault in a pipeline that has to report it. Where the report cannot
be written, the fault of the writer takes its place. -/
def passedOn (fault : Fault) : Fault :=
  match fault.report?, fault with
  | some _, fault => fault
  | none, .foreign => .foreign
  | none, _ => .json

theorem passedOn_of_reported {fault : Fault} {report : FaultReport}
    (reported : fault.report? = some report) : fault.passedOn = fault := by
  unfold passedOn
  rw [reported]

theorem passedOn_of_unreported {fault : Fault} (unreported : fault.report? = none)
    (exception : fault ≠ .foreign) : fault.passedOn = .json := by
  unfold passedOn
  rw [unreported]
  cases fault with
  | foreign => exact (exception rfl).elim
  | _ => rfl

theorem passedOn_passedOn (fault : Fault) : fault.passedOn.passedOn = fault.passedOn := by
  cases reported : fault.report? with
  | some report => rw [passedOn_of_reported reported, passedOn_of_reported reported]
  | none =>
      cases fault with
      | foreign => rfl
      | _ =>
          rw [passedOn_of_unreported reported (fun same => nomatch same)]
          rfl

end Fault

instance : MonadLift (Except ShapeFault) (Except Fault) where
  monadLift outcome := outcome.mapError Fault.shape

instance : MonadLift (Except ConfigFault) (Except Fault) where
  monadLift outcome := outcome.mapError Fault.config

end Featurize
