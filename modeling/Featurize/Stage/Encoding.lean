import Featurize.Sparse.Encoder
import Featurize.Stage.Deferred
import Featurize.Stage.Run

/-!
The stage that encodes sparse features. Fields of raw id lists become fields of
encoded ones. Where the model has no sparse features, and where a record lacks a
listed field, the field becomes absent. The encoder is built by the first listed
field that has to be encoded.
-/

namespace Featurize

/-- Makes a sparse encoder for a feature configuration on a device. The number says
how many calls of the same stage came before. -/
abbrev EncoderFactory := Nat → FeatureConfig → Device → Except Fault SparseEncoder

def EncoderFactory.standard : EncoderFactory :=
  fun _ config device =>
    ((config.encoder device).map MappedEncoder.toSparseEncoder).mapError Fault.config

/-- The form of a raw sparse field. -/
inductive SparseForm where
  | ids
  | scoredIds
  deriving Repr, DecidableEq

/-- The encoding of fields of id lists and of id lists with scores. -/
structure IdListMapping where
  idListKeys : List String
  idScoreListKeys : List String
  config : FeatureConfig
  device : Device
  encoder : Deferred SparseEncoder

namespace IdListMapping

/-- The stage with the given options. No key may be in both lists, and the stage
needs a factory. -/
def configure (idListKeys idScoreListKeys : List String) (config : FeatureConfig)
    (device : Device) (factory : Option EncoderFactory) : Except ConfigFault IdListMapping :=
  match idScoreListKeys.find? (fun key => idListKeys.contains key) with
  | some key => .error (.keyInBothLists key idListKeys idScoreListKeys)
  | none =>
      match factory with
      | some make =>
          .ok { idListKeys, idScoreListKeys, config, device
                encoder := { build := fun call => make call config device } }
      | none => .error .noEncoderFactory

def entries (stage : IdListMapping) : List (String × SparseForm) :=
  stage.idListKeys.map (fun key => (key, .ids)) ++
    stage.idScoreListKeys.map (fun key => (key, .scoredIds))

def encodeField (encoder : SparseEncoder) (key : String) (field : Field) :
    SparseForm → Except Fault Field
  | .ids => do return .encodedIdList (← encoder.encodeIds (← field.asIdList key))
  | .scoredIds => do
      return .encodedIdScoreList (← encoder.encodeScores (← field.asIdScoreList key))

def enabled (stage : IdListMapping) : Bool := !stage.config.names.isEmpty

def encodeAll (stage : IdListMapping) :
    List (String × SparseForm) → Deferred SparseEncoder → Record → Run (Deferred SparseEncoder)
  | [], encoder, record => .silent encoder (.ok record)
  | (key, form) :: rest, encoder, record =>
      match if stage.enabled then record.find? key else none with
      | none => encodeAll stage rest encoder (record.set key .absent)
      | some field =>
          let supply := encoder.supply
          let effects : List Effect :=
            if supply.built then
              [.reported (.encoderBuilt stage.device.name stage.config.names.size)]
            else []
          match supply.product >>= fun product => encodeField product key field form with
          | .error fault => (Run.silent supply.deferred (.error fault)).after effects
          | .ok encoded =>
              (encodeAll stage rest supply.deferred (record.set key encoded)).after effects

def apply (stage : IdListMapping) (record : Record) : Run IdListMapping :=
  (stage.encodeAll stage.entries stage.encoder record).map (fun encoder => { stage with encoder })

def describe (stage : IdListMapping) : String :=
  "MapIDListFeatures(id_list=" ++ bracketed stage.idListKeys ++ ", id_score_list=" ++
    bracketed stage.idScoreListKeys ++ ")"

end IdListMapping

end Featurize
