import Featurize.Json.Access

/-!
The sparse features that a model knows: a name for each enabled feature id, and
for some names a vocabulary in which a position stands for an embedding row.
Feature ids without a name are disabled.
-/

namespace Featurize

/-- Names of features by id, and vocabularies by name. -/
structure FeatureConfig where
  names : IdMap String := ∅
  vocabularies : NameMap (List Int64) := ∅

namespace FeatureConfig

/-- A member of the configuration read as a map, which is empty where it is missing. -/
def readMap {Entries : Type} (json : Json) (name : String) (empty : Entries)
    (read : Json → Except ReadFault Entries) : Except ConfigFault Entries :=
  match json.optional name read with
  | .ok entries => .ok (entries.getD empty)
  | .error .keyNotAnInteger => .error .featureKeyNotAnInteger
  | .error _ => .error .malformedFeatures

def ofJson (json : Json) : Except ConfigFault FeatureConfig :=
  if json.isObject then do
    let names ← readMap json "id2name" ∅ (Json.asIdMap Json.asString)
    let vocabularies ← readMap json "id_mappings" ∅ (Json.asNameMap Json.asIds)
    return { names, vocabularies }
  else .error .featuresNotAnObject

end FeatureConfig

end Featurize
