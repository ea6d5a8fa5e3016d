import Featurize.Json.Reader
import Featurize.Pipeline.Build

/-!
Loading of files. A file that is not there and a text that is not JSON are
faults of the configuration that name the path. A directory in place of a file and
a number too large for every double are not matters of form and keep their own
faults.
-/

namespace Featurize

/-- What is found at a path. -/
inductive FileContent where
  | missing
  /-- It can be opened like a file, but not read. -/
  | directory
  | text (written : String)
  deriving Repr, DecidableEq

def loadJson (file : ConfigFile) (path : String) (content : FileContent) : Except Fault Json :=
  match content with
  | .missing => .error (.config (.unopened file path))
  | .directory => .error .directoryRead
  | .text text =>
      match Json.parse text with
      | .ok json => .ok json
      | .error .malformed => .error (.config (.unparsed file path))
      | .error .numberTooLarge => .error .json

/-- Normalization data from a file; a file that is not there is reported. -/
def loadNormalization (path : String) (content : FileContent) : Traced NormalizationData := do
  if content = .missing then Traced.report (.normalizationUnopened path)
  let json ← loadJson .normalization path content
  (NormalizationData.ofJson json).mapError Fault.config

def loadFeatures (path : String) (content : FileContent) : Except Fault FeatureConfig := do
  let json ← loadJson .features path content
  FeatureConfig.ofJson json

end Featurize
