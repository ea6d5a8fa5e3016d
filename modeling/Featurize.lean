import Featurize.CommandLine
import Featurize.Main
import Featurize.Proofs.Outcome
import Featurize.Proofs.Histories
import Featurize.Proofs.Sequences.Selection
import Featurize.Proofs.Sequences.Stride
import Featurize.Proofs.Tensors.Elements
import Featurize.Proofs.Normalization.Entries
import Featurize.Proofs.Stages.Renewal
import Featurize.Proofs.Stages.HistoryIndependence
import Featurize.Proofs.Sequences.Slates
import Featurize.Proofs.Collection
import Featurize.Proofs.Sparse.Vocabulary
import Featurize.Proofs.Json.WrittenForms
import Featurize.Proofs.Records.RoundTrip
import Featurize.Proofs.Shapes.Volume
import Featurize.Proofs.Shapes.Stretching
import Featurize.Proofs.Shapes.Merging
import Featurize.Proofs.Tensors.Expansion
import Featurize.Proofs.Tensors.Alignment
import Featurize.Proofs.Stages.Confinement
import Featurize.Proofs.Stages.Construction
import Featurize.Proofs.Stages.Locality
import Featurize.Proofs.Records.PresencePairing
import Featurize.Proofs.Pipelines.Validation
import Featurize.Proofs.Pipelines.ExactOptions
import Featurize.Proofs.Sequences.BatchOrder
import Featurize.Proofs.Grouping
import Featurize.Proofs.Stages.Grouping
import Featurize.Proofs.Stages.Accounting
import Featurize.Proofs.Records.Exactness
import Featurize.Proofs.Stages.Exactness
import Featurize.Proofs.Telemetry.Separation
import Featurize.Proofs.Json.Reading
import Featurize.Proofs.Pipelines.Loading
import Featurize.Proofs.Sequences.KnownStride
import Featurize.Proofs.Records.Stacking
import Featurize.Proofs.Records.Renaming
import Featurize.Proofs.Sparse.NamedFeatures
import Featurize.Proofs.Tensors.Joining
import Featurize.Proofs.Tensors.Columns
import Featurize.Proofs.Records.ConstantSlices
import Featurize.Proofs.Tensors.Broadcasting
import Featurize.Proofs.Normalization.Masking
import Featurize.Proofs.Tensors.Batches
import Featurize.Proofs.Stages.Batches
import Featurize.Proofs.Stages.KeyOrder
import Featurize.Proofs.Stages.FirstNeed
import Featurize.Proofs.Json.IdKeys
import Featurize.Proofs.Normalization.Statistics
import Featurize.Proofs.Stages.Repetition
import Featurize.Proofs.Tensors.Tiling
import Featurize.Proofs.Records.Copies
import Featurize.Proofs.Tensors.Reshaping
import Featurize.Proofs.Tensors.OuterProduct
import Featurize.Proofs.Tensors.Concatenation
import Featurize.Proofs.Decimal.WholeNumbers
import Featurize.Proofs.Records.Actions
