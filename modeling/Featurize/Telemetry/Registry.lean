import Featurize.Telemetry.Event

/-!
Counters and histograms. Both are kept under a key written from a name and its
labels; counters wrap at 64 bits. The exposition text lists the counters first,
each group in the order of the keys. What a stage leaves for the registry is an
effect, applied when the stage is done.
-/

namespace Featurize

abbrev Labels := NameMap String

def metricKey (name : String) (labels : Labels) : String :=
  if labels.isEmpty then name
  else
    name ++ "\x7b" ++
      ",".intercalate (labels.toList.map (fun (label, value) => label ++ "=\"" ++ value ++ "\"")) ++
      "\x7d"

structure Histogram where
  count : Int64 := 0
  sum : Double := 0.0
  highest : Double := 0.0

namespace Histogram

/-- The histogram with one more sample; no sample lowers the highest one. -/
def insert (histogram : Histogram) (sample : Double) : Histogram :=
  { count := histogram.count + 1
    sum := histogram.sum + sample
    highest := if sample > histogram.highest then sample else histogram.highest }

end Histogram

/-- All counters and histograms by key. -/
structure Registry where
  counters : NameMap Int64 := ∅
  histograms : NameMap Histogram := ∅

/-- What happens beside the record that a stage returns. -/
inductive Effect where
  | reported (event : Event)
  | counted (name : String) (labels : Labels) (amount : Int64)
  /-- The time that the work took, in milliseconds, goes to a histogram. -/
  | timed (name : String) (labels : Labels)

namespace Effect

def event? : Effect → Option Event
  | .reported event => some event
  | _ => none

end Effect

namespace Registry

def increment (registry : Registry) (name : String) (labels : Labels) (amount : Int64) :
    Registry :=
  let key := metricKey name labels
  { registry with
    counters := registry.counters.insert key ((registry.counters[key]?).getD 0 + amount) }

def recordSample (registry : Registry) (name : String) (labels : Labels) (sample : Double) :
    Registry :=
  let key := metricKey name labels
  { registry with
    histograms :=
      registry.histograms.insert key (((registry.histograms[key]?).getD {}).insert sample) }

def counterValue (registry : Registry) (name : String) (labels : Labels) : Int64 :=
  (registry.counters[metricKey name labels]?).getD 0

/-- Applies an effect of work that took `elapsed` milliseconds. -/
def absorb (elapsed : Double) (registry : Registry) : Effect → Registry
  | .reported _ => registry
  | .counted name labels amount => registry.increment name labels amount
  | .timed name labels => registry.recordSample name labels elapsed

def exposition (registry : Registry) : String :=
  let counters := registry.counters.toList.map fun (key, value) =>
    key ++ " " ++ toString value.toInt ++ "\n"
  let histograms := registry.histograms.toList.map fun (key, histogram) =>
    key ++ "_count " ++ toString histogram.count.toInt ++ "\n" ++
      key ++ "_sum " ++ Decimal.fixed 6 histogram.sum ++ "\n" ++
      key ++ "_max " ++ Decimal.fixed 6 histogram.highest ++ "\n"
  String.join counters ++ String.join histograms

end Registry

def labelFields (labels : Labels) : List (String × Json) :=
  if labels.isEmpty then [] else [("labels", .ofNames .str labels)]

def LogLine.counter (name : String) (amount : Int64) (component : String) (labels : Labels) :
    LogLine :=
  { severity := .info, event := "metric", component
    fields := [("metric_name", .str name), ("value", .ofId amount)] ++ labelFields labels }

def LogLine.histogram (name : String) (sample : Double) (unit component : String)
    (labels : Labels) : LogLine :=
  { severity := .debug, event := "metric", component
    fields := [("metric_name", .str name), ("value", .double sample), ("unit", .str unit)] ++
      labelFields labels }

end Featurize
