import Featurize.Record.Basic
import Featurize.Telemetry.Traced

/-!
Runs: what one application of a stage leaves behind. The state and the effects
are there whether or not the record could be made, since a stage that fails
half way keeps what it has learned until then.
-/

namespace Featurize

/-- The outcome of applying a stage to a record. -/
structure Run (State : Type) where
  state : State
  effects : List Effect
  outcome : Except Fault Record

namespace Run

variable {State Other : Type}

def silent (state : State) (outcome : Except Fault Record) : Run State :=
  { state, effects := [], outcome }

def map (change : State → Other) (run : Run State) : Run Other :=
  { state := change run.state, effects := run.effects, outcome := run.outcome }

/-- A run with effects that came before it. -/
def after (run : Run State) (effects : List Effect) : Run State :=
  { run with effects := effects ++ run.effects }

/-- What a run gives to the outside: its effects and the record, without the state. -/
def traced (run : Run State) : Traced Record := { effects := run.effects, outcome := run.outcome }

end Run

end Featurize
