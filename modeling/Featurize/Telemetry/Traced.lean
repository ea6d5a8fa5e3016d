import Featurize.Telemetry.Registry

/-!
Computations that leave effects. The effects are there whether or not a value
is; what follows a fault is not run and leaves none.
-/

namespace Featurize

/-- A value, or the fault in its place, with the effects on the way to it. -/
structure Traced (Value : Type) where
  effects : List Effect
  outcome : Except Fault Value

namespace Traced

def ofOutcome {Value : Type} (outcome : Except Fault Value) : Traced Value :=
  { effects := [], outcome }

def report (event : Event) : Traced Unit :=
  { effects := [.reported event], outcome := .ok () }

/-- One computation after another; a fault of the first one is that of both. -/
def andThen {Value Next : Type} (first : Traced Value) (next : Value → Traced Next) :
    Traced Next :=
  match first.outcome with
  | .error fault => { effects := first.effects, outcome := .error fault }
  | .ok value =>
      { effects := first.effects ++ (next value).effects, outcome := (next value).outcome }

instance : Monad Traced where
  pure value := .ofOutcome (.ok value)
  bind := andThen

instance : MonadLift (Except Fault) Traced where
  monadLift := ofOutcome

theorem outcome_andThen {Value Next : Type} (first : Traced Value)
    (next : Value → Traced Next) :
    (first.andThen next).outcome = first.outcome >>= fun value => (next value).outcome := by
  unfold andThen
  cases first.outcome <;> rfl

end Traced

end Featurize
