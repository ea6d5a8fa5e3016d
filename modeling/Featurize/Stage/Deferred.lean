import Featurize.Fault

/-!
Collaborators that are built when they are first needed. A call of the builder
either gives the collaborator, which is kept from then on, or a fault, after
which the next need calls again. The builder is told how many calls came before,
so that one whose answers change can be described.
-/

namespace Featurize

/-- A collaborator with the calls made so far to build it. -/
structure Deferred (Product : Type) where
  build : Nat → Except Fault Product
  calls : Nat := 0
  product? : Option Product := none

/-- What a need for a collaborator gives. `built` says that this need built it. -/
structure Supply (Product : Type) where
  deferred : Deferred Product
  product : Except Fault Product
  built : Bool

namespace Deferred

variable {Product : Type}

/-- The collaborator, built now if it is not there yet. -/
def supply (deferred : Deferred Product) : Supply Product :=
  match deferred.product? with
  | some product => { deferred, product := .ok product, built := false }
  | none =>
      let called := { deferred with calls := deferred.calls + 1 }
      match deferred.build deferred.calls with
      | .ok product =>
          { deferred := { called with product? := some product }
            product := .ok product
            built := true }
      | .error fault => { deferred := called, product := .error fault, built := false }

end Deferred

end Featurize
