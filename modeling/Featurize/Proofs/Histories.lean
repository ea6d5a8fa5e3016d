import Featurize.Stage.Deferred
import Featurize.Stage.Run

/-!
Histories: stages to which records have been applied before. Each of those records
succeeded or failed; what one application keeps, every history keeps. A collaborator
whose builder gives one answer at every call is the same one whenever it is needed,
however many needs and failed calls came before.
-/

namespace Featurize

namespace Run

variable {State : Type} {apply : State → Record → Run State}

def stateAfter (apply : State → Record → Run State) (state : State) (history : List Record) :
    State :=
  history.foldl (fun state record => (apply state record).state) state

def outcomes (apply : State → Record → Run State) : State → List Record →
    List (Except Fault Record)
  | _, [] => []
  | state, record :: records =>
      (apply state record).outcome :: outcomes apply (apply state record).state records

theorem stateAfter_append (state : State) (history later : List Record) :
    stateAfter apply state (history ++ later) =
      stateAfter apply (stateAfter apply state history) later :=
  List.foldl_append

theorem stateAfter_keeps (Kept : State → Prop)
    (step : ∀ state record, Kept state → Kept (apply state record).state)
    {state : State} (start : Kept state) (history : List Record) :
    Kept (stateAfter apply state history) := by
  induction history generalizing state with
  | nil => exact start
  | cons record history ih => exact ih (step state record start)

/-- When each record leads to one settled state, from the first state and from the settled one,
and has the same outcome in both, every record fares as if it were the first. -/
theorem history_of_settled {state settled : State} {records : List Record}
    (first : ∀ record ∈ records, (apply state record).state = settled)
    (again : ∀ record ∈ records, (apply settled record).state = settled ∧
      (apply settled record).outcome = (apply state record).outcome) :
    outcomes apply state records = records.map (fun record => (apply state record).outcome) ∧
      stateAfter apply state records = if records = [] then state else settled := by
  have later : ∀ rest, (∀ record ∈ rest, record ∈ records) →
      outcomes apply settled rest = rest.map (fun record => (apply state record).outcome) ∧
        stateAfter apply settled rest = settled := by
    intro rest within
    induction rest with
    | nil => exact ⟨rfl, rfl⟩
    | cons record rest ih =>
        obtain ⟨stays, same⟩ := again record (within record (List.mem_cons_self ..))
        obtain ⟨tailOutcomes, tailState⟩ :=
          ih (fun other member => within other (List.mem_cons_of_mem _ member))
        constructor
        · rw [outcomes, stays, same, tailOutcomes, List.map_cons]
        · change stateAfter apply (apply settled record).state rest = settled
          rw [stays, tailState]
  cases records with
  | nil => exact ⟨rfl, rfl⟩
  | cons record rest =>
      have reached := first record (List.mem_cons_self ..)
      obtain ⟨tailOutcomes, tailState⟩ :=
        later rest (fun other member => List.mem_cons_of_mem _ member)
      constructor
      · rw [outcomes, reached, tailOutcomes, List.map_cons]
      · rw [if_neg (List.cons_ne_nil record rest)]
        change stateAfter apply (apply state record).state rest = settled
        rw [reached, tailState]

end Run

namespace Deferred

variable {Product : Type} {deferred : Deferred Product} {product : Product} {fault : Fault}

/-! ### One need -/

theorem supply_of_held (held : deferred.product? = some product) :
    deferred.supply = { deferred, product := .ok product, built := false } := by
  unfold supply
  rw [held]

theorem supply_of_built (missing : deferred.product? = none)
    (given : deferred.build deferred.calls = .ok product) :
    deferred.supply =
      { deferred :=
          { deferred with calls := deferred.calls + 1, product? := some product }
        product := .ok product
        built := true } := by
  unfold supply
  rw [missing]
  simp only [given]

theorem supply_of_failed (missing : deferred.product? = none)
    (failed : deferred.build deferred.calls = .error fault) :
    deferred.supply =
      { deferred := { deferred with calls := deferred.calls + 1 }
        product := .error fault
        built := false } := by
  unfold supply
  rw [missing]
  simp only [failed]

theorem built_of_error (failed : deferred.supply.product = .error fault) :
    deferred.supply.built = false := by
  cases held : deferred.product? with
  | some product => rw [supply_of_held held]
  | none =>
      cases called : deferred.build deferred.calls with
      | error fault => rw [supply_of_failed held called]
      | ok product =>
          rw [supply_of_built held called] at failed
          cases failed

theorem held_iff_supplied :
    deferred.supply.deferred.product? = some product ↔ deferred.supply.product = .ok product := by
  cases held : deferred.product? with
  | some kept => rw [supply_of_held held, held, Option.some.injEq, Except.ok.injEq]
  | none =>
      cases called : deferred.build deferred.calls with
      | error fault =>
          rw [supply_of_failed held called]
          exact ⟨fun present => (nomatch held.symm.trans present), nofun⟩
      | ok built => rw [supply_of_built held called, Option.some.injEq, Except.ok.injEq]

/-! ### Builders of one answer -/

structure Steady (deferred : Deferred Product) : Prop where
  constant : ∀ call, deferred.build call = deferred.build 0
  kept : ∀ product, deferred.product? = some product → deferred.build 0 = .ok product

def unbuilt (deferred : Deferred Product) : Deferred Product := { build := deferred.build }

theorem steady_of_constant {build : Nat → Except Fault Product}
    (constant : ∀ call, build call = build 0) : Steady { build } :=
  ⟨constant, fun _product present => by cases present⟩

theorem build_supply (deferred : Deferred Product) :
    deferred.supply.deferred.build = deferred.build := by
  cases held : deferred.product? with
  | some product => rw [supply_of_held held]
  | none =>
      cases called : deferred.build deferred.calls with
      | error fault => rw [supply_of_failed held called]
      | ok product => rw [supply_of_built held called]

theorem Steady.product_supply (steady : deferred.Steady) :
    deferred.supply.product = deferred.build 0 := by
  cases held : deferred.product? with
  | some product =>
      rw [supply_of_held held]
      exact (steady.kept product held).symm
  | none =>
      rw [← steady.constant deferred.calls]
      cases called : deferred.build deferred.calls with
      | error fault => rw [supply_of_failed held called]
      | ok product => rw [supply_of_built held called]

theorem Steady.deferred_supply (steady : deferred.Steady) :
    deferred.supply.deferred.Steady := by
  refine ⟨fun call => ?_, fun product present => ?_⟩
  · rw [build_supply]
    exact steady.constant call
  · rw [build_supply, ← steady.product_supply]
    exact held_iff_supplied.mp present

theorem Steady.unbuilt (steady : deferred.Steady) : deferred.unbuilt.Steady :=
  steady_of_constant steady.constant

theorem Steady.product_supply_unbuilt (steady : deferred.Steady) :
    deferred.unbuilt.supply.product = deferred.supply.product :=
  steady.unbuilt.product_supply.trans steady.product_supply.symm

structure Gives (Wanted : Product → Prop) (deferred : Deferred Product) : Prop where
  built : ∀ call product, deferred.build call = .ok product → Wanted product
  kept : ∀ product, deferred.product? = some product → Wanted product

variable {Wanted : Product → Prop}

theorem Gives.product_supply (gives : deferred.Gives Wanted)
    (supplied : deferred.supply.product = .ok product) : Wanted product := by
  cases held : deferred.product? with
  | some kept =>
      rw [supply_of_held held] at supplied
      cases supplied
      exact gives.kept _ held
  | none =>
      cases called : deferred.build deferred.calls with
      | error fault =>
          rw [supply_of_failed held called] at supplied
          cases supplied
      | ok built =>
          rw [supply_of_built held called] at supplied
          cases supplied
          exact gives.built _ _ called

theorem Gives.deferred_supply (gives : deferred.Gives Wanted) :
    deferred.supply.deferred.Gives Wanted := by
  refine ⟨fun call product given => ?_, fun product present => ?_⟩
  · rw [build_supply] at given
    exact gives.built call product given
  · exact gives.product_supply (held_iff_supplied.mp present)

end Deferred

end Featurize
