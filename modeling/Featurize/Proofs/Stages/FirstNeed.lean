import Featurize.Proofs.Records.Renaming
import Featurize.Proofs.Stages.KeyOrder
import Mathlib.Data.List.Induction

/-!
The first need of a collaborator. A stage calls the builder of its collaborator in a record that
needs the collaborator while no call has given one, and at no other time. So every call but the
last one has failed, what the last one gave serves all records from then on, and the report of the
construction stands in the effects of the one record in which that call was made.
-/

namespace Featurize

def Run.effectsOver {State : Type} (apply : State → Record → Run State) :
    State → List Record → List Effect
  | _, [] => []
  | state, record :: records =>
      (apply state record).effects ++ effectsOver apply (apply state record).state records

theorem Run.effectsOver_concat {State : Type} {apply : State → Record → Run State} (state : State)
    (history : List Record) (record : Record) :
    effectsOver apply state (history ++ [record]) =
      effectsOver apply state history ++
        (apply (stateAfter apply state history) record).effects := by
  induction history generalizing state with
  | nil => exact List.append_nil _
  | cons first history ih =>
      rw [List.cons_append, effectsOver, effectsOver, ih, List.append_assoc]
      rfl

namespace Deferred

variable {Product : Type} {build : Nat → Except Fault Product} {deferred : Deferred Product}
  {calls : Nat} {product : Product} {fault : Fault}

/-! ### Calls of a builder -/

def Returned (build : Nat → Except Fault Product) (calls : Nat) : Prop :=
  ∃ call < calls, ∃ product, build call = .ok product

/-- Among the first calls of a builder, the collaborator comes from the first one that gave any. -/
def FirstReturned (build : Nat → Except Fault Product) (calls : Nat) (product : Product) : Prop :=
  ∃ call < calls, build call = .ok product ∧ ¬ Returned build call

theorem FirstReturned.returned (first : FirstReturned build calls product) :
    Returned build calls := by
  rcases first with ⟨call, before, given, _none⟩
  exact ⟨call, before, product, given⟩

theorem Returned.mono {later : Nat} (returned : Returned build calls) (ordered : calls ≤ later) :
    Returned build later := by
  rcases returned with ⟨call, before, given⟩
  exact ⟨call, Nat.lt_of_lt_of_le before ordered, given⟩

theorem returned_succ_iff :
    Returned build (calls + 1) ↔ Returned build calls ∨ ∃ product, build calls = .ok product := by
  constructor
  · rintro ⟨call, before, given⟩
    rcases Nat.lt_succ_iff_lt_or_eq.mp before with earlier | last
    · exact .inl ⟨call, earlier, given⟩
    · exact .inr (last ▸ given)
  · intro either
    rcases either with earlier | last
    · exact earlier.mono (Nat.le_succ calls)
    · exact ⟨calls, Nat.lt_succ_self calls, last⟩

theorem FirstReturned.unique {other : Product} (first : FirstReturned build calls product)
    (second : FirstReturned build calls other) : product = other := by
  rcases first with ⟨call, _before, given, none⟩
  rcases second with ⟨otherCall, _otherBefore, otherGiven, otherNone⟩
  rcases Nat.lt_trichotomy call otherCall with less | same | greater
  · exact absurd ⟨call, less, product, given⟩ otherNone
  · subst same
    exact Except.ok.inj (given.symm.trans otherGiven)
  · exact absurd ⟨otherCall, greater, other, otherGiven⟩ none

structure Follows (build : Nat → Except Fault Product) (deferred : Deferred Product) : Prop where
  builder : deferred.build = build
  earlier : ¬ Returned build (deferred.calls - 1)
  held_iff : ∀ product, deferred.product? = some product ↔
    FirstReturned build deferred.calls product

namespace Follows

theorem start (build : Nat → Except Fault Product) : Follows build { build } where
  builder := rfl
  earlier := fun ⟨_call, before, _given⟩ => absurd before (Nat.not_lt_zero _)
  held_iff product := by
    constructor
    · intro held
      cases held
    · rintro ⟨call, before, _given⟩
      exact absurd before (Nat.not_lt_zero call)

theorem missing_iff (follows : Follows build deferred) :
    deferred.product? = none ↔ ¬ Returned build deferred.calls := by
  constructor
  · rintro missing ⟨call, before, product, given⟩
    have last : ¬ Returned build call := by
      intro returned
      exact follows.earlier (returned.mono (by omega))
    have held := (follows.held_iff product).mpr ⟨call, before, given, last⟩
    rw [missing] at held
    cases held
  · intro none
    cases held : deferred.product? with
    | none => rfl
    | some product => exact absurd ((follows.held_iff product).mp held).returned none

theorem supply (follows : Follows build deferred) : Follows build deferred.supply.deferred := by
  cases held : deferred.product? with
  | some product =>
      rw [supply_of_held held]
      exact follows
  | none =>
      have none := follows.missing_iff.mp held
      have builder := follows.builder
      cases called : deferred.build deferred.calls with
      | error fault =>
          rw [supply_of_failed held called]
          refine ⟨builder, none, fun product => ?_⟩
          rw [held]
          constructor
          · intro impossible
            cases impossible
          · intro first
            rcases returned_succ_iff.mp first.returned with earlier | ⟨given, last⟩
            · exact absurd earlier none
            · rw [← builder, called] at last
              cases last
      | ok built =>
          rw [supply_of_built held called]
          have first : FirstReturned build (deferred.calls + 1) built :=
            ⟨deferred.calls, Nat.lt_succ_self _, builder ▸ called, none⟩
          refine ⟨builder, none, fun product => ?_⟩
          rw [Option.some.injEq]
          constructor
          · intro same
            exact same ▸ first
          · exact first.unique

end Follows

end Deferred

/-! ### Runs of a stage -/

/-- What one record makes of the builder of a collaborator: the calls before and behind it, its
effects and its outcome. -/
structure AsksWhenNeeded {Product : Type} (build : Nat → Except Fault Product) (needed : Prop)
    (event : Event) (use : Product → Except Fault Record) (before after : Nat)
    (effects : List Effect) (outcome : Except Fault Record) : Prop where
  /-- A need makes one call as long as no call has given a collaborator. -/
  called : needed → ¬ Deferred.Returned build before → after = before + 1
  spared : ¬ needed ∨ Deferred.Returned build before → after = before
  /-- The call that gives the collaborator is reported, and nothing else is. -/
  reported : ¬ Deferred.Returned build before → Deferred.Returned build after →
    effects = [.reported event]
  silent : Deferred.Returned build before ∨ ¬ Deferred.Returned build after → effects = []
  /-- The record is served by what the first call to return gave, or by no collaborator at all. -/
  served : ∀ product, Deferred.FirstReturned build after product ∨ ¬ needed →
    outcome = use product
  refused : needed → ¬ Deferred.Returned build after →
    ∃ fault, build before = .error fault ∧ outcome = .error fault

/-- A stage that calls the builder of its collaborator in the first records that need one, until a
call gives it, whatever records it is applied to. -/
structure BuiltAtFirstNeed {State Product : Type} (apply : State → Record → Run State)
    (start : State) (calls : State → Nat) (build : Nat → Except Fault Product)
    (Needed : Record → Prop) (event : Event) (use : Product → Record → Except Fault Record) :
    Prop where
  asks : ∀ history record,
    AsksWhenNeeded build (Needed record) event (fun product => use product record)
      (calls (Run.stateAfter apply start history))
      (calls (apply (Run.stateAfter apply start history) record).state)
      (apply (Run.stateAfter apply start history) record).effects
      (apply (Run.stateAfter apply start history) record).outcome
  /-- No call follows one that gave a collaborator. -/
  earlier : ∀ history,
    ¬ Deferred.Returned build (calls (Run.stateAfter apply start history) - 1)
  /-- Over a whole history the construction is reported once if there was one, and else never. -/
  once : ∀ history, Deferred.Returned build (calls (Run.stateAfter apply start history)) →
    Run.effectsOver apply start history = [.reported event]
  never : ∀ history, ¬ Deferred.Returned build (calls (Run.stateAfter apply start history)) →
    Run.effectsOver apply start history = []

section Runs

variable {State Product : Type} {apply : State → Record → Run State} {start : State}
  {place : Deferred Product → State} {calls : State → Nat} {build : Nat → Except Fault Product}
  {Needed : Record → Prop} {event : Event} {use : Product → Record → Except Fault Record}
  {deferred : Deferred Product}

/-- Reports add up to one for a construction, since no call is made behind the one that returned. -/
theorem effectsOver_of_asks
    (asks : ∀ history record,
      AsksWhenNeeded build (Needed record) event (fun product => use product record)
        (calls (Run.stateAfter apply start history))
        (calls (apply (Run.stateAfter apply start history) record).state)
        (apply (Run.stateAfter apply start history) record).effects
        (apply (Run.stateAfter apply start history) record).outcome)
    (fresh : ¬ Deferred.Returned build (calls start)) (history : List Record) :
    (Deferred.Returned build (calls (Run.stateAfter apply start history)) →
      Run.effectsOver apply start history = [.reported event]) ∧
    (¬ Deferred.Returned build (calls (Run.stateAfter apply start history)) →
      Run.effectsOver apply start history = []) := by
  induction history using List.reverseRecOn with
  | nil => exact ⟨fun returned => absurd returned fresh, fun _none => rfl⟩
  | append_singleton history record ih =>
      have last := asks history record
      have behind : Run.stateAfter apply start (history ++ [record]) =
          (apply (Run.stateAfter apply start history) record).state :=
        Run.stateAfter_append start history [record]
      rw [behind, Run.effectsOver_concat]
      by_cases before : Deferred.Returned build (calls (Run.stateAfter apply start history))
      · rw [last.spared (.inr before), last.silent (.inl before), List.append_nil]
        exact ih
      · rw [ih.2 before, List.nil_append]
        exact ⟨last.reported before, fun failed => last.silent (.inr failed)⟩

/-- A stage whose state is its deferred collaborator in a place of its own. A record that needs the
collaborator is supplied once, and any other one passes without it. -/
structure SuppliedOnce (apply : State → Record → Run State) (place : Deferred Product → State)
    (Needed : Record → Prop) (event : Event) (use : Product → Record → Except Fault Record) :
    Prop where
  needed : ∀ deferred record, Needed record →
    apply (place deferred) record =
      { state := place deferred.supply.deferred
        effects := if deferred.supply.built then [.reported event] else []
        outcome := deferred.supply.product >>= fun product => use product record }
  state : ∀ deferred record, ¬ Needed record →
    (apply (place deferred) record).state = place deferred
  effects : ∀ deferred record, ¬ Needed record → (apply (place deferred) record).effects = []
  outcome : ∀ deferred record, ¬ Needed record → ∀ product,
    (apply (place deferred) record).outcome = use product record

namespace SuppliedOnce

theorem asks_of_missing (supplied : SuppliedOnce apply place Needed event use)
    (counted : ∀ deferred, calls (place deferred) = deferred.calls)
    (follows : Deferred.Follows build deferred) (missing : deferred.product? = none)
    {record : Record} (needed : Needed record) :
    AsksWhenNeeded build (Needed record) event (fun product => use product record)
      deferred.calls (calls (apply (place deferred) record).state)
      (apply (place deferred) record).effects (apply (place deferred) record).outcome := by
  have none := follows.missing_iff.mp missing
  rw [supplied.needed deferred record needed]
  cases called : deferred.build deferred.calls with
  | error fault =>
      have failed : ¬ Deferred.Returned build (deferred.calls + 1) := by
        intro returned
        rcases Deferred.returned_succ_iff.mp returned with earlier | ⟨product, given⟩
        · exact none earlier
        · rw [← follows.builder, called] at given
          cases given
      simp only [Deferred.supply_of_failed missing called, counted]
      exact {
        called := fun _needed _none => rfl
        spared := fun spared => spared.elim (absurd needed) (absurd · none)
        reported := fun _none returned => absurd returned failed
        silent := fun _silent => rfl
        served := fun product served =>
          served.elim (fun first => absurd first.returned failed) (absurd needed)
        refused := fun _needed _failed => ⟨fault, follows.builder ▸ called, rfl⟩ }
  | ok built =>
      have given : build deferred.calls = .ok built := follows.builder ▸ called
      have first : Deferred.FirstReturned build (deferred.calls + 1) built :=
        ⟨deferred.calls, Nat.lt_succ_self _, given, none⟩
      simp only [Deferred.supply_of_built missing called, counted]
      exact {
        called := fun _needed _none => rfl
        spared := fun spared => spared.elim (absurd needed) (absurd · none)
        reported := fun _none _returned => rfl
        silent := fun silent => silent.elim (absurd · none) (absurd first.returned)
        served := fun product served => by
          rcases served with same | spared
          · rw [same.unique first]
            rfl
          · exact absurd needed spared
        refused := fun _needed failed => absurd first.returned failed }

theorem asks_of_held (supplied : SuppliedOnce apply place Needed event use)
    (counted : ∀ deferred, calls (place deferred) = deferred.calls)
    (follows : Deferred.Follows build deferred) {held : Product}
    (present : deferred.product? = some held) {record : Record} (needed : Needed record) :
    AsksWhenNeeded build (Needed record) event (fun product => use product record)
      deferred.calls (calls (apply (place deferred) record).state)
      (apply (place deferred) record).effects (apply (place deferred) record).outcome := by
  have first := (follows.held_iff held).mp present
  rw [supplied.needed deferred record needed]
  simp only [Deferred.supply_of_held present, counted]
  exact {
    called := fun _needed none => absurd first.returned none
    spared := fun _spared => rfl
    reported := fun none _returned => absurd first.returned none
    silent := fun _silent => rfl
    served := fun product served => by
      rcases served with same | spared
      · rw [same.unique first]
        rfl
      · exact absurd needed spared
    refused := fun _needed failed => absurd first.returned failed }

theorem asks_of_unneeded (supplied : SuppliedOnce apply place Needed event use)
    (counted : ∀ deferred, calls (place deferred) = deferred.calls)
    {record : Record} (unneeded : ¬ Needed record) :
    AsksWhenNeeded build (Needed record) event (fun product => use product record)
      deferred.calls (calls (apply (place deferred) record).state)
      (apply (place deferred) record).effects (apply (place deferred) record).outcome := by
  rw [supplied.state deferred record unneeded, counted]
  exact {
    called := fun needed _none => absurd needed unneeded
    spared := fun _spared => rfl
    reported := fun none returned => absurd returned none
    silent := fun _silent => supplied.effects deferred record unneeded
    served := fun product _served => supplied.outcome deferred record unneeded product
    refused := fun needed _failed => absurd needed unneeded }

theorem follows_step (supplied : SuppliedOnce apply place Needed event use) (record : Record)
    (follows : Deferred.Follows build deferred) :
    ∃ later, (apply (place deferred) record).state = place later ∧
      Deferred.Follows build later := by
  by_cases needed : Needed record
  · refine ⟨deferred.supply.deferred, ?_, follows.supply⟩
    rw [supplied.needed deferred record needed]
  · exact ⟨deferred, supplied.state deferred record needed, follows⟩

theorem exists_follows (supplied : SuppliedOnce apply place Needed event use)
    (build : Nat → Except Fault Product) (history : List Record) :
    ∃ deferred, Run.stateAfter apply (place { build }) history = place deferred ∧
      Deferred.Follows build deferred := by
  refine Run.stateAfter_keeps
    (fun state => ∃ deferred, state = place deferred ∧ Deferred.Follows build deferred)
    (fun state record kept => ?_) ⟨{ build }, rfl, .start build⟩ history
  rcases kept with ⟨deferred, same, follows⟩
  exact same ▸ supplied.follows_step record follows

/-- A collaborator that is supplied once in a record is built at the first need. -/
theorem builtAtFirstNeed (supplied : SuppliedOnce apply place Needed event use)
    (counted : ∀ deferred, calls (place deferred) = deferred.calls)
    (build : Nat → Except Fault Product) :
    BuiltAtFirstNeed apply (place { build }) calls build Needed event use := by
  have asks : ∀ history record,
      AsksWhenNeeded build (Needed record) event (fun product => use product record)
        (calls (Run.stateAfter apply (place { build }) history))
        (calls (apply (Run.stateAfter apply (place { build }) history) record).state)
        (apply (Run.stateAfter apply (place { build }) history) record).effects
        (apply (Run.stateAfter apply (place { build }) history) record).outcome := by
    intro history record
    rcases supplied.exists_follows build history with ⟨deferred, same, follows⟩
    rw [same, counted]
    by_cases needed : Needed record
    · cases held : deferred.product? with
      | none => exact supplied.asks_of_missing counted follows held needed
      | some product => exact supplied.asks_of_held counted follows held needed
    · exact supplied.asks_of_unneeded counted needed
  have earlier : ∀ history,
      ¬ Deferred.Returned build (calls (Run.stateAfter apply (place { build }) history) - 1) := by
    intro history
    rcases supplied.exists_follows build history with ⟨deferred, same, follows⟩
    rw [same, counted]
    exact follows.earlier
  have fresh : ¬ Deferred.Returned build (calls (place { build })) := by
    rw [counted]
    exact (Deferred.Follows.start build).earlier
  have effects := effectsOver_of_asks asks fresh
  exact ⟨asks, earlier, fun history => (effects history).1, fun history => (effects history).2⟩

end SuppliedOnce

end Runs

/-! ### Normalization of pairs -/

namespace DenseNormalization

def normalizedBy (keys : List String) (normalizer : Normalizer) (record : Record) :
    Except Fault Record :=
  record.replaceEach keys fun key field => do
    let pair ← field.asPair key
    pair.checkAligned key
    return .tensor (← normalizer.normalize pair.withoutNaN.value pair.withoutNaN.presence)

theorem suppliedOnce (keys : List String) (data : NormalizationData) (device : Device) :
    SuppliedOnce apply (fun normalizer => { keys, data, device, normalizer }) (fun _record => True)
      (.normalizerBuilt keys device.name data.size) (normalizedBy keys) where
  needed normalizer record _needed := by
    unfold apply
    cases supplied : normalizer.supply.product with
    | ok product => simp only [supplied]; rfl
    | error fault =>
        simp only [supplied, Deferred.built_of_error supplied, bind, Except.bind, Run.silent,
          Bool.false_eq_true, ↓reduceIte]
  state _normalizer _record unneeded := absurd trivial unneeded
  effects _normalizer _record unneeded := absurd trivial unneeded
  outcome _normalizer _record unneeded := absurd trivial unneeded

end DenseNormalization

/-! ### Encoding of id lists -/

namespace IdListMapping

variable {stage : IdListMapping} {entries : List (String × SparseForm)}
  {encoder : Deferred SparseEncoder} {record : Record}

def Needed (stage : IdListMapping) (entries : List (String × SparseForm)) (record : Record) :
    Prop :=
  stage.enabled = true ∧ ∃ entry ∈ entries, record.has entry.1 = true

theorem encodeAll_of_held {product : SparseEncoder} (held : encoder.product? = some product) :
    (stage.encodeAll entries encoder record).state = encoder ∧
      (stage.encodeAll entries encoder record).effects = [] := by
  induction entries generalizing record with
  | nil => exact ⟨rfl, rfl⟩
  | cons entry entries ih =>
      rcases entry with ⟨key, form⟩
      unfold encodeAll
      cases listed : (if stage.enabled then record.find? key else none) with
      | none => exact ih
      | some field =>
          simp only [Deferred.supply_of_held held]
          cases encoded : (Except.ok product >>= fun product =>
              encodeField product key field form) with
          | error fault => exact ⟨rfl, rfl⟩
          | ok changed => exact ih

theorem needed_set_iff {key : String} {form : SparseForm}
    (distinct : (((key, form) :: entries).map Prod.fst).Nodup)
    (missing : (if stage.enabled then record.find? key else none) = none) :
    stage.Needed entries (record.set key .absent) ↔
      stage.Needed ((key, form) :: entries) record := by
  have apart := (List.nodup_cons.mp distinct).1
  unfold Needed
  refine and_congr_right fun enabled => ?_
  rw [if_pos enabled] at missing
  have unlisted : record.has key ≠ true := by
    intro present
    rcases (record.has_iff key).mp present with ⟨field, found⟩
    rw [missing] at found
    cases found
  constructor
  · rintro ⟨entry, member, present⟩
    rcases (Record.has_set record key entry.1 .absent).mp present with same | before
    · exact absurd (List.mem_map.mpr ⟨entry, member, same.symm⟩) apart
    · exact ⟨entry, List.mem_cons_of_mem _ member, before⟩
  · rintro ⟨entry, member, present⟩
    rcases List.mem_cons.mp member with same | later
    · subst same
      exact absurd present unlisted
    · exact ⟨entry, later, (Record.has_set record key entry.1 .absent).mpr (.inr present)⟩

theorem needed_of_listed {key : String} {form : SparseForm} {field : Field}
    (listed : (if stage.enabled then record.find? key else none) = some field) :
    stage.Needed ((key, form) :: entries) record := by
  by_cases enabled : stage.enabled = true
  · rw [if_pos enabled] at listed
    exact ⟨enabled, (key, form), List.mem_cons_self .., (record.has_iff key).mpr ⟨field, listed⟩⟩
  · rw [if_neg enabled] at listed
    cases listed

theorem encodeAll_of_unneeded (distinct : (entries.map Prod.fst).Nodup)
    (unneeded : ¬ stage.Needed entries record) :
    (stage.encodeAll entries encoder record).state = encoder ∧
      (stage.encodeAll entries encoder record).effects = [] := by
  induction entries generalizing record with
  | nil => exact ⟨rfl, rfl⟩
  | cons entry entries ih =>
      rcases entry with ⟨key, form⟩
      unfold encodeAll
      cases listed : (if stage.enabled then record.find? key else none) with
      | none =>
          refine ih (List.nodup_cons.mp distinct).2 ?_
          rwa [needed_set_iff distinct listed]
      | some field => exact absurd (needed_of_listed listed) unneeded

theorem encodeAll_of_needed (distinct : (entries.map Prod.fst).Nodup)
    (needed : stage.Needed entries record) :
    (stage.encodeAll entries encoder record).state = encoder.supply.deferred ∧
      (stage.encodeAll entries encoder record).effects =
        if encoder.supply.built then
          [.reported (.encoderBuilt stage.device.name stage.config.names.size)]
        else [] := by
  induction entries generalizing record with
  | nil =>
      rcases needed with ⟨_enabled, _entry, member, _present⟩
      cases member
  | cons entry entries ih =>
      rcases entry with ⟨key, form⟩
      unfold encodeAll
      cases listed : (if stage.enabled then record.find? key else none) with
      | none =>
          exact ih (List.nodup_cons.mp distinct).2 ((needed_set_iff distinct listed).mpr needed)
      | some field =>
          simp only
          cases supplied : encoder.supply.product with
          | error fault => exact ⟨rfl, List.append_nil _⟩
          | ok product =>
              cases encoded : encodeField product key field form with
              | error fault =>
                  simp only [bind, Except.bind, encoded]
                  exact ⟨rfl, List.append_nil _⟩
              | ok changed =>
                  have rest := @encodeAll_of_held stage entries _ (record.set key changed) _
                    (Deferred.held_iff_supplied.mpr supplied)
                  simp only [bind, Except.bind, encoded, Run.after, rest, List.append_nil, and_self]

def encodedBy (stage : IdListMapping) (encoder : SparseEncoder) (record : Record) :
    Except Fault Record :=
  Record.updateEach Prod.fst
    (fun (key, form) field? =>
      match if stage.config.names.isEmpty then none else field?, form with
      | none, _ => .ok .absent
      | some field, .ids => do
          return .encodedIdList (← encoder.encodeIds (← field.asIdList key))
      | some field, .scoredIds => do
          return .encodedIdScoreList (← encoder.encodeScores (← field.asIdScoreList key)))
    stage.entries record

theorem encodedBy_eq_updateEach (stage : IdListMapping) (encoder : SparseEncoder)
    (record : Record) :
    stage.encodedBy encoder record =
      Record.updateEach Prod.fst (stage.encodeEntry (.ok encoder)) stage.entries record := by
  unfold encodedBy
  congr 1
  funext ⟨key, form⟩ field?
  unfold encodeEntry enabled
  cases unnamed : stage.config.names.isEmpty with
  | true => rfl
  | false =>
      cases field? with
      | none => rfl
      | some field => cases form <;> rfl

theorem updateEach_of_unneeded {product : Except Fault SparseEncoder}
    (distinct : (entries.map Prod.fst).Nodup) (unneeded : ¬ stage.Needed entries record)
    (encoder : SparseEncoder) :
    Record.updateEach Prod.fst (stage.encodeEntry product) entries record =
      Record.updateEach Prod.fst (stage.encodeEntry (.ok encoder)) entries record := by
  induction entries generalizing record with
  | nil => rfl
  | cons entry entries ih =>
      rcases entry with ⟨key, form⟩
      unfold Record.updateEach encodeEntry
      cases listed : (if stage.enabled then record.find? key else none) with
      | none =>
          refine ih (List.nodup_cons.mp distinct).2 ?_
          rwa [needed_set_iff distinct listed]
      | some field => exact absurd (needed_of_listed listed) unneeded

theorem updateEach_of_needed (distinct : (entries.map Prod.fst).Nodup)
    (needed : stage.Needed entries record) (fault : Fault) :
    Record.updateEach Prod.fst (stage.encodeEntry (.error fault)) entries record =
      .error fault := by
  induction entries generalizing record with
  | nil =>
      rcases needed with ⟨_enabled, _entry, member, _present⟩
      cases member
  | cons entry entries ih =>
      rcases entry with ⟨key, form⟩
      unfold Record.updateEach encodeEntry
      cases listed : (if stage.enabled then record.find? key else none) with
      | none =>
          exact ih (List.nodup_cons.mp distinct).2 ((needed_set_iff distinct listed).mpr needed)
      | some field => rfl

theorem keys_entries (stage : IdListMapping) :
    stage.entries.map Prod.fst = stage.idListKeys ++ stage.idScoreListKeys := by
  unfold entries
  rw [List.map_append, List.map_map, List.map_map]
  exact congrArg₂ _ (List.map_id _) (List.map_id _)

theorem needed_iff (stage : IdListMapping) (record : Record) :
    stage.Needed stage.entries record ↔ stage.config.names ≠ ∅ ∧
      ∃ key ∈ stage.idListKeys ++ stage.idScoreListKeys, record.has key = true := by
  have enabled : stage.enabled = true ↔ stage.config.names ≠ ∅ := by
    unfold IdListMapping.enabled
    rw [Bool.not_eq_true', Std.ExtTreeMap.isEmpty_eq_false_iff]
  unfold Needed
  simp only [enabled, ← keys_entries, List.mem_map, exists_exists_and_eq_and]

theorem suppliedOnce (stage : IdListMapping) (distinct : (stage.entries.map Prod.fst).Nodup) :
    SuppliedOnce apply (fun encoder => { stage with encoder })
      (fun record => stage.config.names ≠ ∅ ∧
        ∃ key ∈ stage.idListKeys ++ stage.idScoreListKeys, record.has key = true)
      (.encoderBuilt stage.device.name stage.config.names.size) stage.encodedBy where
  needed encoder record needed := by
    have listed := (stage.needed_iff record).mpr needed
    rcases @encodeAll_of_needed { stage with encoder } _ encoder _ distinct listed with
      ⟨state, effects⟩
    have outcome : (({ stage with encoder } : IdListMapping).apply record).outcome =
        encoder.supply.product >>= fun product => stage.encodedBy product record := by
      rw [outcome_apply]
      cases encoder.supply.product with
      | ok product => exact (encodedBy_eq_updateEach stage product record).symm
      | error fault => exact updateEach_of_needed distinct listed fault
    rw [← outcome, ← effects, ← state]
    rfl
  state encoder record unneeded := by
    have unlisted := mt (stage.needed_iff record).mp unneeded
    have passed := @encodeAll_of_unneeded { stage with encoder } _ encoder _ distinct unlisted
    exact congrArg (fun encoder => { stage with encoder }) passed.1
  effects encoder record unneeded := by
    have unlisted := mt (stage.needed_iff record).mp unneeded
    exact (@encodeAll_of_unneeded { stage with encoder } _ encoder _ distinct unlisted).2
  outcome encoder record unneeded product := by
    have unlisted := mt (stage.needed_iff record).mp unneeded
    rw [outcome_apply, encodedBy_eq_updateEach]
    exact updateEach_of_unneeded distinct unlisted product

end IdListMapping

/-- Collaborators are built lazily, once, and only when they are needed. Whatever the answers of
the factory, a normalization of pairs calls it in the records that come before it has returned, and
a mapping of id lists in those among them that have a field to encode. -/
theorem collaborators_built_at_first_need :
    (∀ {keys data device make stage},
      DenseNormalization.configure keys data device (some make) = .ok stage →
      BuiltAtFirstNeed DenseNormalization.apply stage (fun stage => stage.normalizer.calls)
        (fun call => make call data device) (fun _record => True)
        (.normalizerBuilt keys device.name data.size) (DenseNormalization.normalizedBy keys)) ∧
    ∀ {idListKeys idScoreListKeys config device make stage},
      IdListMapping.configure idListKeys idScoreListKeys config device (some make) = .ok stage →
      idListKeys.Nodup → idScoreListKeys.Nodup →
      BuiltAtFirstNeed IdListMapping.apply stage (fun stage => stage.encoder.calls)
        (fun call => make call config device)
        (fun record => config.names ≠ ∅ ∧
          ∃ key ∈ idListKeys ++ idScoreListKeys, record.has key = true)
        (.encoderBuilt device.name config.names.size) stage.encodedBy := by
  constructor
  · intro keys data device make stage configured
    rcases DenseNormalization.configure_eq_ok_iff.mp configured with ⟨_make, given, same⟩
    cases given
    subst same
    exact (DenseNormalization.suppliedOnce keys data device).builtAtFirstNeed (fun _ => rfl) _
  · intro idListKeys idScoreListKeys config device make stage configured distinctIds distinctScored
    rcases IdListMapping.configure_eq_ok_iff.mp configured with ⟨unshared, _make, given, same⟩
    cases given
    have apart : ∀ key ∈ idListKeys, ∀ other ∈ idScoreListKeys, key ≠ other := by
      intro key inIds other inScored same
      have unlisted := List.find?_eq_none.mp unshared other inScored
      exact unlisted (List.contains_iff_mem.mpr (same ▸ inIds))
    subst same
    have distinct : ((IdListMapping.mk idListKeys idScoreListKeys config device
        { build := fun call => make call config device }).entries.map Prod.fst).Nodup := by
      rw [IdListMapping.keys_entries]
      exact List.nodup_append.mpr ⟨distinctIds, distinctScored, apart⟩
    exact (IdListMapping.suppliedOnce _ distinct).builtAtFirstNeed (fun _ => rfl) _

/-- A normalization whose factory refuses the first call makes the second one in the next record,
whose pair that normalizer answers; a mapping makes its first call in the record that has the
listed field, which that encoder answers. -/
theorem collaborators_built_at_first_need_second :
    let pair : ValuePresence := { value := .full [1, 1] 3.0, presence := .full [1, 1] 1.0 }
    let dense := Record.empty.set "a" (.valuePresence pair)
    let sparse := Record.empty.set "ids" (.idList ∅)
    let pages : NameMap IdListFeature := (∅ : NameMap IdListFeature).insert "page" ⟨[0], [5]⟩
    (∃ stage : DenseNormalization,
      Run.effectsOver DenseNormalization.apply stage [.empty, dense] =
          [.reported (.normalizerBuilt ["a"] "cpu" 0)] ∧
        ((stage.apply .empty).state.apply dense).outcome =
          .ok (dense.set "a" (.tensor (.full [1] 7.0)))) ∧
      ∃ stage : IdListMapping,
        (stage.apply .empty).state.encoder.calls = 0 ∧
          ((stage.apply .empty).state.apply sparse).state.encoder.calls = 1 ∧
          ((stage.apply .empty).state.apply sparse).outcome =
            .ok (sparse.set "ids" (.encodedIdList pages)) := by
  intro pair dense sparse pages
  let config : FeatureConfig := { names := (∅ : IdMap String).insert 1 "page" }
  let normalizer : Normalizer := { normalize := fun _value _presence => .ok (.full [1] 7.0) }
  let encoder : SparseEncoder :=
    { encodeIds := fun _features => .ok pages, encodeScores := fun _features => .ok ∅ }
  have named : config.names ≠ ∅ := by
    intro empty
    exact absurd (congrArg Std.ExtTreeMap.size empty) (by decide)
  have normalized := (collaborators_built_at_first_need.1 :
    DenseNormalization.configure ["a"] {} {} (some fun call _data _device =>
      if call = 0 then .error (.config .malformedParameters) else .ok normalizer) = _ → _) rfl
  have mapped := (collaborators_built_at_first_need.2 :
    IdListMapping.configure ["ids"] [] config {} (some fun _call _config _device =>
      .ok encoder) = _ → _) rfl (by decide) (by decide)
  constructor
  · have second : Deferred.FirstReturned (fun call : Nat =>
        if call = 0 then Except.error (.config .malformedParameters) else .ok normalizer) 2
        normalizer := by
      refine ⟨1, by decide, rfl, ?_⟩
      rintro ⟨call, before, product, given⟩
      rw [Nat.lt_one_iff.mp before] at given
      cases given
    exact ⟨_, normalized.once [.empty, dense] second.returned,
      (normalized.asks [.empty] dense).served normalizer (.inl second)⟩
  · have unused : ¬ Deferred.Returned (fun _call : Nat => Except.ok (ε := Fault) encoder) 0 := by
      rintro ⟨call, before, _given⟩
      exact absurd before (Nat.not_lt_zero call)
    have first : Deferred.FirstReturned (fun _call : Nat => Except.ok (ε := Fault) encoder) 1
        encoder := ⟨0, by decide, rfl, unused⟩
    exact ⟨_, (mapped.asks [] .empty).spared (.inl (by decide)),
      (mapped.asks [.empty] sparse).called ⟨named, "ids", List.mem_cons_self .., rfl⟩ unused,
      (mapped.asks [.empty] sparse).served encoder (.inl first)⟩

end Featurize
