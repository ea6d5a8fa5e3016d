import Featurize.Proofs.Outcome
import Featurize.Stage.Run

/-!
Confinement. A change of records is confined to a scope of names when it leaves the
fields under all names that it does not write as they are, and when everything it does
follows from the fields under the names that it reads. Confined changes are built up
from single reads and writes, one behind the success of the other.
-/

namespace Featurize

/-- Names of fields: those that are read, and those that are written or dropped. -/
structure Scope where
  reads : List String
  writes : List String

namespace Scope

def empty : Scope := ⟨[], []⟩

def inPlace (names : List String) : Scope := ⟨names, names⟩

def union (first second : Scope) : Scope :=
  ⟨first.reads ++ second.reads, first.writes ++ second.writes⟩

end Scope

def Record.AgreeOn (names : List String) (left right : Record) : Prop :=
  ∀ name ∈ names, left.find? name = right.find? name

theorem Record.AgreeOn.mono {names fewer : List String} {left right : Record}
    (agree : Record.AgreeOn names left right) (included : fewer ⊆ names) :
    Record.AgreeOn fewer left right :=
  fun name member => agree name (included member)

theorem Record.get_eq_of_find? {left right : Record} {key : String}
    (same : left.find? key = right.find? key) : left.get key = right.get key := by
  unfold get
  rw [same]

def Record.StoreAlike (target : String) (left right : Record)
    (leftOutcome rightOutcome : Except Fault Record) : Prop :=
  (∃ fault, leftOutcome = .error fault ∧ rightOutcome = .error fault) ∨
    ∃ field, leftOutcome = .ok (left.set target field) ∧
      rightOutcome = .ok (right.set target field)

namespace Record.StoreAlike

variable {target : String} {left right : Record}

theorem store (field : Field) :
    StoreAlike target left right (.ok (left.set target field)) (.ok (right.set target field)) :=
  .inr ⟨field, rfl, rfl⟩

theorem fail (fault : Fault) : StoreAlike target left right (.error fault) (.error fault) :=
  .inl ⟨fault, rfl, rfl⟩

theorem bind {Value : Type} {outcome : Except Fault Value}
    {leftNext rightNext : Value → Except Fault Record}
    (each : ∀ value, StoreAlike target left right (leftNext value) (rightNext value)) :
    StoreAlike target left right (outcome >>= leftNext) (outcome >>= rightNext) := by
  cases outcome with
  | error fault => exact .fail fault
  | ok value => exact each value

end Record.StoreAlike

namespace Run

variable {State Next : Type}

structure Alike (names : List String) (left right : Run State) : Prop where
  state : left.state = right.state
  effects : left.effects = right.effects
  outcome : (∃ fault, left.outcome = .error fault ∧ right.outcome = .error fault) ∨
    ∃ leftOutput rightOutput, left.outcome = .ok leftOutput ∧ right.outcome = .ok rightOutput ∧
      Record.AgreeOn names leftOutput rightOutput

/-- A run with a second one behind its success. After a failure `failed` says in which
state, with which last effects and with which fault the whole ends. -/
def sequel (first : Run State) (failed : State → Fault → Next × List Effect × Fault)
    (next : State → Record → Run Next) : Run Next :=
  match first.outcome with
  | .error fault =>
      { state := (failed first.state fault).1
        effects := first.effects ++ (failed first.state fault).2.1
        outcome := .error (failed first.state fault).2.2 }
  | .ok record => (next first.state record).after first.effects

variable {first : Run State} {failed : State → Fault → Next × List Effect × Fault}
  {next : State → Record → Run Next}

theorem sequel_of_error {fault : Fault} (stopped : first.outcome = .error fault) :
    first.sequel failed next =
      { state := (failed first.state fault).1
        effects := first.effects ++ (failed first.state fault).2.1
        outcome := .error (failed first.state fault).2.2 } := by
  unfold sequel
  rw [stopped]

theorem sequel_of_ok {record : Record} (passed : first.outcome = .ok record) :
    first.sequel failed next = (next first.state record).after first.effects := by
  unfold sequel
  rw [passed]

end Run

namespace Scope

variable {State Next : Type} {scope earlier later : Scope} {apply : Record → Run State}

/-- Fields outside the written names stay, and the fields under the read names decide
everything: the state and effects, the fault, and the fields that are written. -/
structure Confines (scope : Scope) (apply : Record → Run State) : Prop where
  frame : ∀ record output, (apply record).outcome = .ok output →
    ∀ name, name ∉ scope.writes → output.find? name = record.find? name
  alike : ∀ left right, Record.AgreeOn scope.reads left right →
    (apply left).Alike (scope.reads ++ scope.writes) (apply right)

theorem Confines.map (confined : scope.Confines apply) (change : State → Next) :
    scope.Confines (fun record => (apply record).map change) where
  frame := confined.frame
  alike := by
    intro left right agree
    have same := confined.alike left right agree
    exact ⟨congrArg change same.state, same.effects, same.outcome⟩

theorem Confines.after (confined : scope.Confines apply) (effects : List Effect) :
    scope.Confines (fun record => (apply record).after effects) where
  frame := confined.frame
  alike := by
    intro left right agree
    have same := confined.alike left right agree
    exact ⟨same.state, congrArg (effects ++ ·) same.effects, same.outcome⟩

theorem Confines.agreeOn (confined : scope.Confines apply) {names : List String}
    {left right leftOutput rightOutput : Record} (agree : Record.AgreeOn names left right)
    (written : Record.AgreeOn scope.writes leftOutput rightOutput)
    (passed : (apply left).outcome = .ok leftOutput)
    (passedToo : (apply right).outcome = .ok rightOutput) :
    Record.AgreeOn (names ++ scope.writes) leftOutput rightOutput := by
  intro name member
  by_cases here : name ∈ scope.writes
  · exact written name here
  · have named := (List.mem_append.mp member).resolve_right here
    rw [confined.frame left leftOutput passed name here,
      confined.frame right rightOutput passedToo name here]
    exact agree name named

/-- Of two changes in a row the second may read what the first one wrote. -/
theorem Confines.sequel {first : Record → Run State} {next : State → Record → Run Next}
    {failed : State → Fault → Next × List Effect × Fault} (head : earlier.Confines first)
    (tail : ∀ state, later.Confines (next state)) (read : earlier.reads ⊆ scope.reads)
    (readLater : later.reads ⊆ scope.reads ++ earlier.writes)
    (written : ∀ name, name ∈ scope.writes ↔ name ∈ earlier.writes ∨ name ∈ later.writes) :
    scope.Confines (fun record => (first record).sequel failed next) where
  frame := by
    intro record output passed name outside
    have untouched := not_or.mp (fun either => outside ((written name).mpr either))
    cases middle : (first record).outcome with
    | error fault =>
        rw [Run.sequel_of_error middle] at passed
        cases passed
    | ok between =>
        rw [Run.sequel_of_ok middle] at passed
        rw [(tail (first record).state).frame between output passed name untouched.2]
        exact head.frame record between middle name untouched.1
  alike := by
    intro left right agree
    have same := head.alike left right (agree.mono read)
    rcases same.outcome with ⟨fault, stopped, stoppedToo⟩ | ⟨between, other, passed, passedToo, met⟩
    · rw [Run.sequel_of_error stopped, Run.sequel_of_error stoppedToo, same.state, same.effects]
      exact ⟨rfl, rfl, .inl ⟨_, rfl, rfl⟩⟩
    · have middle := head.agreeOn agree (met.mono (List.subset_append_right ..)) passed passedToo
      have rest := (tail (first right).state).alike between other (middle.mono readLater)
      rw [Run.sequel_of_ok passed, Run.sequel_of_ok passedToo, same.state, same.effects]
      refine ⟨rest.state, congrArg ((first right).effects ++ ·) rest.effects, ?_⟩
      rcases rest.outcome with failedBoth | ⟨leftOutput, rightOutput, ended, endedToo, kept⟩
      · exact .inl failedBoth
      · refine .inr ⟨leftOutput, rightOutput, ended, endedToo, ?_⟩
        have whole := (tail (first right).state).agreeOn middle
          (kept.mono (List.subset_append_right ..)) ended endedToo
        refine whole.mono (fun name member => ?_)
        rw [List.mem_append, written, ← or_assoc] at member
        rw [List.mem_append, List.mem_append]
        exact member

theorem Confines.congr (confined : earlier.Confines apply) (read : earlier.reads ⊆ scope.reads)
    (written : ∀ name, name ∈ scope.writes ↔ name ∈ earlier.writes) : scope.Confines apply where
  frame := fun record output passed name outside =>
    confined.frame record output passed name (fun member => outside ((written name).mpr member))
  alike := by
    intro left right agree
    have same := confined.alike left right (agree.mono read)
    refine ⟨same.state, same.effects, ?_⟩
    rcases same.outcome with failedBoth | ⟨leftOutput, rightOutput, passed, passedToo, met⟩
    · exact .inl failedBoth
    · refine .inr ⟨leftOutput, rightOutput, passed, passedToo, ?_⟩
      refine (confined.agreeOn agree (met.mono (List.subset_append_right ..)) passed
        passedToo).mono (fun name member => ?_)
      rw [List.mem_append, written] at member
      exact List.mem_append.mpr member

/-! ### Single changes -/

variable {target : String} {reads : List String}

/-- One field is written, and the read fields decide which, or that the change fails. -/
theorem confines_write
    (decided : ∀ left right, Record.AgreeOn reads left right →
      (apply left).state = (apply right).state ∧ (apply left).effects = (apply right).effects ∧
        Record.StoreAlike target left right (apply left).outcome (apply right).outcome) :
    Confines ⟨reads, [target]⟩ apply where
  frame := by
    intro record output passed name outside
    have different : target ≠ name :=
      fun same => outside (List.mem_singleton.mpr same.symm)
    obtain ⟨_state, _effects, outcome⟩ := decided record record (fun _name _member => rfl)
    rcases outcome with ⟨fault, stopped, _again⟩ | ⟨field, stored, _again⟩
    · rw [stopped] at passed
      cases passed
    · rw [stored] at passed
      cases passed
      rw [Record.find?_set, if_neg different]
  alike := by
    intro left right agree
    obtain ⟨state, effects, outcome⟩ := decided left right agree
    refine ⟨state, effects, ?_⟩
    rcases outcome with failedBoth | ⟨field, stored, storedToo⟩
    · exact .inl failedBoth
    · refine .inr ⟨_, _, stored, storedToo, fun name member => ?_⟩
      rw [Record.find?_set, Record.find?_set]
      by_cases same : target = name
      · rw [if_pos same, if_pos same]
      · have read := (List.mem_append.mp member).resolve_right
          (fun written => same (List.mem_singleton.mp written).symm)
        rw [if_neg same, if_neg same]
        exact agree name read

theorem confines_store {change : Record → Except Fault Record}
    (decided : ∀ left right, Record.AgreeOn reads left right →
      Record.StoreAlike target left right (change left) (change right)) :
    Confines ⟨reads, [target]⟩ (fun record => Run.silent () (change record)) :=
  confines_write (fun left right agree => ⟨rfl, rfl, decided left right agree⟩)

theorem confines_erase (key : String) :
    Confines ⟨[], [key]⟩ (fun record => Run.silent () (.ok (record.erase key))) where
  frame := by
    intro record output passed name outside
    cases passed
    rw [Record.find?_erase, if_neg (fun same => outside (List.mem_singleton.mpr same.symm))]
  alike := by
    intro left right _agree
    refine ⟨rfl, rfl, .inr ⟨left.erase key, right.erase key, rfl, rfl, fun name member => ?_⟩⟩
    have same : key = name := (List.mem_singleton.mp member).symm
    rw [Record.find?_erase, Record.find?_erase, if_pos same, if_pos same]

theorem confines_ok (state : State) (effects : List Effect) :
    empty.Confines (fun record => { state, effects, outcome := .ok record }) where
  frame := by
    intro record output passed name _outside
    cases passed
    rfl
  alike := by
    intro left right _agree
    exact ⟨rfl, rfl, .inr ⟨left, right, rfl, rfl, fun name member => by cases member⟩⟩

theorem confines_error (scope : Scope) (state : State) (fault : Fault) :
    scope.Confines (fun _record => Run.silent state (.error fault)) where
  frame := by
    intro record output passed
    cases passed
  alike := by
    intro left right _agree
    exact ⟨rfl, rfl, .inl ⟨fault, rfl, rfl⟩⟩

theorem confines_read {Value : Type} {value : Record → Except Fault Value}
    {change : Value → Record → Except Fault Record}
    (decided : ∀ left right, Record.AgreeOn reads left right → value left = value right)
    (each : ∀ found, scope.Confines (fun record => Run.silent () (change found record))) :
    Confines ⟨reads ++ scope.reads, scope.writes⟩
      (fun record => Run.silent () (value record >>= fun found => change found record)) where
  frame := by
    intro record output passed
    obtain ⟨found, _read, made⟩ := Outcome.bind_eq_ok_iff.mp passed
    exact (each found).frame record output made
  alike := by
    intro left right agree
    have same := decided left right (agree.mono (List.subset_append_left ..))
    cases read : value right with
    | error fault =>
        rw [same, read]
        exact ⟨rfl, rfl, .inl ⟨fault, rfl, rfl⟩⟩
    | ok found =>
        rw [same, read]
        have confined : Confines ⟨reads ++ scope.reads, scope.writes⟩
            (fun record => Run.silent () (change found record)) :=
          (each found).congr (List.subset_append_right ..) (fun _name => Iff.rfl)
        exact confined.alike left right agree

/-! ### One change for each item -/

def all {Item : Type} (ofItem : Item → Scope) : List Item → Scope
  | [] => empty
  | item :: items => (ofItem item).union (all ofItem items)

theorem reads_all {Item : Type} (ofItem : Item → Scope) (items : List Item) :
    (all ofItem items).reads = items.flatMap (fun item => (ofItem item).reads) := by
  induction items with
  | nil => rfl
  | cons item items ih => rw [all, union, ih, List.flatMap_cons]

theorem writes_all {Item : Type} (ofItem : Item → Scope) (items : List Item) :
    (all ofItem items).writes = items.flatMap (fun item => (ofItem item).writes) := by
  induction items with
  | nil => rfl
  | cons item items ih => rw [all, union, ih, List.flatMap_cons]

theorem Confines.union {first : Record → Run State} {next : State → Record → Run Next}
    {failed : State → Fault → Next × List Effect × Fault} (head : earlier.Confines first)
    (tail : ∀ state, later.Confines (next state)) :
    (earlier.union later).Confines (fun record => (first record).sequel failed next) := by
  refine head.sequel tail (List.subset_append_left ..) ?_ (fun name => List.mem_append)
  exact List.Subset.trans (List.subset_append_right ..) (List.subset_append_left ..)

theorem confines_foldlM {Item : Type} {step : Record → Item → Except Fault Record}
    {ofItem : Item → Scope}
    (each : ∀ item, (ofItem item).Confines (fun record => Run.silent () (step record item)))
    (items : List Item) :
    (all ofItem items).Confines (fun record => Run.silent () (items.foldlM step record)) := by
  induction items with
  | nil => exact confines_ok () []
  | cons item items ih =>
      have whole : (fun record => Run.silent () ((item :: items).foldlM step record)) =
          fun record => (Run.silent () (step record item)).sequel (fun state fault => (state, [], fault))
            (fun _state next => Run.silent () (items.foldlM step next)) := by
        funext record
        rw [List.foldlM_cons]
        cases made : step record item <;> rfl
      rw [whole]
      exact (each item).union (fun _state => ih)

theorem confines_replaceEach (change : String → Field → Except Fault Field)
    (keys : List String) :
    (inPlace keys).Confines (fun record => Run.silent () (record.replaceEach keys change)) := by
  have each : ∀ key, Confines ⟨[key], [key]⟩ (fun record => Run.silent () (do
      let field ← record.get key
      return record.set key (← change key field))) := by
    intro key
    refine confines_store (fun left right agree => ?_)
    rw [Record.get_eq_of_find? (agree key (List.mem_singleton_self key))]
    exact .bind (fun field => .bind (fun changed => .store changed))
  refine (confines_foldlM each keys).congr ?_ (fun name => ?_)
  · rw [reads_all, List.flatMap_singleton']
    exact List.Subset.refl _
  · rw [writes_all, List.flatMap_singleton']
    rfl

end Scope

end Featurize
