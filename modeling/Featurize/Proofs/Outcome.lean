import Featurize.Record.Basic

/-!
Outcomes: computations that give a value or a failure. A computation that succeeds
is taken apart into the successes on the way to it, and the replacement of fields
under several keys into what happens at each key. Where a value has two parts, the
outcome for the whole is compared with those for the parts.
-/

namespace Featurize

namespace Outcome

variable {Failure Other Value Next : Type}

theorem bind_eq_ok_iff {outcome : Except Failure Value} {next : Value → Except Failure Next}
    {result : Next} :
    (outcome >>= next) = .ok result ↔ ∃ value, outcome = .ok value ∧ next value = .ok result := by
  cases outcome with
  | error failure => simp only [bind, Except.bind, reduceCtorEq, false_and, exists_false]
  | ok value => simp only [bind, Except.bind, Except.ok.injEq, exists_eq_left']

theorem map_eq_ok_iff {outcome : Except Failure Value} {change : Value → Next} {result : Next} :
    (change <$> outcome) = .ok result ↔ ∃ value, outcome = .ok value ∧ change value = result := by
  cases outcome with
  | error failure => simp only [Functor.map, Except.map, reduceCtorEq, false_and, exists_false]
  | ok value => simp only [Functor.map, Except.map, Except.ok.injEq, exists_eq_left']

theorem bind_eq_error_iff {outcome : Except Failure Value} {next : Value → Except Failure Next}
    {failure : Failure} :
    (outcome >>= next) = .error failure ↔
      outcome = .error failure ∨ ∃ value, outcome = .ok value ∧ next value = .error failure := by
  cases outcome with
  | error found =>
      simp only [bind, Except.bind, Except.error.injEq, reduceCtorEq, false_and, exists_false,
        or_false]
  | ok value =>
      simp only [bind, Except.bind, Except.ok.injEq, exists_eq_left', reduceCtorEq, false_or]

theorem map_eq_error_iff {outcome : Except Failure Value} {change : Value → Next}
    {failure : Failure} : (change <$> outcome) = .error failure ↔ outcome = .error failure := by
  cases outcome with
  | error found => simp only [Functor.map, Except.map, Except.error.injEq]
  | ok value => simp only [Functor.map, Except.map, reduceCtorEq]

theorem mapError_eq_ok_iff {outcome : Except Failure Value} {change : Failure → Other}
    {value : Value} : outcome.mapError change = .ok value ↔ outcome = .ok value := by
  cases outcome with
  | error failure =>
      constructor
      · intro succeeded
        cases succeeded
      · intro succeeded
        cases succeeded
  | ok found =>
      constructor
      · intro succeeded
        cases succeeded
        rfl
      · intro succeeded
        cases succeeded
        rfl

theorem liftShape_eq_ok_iff {outcome : Except ShapeFault Value} {value : Value} :
    (liftM outcome : Except Fault Value) = .ok value ↔ outcome = .ok value :=
  mapError_eq_ok_iff

theorem pure_eq_ok_iff {value result : Value} :
    (pure value : Except Failure Value) = .ok result ↔ value = result := by
  simp only [pure, Except.pure, Except.ok.injEq]

theorem guard_eq_ok_iff {condition : Prop} [Decidable condition] {failure : Failure}
    {next : Unit → Except Failure Next} {result : Next} :
    (if condition then do
      let stopped ← (throw failure : Except Failure Unit)
      next stopped
      else next ()) = .ok result ↔ ¬ condition ∧ next () = .ok result := by
  by_cases holds : condition
  · rw [if_pos holds]
    constructor
    · intro succeeded
      cases succeeded
    · intro both
      exact absurd holds both.1
  · rw [if_neg holds]
    constructor
    · intro succeeded
      exact ⟨holds, succeeded⟩
    · intro both
      exact both.2

theorem refused_iff_of_same {left right : Except Failure Value}
    (same : ∀ value, left = .ok value ↔ right = .ok value) :
    (∃ failure, left = .error failure) ↔ ∃ failure, right = .error failure := by
  cases left with
  | ok value =>
      rw [(same value).mp rfl]
  | error failure =>
      cases right with
      | ok value => cases (same value).mpr rfl
      | error other => exact iff_of_true ⟨_, rfl⟩ ⟨_, rfl⟩

/-! ### Parts and wholes -/

variable {Related : Value → Value → Value → Prop} {RelatedNext : Next → Next → Next → Prop}

/-- The whole fails where one of the parts does. Where both succeed, so does the whole, with a
result that is related to theirs. -/
inductive Splits (Related : Value → Value → Value → Prop) :
    Except Failure Value → Except Failure Value → Except Failure Value → Prop where
  | passed {first second whole : Value} (related : Related first second whole) :
      Splits Related (.ok first) (.ok second) (.ok whole)
  | firstFailed {failure wholeFailure : Failure} {second : Except Failure Value} :
      Splits Related (.error failure) second (.error wholeFailure)
  | secondFailed {failure wholeFailure : Failure} {first : Except Failure Value} :
      Splits Related first (.error failure) (.error wholeFailure)

namespace Splits

variable {first second whole : Except Failure Value}

theorem bind {firstNext secondNext wholeNext : Value → Except Failure Next}
    (split : Splits Related first second whole)
    (each : ∀ a b c, Related a b c →
      Splits RelatedNext (firstNext a) (secondNext b) (wholeNext c)) :
    Splits RelatedNext (first >>= firstNext) (second >>= secondNext) (whole >>= wholeNext) := by
  cases split with
  | passed related => exact each _ _ _ related
  | firstFailed => exact .firstFailed
  | secondFailed => exact .secondFailed

theorem traced (split : Splits Related first second whole) :
    Splits (fun a b c => Related a b c ∧ first = .ok a ∧ second = .ok b ∧ whole = .ok c)
      first second whole := by
  cases split with
  | passed related => exact .passed ⟨related, rfl, rfl, rfl⟩
  | firstFailed => exact .firstFailed
  | secondFailed => exact .secondFailed

theorem guard {condition firstCondition secondCondition : Prop} [Decidable condition]
    [Decidable firstCondition] [Decidable secondCondition]
    {failure firstFailure secondFailure : Failure}
    {firstNext secondNext wholeNext : Unit → Except Failure Value}
    (firstSame : firstCondition ↔ condition) (secondSame : secondCondition ↔ condition)
    (split : ¬ condition → Splits Related (firstNext ()) (secondNext ()) (wholeNext ())) :
    Splits Related
      (if firstCondition then do
        let stopped ← (throw firstFailure : Except Failure Unit)
        firstNext stopped
        else firstNext ())
      (if secondCondition then do
        let stopped ← (throw secondFailure : Except Failure Unit)
        secondNext stopped
        else secondNext ())
      (if condition then do
        let stopped ← (throw failure : Except Failure Unit)
        wholeNext stopped
        else wholeNext ()) := by
  by_cases refused : condition
  · rw [if_pos (firstSame.mpr refused), if_pos (secondSame.mpr refused), if_pos refused]
    exact .firstFailed
  · rw [if_neg (mt firstSame.mp refused), if_neg (mt secondSame.mp refused), if_neg refused]
    exact split refused

theorem succeeds_iff (split : Splits Related first second whole) :
    (∃ result, whole = .ok result) ↔
      (∃ result, first = .ok result) ∧ ∃ result, second = .ok result := by
  cases split with
  | passed related => exact iff_of_true ⟨_, rfl⟩ ⟨⟨_, rfl⟩, ⟨_, rfl⟩⟩
  | firstFailed =>
      exact iff_of_false (fun ⟨_, same⟩ => nomatch same) (fun ⟨⟨_, same⟩, _⟩ => nomatch same)
  | secondFailed =>
      exact iff_of_false (fun ⟨_, same⟩ => nomatch same) (fun ⟨_, _, same⟩ => nomatch same)

theorem related_of_ok {a b c : Value} (split : Splits Related first second whole)
    (firstPassed : first = .ok a) (secondPassed : second = .ok b) (wholePassed : whole = .ok c) :
    Related a b c := by
  cases split with
  | passed related =>
      cases firstPassed
      cases secondPassed
      cases wholePassed
      exact related
  | firstFailed => cases firstPassed
  | secondFailed => cases secondPassed

theorem of_refused (firstRefused : ∀ result, first ≠ .ok result)
    (wholeRefused : ∀ result, whole ≠ .ok result) : Splits Related first second whole := by
  cases first with
  | ok result => exact absurd rfl (firstRefused result)
  | error failure =>
      cases whole with
      | ok result => exact absurd rfl (wholeRefused result)
      | error wholeFailure => exact .firstFailed

theorem liftShape {first second whole : Except ShapeFault Value}
    (split : Splits Related first second whole) :
    Splits Related (liftM first : Except Fault Value) (liftM second) (liftM whole) := by
  cases split with
  | passed related => exact .passed related
  | firstFailed => exact .firstFailed
  | secondFailed => exact .secondFailed

end Splits

end Outcome

theorem Field.asTensor_eq_ok_iff {key : String} {field : Field} {dense : Tensor} :
    field.asTensor key = .ok dense ↔ field = .tensor dense := by
  cases field with
  | tensor given => rw [asTensor, Except.ok.injEq, Field.tensor.injEq]
  | _ => exact iff_of_false nofun nofun

namespace Record

variable {record output : Record} {key : String} {field : Field}
  {change : String → Field → Except Fault Field}

theorem get_eq_ok_iff : record.get key = .ok field ↔ record.find? key = some field := by
  unfold get
  cases found : record.find? key with
  | none => simp only [reduceCtorEq]
  | some present => simp only [Except.ok.injEq, Option.some.injEq]

theorem replaceEach_cons (record : Record) (key : String) (keys : List String)
    (change : String → Field → Except Fault Field) :
    record.replaceEach (key :: keys) change =
      (record.get key >>= change key) >>= fun changed =>
        (record.set key changed).replaceEach keys change := by
  unfold replaceEach
  rw [List.foldlM_cons]
  cases record.get key with
  | error fault => rfl
  | ok field =>
      cases made : change key field <;>
        simp only [made, bind, Except.bind, pure, Except.pure]

theorem replaceEach_cons_eq_ok_iff {keys : List String} :
    record.replaceEach (key :: keys) change = .ok output ↔
      ∃ field changed, record.find? key = some field ∧ change key field = .ok changed ∧
        (record.set key changed).replaceEach keys change = .ok output := by
  unfold replaceEach
  simp only [List.foldlM_cons, Outcome.bind_eq_ok_iff, Outcome.pure_eq_ok_iff, get_eq_ok_iff]
  constructor
  · rintro ⟨next, ⟨field, found, changed, made, stored⟩, rest⟩
    exact ⟨field, changed, found, made, stored ▸ rest⟩
  · rintro ⟨field, changed, found, made, rest⟩
    exact ⟨record.set key changed, ⟨field, found, changed, made, rfl⟩, rest⟩

theorem find?_replaceEach_of_not_mem {keys : List String}
    (replaced : record.replaceEach keys change = .ok output) (absent : key ∉ keys) :
    output.find? key = record.find? key := by
  induction keys generalizing record with
  | nil =>
      cases replaced
      rfl
  | cons head keys ih =>
      obtain ⟨field, changed, _found, _made, rest⟩ := replaceEach_cons_eq_ok_iff.mp replaced
      have different : head ≠ key := fun same => absent (same ▸ List.mem_cons_self ..)
      rw [ih rest (fun member => absent (List.mem_cons_of_mem _ member)), find?_set,
        if_neg different]

/-- With distinct keys, the field under each key is replaced once. -/
theorem find?_replaceEach_of_mem {keys : List String} (distinct : keys.Nodup)
    (replaced : record.replaceEach keys change = .ok output) (member : key ∈ keys) :
    ∃ field changed, record.find? key = some field ∧ change key field = .ok changed ∧
      output.find? key = some changed := by
  induction keys generalizing record with
  | nil => cases member
  | cons head keys ih =>
      obtain ⟨field, changed, found, made, rest⟩ := replaceEach_cons_eq_ok_iff.mp replaced
      have headTail := List.nodup_cons.mp distinct
      rcases List.mem_cons.mp member with same | later
      · subst same
        refine ⟨field, changed, found, made, ?_⟩
        rw [find?_replaceEach_of_not_mem rest headTail.1, find?_set, if_pos rfl]
      · obtain ⟨before, after, foundLater, madeLater, stored⟩ := ih headTail.2 rest later
        have different : head ≠ key := fun same => headTail.1 (same ▸ later)
        rw [find?_set, if_neg different] at foundLater
        exact ⟨before, after, foundLater, madeLater, stored⟩

theorem exists_replaceEach_iff {keys : List String} (distinct : keys.Nodup) :
    (∃ output, record.replaceEach keys change = .ok output) ↔
      ∀ key ∈ keys, ∃ field changed, record.find? key = some field ∧
        change key field = .ok changed := by
  induction keys generalizing record with
  | nil => exact iff_of_true ⟨record, rfl⟩ (List.forall_mem_nil _)
  | cons head keys ih =>
      obtain ⟨absent, tail⟩ := List.nodup_cons.mp distinct
      have unchanged : ∀ changed, ∀ key ∈ keys,
          (record.set head changed).find? key = record.find? key := by
        intro changed key member
        have different : head ≠ key := fun same => absent (same ▸ member)
        rw [find?_set, if_neg different]
      constructor
      · rintro ⟨output, replaced⟩
        obtain ⟨field, changed, found, made, rest⟩ := replaceEach_cons_eq_ok_iff.mp replaced
        refine List.forall_mem_cons.mpr ⟨⟨field, changed, found, made⟩, fun key member => ?_⟩
        obtain ⟨before, after, foundLater, madeLater⟩ := (ih tail).mp ⟨output, rest⟩ key member
        exact ⟨before, after, unchanged changed key member ▸ foundLater, madeLater⟩
      · intro each
        obtain ⟨⟨field, changed, found, made⟩, others⟩ := List.forall_mem_cons.mp each
        have later : ∀ key ∈ keys, ∃ before after,
            (record.set head changed).find? key = some before ∧ change key before = .ok after := by
          intro key member
          rw [unchanged changed key member]
          exact others key member
        obtain ⟨output, rest⟩ := (ih tail).mpr later
        exact ⟨output, replaceEach_cons_eq_ok_iff.mpr ⟨field, changed, found, made, rest⟩⟩

/-- A change that keeps its own results replaces the field under each key as if it met the key
once. -/
theorem find?_replaceEach_of_stable {keys : List String}
    (stable : ∀ key field changed, change key field = .ok changed →
      ∀ again, change key changed = .ok again → again = changed)
    (replaced : record.replaceEach keys change = .ok output) (member : key ∈ keys) :
    ∃ field changed, record.find? key = some field ∧ change key field = .ok changed ∧
      output.find? key = some changed := by
  induction keys generalizing record with
  | nil => cases member
  | cons head keys ih =>
      obtain ⟨field, changed, found, made, rest⟩ := replaceEach_cons_eq_ok_iff.mp replaced
      by_cases later : key ∈ keys
      · obtain ⟨before, after, foundLater, madeLater, stored⟩ := ih rest later
        rw [find?_set] at foundLater
        by_cases same : head = key
        · rw [if_pos same, Option.some.injEq] at foundLater
          subst same
          subst foundLater
          rw [stable head field changed made after madeLater] at stored
          exact ⟨field, changed, found, made, stored⟩
        · rw [if_neg same] at foundLater
          exact ⟨before, after, foundLater, madeLater, stored⟩
      · rcases List.mem_cons.mp member with same | inRest
        · subst same
          refine ⟨field, changed, found, made, ?_⟩
          rw [find?_replaceEach_of_not_mem rest later, find?_set, if_pos rfl]
        · exact absurd inRest later

/-- A change that does not take its own result cannot meet a key twice. -/
theorem nodup_of_replaceEach {keys : List String}
    (once : ∀ key field changed, change key field = .ok changed →
      ∀ again, change key changed ≠ .ok again)
    (replaced : record.replaceEach keys change = .ok output) : keys.Nodup := by
  induction keys generalizing record with
  | nil => exact List.nodup_nil
  | cons head keys ih =>
      obtain ⟨field, changed, _found, made, rest⟩ := replaceEach_cons_eq_ok_iff.mp replaced
      have distinct := ih rest
      refine List.nodup_cons.mpr ⟨fun repeated => ?_, distinct⟩
      obtain ⟨before, after, found, again, _stored⟩ :=
        find?_replaceEach_of_mem distinct rest repeated
      rw [find?_set, if_pos rfl] at found
      cases found
      exact once head field changed made after again

end Record

end Featurize
