import Featurize.Proofs.Records.PresencePairing
import Featurize.Proofs.Records.Stacking

/-!
Repetition. Pairing masks, making columns, stacking rows, keeping or removing fields and adding an
identity matrix bring a record into a form which the same stage leaves as it is. A stage that
changes the fields under its keys does so because each changed field is one that it keeps, so the
order of the keys and keys that are listed twice are of no consequence.
-/

namespace Featurize

/-! ### Columns and rows -/

namespace Tensor

variable {tensor : Tensor} {rows : Nat}

theorem reshape_column (shape : tensor.shape = [rows, 1]) :
    tensor.reshape [-1, 1] = .ok tensor := by
  have word : rows < Word.modulus :=
    tensor.sizes_lt rows (by rw [shape]; exact List.mem_cons_self ..)
  have size : tensor.size = rows := by
    rw [size_eq, shape, Shape.elementCount_of_lt] <;> rw [Shape.volume, Shape.volume, Shape.volume]
    · omega
    · omega
  have counted : Shape.elementCount [tensor.size, 1] = tensor.size := by
    rw [size, ← shape, ← size_eq, size]
  have requested : requestedSizes [-1, 1] false = .ok [none, some 1] := rfl
  have known : Shape.elementCount [1] = 1 := rfl
  have same : ofData [tensor.size, 1] tensor.data = .ok tensor := by
    rw [size, ← shape]
    exact ofData_self tensor
  unfold reshape
  rw [requested]
  simp only [bind, Except.bind, List.filterMap_cons, List.filterMap_nil, id, known, Nat.mod_one,
    Nat.div_one, List.map_cons, List.map_nil, Option.getD_none, Option.getD_some, counted, same,
    Nat.one_ne_zero, ne_eq, not_true_eq_false, or_self, and_false, ↓reduceIte]

end Tensor

namespace Record

variable {record output : Record} {keys : List String} {key : String} {field : Field}
  {change : String → Field → Except Fault Field}

theorem set_of_find? (found : record.find? key = some field) : record.set key field = record := by
  apply ext_find?
  intro name
  rw [find?_set]
  by_cases same : key = name
  · rw [if_pos same, ← same, found]
  · rw [if_neg same]

theorem replaceEach_of_kept
    (kept : ∀ key ∈ keys, ∃ field, record.find? key = some field ∧ change key field = .ok field) :
    record.replaceEach keys change = .ok record := by
  induction keys with
  | nil => rfl
  | cons key keys ih =>
      rcases List.forall_mem_cons.mp kept with ⟨⟨field, found, same⟩, rest⟩
      refine replaceEach_cons_eq_ok_iff.mpr ⟨field, field, found, same, ?_⟩
      rw [set_of_find? found]
      exact ih rest

/-- A change that keeps its own results leaves the fields that it has replaced. -/
theorem replaceEach_again
    (keeps : ∀ key field changed, change key field = .ok changed →
      change key changed = .ok changed)
    (replaced : record.replaceEach keys change = .ok output) :
    output.replaceEach keys change = .ok output := by
  refine replaceEach_of_kept fun key member => ?_
  have stable : ∀ key field changed, change key field = .ok changed →
      ∀ again, change key changed = .ok again → again = changed := by
    intro key field changed made again repeated
    exact Except.ok.inj (repeated.symm.trans (keeps key field changed made))
  rcases find?_replaceEach_of_stable stable replaced member with
    ⟨field, changed, _found, made, stored⟩
  exact ⟨changed, stored, keeps key field changed made⟩

theorem columnVector_again (made : record.columnVector keys = .ok output) :
    output.columnVector keys = .ok output := by
  refine replaceEach_again (fun key field changed made => ?_) made
  simp only [Outcome.bind_eq_ok_iff, Outcome.guard_eq_ok_iff, Outcome.liftShape_eq_ok_iff,
    Outcome.pure_eq_ok_iff] at made
  rcases made with ⟨value, _read, _isColumn, column, cut, same⟩
  subst same
  rcases Tensor.reshape_rows (by decide : 1 < Word.modulus) cut with
    ⟨_positive, rows, _filled, shape, _data⟩
  have form : isColumn column.shape = true := by
    rw [shape]
    rfl
  simp only [columnValues, bind, Except.bind, form, not_true_eq_false, ↓reduceIte,
    Tensor.reshape_column shape]
  rfl

theorem stackRows_again {size : Nat} (word : size < Word.modulus)
    (made : record.stackRows keys size = .ok output) : output.stackRows keys size = .ok output := by
  refine replaceEach_again (fun key field changed made => ?_) made
  have matrix : ∃ dense : Tensor, changed = .tensor dense ∧ dense.rank = 2 ∧
      dense.shape.getD 1 0 = size := by
    split at made
    · split at made
      · rename_i dense shaped
        cases made
        exact ⟨dense, rfl, shaped⟩
      · cases made
    · cases made
      exact ⟨_, rfl, rfl, Word.wrap_of_lt word⟩
    · simp only [Outcome.bind_eq_ok_iff, Outcome.liftShape_eq_ok_iff,
        Outcome.pure_eq_ok_iff] at made
      rcases made with ⟨joined, _concatenated, rows, cut, same⟩
      rcases Tensor.reshape_rows word cut with ⟨_positive, count, _filled, shape, _data⟩
      refine ⟨rows, same.symm, congrArg List.length shape, ?_⟩
      rw [shape]
      rfl
    · cases made
  rcases matrix with ⟨dense, rfl, shaped⟩
  exact if_pos shaped

/-! ### Names -/

def keepField (record kept : Record) (key : String) : Record :=
  (record.find? key).elim kept (kept.set key)

theorem keep_eq_foldl (record : Record) (keys : List String) :
    record.keep keys = keys.foldl record.keepField empty := by
  unfold keep
  refine congrArg (fun step => keys.foldl step empty) (funext fun kept => funext fun key => ?_)
  unfold keepField
  cases record.find? key with
  | none => rfl
  | some field => rfl

theorem find?_keepField (record kept : Record) (key name : String) :
    (record.keepField kept key).find? name =
      if key = name then (record.find? name).or (kept.find? name) else kept.find? name := by
  unfold keepField
  by_cases same : key = name
  · subst same
    rw [if_pos rfl]
    cases found : record.find? key with
    | none => rfl
    | some field =>
        rw [Option.elim_some, find?_set, if_pos rfl]
        rfl
  · rw [if_neg same]
    cases found : record.find? key with
    | none => rfl
    | some field => rw [Option.elim_some, find?_set, if_neg same]

theorem find?_foldl_keepField (record kept : Record) (keys : List String) (name : String) :
    (keys.foldl record.keepField kept).find? name =
      if name ∈ keys then (record.find? name).or (kept.find? name) else kept.find? name := by
  induction keys generalizing kept with
  | nil => rfl
  | cons key keys ih =>
      rw [List.foldl_cons, ih, find?_keepField]
      by_cases same : key = name
      · rw [if_pos same, if_pos (List.mem_cons.mpr (.inl same.symm)), ← Option.or_assoc,
          Option.or_self, ite_self]
      · simp only [if_neg same, List.mem_cons, Ne.symm same, false_or]

theorem find?_keep (record : Record) (keys : List String) (name : String) :
    (record.keep keys).find? name = if name ∈ keys then record.find? name else none := by
  rw [keep_eq_foldl, find?_foldl_keepField, find?_empty, Option.or_none]

theorem find?_remove (record : Record) (keys : List String) (name : String) :
    (record.remove keys).find? name = if name ∈ keys then none else record.find? name := by
  unfold remove
  induction keys generalizing record with
  | nil => rfl
  | cons key keys ih =>
      rw [List.foldl_cons, ih, find?_erase]
      by_cases same : key = name
      · rw [if_pos same, ite_self, if_pos (List.mem_cons.mpr (.inl same.symm))]
      · simp only [if_neg same, List.mem_cons, Ne.symm same, false_or]

theorem keep_keep (record : Record) (keys : List String) :
    (record.keep keys).keep keys = record.keep keys := by
  apply ext_find?
  intro name
  rw [find?_keep, find?_keep]
  by_cases listed : name ∈ keys <;> simp only [listed, ↓reduceIte]

theorem remove_remove (record : Record) (keys : List String) :
    (record.remove keys).remove keys = record.remove keys := by
  apply ext_find?
  intro name
  rw [find?_remove, find?_remove]
  by_cases listed : name ∈ keys <;> simp only [listed, ↓reduceIte]

/-! ### Masks -/

theorem foldl_pairPresenceAt_of_not_pairs (alone : ∀ key pair, ¬ record.Pairs key pair)
    (keys : List String) : keys.foldl pairPresenceAt record = record := by
  induction keys with
  | nil => rfl
  | cons key keys ih => rw [List.foldl_cons, pairPresenceAt_of_not_pairs (alone key), ih]

/-- Pairing visits every name that has a field, so it finds nothing to pair in its own result. -/
theorem pairPresence_again (record : Record) :
    record.pairPresence.pairPresence = record.pairPresence := by
  refine foldl_pairPresenceAt_of_not_pairs (fun key pair left => ?_) _
  rcases dense?_eq_some_iff.mp (pairs_of_foldl_pairPresenceAt left).value with
    ⟨field, found, _viewed⟩
  exact not_pairs_of_visited (mem_keys_iff.mpr ⟨field, found⟩) left

end Record

/-! ### Stages -/

/-- The stages that keep what they make: of the options, a width is a word. -/
inductive Operation.Settles : Operation → Prop where
  | pairPresence : Settles .pairPresence
  | columnVector (keys : List String) : Settles (.columnVector keys)
  | stackRows (keys : List String) {size : Nat} (word : size < Word.modulus) :
      Settles (.stackRows keys size)
  | keep (keys : List String) : Settles (.keep keys)
  | remove (keys : List String) : Settles (.remove keys)
  | identityMatrix (key : String) (size : Nat) : Settles (.identityMatrix key size)

/-- A second application changes nothing. It succeeds with the record that the first one has made,
without a report and with the stage as it was. -/
theorem Stage.repetition_changes_nothing {plain : Operation} (settles : plain.Settles)
    {record output : Record}
    (passed : ((Stage.operation plain).apply record).outcome = .ok output) :
    (Stage.operation plain).apply output = .silent (.operation plain) (.ok output) := by
  refine congrArg (Run.silent (Stage.operation plain)) ?_
  change plain.run record = .ok output at passed
  cases settles with
  | pairPresence =>
      cases passed
      exact congrArg Except.ok record.pairPresence_again
  | columnVector keys => exact Record.columnVector_again passed
  | stackRows keys word => exact Record.stackRows_again word passed
  | keep keys =>
      cases passed
      exact congrArg Except.ok (record.keep_keep keys)
  | remove keys =>
      cases passed
      exact congrArg Except.ok (record.remove_remove keys)
  | identityMatrix key size =>
      cases passed
      have held := (record.find?_set key key (.tensor (Tensor.identity size))).trans (if_pos rfl)
      exact congrArg Except.ok (Record.set_of_find? held)

/-- A list of numbers under a key that is listed twice becomes a column once and for all. -/
theorem Stage.repetition_changes_nothing_column :
    ∃ output,
      ((Stage.operation (.columnVector ["a", "a"])).apply
        (Record.empty.set "a" (.scalarList [⟨3⟩, ⟨4⟩]))).outcome = .ok output ∧
      ((Stage.operation (.columnVector ["a", "a"])).apply output).outcome = .ok output := by
  have passed : ((Stage.operation (.columnVector ["a", "a"])).apply
      (Record.empty.set "a" (.scalarList [⟨3⟩, ⟨4⟩]))).outcome = .ok (_ : Record) := rfl
  have again := Stage.repetition_changes_nothing (.columnVector ["a", "a"]) passed
  exact ⟨_, passed, congrArg Run.outcome again⟩

end Featurize
