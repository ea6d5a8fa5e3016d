import Featurize.Proofs.Decimal.WholeNumbers
import Featurize.Proofs.Tensors.Columns
import Featurize.Stage.Operation

/-!
Actions as rows of zeros with a single one. The elements of a tensor are numbers of actions, and
the number behind the last action stands for none of them. It is encoded as one more class whose
column is dropped, so its row is all zero, and every other row has its one at the number of the
action. Where any element is something else, the tensor is refused.
-/

namespace Featurize

namespace Tensor

variable {input rows encoded : Tensor} {classes actions column : Nat} {index : List Nat}

/-- Every element is the number of an action or the one behind the last action. -/
def NumbersActions (actions : Nat) (input : Tensor) : Prop :=
  ∀ index, input.shape.Within index →
    ∃ number ≤ actions, (input.element index).rational? = some (number : ℚ)

/-- The encoded tensor has a row for each element, with a one at its number. -/
structure EncodesActions (actions : Nat) (input encoded : Tensor) : Prop where
  exact : encoded.Exact
  shape : encoded.shape = input.shape ++ [actions]
  entries : ∀ index, input.shape.Within index → ∀ action < actions,
    encoded.element (index ++ [action]) =
      if (input.element index).rational? = some (action : ℚ) then 1.0 else 0.0

theorem EncodesActions.zero_of_sentinel (encodes : EncodesActions actions input encoded)
    (within : input.shape.Within index)
    (sentinel : (input.element index).rational? = some (actions : ℚ)) :
    ∀ action < actions, encoded.element (index ++ [action]) = 0.0 := by
  intro action below
  rw [encodes.entries index within action below,
    if_neg fun same => Nat.ne_of_gt below ((Double.rational?_eq_iff sentinel).mp same)]

theorem EncodesActions.existsUnique_one (encodes : EncodesActions actions input encoded)
    (numbered : NumbersActions actions input) (within : input.shape.Within index)
    (other : (input.element index).rational? ≠ some (actions : ℚ)) :
    ∃! action, action < actions ∧ encoded.element (index ++ [action]) = 1.0 := by
  obtain ⟨number, below, held⟩ := numbered index within
  have inside : number < actions := Nat.lt_of_le_of_ne below fun same => other (same ▸ held)
  refine ⟨number, ⟨inside, ?_⟩, fun action ⟨actionInside, one⟩ => ?_⟩
  · rw [encodes.entries index within number inside, if_pos held]
  · rw [encodes.entries index within action actionInside] at one
    by_cases same : (input.element index).rational? = some (action : ℚ)
    · exact ((Double.rational?_eq_iff held).mp same).symm
    · rw [if_neg same] at one
      exact absurd one (by decide)

/-! ### Classes -/

theorem element_eq_getElem (below : input.shape.position index < input.data.size) :
    input.element index = input.data[input.shape.position index] := by
  rw [element, get, Array.getElem?_eq_getElem below, Option.getD_some]

theorem forall_mem_data_iff (exact : input.Exact) {Holds : Double → Prop} :
    (∀ element ∈ input.data.toList, Holds element) ↔
      ∀ index, input.shape.Within index → Holds (input.element index) := by
  constructor
  · intro stored index within
    have below : input.shape.position index < input.data.size :=
      Nat.lt_of_lt_of_eq (Shape.position_lt_volume within) exact.symm
    rw [element_eq_getElem below]
    exact stored _ (Array.getElem_mem_toList below)
  · intro each element member
    obtain ⟨position, below, same⟩ := List.getElem_of_mem member
    obtain ⟨index, within, rfl⟩ := Shape.exists_index (Nat.lt_of_lt_of_eq below exact)
    have held := each index within
    rw [element_eq_getElem below] at held
    exact same ▸ held

theorem oneHot_eq_ok_iff (few : classes ≤ 9007199254740992) :
    input.oneHot classes = .ok rows ↔ ∃ numbers,
      List.Forall₂ (fun element number => number < classes ∧
        element.rational? = some (number : ℚ)) input.data.toList numbers ∧
      tabulate (input.shape ++ [classes]) (fun position =>
        if numbers.toArray[position / classes]? = some (position % classes) then 1.0
        else 0.0) = rows := by
  unfold oneHot
  simp only [Outcome.bind_eq_ok_iff, Outcome.pure_eq_ok_iff, Collection.mapM_eq_ok_iff,
    classNumber_eq_ok_iff few]

theorem exists_oneHot_iff (few : actions < 9007199254740992) (exact : input.Exact) :
    (∃ rows, input.oneHot (actions + 1) = .ok rows) ↔ NumbersActions actions input := by
  have each := @forall_mem_data_iff input exact fun element =>
    ∃ number, number < actions + 1 ∧ element.rational? = some (number : ℚ)
  rw [← Collection.exists_forall₂_iff] at each
  simp only [Nat.lt_succ_iff] at each
  rw [NumbersActions, ← each]
  simp only [oneHot_eq_ok_iff few, Nat.lt_succ_iff]
  constructor
  · rintro ⟨_rows, numbers, related, _made⟩
    exact ⟨numbers, related⟩
  · rintro ⟨numbers, related⟩
    exact ⟨_, numbers, related, rfl⟩

theorem element_oneHot (few : classes ≤ 9007199254740992)
    (fits : Shape.FitsWord (input.shape ++ [classes])) (exact : input.Exact)
    (made : input.oneHot classes = .ok rows) (within : input.shape.Within index)
    (inside : column < classes) :
    rows.element (index ++ [column]) =
      if (input.element index).rational? = some (column : ℚ) then 1.0 else 0.0 := by
  obtain ⟨numbers, related, rfl⟩ := (oneHot_eq_ok_iff few).mp made
  have aligned := Shape.length_of_within within
  have word : classes < Word.modulus := Nat.lt_of_le_of_lt few (by decide)
  have below : input.shape.position index < input.data.size :=
    Nat.lt_of_lt_of_eq (Shape.position_lt_volume within) exact.symm
  have counted : input.shape.position index < numbers.length := related.length_eq ▸ below
  have held : (input.element index).rational? = some (numbers[input.shape.position index] : ℚ) := by
    rw [element_eq_getElem below]
    exact (related.get below counted).2
  obtain ⟨row, place⟩ := @Shape.row_column_of_entry (input.shape.position index) _ _ inside
  rw [element_tabulate_of_words (Shape.words_concat input.sizes_lt word) fits
      ((Shape.within_concat_iff aligned).mpr ⟨within, inside⟩), Shape.position_concat aligned,
    row, place, List.getElem?_toArray, List.getElem?_eq_getElem counted]
  simp only [Option.some.injEq, Double.rational?_eq_iff held]

theorem exact_of_concat {size : Nat} (some : 0 < size)
    (fits : Shape.FitsWord (input.shape ++ [size])) : input.Exact := by
  rw [Shape.FitsWord, Shape.volume_concat] at fits
  exact exact_of_volume_lt (Nat.lt_of_le_of_lt (Nat.le_mul_of_pos_right _ some) fits)

theorem exact_oneHot_rows (few : classes ≤ 9007199254740992)
    (fits : Shape.FitsWord (input.shape ++ [classes])) (made : input.oneHot classes = .ok rows) :
    rows.Exact ∧ rows.shape = input.shape ++ [classes] := by
  obtain ⟨_numbers, _related, rfl⟩ := (oneHot_eq_ok_iff few).mp made
  have word : classes < Word.modulus := Nat.lt_of_le_of_lt few (by decide)
  exact ⟨exact_tabulate fits _, Shape.words_concat input.sizes_lt word⟩

theorem exists_firstColumns (few : actions < 9007199254740992)
    (fits : Shape.FitsWord (input.shape ++ [actions + 1])) (exact : input.Exact)
    (made : input.oneHot (actions + 1) = .ok rows) :
    ∃ encoded, rows.firstColumns actions = .ok encoded ∧ EncodesActions actions input encoded := by
  obtain ⟨rowsExact, rowsShape⟩ := exact_oneHot_rows few fits made
  have counted : (List.range actions).length = actions := List.length_range
  have word : actions < Word.modulus := Nat.lt_trans few (by decide)
  have fewer : Shape.FitsWord (input.shape ++ [actions]) :=
    fits.of_fewer_columns (Nat.le_succ actions)
  obtain ⟨encoded, kept, shaped, elements⟩ := exists_selectColumns rowsShape rowsExact
    (counted.symm ▸ word) (counted.symm ▸ fewer)
    fun column member => Nat.lt_succ_of_lt (List.mem_range.mp member)
  rw [counted] at shaped elements
  refine ⟨encoded, kept, exact_iff_fitsWord.mpr (shaped ▸ fewer), shaped, ?_⟩
  intro index within action below
  rw [elements index within action below, List.getElem?_toArray, List.getElem?_range below,
    Option.getD_some, element_oneHot few fits exact made within (Nat.lt_succ_of_lt below)]

end Tensor

namespace Record

variable {record : Record} {actions : Nat} {key : String} {field changed : Field} {input : Tensor}

def encodeActions (actions : Nat) (key : String) (field : Field) : Except Fault Field := do
  let encoded ← (← field.asTensor key).oneHot (Word.wrap (actions + 1))
  return .tensor (← encoded.firstColumns actions)

theorem oneHotActions_eq_replaceEach {keys : List String} :
    record.oneHotActions keys actions = record.replaceEach keys (encodeActions actions) :=
  rfl

theorem encodeActions_eq_ok_iff (few : actions < 9007199254740992) :
    encodeActions actions key field = .ok changed ↔
      ∃ input, field = .tensor input ∧ ∃ rows, input.oneHot (actions + 1) = .ok rows ∧
        ∃ encoded, rows.firstColumns actions = .ok encoded ∧ .tensor encoded = changed := by
  have word : actions + 1 < Word.modulus := Nat.lt_of_le_of_lt few (by decide)
  unfold encodeActions
  simp only [Outcome.bind_eq_ok_iff, Outcome.liftShape_eq_ok_iff, Outcome.pure_eq_ok_iff,
    Field.asTensor_eq_ok_iff, Word.wrap_of_lt word]

/-- A tensor is encoded exactly if its elements are numbers of actions. -/
theorem exists_encodeActions_iff (few : actions < 9007199254740992)
    (fits : Shape.FitsWord (input.shape ++ [actions + 1])) :
    (∃ changed, encodeActions actions key (.tensor input) = .ok changed) ↔
      Tensor.NumbersActions actions input := by
  have exact := Tensor.exact_of_concat (Nat.succ_pos actions) fits
  rw [← Tensor.exists_oneHot_iff few exact]
  simp only [encodeActions_eq_ok_iff few, Field.tensor.injEq, exists_eq_left']
  constructor
  · intro ⟨_changed, rows, made, _encoded⟩
    exact ⟨rows, made⟩
  · intro ⟨rows, made⟩
    obtain ⟨encoded, kept, _encodes⟩ := Tensor.exists_firstColumns few fits exact made
    exact ⟨.tensor encoded, rows, made, encoded, kept, rfl⟩

theorem encodesActions_of_encodeActions (few : actions < 9007199254740992)
    (fits : Shape.FitsWord (input.shape ++ [actions + 1]))
    (made : encodeActions actions key (.tensor input) = .ok changed) :
    ∃ encoded, changed = .tensor encoded ∧ Tensor.EncodesActions actions input encoded := by
  have exact := Tensor.exact_of_concat (Nat.succ_pos actions) fits
  obtain ⟨_input, same, rows, rowsMade, encoded, kept, stored⟩ :=
    (encodeActions_eq_ok_iff few).mp made
  cases same
  obtain ⟨again, keptAgain, encodes⟩ := Tensor.exists_firstColumns few fits exact rowsMade
  rw [kept] at keptAgain
  cases keptAgain
  exact ⟨encoded, stored.symm, encodes⟩

end Record

/-- Actions are encoded exactly if each key holds a tensor whose elements are all whole numbers from
zero to the number of actions. At each element the encoded tensor has one entry for each action,
which is one at the action that the element numbers and zero elsewhere. So the number behind the
last action gives zeros only, and every other element exactly one one. -/
theorem Operation.actions_encoded_one_hot {record : Record} {keys : List String} {actions : Nat}
    (few : actions < 9007199254740992) (distinct : keys.Nodup)
    (fits : ∀ key ∈ keys, ∀ input, record.find? key = some (.tensor input) →
      Shape.FitsWord (input.shape ++ [actions + 1])) :
    ((∃ output, Operation.run record (.oneHotActions keys actions) = .ok output) ↔
      ∀ key ∈ keys, ∃ input, record.find? key = some (.tensor input) ∧
        Tensor.NumbersActions actions input) ∧
    ∀ output, Operation.run record (.oneHotActions keys actions) = .ok output →
      (∀ key ∉ keys, output.find? key = record.find? key) ∧
      ∀ key ∈ keys, ∀ input, record.find? key = some (.tensor input) →
        ∃ encoded, output.find? key = some (.tensor encoded) ∧
          Tensor.EncodesActions actions input encoded ∧
          ∀ index, input.shape.Within index →
            ((input.element index).rational? = some (actions : ℚ) →
              ∀ action < actions, encoded.element (index ++ [action]) = 0.0) ∧
            ((input.element index).rational? ≠ some (actions : ℚ) →
              ∃! action, action < actions ∧ encoded.element (index ++ [action]) = 1.0) := by
  simp only [Operation.run, Record.oneHotActions_eq_replaceEach]
  constructor
  · rw [Record.exists_replaceEach_iff distinct]
    refine forall₂_congr fun key member => ?_
    constructor
    · intro ⟨field, changed, found, made⟩
      obtain ⟨input, rfl, _rows⟩ := (Record.encodeActions_eq_ok_iff few).mp made
      exact ⟨input, found, (Record.exists_encodeActions_iff few (fits key member input found)).mp
        ⟨changed, made⟩⟩
    · intro ⟨input, found, numbered⟩
      obtain ⟨changed, made⟩ :=
        (Record.exists_encodeActions_iff few (fits key member input found)).mpr numbered
      exact ⟨_, changed, found, made⟩
  · intro output passed
    refine ⟨fun key absent => Record.find?_replaceEach_of_not_mem passed absent, ?_⟩
    intro key member input found
    obtain ⟨field, changed, held, made, stored⟩ :=
      Record.find?_replaceEach_of_mem distinct passed member
    rw [found] at held
    cases held
    have enough := fits key member input found
    have numbered := (Record.exists_encodeActions_iff few enough).mp ⟨changed, made⟩
    obtain ⟨encoded, rfl, encodes⟩ := Record.encodesActions_of_encodeActions few enough made
    exact ⟨encoded, stored, encodes, fun index within =>
      ⟨encodes.zero_of_sentinel within, encodes.existsUnique_one numbered within⟩⟩

/-- The second action, the last one and the number behind it. A fraction, a number below zero and
one behind the sentinel are refused. -/
theorem Operation.actions_encoded_one_hot_three :
    (∃ output encoded,
      Operation.run (.ofFields [("a", .tensor (.ofList [1.0, 2.0, 3.0]))])
        (.oneHotActions ["a"] 3) = .ok output ∧
      output.find? "a" = some (.tensor encoded) ∧ encoded.shape = [3, 3] ∧
      encoded.element [1, 2] = 1.0 ∧ encoded.element [1, 1] = 0.0 ∧
      ∀ action < 3, encoded.element [2, action] = 0.0) ∧
    ∀ element ∈ ([0.5, -1.0, 4.0] : List Double), ∀ output,
      Operation.run (.ofFields [("a", .tensor (.ofList [element]))])
        (.oneHotActions ["a"] 3) ≠ .ok output := by
  have given (values : List Double) := @Operation.actions_encoded_one_hot
    (.ofFields [("a", .tensor (.ofList values))]) ["a"] 3 (by decide) (by decide)
  constructor
  · obtain ⟨made, each⟩ := given [1.0, 2.0, 3.0]
      (List.forall_mem_singleton.mpr fun input found => by cases found; decide)
    have numbered : Tensor.NumbersActions 3 (.ofList [1.0, 2.0, 3.0]) :=
      (Tensor.exists_oneHot_iff (by decide) (Tensor.exact_ofList _)).mp ⟨_, rfl⟩
    obtain ⟨output, passed⟩ := made.mpr (List.forall_mem_singleton.mpr ⟨_, rfl, numbered⟩)
    obtain ⟨encoded, stored, encodes, rows⟩ := (each output passed).2 "a" (by decide) _ rfl
    have second : ((Tensor.ofList [1.0, 2.0, 3.0]).element [1]).rational? = some ((2 : Nat) : ℚ) :=
      ((@Tensor.classNumber_eq_ok_iff 4 2 _ (by decide)).mp rfl).2
    have third : ((Tensor.ofList [1.0, 2.0, 3.0]).element [2]).rational? = some ((3 : Nat) : ℚ) :=
      ((@Tensor.classNumber_eq_ok_iff 4 3 _ (by decide)).mp rfl).2
    have inside : Shape.Within [3] [1] := ⟨by decide, trivial⟩
    have last : Shape.Within [3] [2] := ⟨by decide, trivial⟩
    refine ⟨output, encoded, passed, stored, encodes.shape, ?_, ?_, (rows [2] last).1 third⟩
    · exact (encodes.entries [1] inside 2 (by decide)).trans (if_pos second)
    · exact (encodes.entries [1] inside 1 (by decide)).trans
        (if_neg fun same => absurd ((Double.rational?_eq_iff second).mp same) (by decide))
  · intro element member output passed
    have one : Shape.FitsWord [1, 4] := by decide
    obtain ⟨made, _each⟩ := given [element]
      (List.forall_mem_singleton.mpr fun input found => by cases found; exact one)
    obtain ⟨input, found, numbered⟩ := made.mp ⟨output, passed⟩ "a" (List.mem_singleton_self _)
    cases found
    obtain ⟨number, below, held⟩ := numbered [0] ⟨Nat.one_pos, trivial⟩
    have whole := (@Tensor.classNumber_eq_ok_iff 4 number element (by decide)).mpr
      ⟨Nat.lt_succ_of_le below, held⟩
    simp only [List.mem_cons, List.not_mem_nil, or_false] at member
    rcases member with rfl | rfl | rfl <;> cases whole

end Featurize
