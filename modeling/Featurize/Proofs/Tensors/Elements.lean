import Featurize.Proofs.Outcome
import Featurize.Tensor.Reshape

/-!
Elements of tensors under their multi-indices. The position of a multi-index in storage
is exact, while the sizes and counts of a tensor are machine words; the two agree for
tensors that hold one element for each position of their shape. Cutting the rows of a
matrix into slates regroups the rows and moves no element.
-/

namespace Featurize

namespace Shape

def Within : Shape → List Nat → Prop
  | [], [] => True
  | size :: sizes, coordinate :: coordinates => coordinate < size ∧ Within sizes coordinates
  | _, _ => False

def position : Shape → List Nat → Nat
  | _ :: sizes, coordinate :: coordinates =>
      coordinate * volume sizes + position sizes coordinates
  | _, _ => 0

theorem entry_lt {rows columns row column : Nat} (rowInside : row < rows)
    (columnInside : column < columns) : row * columns + column < rows * columns := by
  have behind : (row + 1) * columns ≤ rows * columns := Nat.mul_le_mul_right columns rowInside
  rw [Nat.succ_mul] at behind
  omega

theorem row_column_of_entry {row columns column : Nat} (inside : column < columns) :
    (row * columns + column) / columns = row ∧ (row * columns + column) % columns = column := by
  constructor
  · rw [Nat.mul_comm, Nat.mul_add_div (Nat.zero_lt_of_lt inside), Nat.div_eq_of_lt inside,
      Nat.add_zero]
  · rw [Nat.mul_comm, Nat.mul_add_mod, Nat.mod_eq_of_lt inside]

theorem position_lt_volume {shape : Shape} {index : List Nat} (within : shape.Within index) :
    shape.position index < shape.volume := by
  induction shape generalizing index with
  | nil => exact Nat.one_pos
  | cons size sizes ih =>
      cases index with
      | nil => exact within.elim
      | cons coordinate coordinates =>
          obtain ⟨below, rest⟩ := within
          exact entry_lt below (ih rest)

end Shape

namespace Tensor

variable {tensor : Tensor}

/-- One element for each position of the shape: the count of elements did not wrap. -/
def Exact (tensor : Tensor) : Prop := tensor.size = tensor.shape.volume

instance : DecidablePred Exact := fun tensor =>
  inferInstanceAs (Decidable (tensor.size = tensor.shape.volume))

def element (tensor : Tensor) (index : List Nat) : Double :=
  tensor.get (tensor.shape.position index)

theorem Exact.volume_lt (unwrapped : tensor.Exact) : tensor.shape.volume < Word.modulus := by
  rw [← unwrapped, size_eq]
  exact Word.wrap_lt _

theorem exact_of_volume_lt (small : tensor.shape.volume < Word.modulus) : tensor.Exact := by
  unfold Exact
  rw [size_eq, Shape.elementCount_of_lt small]

theorem tabulate_congr {shape : Shape} {first second : Nat → Double}
    (same : ∀ position < shape.words.elementCount, first position = second position) :
    tabulate shape first = tabulate shape second :=
  ext_of_fields rfl (congrArg Array.ofFn (funext fun position => same position position.isLt))

theorem shape_tabulate_shape (tensor : Tensor) (entry : Nat → Double) :
    (tabulate tensor.shape entry).shape = tensor.shape := by
  rw [shape_tabulate, Shape.words_of_lt tensor.sizes_lt]

theorem element_tabulate (unwrapped : tensor.Exact) (entry : Nat → Double) {index : List Nat}
    (within : tensor.shape.Within index) :
    (tabulate tensor.shape entry).element index = entry (tensor.shape.position index) := by
  unfold element
  rw [shape_tabulate_shape]
  apply get_tabulate
  rw [Shape.words_of_lt tensor.sizes_lt, Shape.elementCount_of_lt unwrapped.volume_lt]
  exact Shape.position_lt_volume within

def numbered (shape : Shape) (first : Nat) : Tensor :=
  tabulate shape (fun position => ⟨UInt64.ofNat (first + position)⟩)

/-! ### Slates -/

private theorem toNat_signed {size : Nat} (small : size < Word.modulus)
    (positive : 0 ≤ Word.signed size) : (Word.signed size).toNat = size := by
  have below : (size : Int) < Word.modulus := Int.ofNat_lt.mpr small
  unfold Word.signed at positive ⊢
  rw [Int.bmod_def, Int.emod_eq_of_lt (Int.natCast_nonneg size) below] at positive ⊢
  split
  · exact Int.toNat_natCast size
  · rename_i large
    rw [if_neg large] at positive
    omega

private theorem requestedSizes_cons_eq_ok_iff {size : Int} {sizes : List Int} {inferring : Bool}
    {requested : List (Option Nat)} :
    requestedSizes (size :: sizes) inferring = .ok requested ↔
      (size = -1 ∧ inferring = false ∧ ∃ rest, requestedSizes sizes true = .ok rest ∧
        none :: rest = requested) ∨
      (0 ≤ size ∧ ∃ rest, requestedSizes sizes inferring = .ok rest ∧
        some size.toNat :: rest = requested) := by
  rw [requestedSizes]
  by_cases inferred : size = -1
  · rw [if_pos inferred]
    have noSize : ¬ 0 ≤ size := by omega
    cases inferring with
    | true => simp only [↓reduceIte, reduceCtorEq, inferred, Bool.true_eq_false, false_and,
        and_false, Int.reduceNeg, Int.reduceLE, or_self]
    | false =>
        simp only [Bool.false_eq_true, ↓reduceIte, Outcome.bind_eq_ok_iff,
          Outcome.pure_eq_ok_iff, inferred, true_and, Int.reduceNeg, Int.reduceLE, false_and,
          or_false]
  · rw [if_neg inferred]
    by_cases negative : size < 0
    · have noSize : ¬ 0 ≤ size := by omega
      simp only [negative, ↓reduceIte, reduceCtorEq, inferred, false_and, noSize, or_self]
    · have isSize : 0 ≤ size := by omega
      simp only [negative, ↓reduceIte, Outcome.bind_eq_ok_iff, Outcome.pure_eq_ok_iff, inferred,
        false_and, isSize, true_and, false_or]

def openSize (size : Int) : Option Nat := if size = -1 then none else some size.toNat

theorem openSize_of_nonneg {size : Int} (isSize : 0 ≤ size) :
    openSize size = some size.toNat :=
  if_neg (by omega)

/-- Sizes are asked for exactly if none is below minus one and at most one is left open, counting
one that was open before. -/
theorem requestedSizes_eq_ok_iff {sizes : List Int} {inferring : Bool}
    {requested : List (Option Nat)} :
    requestedSizes sizes inferring = .ok requested ↔
      (∀ size ∈ sizes, -1 ≤ size) ∧ sizes.count (-1) + inferring.toNat ≤ 1 ∧
        sizes.map openSize = requested := by
  induction sizes generalizing inferring requested with
  | nil =>
      rw [requestedSizes, Except.ok.injEq, List.map_nil]
      constructor
      · intro same
        exact ⟨List.forall_mem_nil _, by cases inferring <;> decide, same⟩
      · intro all
        exact all.2.2
  | cons size sizes ih =>
      rw [requestedSizes_cons_eq_ok_iff, List.forall_mem_cons, List.map_cons]
      simp only [ih]
      by_cases inferred : size = -1
      · have isOpen : openSize size = none := if_pos inferred
        rw [isOpen, inferred, List.count_cons_self]
        constructor
        · rintro (⟨_open, isFirst, rest, ⟨above, few, asked⟩, same⟩ | ⟨isSize, _⟩)
          · rw [Bool.toNat_true] at few
            rw [isFirst, asked, Bool.toNat_false]
            exact ⟨⟨Int.le_refl _, above⟩, by omega, same⟩
          · omega
        · rintro ⟨⟨_least, above⟩, few, same⟩
          cases inferring with
          | true =>
              rw [Bool.toNat_true] at few
              omega
          | false =>
              rw [Bool.toNat_false] at few
              refine Or.inl ⟨rfl, rfl, _, ⟨above, ?_, rfl⟩, same⟩
              rw [Bool.toNat_true]
              omega
      · have isKnown : openSize size = some size.toNat := if_neg inferred
        rw [isKnown, List.count_cons_of_ne inferred]
        constructor
        · rintro (⟨isOpen, _⟩ | ⟨isSize, rest, ⟨above, few, asked⟩, same⟩)
          · exact absurd isOpen inferred
          · exact ⟨⟨by omega, above⟩, few, asked ▸ same⟩
        · rintro ⟨⟨least, above⟩, few, same⟩
          exact Or.inr ⟨by omega, _, ⟨above, few, rfl⟩, same⟩

theorem requestedSizes_open {sizes : List Int} {requested : List (Option Nat)}
    (accepted : requestedSizes (-1 :: sizes) false = .ok requested) :
    (∀ size ∈ sizes, 0 ≤ size) ∧ requested = none :: sizes.map (fun size => some size.toNat) := by
  obtain ⟨above, few, asked⟩ := requestedSizes_eq_ok_iff.mp accepted
  rw [List.count_cons_self, Bool.toNat_false] at few
  have others : -1 ∉ sizes := List.count_eq_zero.mp (by omega)
  have positive : ∀ size ∈ sizes, 0 ≤ size := by
    intro size member
    have least := above size (List.mem_cons_of_mem _ member)
    have known : size ≠ -1 := fun isOpen => others (isOpen ▸ member)
    omega
  refine ⟨positive, asked.symm.trans (congrArg (none :: ·) ?_)⟩
  exact List.map_congr_left fun size member => openSize_of_nonneg (positive size member)

theorem requestedSizes_words {sizes : List Nat} (words : ∀ size ∈ sizes, size < Word.modulus)
    {requested : List (Option Nat)}
    (accepted : requestedSizes (-1 :: sizes.map (fun size : Nat => Word.signed size)) false =
      .ok requested) : requested = none :: sizes.map some := by
  obtain ⟨positive, same⟩ := requestedSizes_open accepted
  rw [same, List.map_map]
  refine congrArg (none :: ·) (List.map_congr_left fun size member => ?_)
  have isSize : 0 ≤ Word.signed size := List.forall_mem_map.mp positive size member
  exact congrArg some (toNat_signed (words size member) isSize)

/-- Cutting the rows of a matrix leaves as many slates as fill the rows, and the elements where
they are in storage. -/
theorem reshape_slates {slates : Tensor} {count stride columns : Nat}
    (unwrapped : tensor.Exact) (shaped : tensor.shape = [count * stride, columns])
    (strideWord : stride < Word.modulus)
    (cut : tensor.reshape [-1, Word.signed stride, Word.signed columns] = .ok slates) :
    slates.shape = [count, stride, columns] ∧ slates.data = tensor.data := by
  have columnsWord : columns < Word.modulus := tensor.sizes_lt columns (by rw [shaped]; simp)
  have size : tensor.size = count * (stride * columns) := by
    rw [unwrapped, shaped]
    simp only [Shape.volume, Nat.mul_one, Nat.mul_assoc]
  have small : count * (stride * columns) < Word.modulus := by
    rw [← size, size_eq]
    exact Word.wrap_lt _
  unfold reshape at cut
  simp only [Outcome.bind_eq_ok_iff, Outcome.guard_eq_ok_iff] at cut
  obtain ⟨requested, accepted, divisible, _counted, stored⟩ := cut
  have words : ∀ size ∈ [stride, columns], size < Word.modulus :=
    List.forall_mem_cons.mpr ⟨strideWord, List.forall_mem_singleton.mpr columnsWord⟩
  cases @requestedSizes_words [stride, columns] words requested accepted
  simp only [List.filterMap_cons, List.filterMap_nil, id, List.mem_cons, true_or, true_and, not_or,
    List.map_cons, List.map_nil, Option.getD_none, Option.getD_some] at divisible stored
  -- With no batch element the known sizes may wrap, but then there is nothing to divide.
  have quotient : tensor.size / Shape.elementCount [stride, columns] = count := by
    rw [size]
    rcases Nat.eq_zero_or_pos count with empty | filled
    · rw [empty, Nat.zero_mul, Nat.zero_div]
    · have slate : stride * columns ≤ count * (stride * columns) :=
        Nat.le_mul_of_pos_left _ filled
      have known : Shape.elementCount [stride, columns] = stride * columns := by
        rw [Shape.elementCount_of_lt] <;> simp only [Shape.volume, Nat.mul_one]
        omega
      have positive : 0 < stride * columns := by
        have nonzero := divisible.1
        omega
      rw [known, Nat.mul_div_cancel _ positive]
  have countWord : count < Word.modulus := by
    have bounded := Nat.div_le_self tensor.size (Shape.elementCount [stride, columns])
    rw [quotient, size] at bounded
    omega
  rw [quotient] at stored
  obtain ⟨shape, data⟩ := shape_ofData stored
  refine ⟨shape.trans (Shape.words_of_lt fun size member => ?_), data⟩
  simp only [List.mem_cons, List.not_mem_nil, or_false] at member
  rcases member with same | same | same
  · exact same ▸ countWord
  · exact same ▸ strideWord
  · exact same ▸ columnsWord

/-- Step `step` of slate `batch` is the row that many rows behind the first one of the slate. -/
theorem element_slates {slates : Tensor} {count stride columns : Nat}
    (rowsOf : tensor.shape = [count * stride, columns])
    (slatesOf : slates.shape = [count, stride, columns]) (same : slates.data = tensor.data)
    (batch step column : Nat) :
    slates.element [batch, step, column] = tensor.element [batch * stride + step, column] := by
  unfold element get
  rw [rowsOf, slatesOf, same]
  simp only [Shape.position, Shape.volume, Nat.mul_one, Nat.add_mul, Nat.mul_assoc, Nat.add_assoc]

end Tensor

end Featurize
