import Featurize.Proofs.Shapes.Stretching
import Featurize.Proofs.Tensors.Exactness

/-!
Expansion. A tensor can be expanded exactly to the shapes to which its own shape stretches. The
expanded tensor has the wanted shape and repeats elements: under every multi-index that it
stores stands the element of the first tensor at the index where its shape is read.
-/

namespace Featurize

namespace Shape

theorem StretchesTo.words {shape target : Shape} (stretches : shape.StretchesTo target) :
    shape.words.StretchesTo target.words := by
  obtain ⟨lead, rest, joined, fits⟩ := stretchesTo_iff_exists_append.mp stretches
  subst joined
  refine stretchesTo_iff_exists_append.mpr
    ⟨lead.words, rest.words, List.map_append, ?_⟩
  unfold Shape.words
  rw [List.forall₂_map_left_iff, List.forall₂_map_right_iff]
  refine fits.imp fun size wanted head => ?_
  rcases head with same | one
  · exact Or.inl (congrArg Word.wrap same)
  · rw [one]
    exact Or.inr rfl

theorem Joins.sizes_lt {shapes : List Shape} {least : Shape} (joins : Joins shapes least)
    (small : ∀ shape ∈ shapes, ∀ size ∈ shape, size < Word.modulus) :
    ∀ size ∈ least, size < Word.modulus := by
  have wrapped : least.StretchesTo least.words := by
    apply joins.below
    intro shape member
    have words := (joins.above shape member).words
    rw [words_of_lt (small shape member)] at words
    exact words
  have fits := (stretchesTo_iff_of_length_eq (List.length_map Word.wrap).symm).mp wrapped
  rw [List.forall₂_map_right_iff, List.forall₂_same] at fits
  intro size member
  rcases fits size member with same | one
  · rw [same]
    exact Word.wrap_lt size
  · rw [one]
    decide

end Shape

namespace Tensor

variable {tensor output left right : Tensor} {target : Shape} {index : List Nat}

def Stores (tensor : Tensor) (index : List Nat) : Prop :=
  tensor.shape.Within index ∧ tensor.shape.position index < tensor.size

theorem Exact.stores (unwrapped : tensor.Exact) (within : tensor.shape.Within index) :
    tensor.Stores index := by
  refine ⟨within, ?_⟩
  rw [unwrapped]
  exact Shape.position_lt_volume within

theorem expand_eq_ok_iff :
    tensor.expand target = .ok output ↔ tensor.rank ≤ target.length ∧
      ∃ strides, Shape.stretch? (tensor.shape.leftPad target.length) target = some strides ∧
        output = tensor.gather target (fun index => Shape.dot index strides) := by
  unfold expand
  by_cases short : target.length < tensor.rank
  · rw [if_pos short]
    constructor
    · intro succeeded
      cases succeeded
    · intro both
      have enough := both.1
      omega
  · rw [if_neg short]
    have enough : tensor.rank ≤ target.length := by omega
    cases found : Shape.stretch? (tensor.shape.leftPad target.length) target with
    | none => simp only [reduceCtorEq, false_and, exists_false, and_false]
    | some strides =>
        simp only [Except.ok.injEq, Option.some.injEq, exists_eq_left', enough, true_and]
        exact ⟨Eq.symm, Eq.symm⟩

theorem exists_expand (stretches : tensor.shape.StretchesTo target) :
    ∃ output, tensor.expand target = .ok output := by
  have enough : tensor.shape.length ≤ target.length := stretches.1
  have padded := (Shape.leftPad_stretchesTo_iff enough).mpr ⟨Nat.le_refl _, stretches⟩
  obtain ⟨strides, found⟩ := Shape.exists_stretch?
    ((Shape.stretchesTo_iff_of_length_eq (Shape.length_leftPad enough)).mp padded)
  exact ⟨_, expand_eq_ok_iff.mpr ⟨enough, strides, found, rfl⟩⟩

theorem stretchesTo_of_expand (expanded : tensor.expand target = .ok output) :
    tensor.shape.StretchesTo target := by
  obtain ⟨enough, strides, found, _same⟩ := expand_eq_ok_iff.mp expanded
  have padded : (tensor.shape.leftPad target.length).length = target.length :=
    Shape.length_leftPad enough
  have fits := Shape.forall₂_fits_of_stretch? found
  exact ((Shape.leftPad_stretchesTo_iff enough).mp
    ((Shape.stretchesTo_iff_of_length_eq padded).mpr fits)).2

/-- Every stored element is the one at the index where the shape of the tensor is read. -/
theorem expand_eq_ok (small : ∀ size ∈ target, size < Word.modulus)
    (succeeded : tensor.expand target = .ok output) :
    tensor.shape.StretchesTo target ∧ output.shape = target ∧
      ∀ index, output.Stores index →
        output.element index = tensor.element (tensor.shape.readIndex index) := by
  obtain ⟨enough, strides, found, same⟩ := expand_eq_ok_iff.mp succeeded
  have fits := Shape.forall₂_fits_of_stretch? found
  subst same
  refine ⟨stretchesTo_of_expand succeeded, shape_gather small, ?_⟩
  rintro index ⟨within, stored⟩
  rw [shape_gather small] at within stored
  have below := Shape.position_pin_le fits within
  have read := Shape.position_pin_leftPad enough (Shape.length_of_within within)
  have words : Word.wrap (Shape.dot index strides) =
      Word.wrap (tensor.shape.position (tensor.shape.readIndex index)) := by
    rw [← read]
    exact Shape.dot_stretch? found within
  have counted : (tensor.gather target (fun index => Shape.dot index strides)).size <
      Word.modulus := by
    rw [size_eq]
    exact Word.wrap_lt _
  rw [element_gather small within stored, words, Word.wrap_of_lt (by omega)]
  rfl

theorem ext_of_elements (exact : left.Exact) (sameShape : left.shape = right.shape)
    (elements : ∀ index, left.shape.Within index → left.element index = right.element index) :
    left = right := by
  have sizes : left.data.size = right.data.size := by
    rw [left.data_size, right.data_size, sameShape]
  refine ext_of_fields sameShape (Array.ext sizes fun position stored storedToo => ?_)
  have below : position < left.shape.volume := Nat.lt_of_lt_of_eq stored exact
  obtain ⟨index, within, reached⟩ := Shape.exists_index below
  have same := elements index within
  unfold element at same
  rw [← sameShape, reached, get, get, Array.getElem?_eq_getElem stored,
    Array.getElem?_eq_getElem storedToo, Option.getD_some, Option.getD_some] at same
  exact same

theorem expand_self (exact : tensor.Exact) : tensor.expand tensor.shape = .ok tensor := by
  obtain ⟨output, expanded⟩ := exists_expand (Shape.stretchesTo_refl tensor.shape)
  obtain ⟨_stretches, shaped, elements⟩ := expand_eq_ok tensor.sizes_lt expanded
  have outputExact : output.Exact := exact_of_same_shape exact shaped
  have same : output = tensor := by
    refine ext_of_elements outputExact shaped fun index within => ?_
    rw [elements index (outputExact.stores within), Shape.readIndex_self (shaped ▸ within)]
  rw [expanded, same]

theorem stores_readIndex (stretches : tensor.shape.StretchesTo target) (fits : target.FitsWord)
    (within : target.Within index) : tensor.Stores (tensor.shape.readIndex index) := by
  have unwrapped : tensor.Exact :=
    exact_of_volume_lt (Nat.lt_of_le_of_lt (stretches.volume_le within) fits)
  exact unwrapped.stores (stretches.within_readIndex within)

/-- An expanded tensor with a count that fits a word stores every index. -/
theorem element_expand (sizes : ∀ size ∈ target, size < Word.modulus) (fits : target.FitsWord)
    (expanded : tensor.expand target = .ok output) (within : target.Within index) :
    output.element index = tensor.element (tensor.shape.readIndex index) := by
  obtain ⟨_stretches, shaped, elements⟩ := expand_eq_ok sizes expanded
  have unwrapped : output.Exact := exact_iff_fitsWord.mpr (shaped ▸ fits)
  exact elements index (unwrapped.stores (shaped ▸ within))

/-- Expanding in two steps gives what one step gives. -/
theorem expand_expand {middle : Shape} {between : Tensor}
    (middleSizes : ∀ size ∈ middle, size < Word.modulus)
    (sizes : ∀ size ∈ target, size < Word.modulus) (fits : target.FitsWord)
    (first : tensor.expand middle = .ok between) (second : between.expand target = .ok output) :
    tensor.expand target = .ok output := by
  obtain ⟨stretches, middleShape, firstElements⟩ := expand_eq_ok middleSizes first
  obtain ⟨later, shaped, _elements⟩ := expand_eq_ok sizes second
  obtain ⟨direct, expanded⟩ := exists_expand (stretches.trans (middleShape ▸ later))
  obtain ⟨_stretches, directShape, _elements⟩ := expand_eq_ok sizes expanded
  have unwrapped : direct.Exact := exact_iff_fitsWord.mpr (directShape ▸ fits)
  have same : direct = output := by
    refine ext_of_elements unwrapped (directShape.trans shaped.symm) fun index within => ?_
    rw [directShape] at within
    have enough : middle.length ≤ index.length := by
      have long := later.1
      rw [middleShape] at long
      rw [Shape.length_of_within within]
      exact long
    rw [element_expand sizes fits expanded within, element_expand sizes fits second within,
      firstElements _ (stores_readIndex later fits within), middleShape,
      Shape.readIndex_readIndex stretches enough]
  rw [expanded, same]

/-- A tensor expands exactly to the shapes to which its shape stretches. Under every index of the
expanded tensor stands the element of the tensor at the index where its shape is read: without the
added leading coordinates, and with zero on every axis of size one. So a shape in between makes no
difference. -/
theorem expansion_repeats_and_composes (sizes : ∀ size ∈ target, size < Word.modulus)
    (fits : target.FitsWord) :
    ((∃ output, tensor.expand target = .ok output) ↔ tensor.shape.StretchesTo target) ∧
    (∀ output, tensor.expand target = .ok output →
      output.shape = target ∧ output.Exact ∧
      ∀ index, target.Within index → tensor.Stores (tensor.shape.readIndex index) ∧
        output.element index = tensor.element (tensor.shape.readIndex index)) ∧
    ∀ middle between output, (∀ size ∈ middle, size < Word.modulus) →
      tensor.expand middle = .ok between → between.expand target = .ok output →
      tensor.expand target = .ok output := by
  refine ⟨⟨fun ⟨_output, expanded⟩ => stretchesTo_of_expand expanded, exists_expand⟩,
    fun output expanded => ?_, fun middle between output middleSizes first second =>
      expand_expand middleSizes sizes fits first second⟩
  obtain ⟨stretches, shaped, _elements⟩ := expand_eq_ok sizes expanded
  exact ⟨shaped, exact_iff_fitsWord.mpr (shaped ▸ fits), fun index within =>
    ⟨stores_readIndex stretches fits within, element_expand sizes fits expanded within⟩⟩

/-- A column of two elements becomes three times the matrix of its fourfold columns, at once and by
way of the matrix. A row of two elements becomes no column. -/
theorem expansion_repeats_and_composes_column :
    ∃ matrix output, (numbered [2, 1] 5).expand [2, 4] = .ok matrix ∧
      matrix.expand [3, 2, 4] = .ok output ∧
      (numbered [2, 1] 5).expand [3, 2, 4] = .ok output ∧
      output.element [2, 1, 3] = (numbered [2, 1] 5).element [1, 0] ∧
      ∀ column, (numbered [2] 5).expand [2, 1] ≠ .ok column := by
  obtain ⟨_expands, elements, composes⟩ :=
    @expansion_repeats_and_composes (numbered [2, 1] 5) [3, 2, 4] (by decide) (by decide)
  have refused := @expansion_repeats_and_composes (numbered [2] 5) [2, 1] (by decide) (by decide)
  obtain ⟨matrix, first⟩ := @exists_expand (numbered [2, 1] 5) [2, 4] (by decide)
  obtain ⟨_stretches, shaped, _elements⟩ := expand_eq_ok (by decide) first
  obtain ⟨output, second⟩ := @exists_expand matrix [3, 2, 4] (by rw [shaped]; decide)
  have atOnce := composes [2, 4] matrix output (by decide) first second
  obtain ⟨_shape, _exact, each⟩ := elements output atOnce
  have within : Shape.Within [3, 2, 4] [2, 1, 3] := ⟨by decide, by decide, by decide, trivial⟩
  exact ⟨matrix, output, first, second, atOnce, (each [2, 1, 3] within).2,
    fun column made => absurd (refused.1.mp ⟨column, made⟩) (by decide)⟩

end Tensor

end Featurize
