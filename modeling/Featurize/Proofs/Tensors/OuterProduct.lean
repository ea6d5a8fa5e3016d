import Featurize.Proofs.Shapes.Merging
import Featurize.Proofs.Tensors.Columns
import Featurize.Proofs.Tensors.Expansion
import Featurize.Tensor.Product

/-!
Outer products. The axes before the last one are broadcast together, and every line of the result
pairs each column of one tensor with each column of the other, the columns of the second varying
fastest. The product exists exactly if both tensors have columns and their other axes a common
shape.
-/

namespace Featurize

namespace Shape

variable {shape target : Shape} {index : List Nat}

theorem StretchesTo.concat (stretches : shape.StretchesTo target) (size : Nat) :
    StretchesTo (shape ++ [size]) (target ++ [size]) := by
  obtain ⟨lead, rest, joined, fits⟩ := stretchesTo_iff_exists_append.mp stretches
  refine stretchesTo_iff_exists_append.mpr ⟨lead, rest ++ [size], ?_, ?_⟩
  · rw [joined, List.append_assoc]
  · exact List.rel_append fits (.cons (Or.inl rfl) .nil)

theorem readIndex_concat {size entry : Nat} (enough : shape.length ≤ index.length)
    (inside : entry < size) :
    readIndex (shape ++ [size]) (index ++ [entry]) = shape.readIndex index ++ [entry] := by
  have counted : (index.drop (index.length - shape.length)).length = shape.length := by
    rw [List.length_drop]
    omega
  have front : (index ++ [entry]).length - (shape ++ [size]).length =
      index.length - shape.length := by
    rw [List.length_append, List.length_append, List.length_singleton, List.length_singleton]
    omega
  rw [readIndex, front, List.drop_append_of_le_length (Nat.sub_le ..),
    List.zipWith_append counted.symm, readIndex]
  exact congrArg (_ ++ [·]) (pin_of_lt inside)

theorem Joins.first {other least : Shape} (joins : Joins [shape, other] least) :
    shape.StretchesTo least :=
  joins.above shape (List.mem_cons_self ..)

theorem Joins.second {other least : Shape} (joins : Joins [other, shape] least) :
    shape.StretchesTo least :=
  joins.above shape (List.mem_cons_of_mem _ (List.mem_singleton_self shape))

end Shape

namespace Tensor

variable {tensor output left right product : Tensor} {lead : Shape} {index : List Nat}
  {column : Nat}

def leading (tensor : Tensor) : Shape := tensor.shape.dropLast

/-! ### Lines of a common shape -/

theorem exists_expand_lines (axes : 0 < tensor.rank) (stretches : tensor.leading.StretchesTo lead) :
    ∃ output, tensor.expand (lead ++ [tensor.width]) = .ok output := by
  have wide := stretches.concat tensor.width
  rw [leading, ← shape_eq_of_rank axes] at wide
  exact exists_expand wide

/-- Every line of an expanded tensor is the line at which its leading axes are read. -/
theorem get_expand_lines (axes : 0 < tensor.rank)
    (sizes : ∀ size ∈ lead ++ [tensor.width], size < Word.modulus)
    (fits : Shape.FitsWord (lead ++ [tensor.width]))
    (expanded : tensor.expand (lead ++ [tensor.width]) = .ok output)
    (stretches : tensor.leading.StretchesTo lead) (within : lead.Within index)
    (inside : column < tensor.width) :
    tensor.Stores (tensor.leading.readIndex index ++ [column]) ∧
      output.get (lead.position index * tensor.width + column) =
        tensor.element (tensor.leading.readIndex index ++ [column]) := by
  obtain ⟨wide, shaped, _elements⟩ := expand_eq_ok sizes expanded
  have aligned := Shape.length_of_within within
  have lineWithin := (Shape.within_concat_iff aligned).mpr ⟨within, inside⟩
  have read : tensor.shape.readIndex (index ++ [column]) =
      tensor.leading.readIndex index ++ [column] := by
    rw [shape_eq_of_rank axes]
    exact Shape.readIndex_concat (aligned ▸ stretches.1) inside
  rw [← read, ← element_line shaped aligned]
  exact ⟨stores_readIndex wide fits lineWithin, element_expand sizes fits expanded lineWithin⟩

/-! ### Pairs of columns -/

/-- What an outer product succeeds with: the common shape of the leading axes, and both tensors
expanded to it with their own columns. -/
theorem outerProduct_eq_ok_iff :
    left.outerProduct right = .ok product ↔ (0 < left.rank ∧ 0 < right.rank) ∧
      ∃ lead, Shape.Joins [left.leading, right.leading] lead ∧
      ∃ wideLeft, left.expand (lead ++ [left.width]) = .ok wideLeft ∧
      ∃ wideRight, right.expand (lead ++ [right.width]) = .ok wideRight ∧
      tabulate (lead ++ [left.width * right.width]) (fun position =>
        wideLeft.get (position / (left.width * right.width) * left.width +
            position % (left.width * right.width) / right.width) *
          wideRight.get (position / (left.width * right.width) * right.width +
            position % right.width)) = product := by
  have axes : ¬ (left.rank = 0 ∨ right.rank = 0) ↔ 0 < left.rank ∧ 0 < right.rank := by omega
  unfold outerProduct
  simp only [Outcome.guard_eq_ok_iff, Outcome.bind_eq_ok_iff, Outcome.pure_eq_ok_iff, axes,
    Shape.common_eq_ok_iff]
  rfl

theorem exists_outerProduct_iff :
    (∃ product, left.outerProduct right = .ok product) ↔ 0 < left.rank ∧ 0 < right.rank ∧
      ∃ target, left.leading.StretchesTo target ∧ right.leading.StretchesTo target := by
  constructor
  · intro made
    obtain ⟨product, made⟩ := made
    obtain ⟨axes, lead, joins, _expanded⟩ := outerProduct_eq_ok_iff.mp made
    exact ⟨axes.1, axes.2, lead, joins.first, joins.second⟩
  · intro broadcastable
    obtain ⟨leftAxes, rightAxes, target, leftStretches, rightStretches⟩ := broadcastable
    obtain ⟨lead, _merged, joins⟩ := @Shape.exists_common target [left.leading, right.leading]
      (List.forall_mem_cons.mpr ⟨leftStretches, List.forall_mem_singleton.mpr rightStretches⟩)
    obtain ⟨wideLeft, leftExpanded⟩ := exists_expand_lines leftAxes joins.first
    obtain ⟨wideRight, rightExpanded⟩ := exists_expand_lines rightAxes joins.second
    exact ⟨_, outerProduct_eq_ok_iff.mpr ⟨⟨leftAxes, rightAxes⟩, lead, joins, wideLeft,
      leftExpanded, wideRight, rightExpanded, rfl⟩⟩

theorem pair_of_position (line : Nat) {first second firsts seconds : Nat}
    (firstInside : first < firsts) (secondInside : second < seconds) :
    (line * (firsts * seconds) + (first * seconds + second)) / (firsts * seconds) = line ∧
      (line * (firsts * seconds) + (first * seconds + second)) % (firsts * seconds) / seconds =
        first ∧
      (line * (firsts * seconds) + (first * seconds + second)) % seconds = second := by
  obtain ⟨lineIs, pairIs⟩ :=
    @Shape.row_column_of_entry line _ _ (Shape.entry_lt firstInside secondInside)
  have split : line * (firsts * seconds) + (first * seconds + second) =
      (line * firsts + first) * seconds + second := by
    rw [Nat.add_mul, Nat.mul_assoc, Nat.add_assoc]
  refine ⟨lineIs, ?_, ?_⟩
  · rw [pairIs]
    exact (Shape.row_column_of_entry secondInside).1
  · rw [split]
    exact (Shape.row_column_of_entry secondInside).2

theorem width_lt (axes : 0 < tensor.rank) : tensor.width < Word.modulus := by
  refine tensor.sizes_lt _ ?_
  rw [shape_eq_of_rank axes]
  exact List.mem_append_right _ (List.mem_singleton_self _)

theorem sizes_lt_lines {size : Nat} (joins : Shape.Joins [left.leading, right.leading] lead)
    (word : size < Word.modulus) : ∀ other ∈ lead ++ [size], other < Word.modulus := by
  have small := joins.sizes_lt (List.forall_mem_cons.mpr
    ⟨fun size member => left.sizes_lt size (List.dropLast_subset _ member),
      List.forall_mem_singleton.mpr
        fun size member => right.sizes_lt size (List.dropLast_subset _ member)⟩)
  intro other member
  rcases List.mem_append.mp member with front | last
  · exact small other front
  · exact List.mem_singleton.mp last ▸ word

/-- An outer product exists exactly if both tensors have a last axis and their other axes have a
common shape. Under every index of the least such shape it has a column for each pair of columns,
with the product of the elements that the two tensors have there. -/
theorem outer_product_pairs_columns (left right : Tensor) :
    ((∃ product, left.outerProduct right = .ok product) ↔
      0 < left.rank ∧ 0 < right.rank ∧
        ∃ target, left.leading.StretchesTo target ∧ right.leading.StretchesTo target) ∧
    ∀ product, left.outerProduct right = .ok product →
      left.width * right.width < Word.modulus →
      ∃ lead, Shape.Joins [left.leading, right.leading] lead ∧
        product.shape = lead ++ [left.width * right.width] ∧
        (Shape.FitsWord (lead ++ [left.width * right.width]) → product.Exact ∧
          ∀ index, lead.Within index → ∀ first < left.width, ∀ second < right.width,
            left.Stores (left.leading.readIndex index ++ [first]) ∧
            right.Stores (right.leading.readIndex index ++ [second]) ∧
            product.element (index ++ [first * right.width + second]) =
              left.element (left.leading.readIndex index ++ [first]) *
                right.element (right.leading.readIndex index ++ [second])) := by
  refine ⟨exists_outerProduct_iff, fun product made pairs => ?_⟩
  obtain ⟨⟨leftAxes, rightAxes⟩, lead, joins, wideLeft, leftExpanded, wideRight, rightExpanded,
    rfl⟩ := outerProduct_eq_ok_iff.mp made
  have words := Shape.words_of_lt (sizes_lt_lines joins pairs)
  refine ⟨lead, joins, words, fun fits => ⟨exact_tabulate fits _, ?_⟩⟩
  intro index within first firstInside second secondInside
  have leftFits : Shape.FitsWord (lead ++ [left.width]) :=
    fits.of_fewer_columns (Nat.le_mul_of_pos_right _ (Nat.zero_lt_of_lt secondInside))
  have rightFits : Shape.FitsWord (lead ++ [right.width]) :=
    fits.of_fewer_columns (Nat.le_mul_of_pos_left _ (Nat.zero_lt_of_lt firstInside))
  obtain ⟨leftStored, leftRead⟩ := get_expand_lines leftAxes
    (sizes_lt_lines joins (width_lt leftAxes)) leftFits leftExpanded joins.first within firstInside
  obtain ⟨rightStored, rightRead⟩ := get_expand_lines rightAxes
    (sizes_lt_lines joins (width_lt rightAxes)) rightFits rightExpanded joins.second within
    secondInside
  have aligned := Shape.length_of_within within
  obtain ⟨line, firstIs, secondIs⟩ :=
    pair_of_position (lead.position index) firstInside secondInside
  refine ⟨leftStored, rightStored, ?_⟩
  rw [element_tabulate_of_words words fits ((Shape.within_concat_iff aligned).mpr
    ⟨within, Shape.entry_lt firstInside secondInside⟩), Shape.position_concat aligned]
  simp only [line, firstIs, secondIs, leftRead, rightRead]

/-- Two columns meet three, in front of them the axes (2, 1) and (3). A tensor without axes has no
columns, and axes of two and three entries have no common shape. -/
theorem outer_product_pairs_columns_broadcast :
    ∃ product, (numbered [2, 1, 2] 5).outerProduct (numbered [3, 3] 20) = .ok product ∧
      product.shape = [2, 3, 6] ∧
      product.element [1, 2, 5] =
        (numbered [2, 1, 2] 5).element [1, 0, 1] * (numbered [3, 3] 20).element [2, 2] ∧
      ∀ refused, (numbered [] 5).outerProduct (numbered [3, 3] 20) ≠ .ok refused ∧
        (numbered [2, 2] 5).outerProduct (numbered [3, 3] 20) ≠ .ok refused := by
  have joins : Shape.Joins [[2, 1], [3]] [2, 3] := Shape.joins_common rfl
  obtain ⟨pairs, each⟩ :=
    outer_product_pairs_columns (numbered [2, 1, 2] 5) (numbered [3, 3] 20)
  obtain ⟨product, made⟩ := pairs.mpr ⟨by decide, by decide, [2, 3], by decide, by decide⟩
  obtain ⟨lead, leadJoins, shaped, elements⟩ := each product made (by decide)
  obtain rfl : lead = [2, 3] := leadJoins.unique joins
  have within : Shape.Within [2, 3] [1, 2] := ⟨by decide, by decide, trivial⟩
  have pair := ((elements (by decide)).2 [1, 2] within 1 (by decide) 2 (by decide)).2.2
  refine ⟨product, made, shaped, pair, fun refused => ⟨fun made => ?_, fun made => ?_⟩⟩
  · have columns := (outer_product_pairs_columns (numbered [] 5) _).1.mp ⟨refused, made⟩
    exact absurd columns.1 (by decide)
  · obtain ⟨_left, _right, target, first, second⟩ :=
      (outer_product_pairs_columns (numbered [2, 2] 5) _).1.mp ⟨refused, made⟩
    obtain ⟨least, merged, _joins⟩ := @Shape.exists_common target [[2], [3]]
      (List.forall_mem_cons.mpr ⟨first, List.forall_mem_singleton.mpr second⟩)
    cases merged

end Tensor

end Featurize
