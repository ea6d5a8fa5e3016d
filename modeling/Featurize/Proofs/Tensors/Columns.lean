import Featurize.Proofs.Tensors.Joining

/-!
Lines of columns. The last axis of a tensor cuts its elements into lines of one width, and a
column stands in every line at its number. Selected columns are the lines shortened to them: they
can be selected exactly if all of them are there, and each is found at its place in the selection.
-/

namespace Featurize

namespace Shape

variable {lead : Shape} {index : List Nat} {width column : Nat}

theorem position_concat (aligned : index.length = lead.length) :
    position (lead ++ [width]) (index ++ [column]) = lead.position index * width + column := by
  rw [position_append aligned, position_cons, volume_cons, volume, Nat.mul_one, Nat.mul_one]
  rfl

theorem within_concat_iff (aligned : index.length = lead.length) :
    Within (lead ++ [width]) (index ++ [column]) ↔ lead.Within index ∧ column < width := by
  rw [within_append_iff aligned, within_cons]
  exact and_congr_right fun _line => and_iff_left trivial

theorem exists_concat_of_within (within : Within (lead ++ [width]) index) :
    ∃ line column, index = line ++ [column] ∧ lead.Within line ∧ column < width := by
  obtain ⟨line, rest, split, lineWithin, restWithin⟩ := exists_append_of_within within
  obtain ⟨column, single⟩ := List.length_eq_one_iff.mp (length_of_within restWithin)
  subst single
  exact ⟨line, column, split, lineWithin, restWithin.1⟩

theorem words_concat (small : ∀ size ∈ lead, size < Word.modulus) (word : width < Word.modulus) :
    words (lead ++ [width]) = lead ++ [width] := by
  refine words_of_lt fun size member => ?_
  rcases List.mem_append.mp member with front | last
  · exact small size front
  · exact List.mem_singleton.mp last ▸ word

end Shape

namespace Tensor

variable {tensor selected : Tensor} {lead : Shape} {width column : Nat} {index columns : List Nat}

theorem element_tabulate_of_words {shape : Shape} {entry : Nat → Double}
    (words : shape.words = shape) (fits : shape.FitsWord) (within : shape.Within index) :
    (tabulate shape entry).element index = entry (shape.position index) := by
  unfold element
  rw [shape_tabulate, words]
  apply get_tabulate
  rw [words, Shape.elementCount_of_lt fits]
  exact Shape.position_lt_volume within

/-! ### Lines -/

theorem shape_eq_of_rank (axes : 0 < tensor.rank) :
    tensor.shape = tensor.shape.dropLast ++ [tensor.width] := by
  have filled : tensor.shape ≠ [] := List.ne_nil_of_length_pos axes
  rw [Tensor.width, List.getLastD_eq_getLast?, List.getLast?_eq_some_getLast filled,
    Option.getD_some, List.dropLast_concat_getLast]

theorem length_dropLast_shape (axes : 0 < tensor.rank) :
    tensor.shape.dropLast.length + 1 = tensor.rank := by
  rw [List.length_dropLast]
  exact Nat.sub_add_cancel axes

section Lines

variable (shaped : tensor.shape = lead ++ [width])
include shaped

theorem width_of_lines : tensor.width = width := by
  unfold Tensor.width
  rw [shaped, List.getLastD_concat]

theorem rank_of_lines : tensor.rank = lead.length + 1 := by
  rw [rank, shaped, List.length_append, List.length_singleton]

theorem axisAt_last : tensor.axisAt (-1) = lead.length := by
  have ranked := rank_of_lines shaped
  unfold axisAt Shape.place
  rw [if_pos (by decide)]
  omega

theorem sizeAt_last : tensor.sizeAt lead.length = width := by
  rw [sizeAt, shaped, List.getD_eq_getElem?_getD, List.getElem?_concat_length, Option.getD_some]

theorem blockSize_last : tensor.blockSize lead.length = width := by
  have word : width < Word.modulus :=
    tensor.sizes_lt width (shaped ▸ List.mem_append_right _ (List.mem_singleton_self width))
  rw [blockSize_of_shape shaped, Shape.volume, Nat.mul_one, Word.wrap_of_lt word]

theorem element_line (aligned : index.length = lead.length) (column : Nat) :
    tensor.element (index ++ [column]) = tensor.get (lead.position index * width + column) := by
  rw [element, shaped, Shape.position_concat aligned]

end Lines

/-! ### Selecting columns -/

theorem listed_lt (inside : ∀ column ∈ columns, column < width) {place : Nat}
    (below : place < columns.length) : columns.toArray[place]?.getD 0 < width := by
  rw [List.getElem?_toArray, List.getElem?_eq_getElem below, Option.getD_some]
  exact inside _ (List.getElem_mem below)

theorem ofData_ofFn {shape : Shape} {count : Nat} (counted : count = shape.words.elementCount)
    (entry : Nat → Double) :
    ofData shape (Array.ofFn fun position : Fin count => entry position) =
      .ok (tabulate shape entry) := by
  subst counted
  unfold ofData
  rw [dif_pos Array.size_ofFn]
  rfl

theorem selectColumns_eq_ok (shaped : tensor.shape = lead ++ [width]) (exact : tensor.Exact)
    (fits : Shape.FitsWord (lead ++ [columns.length]))
    (inside : ∀ column ∈ columns, column < width) :
    tensor.selectColumns columns = .ok (tabulate (lead ++ [columns.length]) fun position =>
      tensor.get (position / columns.length * width +
        columns.toArray[position % columns.length]?.getD 0)) := by
  have axes : ¬ tensor.rank = 0 := rank_of_lines shaped ▸ Nat.succ_ne_zero _
  have widthIs := width_of_lines shaped
  have none : columns.find? (fun column => tensor.width ≤ column) = none := by
    refine List.find?_eq_none.mpr fun column member => ?_
    rw [widthIs, decide_eq_true_eq]
    exact Nat.not_le.mpr (inside column member)
  have size : tensor.size = lead.volume * width := by
    rw [exact, shaped, Shape.volume_concat]
  have lines : (if tensor.width = 0 then 0 else tensor.size / tensor.width) * columns.length =
      (Shape.words (lead ++ [columns.length])).elementCount := by
    rw [Shape.elementCount_words fits, Shape.volume_concat, widthIs, size]
    rcases Nat.eq_zero_or_pos width with empty | filled
    · have unlisted : columns = [] := List.eq_nil_iff_forall_not_mem.mpr fun column member =>
        absurd (inside column member) (empty ▸ Nat.not_lt_zero column)
      rw [unlisted]
      rfl
    · rw [if_neg (Nat.ne_of_gt filled), Nat.mul_div_cancel _ filled]
  unfold selectColumns
  rw [if_neg axes, none]
  simp only
  rw [shaped, List.dropLast_concat, ← widthIs]
  exact ofData_ofFn lines fun position => tensor.get (position / columns.length * tensor.width +
    columns.toArray[position % columns.length]?.getD 0)

theorem shape_selectColumns (made : tensor.selectColumns columns = .ok selected) :
    selected.shape = Shape.words (tensor.shape.dropLast ++ [columns.length]) := by
  unfold selectColumns at made
  obtain ⟨_axes, made⟩ := Outcome.guard_eq_ok_iff.mp made
  split at made
  · cases made
  · exact (shape_ofData made).1

theorem inside_of_selectColumns (shaped : tensor.shape = lead ++ [width])
    (made : tensor.selectColumns columns = .ok selected) : ∀ column ∈ columns, column < width := by
  unfold selectColumns at made
  obtain ⟨_axes, made⟩ := Outcome.guard_eq_ok_iff.mp made
  split at made
  · cases made
  · rename_i none
    intro column member
    have inside := List.find?_eq_none.mp none column member
    rw [width_of_lines shaped, decide_eq_true_eq] at inside
    exact Nat.lt_of_not_le inside

/-- At its place in the selection, a line has the column that is listed there. -/
theorem exists_selectColumns (shaped : tensor.shape = lead ++ [width]) (exact : tensor.Exact)
    (word : columns.length < Word.modulus) (fits : Shape.FitsWord (lead ++ [columns.length]))
    (inside : ∀ column ∈ columns, column < width) :
    ∃ selected, tensor.selectColumns columns = .ok selected ∧
      selected.shape = lead ++ [columns.length] ∧
      ∀ index, lead.Within index → ∀ place < columns.length,
        selected.element (index ++ [place]) =
          tensor.element (index ++ [columns.toArray[place]?.getD 0]) := by
  have words := Shape.words_concat
    (fun size front => tensor.sizes_lt size (shaped ▸ List.mem_append_left _ front)) word
  refine ⟨_, selectColumns_eq_ok shaped exact fits inside, words, ?_⟩
  intro index within place below
  have aligned := Shape.length_of_within within
  obtain ⟨line, chosen⟩ := @Shape.row_column_of_entry (lead.position index) _ _ below
  rw [element_tabulate_of_words words fits ((Shape.within_concat_iff aligned).mpr ⟨within, below⟩),
    Shape.position_concat aligned, element_line shaped aligned, line, chosen]

end Tensor

end Featurize
