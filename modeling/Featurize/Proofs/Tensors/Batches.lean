import Featurize.Proofs.Records.ConstantSlices
import Featurize.Proofs.Records.Stacking

/-!
Batches of rows. Two tensors that differ only in their rows are stacked when they are joined along
the first axis: the elements of the first come before those of the second. An operation that
computes every line of its output from one line of its input, with the same arithmetic for all
lines, gives for the stacked tensor what it gives for the two, stacked, and fails for it exactly if
it fails for one of them.
-/

namespace Featurize

open Outcome (Splits)

namespace Tensor

variable {first second whole tensor : Tensor} {rest lead : Shape} {top bottom width least : Nat}

/-! ### Stacked tensors -/

/-- The second tensor below the first, with at least so many axes. No count wraps: the rows add up,
and the sizes of the whole multiply to a word. -/
structure Stacked (least : Nat) (first second whole : Tensor) : Prop where
  joined : concatenate [first, second] 0 = .ok whole
  rows : whole.rows = first.rows + second.rows
  exact : whole.Exact
  axes : least ≤ whole.rank

theorem rows_of_shape (shaped : tensor.shape = top :: rest) : tensor.rows = top := by
  rw [rows, shaped]
  rfl

theorem exact_of_fewer_rows {more : Nat} (fits : Shape.FitsWord (more :: rest))
    (shaped : tensor.shape = top :: rest) (fewer : top ≤ more) : tensor.Exact :=
  exact_iff_fitsWord.mpr (shaped ▸ fits.of_fewer_rows fewer)

theorem size_of_shape (exact : tensor.Exact) (shaped : tensor.shape = top :: rest) :
    tensor.size = top * rest.volume := by
  rw [exact, shaped, Shape.volume_cons]

theorem exists_joined (firstShape : first.shape = top :: rest)
    (secondShape : second.shape = bottom :: rest) (word : top + bottom < Word.modulus)
    (fits : Shape.FitsWord ((top + bottom) :: rest)) :
    ∃ joined, concatenate [first, second] 0 = .ok joined ∧
      joined.shape = (top + bottom) :: rest ∧ joined.data = first.data ++ second.data := by
  have ranked : 0 < first.rank := by
    rw [rank, firstShape]
    exact Nat.succ_pos _
  have named : Shape.Names 0 first.rank := ⟨by omega, by omega⟩
  have beside : Beside 0 first second := by
    unfold Beside rank across
    rw [firstShape, secondShape]
    exact ⟨rfl, rfl⟩
  obtain ⟨joined, made⟩ : ∃ joined, concatenate [first, second] 0 = .ok joined :=
    ⟨_, concatenate_cons_eq_ok_iff.mpr ⟨named, List.forall_mem_singleton.mpr beside, rfl⟩⟩
  have along : ∀ {part : Tensor} {count : Nat}, part.shape = count :: rest →
      part.sizeAlong 0 = count := by
    intro part count shaped
    unfold sizeAlong sizeAt axisAt rank
    rw [shaped]
    rfl
  refine ⟨joined, made, ?_, ?_⟩
  · have total : totalAlong 0 [first, second] = top + bottom := by
      unfold totalAlong
      rw [List.map_cons, List.map_cons, List.map_nil, along firstShape, along secondShape]
      rfl
    have front : first.axisAt 0 = 0 := rfl
    rw [shape_concatenate made, across, total, front, firstShape, Word.wrap_of_lt word]
    rfl
  · have firstSize := size_of_shape (exact_of_fewer_rows fits firstShape (by omega)) firstShape
    have secondSize := size_of_shape (exact_of_fewer_rows fits secondShape (by omega)) secondShape
    have small : totalSize [first, second] < Word.modulus := by
      rw [totalSize_cons, totalSize_cons, firstSize, secondSize, ← Nat.add_assoc, ← Nat.add_mul]
      exact fits
    have stored := data_concatenate_first made
    rw [Word.wrap_of_lt small, ← length_elements, List.take_length] at stored
    apply Array.toList_inj.mp
    rw [stored, Array.toList_append]
    exact congrArg (first.data.toList ++ ·) (List.append_nil _)

theorem stacked_of_data (axes : least ≤ rest.length + 1) (firstShape : first.shape = top :: rest)
    (secondShape : second.shape = bottom :: rest)
    (wholeShape : whole.shape = (top + bottom) :: rest)
    (fits : Shape.FitsWord ((top + bottom) :: rest))
    (data : whole.data = first.data ++ second.data) : Stacked least first second whole := by
  have word : top + bottom < Word.modulus :=
    whole.sizes_lt _ (wholeShape ▸ List.mem_cons_self ..)
  obtain ⟨joined, made, shape, stored⟩ := exists_joined firstShape secondShape word fits
  have same : joined = whole := ext_of_fields (shape.trans wholeShape.symm) (stored.trans data.symm)
  refine ⟨same ▸ made, ?_, exact_of_fewer_rows fits wholeShape (Nat.le_refl _), ?_⟩
  · rw [rows_of_shape firstShape, rows_of_shape secondShape, rows_of_shape wholeShape]
  · rwa [rank, wholeShape]

structure Flat (first second whole : Tensor) (top bottom : Nat) (rest : Shape) : Prop where
  firstShape : first.shape = top :: rest
  secondShape : second.shape = bottom :: rest
  wholeShape : whole.shape = (top + bottom) :: rest
  fits : Shape.FitsWord ((top + bottom) :: rest)
  data : whole.data = first.data ++ second.data

namespace Stacked

theorem mono {fewer : Nat} (stacked : Stacked least first second whole) (below : fewer ≤ least) :
    Stacked fewer first second whole :=
  { stacked with axes := Nat.le_trans below stacked.axes }

theorem flat (stacked : Stacked least first second whole) :
    ∃ top bottom rest, Flat first second whole top bottom rest := by
  obtain ⟨rest, shaped, made⟩ := concatenate_first_eq_ok stacked.joined
  obtain ⟨top, firstShape⟩ := shaped first (List.mem_cons_self ..)
  obtain ⟨bottom, secondShape⟩ := shaped second (List.mem_cons_of_mem _ (List.mem_cons_self ..))
  have restWords : Shape.words rest = rest := Shape.words_of_lt fun size member =>
    first.sizes_lt size (firstShape ▸ List.mem_cons_of_mem _ member)
  have rows := stacked.rows
  rw [rows_of_shape firstShape, rows_of_shape secondShape] at rows
  have wholeShape : whole.shape = (top + bottom) :: rest := by
    have shape : whole.shape =
        Word.wrap (Word.wrap (totalAt 0 [first, second])) :: Shape.words rest :=
      congrArg Tensor.shape made
    rw [rows_of_shape shape] at rows
    rw [shape, rows, restWords]
  have fits : Shape.FitsWord ((top + bottom) :: rest) :=
    wholeShape ▸ exact_iff_fitsWord.mp stacked.exact
  obtain ⟨joined, again, _shape, data⟩ := exists_joined firstShape secondShape
    (whole.sizes_lt _ (wholeShape ▸ List.mem_cons_self ..)) fits
  have same : joined = whole := Except.ok.inj (again.symm.trans stacked.joined)
  exact ⟨top, bottom, rest, firstShape, secondShape, wholeShape, fits, same ▸ data⟩

end Stacked

namespace Flat

variable (flat : Flat first second whole top bottom rest)
include flat

theorem word : top + bottom < Word.modulus :=
  whole.sizes_lt _ (flat.wholeShape ▸ List.mem_cons_self ..)

theorem firstExact : first.Exact :=
  exact_of_fewer_rows flat.fits flat.firstShape (Nat.le_add_right ..)

theorem secondExact : second.Exact :=
  exact_of_fewer_rows flat.fits flat.secondShape (Nat.le_add_left ..)

theorem wholeExact : whole.Exact := exact_of_fewer_rows flat.fits flat.wholeShape (Nat.le_refl _)

theorem firstRank : first.rank = whole.rank := by
  rw [rank, rank, flat.firstShape, flat.wholeShape]
  rfl

theorem secondRank : second.rank = whole.rank := by
  rw [rank, rank, flat.secondShape, flat.wholeShape]
  rfl

theorem firstSize : first.size = top * rest.volume := size_of_shape flat.firstExact flat.firstShape

theorem get_first {position : Nat} (inside : position < top * rest.volume) :
    whole.get position = first.get position := by
  have within : position < first.data.size := Nat.lt_of_lt_of_eq inside flat.firstSize.symm
  rw [get, get, flat.data, Array.getElem?_append_left within]

theorem get_second (position : Nat) :
    whole.get (top * rest.volume + position) = second.get position := by
  have before : first.data.size = top * rest.volume := flat.firstSize
  rw [get, get, flat.data, Array.getElem?_append_right (by omega), before, Nat.add_sub_cancel_left]

end Flat

/-! ### Tensors made element by element -/

theorem stacked_tabulate {entry firstEntry secondEntry : Nat → Double}
    (axes : least ≤ rest.length + 1) (word : top + bottom < Word.modulus)
    (fits : Shape.FitsWord ((top + bottom) :: rest))
    (front : ∀ position < top * rest.volume, entry position = firstEntry position)
    (back : ∀ position < bottom * rest.volume,
      entry (top * rest.volume + position) = secondEntry position) :
    Stacked least (tabulate (top :: rest) firstEntry) (tabulate (bottom :: rest) secondEntry)
      (tabulate ((top + bottom) :: rest) entry) := by
  -- The rows are words, but the other sizes need not be: with no elements they can be anything.
  have words : ∀ {count}, count ≤ top + bottom →
      Shape.words (count :: rest) = count :: rest.words := fun fewer =>
    congrArg (· :: rest.words) (Word.wrap_of_lt (Nat.lt_of_le_of_lt fewer word))
  have counted : ∀ {count}, count ≤ top + bottom →
      (Shape.words (count :: rest)).elementCount = count * rest.volume := fun fewer =>
    Shape.elementCount_words (fits.of_fewer_rows fewer)
  have aligned : rest.words.length = rest.length := List.length_map _
  refine stacked_of_data (aligned.symm ▸ axes) (words (Nat.le_add_right ..))
    (words (Nat.le_add_left ..)) (words (Nat.le_refl _)) ?_ ?_
  · have same := Shape.volume_words fits
    rw [words (Nat.le_refl _)] at same
    exact same.trans_lt fits
  · apply Array.ext_getElem?
    intro position
    unfold tabulate
    rw [Array.getElem?_append, Array.size_ofFn, Array.getElem?_ofFn, Array.getElem?_ofFn,
      Array.getElem?_ofFn, counted (Nat.le_refl _), counted (Nat.le_add_right ..),
      counted (Nat.le_add_left ..), Nat.add_mul]
    by_cases above : position < top * rest.volume
    · rw [if_pos above, dif_pos above, dif_pos (by omega), front position above]
    · rw [if_neg above]
      by_cases below : position - top * rest.volume < bottom * rest.volume
      · have moved := back _ below
        rw [Nat.add_sub_cancel' (Nat.le_of_not_lt above)] at moved
        rw [dif_pos below, dif_pos (by omega), moved]
      · rw [dif_neg below, dif_neg (by omega)]

/-- Lines of one width, each made from the line with its number. -/
theorem stacked_lines {entry firstEntry secondEntry : Nat → Nat → Double}
    (axes : least ≤ lead.length + 2) (word : top + bottom < Word.modulus)
    (fits : Shape.FitsWord ((top + bottom) :: lead ++ [width]))
    (front : ∀ line < top * lead.volume, ∀ column < width,
      entry line column = firstEntry line column)
    (back : ∀ line < bottom * lead.volume, ∀ column < width,
      entry (top * lead.volume + line) column = secondEntry line column) :
    Stacked least
      (tabulate (top :: lead ++ [width]) fun position =>
        firstEntry (position / width) (position % width))
      (tabulate (bottom :: lead ++ [width]) fun position =>
        secondEntry (position / width) (position % width))
      (tabulate ((top + bottom) :: lead ++ [width]) fun position =>
        entry (position / width) (position % width)) := by
  have volume : Shape.volume (lead ++ [width]) = lead.volume * width :=
    Shape.volume_concat lead width
  have aligned : (lead ++ [width]).length + 1 = lead.length + 2 := by
    rw [List.length_append, List.length_singleton]
  refine @stacked_tabulate (lead ++ [width]) top bottom least _ _ _ (aligned.symm ▸ axes) word fits
    ?_ ?_
  · intro position inside
    rw [volume, ← Nat.mul_assoc, Nat.mul_comm] at inside
    exact front _ (Nat.div_lt_of_lt_mul inside) _ (Nat.mod_lt _ (Nat.pos_of_lt_mul_right inside))
  · intro position inside
    rw [volume, ← Nat.mul_assoc, Nat.mul_comm] at inside
    have filled := Nat.pos_of_lt_mul_right inside
    rw [volume, ← Nat.mul_assoc, Nat.mul_comm, Nat.mul_add_div filled, Nat.mul_add_mod]
    exact back _ (Nat.div_lt_of_lt_mul inside) _ (Nat.mod_lt _ filled)

/-! ### Lines -/

theorem Flat.get_line {line column : Nat}
    (flat : Flat first second whole top bottom (lead ++ [width]))
    (lineInside : line < top * lead.volume) (columnInside : column < width) :
    whole.get (line * width + column) = first.get (line * width + column) := by
  apply flat.get_first
  rw [Shape.volume_concat, ← Nat.mul_assoc]
  exact Shape.entry_lt lineInside columnInside

theorem Flat.get_line_below (flat : Flat first second whole top bottom (lead ++ [width]))
    (line column : Nat) :
    whole.get ((top * lead.volume + line) * width + column) =
      second.get (line * width + column) := by
  rw [Nat.add_mul, Nat.mul_assoc, ← Shape.volume_concat, Nat.add_assoc]
  exact flat.get_second _

/-! ### Selecting columns -/

theorem same_shape_selectColumns {left right leftSelected rightSelected : Tensor}
    {columns : List Nat} (same : left.shape = right.shape)
    (leftMade : left.selectColumns columns = .ok leftSelected)
    (rightMade : right.selectColumns columns = .ok rightSelected) :
    leftSelected.shape = rightSelected.shape := by
  rw [shape_selectColumns leftMade, shape_selectColumns rightMade, same]

namespace Stacked

theorem rank_positive (stacked : Stacked least first second whole) : 0 < whole.rank := by
  obtain ⟨top, bottom, rest, flat⟩ := stacked.flat
  rw [rank, flat.wholeShape, List.length_cons]
  exact Nat.succ_pos _

theorem exists_lines (stacked : Stacked least first second whole) (lines : 2 ≤ whole.rank) :
    ∃ top bottom lead width, Flat first second whole top bottom (lead ++ [width]) := by
  obtain ⟨top, bottom, rest, flat⟩ := stacked.flat
  rcases List.eq_nil_or_concat' rest with none | ⟨lead, width, rfl⟩
  · rw [rank, flat.wholeShape, none] at lines
    exact absurd lines (Nat.not_succ_le_self 1)
  · exact ⟨top, bottom, lead, width, flat⟩

theorem exists_flats {firstMask secondMask wholeMask : Tensor}
    (values : Stacked least first second whole)
    (masks : Stacked least firstMask secondMask wholeMask)
    (firstAligned : first.shape = firstMask.shape)
    (secondAligned : second.shape = secondMask.shape) :
    ∃ top bottom rest, Flat first second whole top bottom rest ∧
      Flat firstMask secondMask wholeMask top bottom rest := by
  obtain ⟨top, bottom, rest, flat⟩ := values.flat
  obtain ⟨maskTop, maskBottom, maskRest, maskFlat⟩ := masks.flat
  obtain ⟨rfl, rfl⟩ : top = maskTop ∧ rest = maskRest := List.cons.inj
    (flat.firstShape.symm.trans (firstAligned.trans maskFlat.firstShape))
  obtain ⟨rfl, _same⟩ : bottom = maskBottom ∧ rest = rest := List.cons.inj
    (flat.secondShape.symm.trans (secondAligned.trans maskFlat.secondShape))
  exact ⟨top, bottom, rest, flat, maskFlat⟩

theorem multiply {firstMask secondMask wholeMask : Tensor}
    (values : Stacked least first second whole)
    (masks : Stacked least firstMask secondMask wholeMask)
    (firstAligned : first.shape = firstMask.shape)
    (secondAligned : second.shape = secondMask.shape) :
    Splits (Stacked least) (first.multiply firstMask) (second.multiply secondMask)
      (whole.multiply wholeMask) := by
  obtain ⟨top, bottom, rest, flat, maskFlat⟩ := values.exists_flats masks firstAligned secondAligned
  have axes := values.axes
  rw [rank, flat.wholeShape, List.length_cons] at axes
  unfold Tensor.multiply
  rw [if_pos firstAligned, if_pos secondAligned,
    if_pos (flat.wholeShape.trans maskFlat.wholeShape.symm), flat.firstShape, flat.secondShape,
    flat.wholeShape]
  refine .passed (stacked_tabulate axes flat.word flat.fits (fun position inside => ?_)
    (fun position _inside => ?_))
  · rw [flat.get_first inside, maskFlat.get_first inside]
  · rw [flat.get_second, maskFlat.get_second]

theorem selectColumns {columns : List Nat} (stacked : Stacked least first second whole)
    (lines : 2 ≤ whole.rank)
    (fits : (∀ column ∈ columns, column < whole.width) →
      Shape.FitsWord (whole.shape.dropLast ++ [columns.length])) :
    Splits (Stacked least) (first.selectColumns columns) (second.selectColumns columns)
      (whole.selectColumns columns) := by
  obtain ⟨top, bottom, lead, width, flat⟩ := stacked.exists_lines lines
  have firstShape : first.shape = (top :: lead) ++ [width] := flat.firstShape
  have secondShape : second.shape = (bottom :: lead) ++ [width] := flat.secondShape
  have wholeShape : whole.shape = ((top + bottom) :: lead) ++ [width] := flat.wholeShape
  by_cases inside : ∀ column ∈ columns, column < width
  · have axes := stacked.axes
    rw [rank, wholeShape, List.length_append] at axes
    rw [width_of_lines wholeShape, wholeShape, List.dropLast_concat] at fits
    have wholeFits : Shape.FitsWord ((top + bottom) :: (lead ++ [columns.length])) := fits inside
    rw [selectColumns_eq_ok firstShape flat.firstExact
        (wholeFits.of_fewer_rows (Nat.le_add_right ..)) inside,
      selectColumns_eq_ok secondShape flat.secondExact
        (wholeFits.of_fewer_rows (Nat.le_add_left ..)) inside,
      selectColumns_eq_ok wholeShape flat.wholeExact wholeFits inside]
    refine .passed (@stacked_lines lead top bottom columns.length least
      (fun line column => whole.get (line * width + columns.toArray[column]?.getD 0))
      (fun line column => first.get (line * width + columns.toArray[column]?.getD 0))
      (fun line column => second.get (line * width + columns.toArray[column]?.getD 0))
      axes flat.word wholeFits ?_ ?_)
    · intro line lineInside column columnInside
      exact flat.get_line lineInside (listed_lt inside columnInside)
    · intro line _lineInside column _columnInside
      exact flat.get_line_below line _
  · exact .of_refused (fun _selected made => inside (inside_of_selectColumns firstShape made))
      (fun _selected made => inside (inside_of_selectColumns wholeShape made))

theorem firstColumns {count : Nat} (stacked : Stacked least first second whole)
    (lines : 2 ≤ whole.rank) :
    Splits (Stacked least) (first.firstColumns count) (second.firstColumns count)
      (whole.firstColumns count) := by
  refine stacked.selectColumns lines fun inside => ?_
  obtain ⟨top, bottom, lead, width, flat⟩ := stacked.exists_lines lines
  have wholeShape : whole.shape = ((top + bottom) :: lead) ++ [width] := flat.wholeShape
  rw [width_of_lines wholeShape] at inside
  have enough : count ≤ width := by
    refine Nat.le_of_not_lt fun more => Nat.lt_irrefl width (inside width ?_)
    exact List.mem_range.mpr more
  have fits := exact_iff_fitsWord.mp stacked.exact
  rw [wholeShape] at fits
  rw [wholeShape, List.dropLast_concat, List.length_range]
  exact fits.of_fewer_columns enough

theorem oneHot {classes : Nat} (stacked : Stacked least first second whole)
    (fits : Shape.FitsWord (whole.shape ++ [classes])) :
    Splits (Stacked (whole.rank + 1)) (first.oneHot classes) (second.oneHot classes)
      (whole.oneHot classes) := by
  obtain ⟨top, bottom, rest, flat⟩ := stacked.flat
  have numbers : Splits (fun above below all => above.length = top * rest.volume ∧
        all = above ++ below)
      (first.data.toList.mapM (classNumber classes))
      (second.data.toList.mapM (classNumber classes))
      (whole.data.toList.mapM (classNumber classes)) := by
    rw [flat.data, Array.toList_append, List.mapM_append]
    cases above : first.data.toList.mapM (classNumber classes) with
    | error fault => exact .firstFailed
    | ok numbersAbove =>
        cases second.data.toList.mapM (classNumber classes) with
        | error fault => exact .secondFailed
        | ok numbersBelow =>
            refine .passed ⟨?_, rfl⟩
            rw [← (Collection.mapM_eq_ok_iff.mp above).length_eq]
            exact flat.firstSize
  have axes : whole.rank + 1 ≤ rest.length + 2 := by
    rw [rank, flat.wholeShape]
    exact Nat.le_refl _
  rw [flat.wholeShape] at fits
  refine numbers.bind ?_
  rintro above below all ⟨counted, rfl⟩
  rw [flat.firstShape, flat.secondShape, flat.wholeShape]
  refine .passed (@stacked_lines rest top bottom classes (whole.rank + 1)
    (fun line column => if (above ++ below).toArray[line]? = some column then 1.0 else 0.0)
    (fun line column => if above.toArray[line]? = some column then 1.0 else 0.0)
    (fun line column => if below.toArray[line]? = some column then 1.0 else 0.0)
    axes flat.word fits ?_ ?_)
  · intro line lineInside column _columnInside
    rw [List.getElem?_toArray, List.getElem?_toArray, List.getElem?_append_left (by omega)]
  · intro line _lineInside column _columnInside
    rw [List.getElem?_toArray, List.getElem?_toArray, List.getElem?_append_right (by omega),
      counted, Nat.add_sub_cancel_left]

end Stacked

/-! ### Columns -/

theorem exists_column (tensor : Tensor) :
    ∃ column, tensor.reshape [-1, 1] = .ok column ∧ column.shape = [tensor.size, 1] ∧
      column.data = tensor.data := by
  have word : tensor.size < Word.modulus := tensor.size_eq ▸ Word.wrap_lt _
  have counted : Shape.elementCount [tensor.size, 1] = tensor.size := by
    rw [Shape.elementCount, Shape.volume_cons, Shape.volume_cons, Shape.volume, Nat.mul_one,
      Word.wrap_of_lt word]
  have words : Shape.words [tensor.size, 1] = [tensor.size, 1] := Shape.words_of_lt
    (List.forall_mem_cons.mpr ⟨word, List.forall_mem_singleton.mpr (by decide)⟩)
  have accepted : requestedSizes [-1, 1] false = .ok [none, some 1] := rfl
  have unit : Shape.elementCount [1] = 1 := rfl
  have cut : tensor.reshape [-1, 1] = ofData [tensor.size, 1] tensor.data := by
    unfold reshape
    rw [accepted]
    simp [unit, counted, bind, Except.bind, Nat.mod_one]
  have fits : tensor.data.size = (Shape.words [tensor.size, 1]).elementCount := by
    rw [words, counted]
    rfl
  obtain ⟨column, stored⟩ : ∃ column, ofData [tensor.size, 1] tensor.data = .ok column :=
    ⟨_, dif_pos fits⟩
  obtain ⟨shape, data⟩ := shape_ofData stored
  exact ⟨column, cut.trans stored, shape.trans words, data⟩

theorem Stacked.columns (stacked : Stacked least first second whole) :
    Splits (Stacked 2) (first.reshape [-1, 1]) (second.reshape [-1, 1])
      (whole.reshape [-1, 1]) := by
  obtain ⟨top, bottom, rest, flat⟩ := stacked.flat
  obtain ⟨firstColumn, firstCut, firstShape, firstData⟩ := first.exists_column
  obtain ⟨secondColumn, secondCut, secondShape, secondData⟩ := second.exists_column
  obtain ⟨wholeColumn, wholeCut, wholeShape, wholeData⟩ := whole.exists_column
  have size : whole.size = first.size + second.size := by
    rw [size_of_shape flat.wholeExact flat.wholeShape, flat.firstSize,
      size_of_shape flat.secondExact flat.secondShape, Nat.add_mul]
  have fits : Shape.FitsWord [first.size + second.size, 1] := by
    have word : whole.size < Word.modulus := whole.size_eq ▸ Word.wrap_lt _
    rw [size] at word
    rwa [Shape.FitsWord, Shape.volume_cons, Shape.volume_cons, Shape.volume, Nat.mul_one]
  rw [size] at wholeShape
  rw [firstCut, secondCut, wholeCut]
  refine .passed (stacked_of_data (Nat.le_refl _) firstShape secondShape wholeShape fits ?_)
  rw [wholeData, flat.data, firstData, secondData]

/-! ### Constants -/

theorem tabulate_of_words {left right : Shape} (same : left.words = right.words)
    (entry : Nat → Double) : tabulate left entry = tabulate right entry := by
  refine ext_of_fields same (Array.ext_getElem? fun position => ?_)
  unfold tabulate
  rw [Array.getElem?_ofFn, Array.getElem?_ofFn]
  simp only [same]

section Constant

variable {value : Double} (shaped : tensor.shape = lead ++ [width])
include shaped

theorem shape_constantBlock_of_lines : (tensor.constantBlock value).shape = lead ++ [1] := by
  rw [shape_constantBlock, shaped, List.dropLast_concat]

theorem joinedShape?_constant :
    joinedShape? (-1) [tensor.constantBlock value, tensor] = some (lead ++ [1 + width]) := by
  have blockShape := @shape_constantBlock_of_lines tensor lead width value shaped
  have ranked := rank_of_lines blockShape
  have place : Shape.axis (-1) (tensor.constantBlock value).rank = .ok lead.length :=
    Shape.axis_eq_ok_iff.mpr ⟨⟨by omega, by omega⟩, axisAt_last blockShape⟩
  unfold joinedShape?
  simp only [place]
  rw [totalAt, totalAt, totalAt, sizeAt_last blockShape, sizeAt_last shaped, blockShape,
    List.set_append_right _ _ (Nat.le_refl _), Nat.sub_self, List.set_cons_zero, Nat.add_zero]

theorem joinedElement_constant (fits : Shape.FitsWord (lead ++ [1])) {position : Nat}
    (inside : position < (1 + width) * lead.volume) :
    joinedElement [tensor.constantBlock value, tensor] lead.length (1 + width) position =
      if position % (1 + width) < 1 then value
      else tensor.get (position / (1 + width) * width + (position % (1 + width) - 1)) := by
  have blockSize : (tensor.constantBlock value).blockSize lead.length = 1 :=
    blockSize_last (shape_constantBlock_of_lines shaped)
  have ownSize := blockSize_last shaped
  have within : position % (1 + width) < 1 + width := Nat.mod_lt _ (Nat.pos_of_lt_mul_right inside)
  have lineInside := Nat.div_lt_of_lt_mul inside
  unfold joinedElement
  by_cases front : position % (1 + width) < 1
  · have found : blockAt? lead.length [tensor.constantBlock value, tensor]
        (position % (1 + width)) = some (tensor.constantBlock value, position % (1 + width)) :=
      if_pos (blockSize.symm ▸ front)
    rw [found, if_pos front]
    apply get_full
    rw [shaped, List.dropLast_concat, Shape.elementCount_words fits, Shape.volume_concat, blockSize]
    omega
  · have found : blockAt? lead.length [tensor.constantBlock value, tensor]
        (position % (1 + width)) = some (tensor, position % (1 + width) - 1) := by
      unfold blockAt? blockAt?
      rw [blockSize, ownSize, if_neg front, if_pos (by omega)]
    rw [found, if_neg front, ← ownSize]

/-- Along the last axis, every line starts with the constant. -/
theorem concatenate_constant_last (fits : Shape.FitsWord (lead ++ [1 + width])) :
    concatenate [tensor.constantBlock value, tensor] (-1) =
      .ok (tabulate (lead ++ [1 + width]) fun position =>
        if position % (1 + width) < 1 then value
        else tensor.get (position / (1 + width) * width + (position % (1 + width) - 1))) := by
  have blockShape := @shape_constantBlock_of_lines tensor lead width value shaped
  have ranked := rank_of_lines shaped
  have blockPlace := axisAt_last blockShape
  have named : Shape.Names (-1) tensor.rank := ⟨by omega, by omega⟩
  have last : tensor.axisAt (-1) + 1 = tensor.rank := by rw [axisAt_last shaped, ranked]
  have beside := (@beside_constantBlock_iff tensor (-1) value named).mpr (Or.inl last)
  have total : totalAlong (-1) [tensor.constantBlock value, tensor] = 1 + width := by
    rw [totalAlong, List.map_cons, List.map_cons, List.map_nil, sizeAlong, sizeAlong, blockPlace,
      axisAt_last shaped, sizeAt_last blockShape, sizeAt_last shaped]
    rfl
  have line : lineSize lead.length [tensor.constantBlock value, tensor] = 1 + width := by
    rw [lineSize, lineSize, lineSize, blockSize_last blockShape, blockSize_last shaped,
      Nat.add_zero]
  have words : Shape.words ((lead ++ [1]).set lead.length (Word.wrap (1 + width))) =
      Shape.words (lead ++ [1 + width]) := by
    rw [Shape.words_set_wrap, List.set_append_right _ _ (Nat.le_refl _), Nat.sub_self,
      List.set_cons_zero]
  have blockFits : Shape.FitsWord (lead ++ [1]) := fits.of_fewer_columns (Nat.le_add_right ..)
  refine concatenate_cons_eq_ok_iff.mpr
    ⟨(rank_constantBlock named.positive).symm ▸ named, List.forall_mem_singleton.mpr beside, ?_⟩
  rw [blockPlace, total, line, blockShape, tabulate_of_words words]
  refine tabulate_congr fun position inside => joinedElement_constant shaped blockFits ?_
  rwa [Shape.elementCount_words fits, Shape.volume_concat, Nat.mul_comm] at inside

omit shaped

theorem Stacked.constant (stacked : Stacked least first second whole)
    (lines : 2 ≤ whole.rank) (fits : Shape.FitsWord (whole.shape.dropLast ++ [1 + whole.width])) :
    Splits (Stacked least) (concatenate [first.constantBlock value, first] (-1))
      (concatenate [second.constantBlock value, second] (-1))
      (concatenate [whole.constantBlock value, whole] (-1)) := by
  obtain ⟨top, bottom, lead, width, flat⟩ := stacked.exists_lines lines
  have firstShape : first.shape = (top :: lead) ++ [width] := flat.firstShape
  have secondShape : second.shape = (bottom :: lead) ++ [width] := flat.secondShape
  have wholeShape : whole.shape = ((top + bottom) :: lead) ++ [width] := flat.wholeShape
  have axes := stacked.axes
  rw [rank, wholeShape, List.length_append] at axes
  rw [width_of_lines wholeShape, wholeShape, List.dropLast_concat] at fits
  have wholeFits : Shape.FitsWord ((top + bottom) :: (lead ++ [1 + width])) := fits
  rw [concatenate_constant_last firstShape (wholeFits.of_fewer_rows (Nat.le_add_right ..)),
    concatenate_constant_last secondShape (wholeFits.of_fewer_rows (Nat.le_add_left ..)),
    concatenate_constant_last wholeShape fits]
  refine .passed (@stacked_lines lead top bottom (1 + width) least
    (fun line column => if column < 1 then value else whole.get (line * width + (column - 1)))
    (fun line column => if column < 1 then value else first.get (line * width + (column - 1)))
    (fun line column => if column < 1 then value else second.get (line * width + (column - 1)))
    axes flat.word fits ?_ ?_)
  · intro line lineInside column columnInside
    by_cases front : column < 1
    · rw [if_pos front, if_pos front]
    · rw [if_neg front, if_neg front, flat.get_line lineInside (by omega)]
  · intro line _lineInside column _columnInside
    rw [flat.get_line_below]

end Constant

end Tensor

end Featurize
