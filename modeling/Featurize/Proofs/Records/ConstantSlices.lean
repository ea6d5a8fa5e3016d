import Featurize.Proofs.Outcome
import Featurize.Proofs.Tensors.Columns
import Featurize.Stage.Operation

/-!
Constant slices in front of a tensor. The constant block has the sizes of the tensor with one entry
along the last axis, and the two are joined along any axis. Along the last axis the block is one
slice. Along another one it fits only a tensor of width one, and it then has as many slices as the
tensor has.
-/

namespace Featurize

namespace Tensor

variable {input joined : Tensor} {number : Int} {value : Double}

theorem get_full (shape : Shape) (value : Double) {position : Nat}
    (inside : position < shape.words.elementCount) : (full shape value).get position = value := by
  unfold get full
  rw [Array.getElem?_replicate, if_pos inside, Option.getD_some]

def constantBlock (input : Tensor) (value : Double) : Tensor :=
  full (input.shape.dropLast ++ [1]) value

def constantSlices (number : Int) (input : Tensor) : Nat :=
  if input.axisAt number + 1 = input.rank then 1 else input.sizeAlong number

/-- Behind a number of constant slices along the axis, the joined tensor has the slices of the
input. They are found there as long as the sizes of the joined tensor multiply to a word. -/
structure BehindConstant (number : Int) (value : Double) (count : Nat) (input joined : Tensor) :
    Prop where
  rank : joined.rank = input.rank
  across : joined.across number = input.across number
  along : joined.sizeAlong number = Word.wrap (count + input.sizeAlong number)
  constant : (count + input.sizeAlong number) * (input.across number).volume < Word.modulus →
    ∀ entry < count, ∀ index, (input.across number).Within index →
    joined.slice number entry index = value
  kept : (count + input.sizeAlong number) * (input.across number).volume < Word.modulus →
    ∀ entry < input.sizeAlong number, ∀ index, (input.across number).Within index →
    joined.slice number (count + entry) index = input.slice number entry index

theorem shape_constantBlock (value : Double) :
    (input.constantBlock value).shape = input.shape.dropLast ++ [1] := by
  refine Shape.words_of_lt fun size member => ?_
  rcases List.mem_append.mp member with kept | last
  · exact input.sizes_lt size (List.dropLast_subset _ kept)
  · rw [List.mem_singleton.mp last]
    decide

theorem rank_constantBlock (axes : 0 < input.rank) :
    (input.constantBlock value).rank = input.rank := by
  rw [rank, shape_constantBlock, List.length_append]
  exact length_dropLast_shape axes

theorem axisAt_constantBlock (axes : 0 < input.rank) :
    (input.constantBlock value).axisAt number = input.axisAt number := by
  rw [axisAt, axisAt, rank_constantBlock axes]

theorem sizeAlong_constantBlock (named : Shape.Names number input.rank) :
    (input.constantBlock value).sizeAlong number = input.constantSlices number := by
  have inside : input.axisAt number < input.rank := Shape.place_lt named
  have axes := named.positive
  have short := length_dropLast_shape axes
  unfold sizeAlong constantSlices sizeAt
  rw [axisAt_constantBlock axes, shape_constantBlock, List.getD_eq_getElem?_getD]
  by_cases last : input.axisAt number + 1 = input.rank
  · have behind : input.axisAt number = input.shape.dropLast.length := by omega
    rw [if_pos last, behind, List.getElem?_concat_length, Option.getD_some]
  · have before : input.axisAt number < input.shape.dropLast.length := by omega
    have same : input.shape[input.axisAt number]? = input.shape.dropLast[input.axisAt number]? :=
      (congrArg (·[input.axisAt number]?) (shape_eq_of_rank axes)).trans
        (List.getElem?_append_left before)
    rw [if_neg last, sizeAlong, sizeAt, List.getD_eq_getElem?_getD,
      List.getElem?_append_left before, same]

theorem beside_constantBlock_iff (named : Shape.Names number input.rank) :
    Beside number (input.constantBlock value) input ↔
      input.axisAt number + 1 = input.rank ∨ input.width = 1 := by
  have inside : input.axisAt number < input.rank := Shape.place_lt named
  have axes := named.positive
  have short := length_dropLast_shape axes
  unfold Beside across
  rw [rank_constantBlock axes, and_iff_right rfl, axisAt_constantBlock axes, shape_constantBlock]
  rw [congrArg (List.eraseIdx · (input.axisAt number)) (shape_eq_of_rank axes)]
  by_cases last : input.axisAt number + 1 = input.rank
  · have behind : input.axisAt number = input.shape.dropLast.length := by omega
    refine iff_of_true ?_ (Or.inl last)
    rw [behind, List.eraseIdx_append_of_length_le (Nat.le_refl _),
      List.eraseIdx_append_of_length_le (Nat.le_refl _), Nat.sub_self]
    rfl
  · rw [List.eraseIdx_append_of_lt_length (by omega), List.eraseIdx_append_of_lt_length (by omega),
      List.append_cancel_left_eq, List.cons.injEq, or_iff_right last]
    exact and_iff_left rfl

theorem slice_constantBlock (named : Shape.Names number input.rank)
    (beside : Beside number (input.constantBlock value) input)
    (small : input.constantSlices number * (input.across number).volume < Word.modulus)
    {entry : Nat} (inside : entry < input.constantSlices number) {index : List Nat}
    (within : (input.across number).Within index) :
    (input.constantBlock value).slice number entry index = value := by
  obtain ⟨outer, inner, around, axis⟩ := exists_around named
  have blockAxis : outer.length = (input.constantBlock value).axisAt number :=
    axis.trans beside.axisAt
  rw [around] at within small
  have shaped := shape_around (beside.1 ▸ named) (beside.2.symm.trans around) blockAxis
  rw [sizeAlong_constantBlock named] at shaped
  obtain ⟨lead, rest, rfl, leadWithin, restWithin⟩ := Shape.exists_append_of_within within
  have aligned := Shape.length_of_within leadWithin
  have blockWithin : (input.constantBlock value).shape.Within (lead ++ entry :: rest) := by
    rw [shaped]
    exact (Shape.within_append_iff aligned).mpr
      ⟨leadWithin, Shape.within_cons.mpr ⟨inside, restWithin⟩⟩
  have volume : (input.constantBlock value).shape.volume < Word.modulus := by
    rw [shaped, Shape.volume_append, Shape.volume, Nat.mul_left_comm, ← Shape.volume_append]
    exact small
  rw [slice_around (aligned.trans blockAxis)]
  apply get_full
  exact Nat.lt_of_lt_of_eq (Shape.position_lt_volume blockWithin)
    (Shape.elementCount_of_lt volume).symm

theorem concatenate_constantBlock_iff (named : Shape.Names number input.rank) :
    (∃ joined, concatenate [input.constantBlock value, input] number = .ok joined) ↔
      input.axisAt number + 1 = input.rank ∨ input.width = 1 := by
  have axes := named.positive
  simp only [concatenate_cons_eq_ok_iff, rank_constantBlock axes, named, true_and,
    List.forall_mem_singleton, ← @beside_constantBlock_iff input number value named,
    exists_and_left, exists_eq', and_true]

theorem behindConstant_of_concatenate (named : Shape.Names number input.rank)
    (made : concatenate [input.constantBlock value, input] number = .ok joined) :
    BehindConstant number value (input.constantSlices number) input joined := by
  have behind := joinedAlong_of_concatenate made
  have besideInput := behind.beside input (List.mem_cons_of_mem _ (List.mem_cons_self ..))
  have block := @sizeAlong_constantBlock input number value named
  have total : totalAlong number [input.constantBlock value, input] =
      input.constantSlices number + input.sizeAlong number := by
    rw [← block]
    rfl
  have beside : Beside number (input.constantBlock value) input :=
    (concatenate_cons_eq_ok_iff.mp made).2.1 input (List.mem_cons_self ..)
  refine ⟨besideInput.1.symm, besideInput.2.symm, behind.along.trans (congrArg Word.wrap total),
    fun small entry inside index within => ?_, fun small entry inside index within => ?_⟩
  · have blockSmall : input.constantSlices number * (input.across number).volume < Word.modulus :=
      Nat.lt_of_le_of_lt (Nat.mul_le_mul_right _ (Nat.le_add_right ..)) small
    have filled := slice_constantBlock named beside blockSmall inside within
    rw [besideInput.2] at small within
    have front := behind.slices (total ▸ small) [] _ [input] rfl entry (block ▸ inside) index within
    have start : totalAlong number [] + entry = entry := Nat.zero_add entry
    rw [start] at front
    exact front.trans filled
  · rw [besideInput.2] at small within
    have shifted := behind.slices (total ▸ small) [input.constantBlock value] input [] rfl entry
      inside index within
    rw [← block]
    exact shifted

theorem constantSlices_eq_one_iff :
    input.constantSlices number = 1 ↔
      input.axisAt number + 1 = input.rank ∨ input.sizeAlong number = 1 := by
  unfold constantSlices
  by_cases last : input.axisAt number + 1 = input.rank
  · rw [if_pos last]
    exact iff_of_true rfl (Or.inl last)
  · rw [if_neg last, or_iff_right last]

/-- A single slice is in front exactly if the block is one slice. -/
theorem behindConstant_one_iff (named : Shape.Names number input.rank)
    (behind : BehindConstant number value (input.constantSlices number) input joined) :
    BehindConstant number value 1 input joined ↔
      input.axisAt number + 1 = input.rank ∨ input.sizeAlong number = 1 := by
  have word : input.constantSlices number < Word.modulus := by
    unfold constantSlices
    split
    · decide
    · exact sizeAlong_lt named
  rw [← constantSlices_eq_one_iff]
  constructor
  · intro single
    have same : input.constantSlices number + input.sizeAlong number ≡
        1 + input.sizeAlong number [MOD Word.modulus] := behind.along.symm.trans single.along
    have one := Nat.ModEq.add_right_cancel' _ same
    exact Nat.ModEq.eq_of_lt_of_lt one word (by decide)
  · intro single
    rwa [single] at behind

end Tensor

namespace Record

variable {record output : Record} {keys : List String} {key : String} {number : Int}
  {value : Double} {input : Tensor} {changed : Field} {inputs : String → Tensor}

def withConstant (number : Int) (value : Double) (key : String) (field : Field) :
    Except Fault Field := do
  let dense ← field.asTensor key
  if dense.rank = 0 then throw (.shape (.constantRank key))
  return .tensor (← Tensor.concatenate [dense.constantBlock value, dense] number)

theorem appendConstant_eq_replaceEach :
    record.appendConstant keys number value = record.replaceEach keys (withConstant number value) :=
  rfl

theorem withConstant_tensor_eq_ok_iff (named : Shape.Names number input.rank) :
    withConstant number value key (.tensor input) = .ok changed ↔
      ∃ joined, Tensor.concatenate [input.constantBlock value, input] number = .ok joined ∧
        .tensor joined = changed := by
  have axes : ¬ input.rank = 0 := Nat.ne_of_gt named.positive
  simp only [withConstant, Field.asTensor, Outcome.bind_eq_ok_iff, Outcome.guard_eq_ok_iff,
    Outcome.liftShape_eq_ok_iff, Outcome.pure_eq_ok_iff, Except.ok.injEq, exists_eq_left', axes,
    not_false_eq_true, true_and]

theorem exists_appendConstant_iff (distinct : keys.Nodup)
    (held : ∀ key ∈ keys, record.find? key = some (.tensor (inputs key)))
    (named : ∀ key ∈ keys, Shape.Names number (inputs key).rank) :
    (∃ output, record.appendConstant keys number value = .ok output) ↔
      ∀ key ∈ keys, (inputs key).axisAt number + 1 = (inputs key).rank ∨
        (inputs key).width = 1 := by
  rw [appendConstant_eq_replaceEach]
  refine (exists_replaceEach_iff distinct).trans (forall₂_congr fun key member => ?_)
  rw [← @Tensor.concatenate_constantBlock_iff (inputs key) number value (named key member)]
  constructor
  · rintro ⟨field, changed, found, made⟩
    rw [held key member] at found
    cases found
    obtain ⟨joined, concatenated, _same⟩ := (withConstant_tensor_eq_ok_iff (named key member)).mp made
    exact ⟨joined, concatenated⟩
  · rintro ⟨joined, concatenated⟩
    exact ⟨_, .tensor joined, held key member,
      (withConstant_tensor_eq_ok_iff (named key member)).mpr ⟨joined, concatenated, rfl⟩⟩

theorem find?_appendConstant (distinct : keys.Nodup) (member : key ∈ keys)
    (held : record.find? key = some (.tensor input)) (named : Shape.Names number input.rank)
    (made : record.appendConstant keys number value = .ok output) :
    ∃ joined, Tensor.concatenate [input.constantBlock value, input] number = .ok joined ∧
      output.find? key = some (.tensor joined) := by
  rw [appendConstant_eq_replaceEach] at made
  obtain ⟨field, changed, found, replaced, stored⟩ :=
    find?_replaceEach_of_mem distinct made member
  rw [held] at found
  cases found
  obtain ⟨joined, concatenated, rfl⟩ := (withConstant_tensor_eq_ok_iff named).mp replaced
  exact ⟨joined, concatenated, stored⟩

end Record

/-- Constants are put in front of tensors exactly if the axis is the last one of each tensor or the
tensor has width one. Each tensor is then behind one constant slice, if the axis is the last one,
and behind as many as it has slices itself, if not; other fields are unchanged. A single slice is
in front exactly if the axis is the last one or the tensor has one slice along it. -/
theorem Operation.constant_slices_in_front {record : Record} {keys : List String} {number : Int}
    {value : Double} {inputs : String → Tensor} (distinct : keys.Nodup)
    (held : ∀ key ∈ keys, record.find? key = some (.tensor (inputs key)))
    (named : ∀ key ∈ keys, Shape.Names number (inputs key).rank) :
    ((∃ output, Operation.run record (.appendConstant keys number value) = .ok output) ↔
      ∀ key ∈ keys, (inputs key).axisAt number + 1 = (inputs key).rank ∨
        (inputs key).width = 1) ∧
    ∀ output, Operation.run record (.appendConstant keys number value) = .ok output →
      (∀ key ∉ keys, output.find? key = record.find? key) ∧
      ∀ key ∈ keys, ∃ joined, output.find? key = some (.tensor joined) ∧
        Tensor.BehindConstant number value ((inputs key).constantSlices number) (inputs key)
          joined ∧
        (Tensor.BehindConstant number value 1 (inputs key) joined ↔
          (inputs key).axisAt number + 1 = (inputs key).rank ∨
            (inputs key).sizeAlong number = 1) := by
  refine ⟨Record.exists_appendConstant_iff distinct held named, fun output made =>
    ⟨fun key absent => Record.find?_replaceEach_of_not_mem made absent, fun key member => ?_⟩⟩
  obtain ⟨joined, concatenated, stored⟩ :=
    Record.find?_appendConstant distinct member (held key member) (named key member) made
  have behind := Tensor.behindConstant_of_concatenate (named key member) concatenated
  exact ⟨joined, stored, behind, Tensor.behindConstant_one_iff (named key member) behind⟩

def Record.rowAndColumn : Record :=
  ofFields [("row", .tensor (.numbered [3] 4)), ("column", .tensor (.numbered [2, 1] 7))]

/-- Along the first axis the row comes behind one slice and the column behind two. -/
theorem Operation.constant_slices_in_front_both :
    ∃ output row column,
      Operation.run .rowAndColumn (.appendConstant ["row", "column"] 0 1.0) = .ok output ∧
      output.find? "row" = some (.tensor row) ∧
      Tensor.BehindConstant 0 1.0 1 (.numbered [3] 4) row ∧
      output.find? "column" = some (.tensor column) ∧
      Tensor.BehindConstant 0 1.0 2 (.numbered [2, 1] 7) column ∧
      ¬ Tensor.BehindConstant 0 1.0 1 (.numbered [2, 1] 7) column := by
  have both := @Operation.constant_slices_in_front .rowAndColumn ["row", "column"] 0 1.0
    (fun key => if key = "row" then .numbered [3] 4 else .numbered [2, 1] 7) (by decide)
    (List.forall_mem_cons.mpr ⟨rfl, List.forall_mem_singleton.mpr rfl⟩) (by decide)
  obtain ⟨output, made⟩ := both.1.mpr (by decide)
  obtain ⟨_others, each⟩ := both.2 output made
  obtain ⟨row, rowStored, rowBehind, _rowSingle⟩ := each "row" (by decide)
  obtain ⟨column, columnStored, columnBehind, columnSingle⟩ := each "column" (by decide)
  exact ⟨output, row, column, made, rowStored, rowBehind, columnStored, columnBehind,
    fun single => absurd (columnSingle.mp single) (by decide)⟩

/-- Along the first of two axes, a matrix of two columns is refused, and a column of two elements
gets two constants. -/
theorem Operation.first_axis_not_one_slice :
    Operation.run (.ofFields [("x", .tensor (.numbered [2, 2] 5))]) (.appendConstant ["x"] 0 1.0) =
      .error (.shape (.concatenatedSizes 0 [2, 2] [2, 1])) ∧
    ∃ output joined,
      Operation.run (.ofFields [("x", .tensor (.numbered [2, 1] 5))])
        (.appendConstant ["x"] 0 1.0) = .ok output ∧
      output.find? "x" = some (.tensor joined) ∧ joined.shape = [4, 1] ∧
      joined.data = #[1.0, 1.0, ⟨5⟩, ⟨6⟩] :=
  ⟨rfl, _, _, rfl, rfl, rfl, rfl⟩

end Featurize
