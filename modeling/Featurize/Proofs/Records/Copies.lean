import Featurize.Proofs.Tensors.Alignment
import Featurize.Proofs.Tensors.Tiling
import Featurize.Stage.Operation

/-!
Copies along a new axis. The axis is put between the axes of a tensor, or in front of or behind all
of them, with size one, and then repeated. The number that names the gap names the new axis among
the axes that there are then, so every slice across it is the tensor itself. A single copy is the
same without the repetition.
-/

namespace Featurize

namespace Shape

variable {shape : Shape} {index : List Nat}

theorem zipWith_mod_self (within : shape.Within index) :
    List.zipWith (· % ·) index shape = index := by
  induction shape generalizing index with
  | nil =>
      rw [List.length_eq_zero_iff.mp (length_of_within within)]
      rfl
  | cons size sizes ih =>
      cases index with
      | nil => exact within.elim
      | cons coordinate coordinates =>
          obtain ⟨inside, rest⟩ := within_cons.mp within
          rw [List.zipWith_cons_cons, Nat.mod_eq_of_lt inside, ih rest]

theorem set_replicate_one {place rank : Nat} (inside : place ≤ rank) (count : Nat) :
    (List.replicate (rank + 1) 1).set place count =
      (List.replicate rank 1).insertIdx place count := by
  induction place generalizing rank with
  | zero => rfl
  | succ place ih =>
      cases rank with
      | zero => cases inside
      | succ rank =>
          rw [List.replicate_succ, List.set_cons_succ, ih (Nat.le_of_succ_le_succ inside)]
          rfl

theorem zipWith_mul_one (shape : Shape) :
    List.zipWith (· * ·) shape (List.replicate shape.length 1) = shape := by
  induction shape with
  | nil => rfl
  | cons size sizes ih =>
      rw [List.length_cons, List.replicate_succ, List.zipWith_cons_cons, ih, Nat.mul_one]

theorem tiled_insertIdx_one {place : Nat} (inside : place ≤ shape.length) (count : Nat) :
    tiled (shape.insertIdx place 1) ((List.replicate (shape.length + 1) 1).set place count) =
      shape.insertIdx place count := by
  have longer := List.length_insertIdx_of_le_length inside 1
  have unpadded : leftPad (shape.insertIdx place 1) (shape.length + 1) =
      shape.insertIdx place 1 := by
    rw [leftPad, longer, Nat.sub_self]
    rfl
  rw [tiled, List.length_set, List.length_replicate, unpadded, set_replicate_one inside,
    zipWith_insertIdx _ List.length_replicate.symm, zipWith_mul_one, Nat.one_mul]

theorem tileIndex_insertIdx_one (within : shape.Within index) {place : Nat}
    (inside : place ≤ shape.length) (entry : Nat) :
    tileIndex (shape.insertIdx place 1) (index.insertIdx place entry) =
      index.insertIdx place 0 := by
  have aligned := length_of_within within
  rw [tileIndex_eq_zipWith, List.length_insertIdx_of_le_length inside,
    List.length_insertIdx_of_le_length (aligned ▸ inside), aligned, Nat.sub_self, List.drop_zero,
    zipWith_insertIdx _ aligned, zipWith_mod_self within, Nat.mod_one]

end Shape

namespace Tensor

variable {input inserted output : Tensor} {number : Int} {count : Nat} {index : List Nat}

/-- Every slice across the new axis is the input. -/
structure CopiedAlong (number : Int) (count : Nat) (input output : Tensor) : Prop where
  shape : output.shape = input.shape.insertIdx (Shape.place number (input.rank + 1)) count
  slices : count * input.shape.volume < Word.modulus → output.Exact ∧
    ∀ entry < count, ∀ index, input.shape.Within index →
      output.slice number entry index = input.element index

/-- Copied so many times in a row, each time along one more axis. -/
inductive CopiedTimes (number : Int) (count : Nat) : Nat → Tensor → Tensor → Prop where
  | never (tensor : Tensor) : CopiedTimes number count 0 tensor tensor
  | again {times : Nat} {input between output : Tensor}
      (first : CopiedAlong number count input between)
      (rest : CopiedTimes number count times between output) :
      CopiedTimes number count (times + 1) input output

theorem copiedTimes_one_iff :
    CopiedTimes number count 1 input output ↔ CopiedAlong number count input output := by
  constructor
  · intro times
    cases times with
    | again first rest =>
        cases rest
        exact first
  · intro copied
    exact .again copied (.never output)

theorem CopiedAlong.rank (copied : CopiedAlong number count input output)
    (named : Shape.Names number (input.rank + 1)) : output.rank = input.rank + 1 :=
  (aligned_of_shape named copied.shape).1

/-! ### The new axis -/

theorem unsqueeze_eq_ok_iff :
    input.unsqueeze number = .ok inserted ↔ Shape.Names number (input.rank + 1) ∧
      inserted.shape = input.shape.insertIdx (Shape.place number (input.rank + 1)) 1 ∧
      inserted.data = input.data := by
  unfold unsqueeze
  simp only [Outcome.bind_eq_ok_iff, Shape.gap_eq_ok_iff, and_assoc, exists_and_left,
    exists_eq_left']
  refine and_congr_right fun named => ?_
  have inside := Nat.le_of_lt_succ (Shape.place_lt named)
  have one : 1 < Word.modulus := by decide
  have sizes := Shape.words_of_lt
    (Shape.sizes_lt_insertIdx one input.sizes_lt (Shape.place number (input.rank + 1)))
  have counted : input.data.size = Shape.elementCount
      (Shape.words (input.shape.insertIdx (Shape.place number (input.rank + 1)) 1)) := by
    rw [sizes, Shape.elementCount_insertIdx_one inside, input.data_size]
  rw [ofData, dif_pos counted, Except.ok.injEq]
  constructor
  · rintro rfl
    exact ⟨sizes, rfl⟩
  · rintro ⟨shaped, stored⟩
    exact ext_of_fields (sizes.trans shaped.symm) stored.symm

theorem exists_unsqueeze_iff :
    (∃ inserted, input.unsqueeze number = .ok inserted) ↔
      Shape.Names number (input.rank + 1) := by
  constructor
  · rintro ⟨inserted, unsqueezed⟩
    exact (unsqueeze_eq_ok_iff.mp unsqueezed).1
  · intro named
    have one : 1 < Word.modulus := by decide
    have counted := Shape.elementCount_insertIdx_one (Nat.le_of_lt_succ (Shape.place_lt named))
    exact ⟨⟨_, input.data, Shape.sizes_lt_insertIdx one input.sizes_lt _,
      input.data_size.trans counted.symm⟩, unsqueeze_eq_ok_iff.mpr ⟨named, rfl, rfl⟩⟩

theorem rank_unsqueeze (unsqueezed : input.unsqueeze number = .ok inserted) :
    inserted.rank = input.rank + 1 := by
  obtain ⟨named, shaped, _stored⟩ := unsqueeze_eq_ok_iff.mp unsqueezed
  exact (aligned_of_shape named shaped).1

theorem element_unsqueeze (unsqueezed : input.unsqueeze number = .ok inserted)
    (within : input.shape.Within index) :
    inserted.element (index.insertIdx (Shape.place number (input.rank + 1)) 0) =
      input.element index := by
  obtain ⟨named, shaped, stored⟩ := unsqueeze_eq_ok_iff.mp unsqueezed
  have inside := Nat.le_of_lt_succ (Shape.place_lt named)
  rw [element, element, shaped, Shape.position_insertIdx_one within inside, get, get, stored]

theorem copiedAlong_of_unsqueeze (unsqueezed : input.unsqueeze number = .ok inserted) :
    CopiedAlong number 1 input inserted := by
  obtain ⟨named, shaped, _stored⟩ := unsqueeze_eq_ok_iff.mp unsqueezed
  have inside := Nat.le_of_lt_succ (Shape.place_lt named)
  refine ⟨shaped, fun few => ⟨?_, fun entry below index within => ?_⟩⟩
  · rw [exact_iff_fitsWord, shaped]
    exact Shape.fitsWord_insertIdx inside few
  · rw [slice, axisAt, rank_unsqueeze unsqueezed, Nat.lt_one_iff.mp below]
    exact element_unsqueeze unsqueezed within

theorem copiedAlong_of_tile (word : count < Word.modulus)
    (unsqueezed : input.unsqueeze number = .ok inserted)
    (tiled : inserted.tile ((List.replicate inserted.rank 1).set
      (Shape.place number inserted.rank) count) = .ok output) :
    CopiedAlong number count input output := by
  obtain ⟨named, shaped, _stored⟩ := unsqueeze_eq_ok_iff.mp unsqueezed
  have inside := Nat.le_of_lt_succ (Shape.place_lt named)
  rw [rank_unsqueeze unsqueezed] at tiled
  have repeated : inserted.shape.tiled ((List.replicate (input.rank + 1) 1).set
      (Shape.place number (input.rank + 1)) count) =
        input.shape.insertIdx (Shape.place number (input.rank + 1)) count := by
    rw [shaped]
    exact Shape.tiled_insertIdx_one inside count
  have sizes := Shape.sizes_lt_insertIdx word input.sizes_lt (Shape.place number (input.rank + 1))
  rw [← repeated] at sizes
  have outputShape := (shape_tile sizes tiled).trans repeated
  have copied : output.rank = input.rank + 1 := (aligned_of_shape named outputShape).1
  refine ⟨outputShape, fun few => ?_⟩
  have fits := Shape.fitsWord_insertIdx inside few
  refine ⟨exact_iff_fitsWord.mpr (outputShape ▸ fits), fun entry below index within => ?_⟩
  have between := Shape.within_insertIdx below within (Shape.place number (input.rank + 1))
  rw [← repeated] at fits between
  rw [slice, axisAt, copied, element_tile sizes fits tiled between, shaped,
    Shape.tileIndex_insertIdx_one within inside, element_unsqueeze unsqueezed within]

end Tensor

namespace Record

variable {record output : Record} {keys : List String} {key : String} {number : Int}
  {count : Nat} {input : Tensor} {field changed : Field}

def copyAlong (number : Int) (count : Nat) (key : String) (field : Field) : Except Fault Field := do
  let inserted ← (← field.asTensor key).unsqueeze number
  if count = 1 then return .tensor inserted
  else
    let place ← Shape.axis number inserted.rank
    return .tensor (← inserted.tile ((List.replicate inserted.rank 1).set place count))

theorem unsqueezeRepeat_eq_replaceEach :
    record.unsqueezeRepeat keys number count = record.replaceEach keys (copyAlong number count) :=
  rfl

theorem copiedAlong_of_copyAlong (word : count < Word.modulus)
    (made : copyAlong number count key field = .ok changed) :
    ∃ input copied, field = .tensor input ∧ changed = .tensor copied ∧
      Shape.Names number (input.rank + 1) ∧ Tensor.CopiedAlong number count input copied := by
  simp only [copyAlong, Outcome.bind_eq_ok_iff, Field.asTensor_eq_ok_iff,
    Outcome.liftShape_eq_ok_iff] at made
  obtain ⟨input, held, inserted, unsqueezed, made⟩ := made
  have named := (Tensor.unsqueeze_eq_ok_iff.mp unsqueezed).1
  by_cases single : count = 1
  · rw [if_pos single, Outcome.pure_eq_ok_iff] at made
    subst single
    exact ⟨input, inserted, held, made.symm, named, Tensor.copiedAlong_of_unsqueeze unsqueezed⟩
  · simp only [if_neg single, Outcome.bind_eq_ok_iff, Outcome.liftShape_eq_ok_iff,
      Shape.axis_eq_ok_iff, Outcome.pure_eq_ok_iff] at made
    obtain ⟨place, ⟨_named, rfl⟩, copied, tiled, same⟩ := made
    exact ⟨input, copied, held, same.symm, named,
      Tensor.copiedAlong_of_tile word unsqueezed tiled⟩

theorem exists_copyAlong (named : Shape.Names number (input.rank + 1)) (count : Nat)
    (key : String) : ∃ copied, copyAlong number count key (.tensor input) = .ok copied := by
  obtain ⟨inserted, unsqueezed⟩ := Tensor.exists_unsqueeze_iff.mpr named
  simp only [copyAlong, Outcome.bind_eq_ok_iff, Field.asTensor_eq_ok_iff,
    Outcome.liftShape_eq_ok_iff, Field.tensor.injEq, exists_eq_left', unsqueezed, Except.ok.injEq]
  by_cases single : count = 1
  · simp only [if_pos single, Outcome.pure_eq_ok_iff, exists_eq']
  · have again : Shape.Names number inserted.rank := by
      rw [Tensor.rank_unsqueeze unsqueezed]
      exact named
    obtain ⟨copied, tiled⟩ : ∃ copied, inserted.tile ((List.replicate inserted.rank 1).set
        (Shape.place number inserted.rank) count) = .ok copied := by
      rw [Tensor.exists_tile_iff, List.length_set, List.length_replicate]
    exact ⟨.tensor copied, by
      simp only [if_neg single, Outcome.bind_eq_ok_iff, Outcome.liftShape_eq_ok_iff,
        Shape.axis_eq_ok again, Outcome.pure_eq_ok_iff, Except.ok.injEq, exists_eq_left', tiled]⟩

/-- One more axis does not make a number invalid, so a key that is listed again is copied again. -/
theorem exists_unsqueezeRepeat_iff (word : count < Word.modulus) :
    (∃ output, record.unsqueezeRepeat keys number count = .ok output) ↔
      ∀ key ∈ keys, ∃ input, record.find? key = some (.tensor input) ∧
        Shape.Names number (input.rank + 1) := by
  simp only [unsqueezeRepeat_eq_replaceEach]
  induction keys generalizing record with
  | nil => exact iff_of_true ⟨record, rfl⟩ (List.forall_mem_nil _)
  | cons head keys ih =>
      rw [List.forall_mem_cons]
      constructor
      · rintro ⟨output, made⟩
        obtain ⟨field, changed, found, first, rest⟩ := replaceEach_cons_eq_ok_iff.mp made
        obtain ⟨input, copied, rfl, rfl, named, _along⟩ := copiedAlong_of_copyAlong word first
        refine ⟨⟨input, found, named⟩, fun key member => ?_⟩
        obtain ⟨held, heldFound, heldNamed⟩ := ih.mp ⟨output, rest⟩ key member
        rw [find?_set] at heldFound
        by_cases same : head = key
        · exact ⟨input, same ▸ found, named⟩
        · rw [if_neg same] at heldFound
          exact ⟨held, heldFound, heldNamed⟩
      · rintro ⟨⟨input, found, named⟩, others⟩
        obtain ⟨changed, first⟩ := exists_copyAlong named count head
        obtain ⟨_input, copied, same, rfl, _named, along⟩ := copiedAlong_of_copyAlong word first
        cases same
        obtain ⟨output, rest⟩ := ih.mpr fun key member => by
          rw [find?_set]
          by_cases same : head = key
          · refine ⟨copied, if_pos same, ?_⟩
            rw [along.rank named]
            exact named.mono (Nat.le_succ _)
          · rw [if_neg same]
            exact others key member
        exact ⟨output, replaceEach_cons_eq_ok_iff.mpr ⟨_, _, found, first, rest⟩⟩

theorem find?_unsqueezeRepeat (word : count < Word.modulus)
    (made : record.unsqueezeRepeat keys number count = .ok output)
    (found : record.find? key = some (.tensor input)) :
    ∃ copied, output.find? key = some (.tensor copied) ∧
      Tensor.CopiedTimes number count (keys.count key) input copied := by
  rw [unsqueezeRepeat_eq_replaceEach] at made
  induction keys generalizing record input with
  | nil =>
      cases made
      exact ⟨input, found, .never input⟩
  | cons head keys ih =>
      obtain ⟨field, changed, held, first, rest⟩ := replaceEach_cons_eq_ok_iff.mp made
      by_cases same : head = key
      · subst same
        rw [found] at held
        cases held
        obtain ⟨_input, between, same, rfl, _named, along⟩ := copiedAlong_of_copyAlong word first
        cases same
        obtain ⟨copied, stored, times⟩ := ih rest ((find?_set _ _ _ _).trans (if_pos rfl))
        rw [List.count_cons_self]
        exact ⟨copied, stored, .again along times⟩
      · rw [List.count_cons_of_ne same]
        exact ih rest ((find?_set _ _ _ _).trans ((if_neg same).trans found))

end Record

/-- Copies along a new axis are made exactly if each key holds a tensor and the number names a gap
between, in front of or behind its axes. A tensor is then copied as often as its key is listed,
each time along one more axis; the other fields are unchanged. -/
theorem Operation.copies_along_new_axis {record : Record} {keys : List String} {number : Int}
    {count : Nat} (word : count < Word.modulus) :
    ((∃ output, Operation.run record (.unsqueezeRepeat keys number count) = .ok output) ↔
      ∀ key ∈ keys, ∃ input, record.find? key = some (.tensor input) ∧
        Shape.Names number (input.rank + 1)) ∧
    ∀ output, Operation.run record (.unsqueezeRepeat keys number count) = .ok output →
      (∀ key ∉ keys, output.find? key = record.find? key) ∧
      ∀ key ∈ keys, ∀ input, record.find? key = some (.tensor input) →
        ∃ copied, output.find? key = some (.tensor copied) ∧
          Tensor.CopiedTimes number count (keys.count key) input copied :=
  ⟨Record.exists_unsqueezeRepeat_iff word, fun _output made =>
    ⟨fun _key absent => Record.find?_replaceEach_of_not_mem made absent,
      fun _key _member _input found => Record.find?_unsqueezeRepeat word made found⟩⟩

/-- A matrix is copied three times between its axes, and once behind them; a number that names no
gap is refused. -/
theorem Operation.copies_along_new_axis_between :
    (∃ output copied,
      Operation.run (.ofFields [("x", .tensor (.numbered [2, 2] 5))])
        (.unsqueezeRepeat ["x"] (-2) 3) = .ok output ∧
      output.find? "x" = some (.tensor copied) ∧ copied.shape = [2, 3, 2] ∧
      copied.slice (-2) 1 [1, 0] = (Tensor.numbered [2, 2] 5).element [1, 0]) ∧
    (∃ output copied,
      Operation.run (.ofFields [("x", .tensor (.numbered [2, 2] 5))])
        (.unsqueezeRepeat ["x"] 2 1) = .ok output ∧
      output.find? "x" = some (.tensor copied) ∧
      Tensor.CopiedAlong 2 1 (.numbered [2, 2] 5) copied) ∧
    ∀ output, Operation.run (.ofFields [("x", .tensor (.numbered [2, 2] 5))])
      (.unsqueezeRepeat ["x"] 3 1) ≠ .ok output := by
  have copies (number : Int) (count : Nat) (word : count < Word.modulus) :=
    @Operation.copies_along_new_axis (.ofFields [("x", .tensor (.numbered [2, 2] 5))]) ["x"]
      number count word
  refine ⟨?_, ?_, ?_⟩
  · obtain ⟨made, each⟩ := copies (-2) 3 (by decide)
    obtain ⟨output, passed⟩ := made.mpr (List.forall_mem_singleton.mpr ⟨_, rfl, by decide⟩)
    obtain ⟨copied, stored, times⟩ := (each output passed).2 "x" (by decide) _ rfl
    have along := Tensor.copiedTimes_one_iff.mp times
    have inside : Shape.Within [2, 2] [1, 0] := ⟨by decide, by decide, trivial⟩
    exact ⟨output, copied, passed, stored, along.shape,
      (along.slices (by decide)).2 1 (by decide) [1, 0] inside⟩
  · obtain ⟨made, each⟩ := copies 2 1 (by decide)
    obtain ⟨output, passed⟩ := made.mpr (List.forall_mem_singleton.mpr ⟨_, rfl, by decide⟩)
    obtain ⟨copied, stored, times⟩ := (each output passed).2 "x" (by decide) _ rfl
    exact ⟨output, copied, passed, stored, Tensor.copiedTimes_one_iff.mp times⟩
  · intro output passed
    obtain ⟨input, found, named⟩ :=
      (copies 3 1 (by decide)).1.mp ⟨output, passed⟩ "x" (List.mem_singleton_self _)
    cases found
    exact absurd named (by decide)

end Featurize
