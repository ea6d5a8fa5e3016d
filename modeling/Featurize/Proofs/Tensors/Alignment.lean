import Featurize.Proofs.Collection
import Featurize.Proofs.Tensors.Expansion
import Featurize.Tensor.Concatenate
import Mathlib.Data.List.InsertIdx

/-!
Alignment before joining. Tensors are stretched until they can be joined along an axis: the
shapes without that axis take their common shape, and the axis is put back. When the axis is
counted from the back, or all tensors have one rank, it comes back at the place that it had
among the axes behind it, so every slice across it is a slice of the given tensor, stretched to
the common shape. Counted from the front for tensors of different ranks, it does not.
-/

namespace Featurize

namespace Shape

variable {shape target : Shape} {number : Int}

/-! ### Counting from either end -/

/-- The number names one of the positions, from the front or, below zero, from the back. -/
def Names (number : Int) (positions : Nat) : Prop :=
  -(positions : Int) ≤ number ∧ number < positions

instance : DecidableRel Names := fun number positions =>
  inferInstanceAs (Decidable (-(positions : Int) ≤ number ∧ number < positions))

def place (number : Int) (positions : Nat) : Nat :=
  (if number < 0 then number + positions else number).toNat

theorem position?_of_names {positions : Nat} (named : Names number positions) :
    position? number positions = some (place number positions) := by
  obtain ⟨above, below⟩ := named
  unfold position? place
  by_cases negative : number < 0
  · simp only [if_pos negative]
    rw [if_pos (by omega)]
  · simp only [if_neg negative]
    rw [if_pos (by omega)]

theorem position?_eq_some_iff {positions found : Nat} :
    position? number positions = some found ↔
      Names number positions ∧ place number positions = found := by
  constructor
  · intro known
    have named : Names number positions := by
      unfold position? at known
      by_cases negative : number < 0
      · simp only [if_pos negative, Option.ite_none_right_eq_some] at known
        exact ⟨by omega, by omega⟩
      · simp only [if_neg negative, Option.ite_none_right_eq_some] at known
        exact ⟨by omega, by omega⟩
    rw [position?_of_names named] at known
    exact ⟨named, Option.some.inj known⟩
  · rintro ⟨named, rfl⟩
    exact position?_of_names named

theorem place_lt {positions : Nat} (named : Names number positions) :
    place number positions < positions :=
  position?_lt (position?_of_names named)

theorem Names.positive {positions : Nat} (named : Names number positions) : 0 < positions :=
  Nat.lt_of_le_of_lt (Nat.zero_le _) (place_lt named)

theorem Names.mono {rank total : Nat} (named : Names number rank) (more : rank ≤ total) :
    Names number total := by
  obtain ⟨above, below⟩ := named
  exact ⟨by omega, by omega⟩

theorem axis_eq_ok_iff {rank found : Nat} :
    axis number rank = .ok found ↔ Names number rank ∧ place number rank = found := by
  rw [← position?_eq_some_iff, axis]
  cases position? number rank with
  | none => simp only [reduceCtorEq]
  | some position => rw [Except.ok.injEq, Option.some.injEq]

theorem axis_eq_ok {rank : Nat} (named : Names number rank) :
    axis number rank = .ok (place number rank) :=
  axis_eq_ok_iff.mpr ⟨named, rfl⟩

theorem gap_eq_ok_iff {rank found : Nat} :
    gap number rank = .ok found ↔ Names number (rank + 1) ∧ place number (rank + 1) = found := by
  rw [← position?_eq_some_iff, gap]
  cases position? number (rank + 1) with
  | none => simp only [reduceCtorEq]
  | some position => rw [Except.ok.injEq, Option.some.injEq]

theorem place_of_le {rank total : Nat} (named : Names number rank) (more : rank ≤ total)
    (counted : number < 0 ∨ rank = total) :
    place number total = total - rank + place number rank := by
  obtain ⟨above, below⟩ := named
  unfold place
  rcases counted with negative | same
  · rw [if_pos negative, if_pos negative]
    omega
  · rw [same]
    omega

/-! ### Inserting an axis -/

theorem insertIdx_append_right {Item : Type} (lead rest : List Item) (position : Nat)
    (item : Item) :
    (lead ++ rest).insertIdx (lead.length + position) item =
      lead ++ rest.insertIdx position item := by
  induction lead with
  | nil => rw [List.length_nil, Nat.zero_add, List.nil_append, List.nil_append]
  | cons head lead ih =>
      rw [List.length_cons, Nat.add_right_comm, List.cons_append, List.insertIdx_succ_cons, ih,
        List.cons_append]

theorem forall₂_insertIdx {Left Right : Type} {Related : Left → Right → Prop}
    {lefts : List Left} {rights : List Right} {left : Left} {right : Right}
    (related : List.Forall₂ Related lefts rights) (inserted : Related left right)
    (position : Nat) :
    List.Forall₂ Related (lefts.insertIdx position left) (rights.insertIdx position right) := by
  induction position generalizing lefts rights with
  | zero => exact .cons inserted related
  | succ position ih =>
      cases related with
      | nil => exact .nil
      | cons head tail => exact .cons head (ih tail)

theorem zipWith_insertIdx {Left Right Result : Type} (combine : Left → Right → Result)
    {lefts : List Left} {rights : List Right} (aligned : lefts.length = rights.length)
    (left : Left) (right : Right) (position : Nat) :
    List.zipWith combine (lefts.insertIdx position left) (rights.insertIdx position right) =
      (List.zipWith combine lefts rights).insertIdx position (combine left right) := by
  induction position generalizing lefts rights with
  | zero => rfl
  | succ position ih =>
      cases lefts with
      | nil =>
          rw [List.length_eq_zero_iff.mp aligned.symm]
          rfl
      | cons head lefts =>
          cases rights with
          | nil => cases aligned
          | cons other rights =>
              exact congrArg (combine head other :: ·) (ih (Nat.succ.inj aligned))

theorem sizes_lt_insertIdx {size : Nat} (word : size < Word.modulus)
    (small : ∀ size ∈ shape, size < Word.modulus) (position : Nat) :
    ∀ other ∈ shape.insertIdx position size, other < Word.modulus := by
  intro other member
  rcases List.eq_or_mem_of_mem_insertIdx member with same | present
  · exact same ▸ word
  · exact small other present

theorem within_insertIdx {index : List Nat} {size entry : Nat} (below : entry < size)
    (within : shape.Within index) (position : Nat) :
    Within (shape.insertIdx position size) (index.insertIdx position entry) := by
  induction position generalizing shape index with
  | zero => exact within_cons.mpr ⟨below, within⟩
  | succ position ih =>
      cases shape with
      | nil =>
          rw [List.length_eq_zero_iff.mp (length_of_within within)]
          trivial
      | cons first sizes =>
          cases index with
          | nil => exact within.elim
          | cons coordinate coordinates => exact within_cons.mpr ⟨within.1, ih within.2⟩

theorem position_insertIdx_one {index : List Nat} (within : shape.Within index) {position : Nat}
    (inside : position ≤ shape.length) :
    Shape.position (shape.insertIdx position 1) (index.insertIdx position 0) =
      shape.position index := by
  induction position generalizing shape index with
  | zero =>
      rw [List.insertIdx_zero, List.insertIdx_zero, position_cons, Nat.zero_mul, Nat.zero_add]
  | succ position ih =>
      cases shape with
      | nil => cases inside
      | cons first sizes =>
          cases index with
          | nil => exact within.elim
          | cons coordinate coordinates =>
              have room := Nat.le_of_succ_le_succ inside
              rw [List.insertIdx_succ_cons, List.insertIdx_succ_cons, position_cons,
                position_cons, ih within.2 room, volume_insertIdx room, Nat.one_mul]

theorem StretchesTo.insertIdx (stretches : shape.StretchesTo target) (position size : Nat) :
    StretchesTo (shape.insertIdx position size)
      (target.insertIdx (target.length - shape.length + position) size) := by
  obtain ⟨lead, rest, joined, fits⟩ := stretchesTo_iff_exists_append.mp stretches
  have counted : target.length - shape.length = lead.length := by
    rw [joined, List.length_append, fits.length_eq]
    omega
  rw [counted, joined, insertIdx_append_right]
  exact stretchesTo_iff_exists_append.mpr
    ⟨lead, _, rfl, forall₂_insertIdx fits (Or.inl rfl) position⟩

theorem readIndex_insertIdx {index : List Nat} {position size entry : Nat}
    (enough : shape.length ≤ index.length) (inside : position ≤ shape.length)
    (below : entry < size) :
    readIndex (shape.insertIdx position size)
        (index.insertIdx (index.length - shape.length + position) entry) =
      (shape.readIndex index).insertIdx position entry := by
  obtain ⟨lead, rest, joined, aligned⟩ :
      ∃ lead rest, index = lead ++ rest ∧ shape.length = rest.length :=
    ⟨_, _, (List.take_append_drop (index.length - shape.length) index).symm, by
      rw [List.length_drop]
      omega⟩
  have counted : index.length - shape.length = lead.length := by
    rw [joined, List.length_append, aligned, Nat.add_sub_cancel]
  have longer : (shape.insertIdx position size).length =
      (rest.insertIdx position entry).length := by
    rw [List.length_insertIdx_of_le_length inside,
      List.length_insertIdx_of_le_length (aligned ▸ inside), aligned]
  rw [counted, joined, insertIdx_append_right, readIndex_append longer,
    readIndex_append aligned, zipWith_insertIdx pin aligned, pin_of_lt below]

end Shape

/-! ### Slices -/

namespace Tensor

variable {input output : Tensor} {number : Int} {common : Shape}

def axisAt (tensor : Tensor) (number : Int) : Nat := Shape.place number tensor.rank

def sizeAlong (tensor : Tensor) (number : Int) : Nat := tensor.sizeAt (tensor.axisAt number)

def across (tensor : Tensor) (number : Int) : Shape := tensor.shape.eraseIdx (tensor.axisAt number)

def slice (tensor : Tensor) (number : Int) (entry : Nat) (index : List Nat) : Double :=
  tensor.element (index.insertIdx (tensor.axisAt number) entry)

/-- Slice by slice along the axis, the output is the input stretched to a common shape of the
other axes. -/
structure Aligned (number : Int) (common : Shape) (input output : Tensor) : Prop where
  rank : output.rank = common.length + 1
  across : output.across number = common
  along : output.sizeAlong number = input.sizeAlong number
  slices : ∀ entry < input.sizeAlong number, ∀ index, common.Within index →
    output.Stores (index.insertIdx (output.axisAt number) entry) →
    output.slice number entry index =
      input.slice number entry ((input.across number).readIndex index)

theorem length_across (named : Shape.Names number input.rank) :
    (input.across number).length + 1 = input.rank := by
  have inside : input.axisAt number < input.shape.length := Shape.place_lt named
  unfold across rank
  rw [List.length_eraseIdx_of_lt inside]
  omega

theorem sizeAlong_eq_getElem (inside : input.axisAt number < input.shape.length) :
    input.sizeAlong number = input.shape[input.axisAt number] := by
  rw [sizeAlong, sizeAt, List.getD_eq_getElem?_getD, List.getElem?_eq_getElem inside,
    Option.getD_some]

theorem sizeAlong_lt (named : Shape.Names number input.rank) :
    input.sizeAlong number < Word.modulus := by
  have inside : input.axisAt number < input.shape.length := Shape.place_lt named
  rw [sizeAlong_eq_getElem inside]
  exact input.sizes_lt _ (List.getElem_mem inside)

theorem insertIdx_across (named : Shape.Names number input.rank) :
    (input.across number).insertIdx (input.axisAt number) (input.sizeAlong number) =
      input.shape := by
  have inside : input.axisAt number < input.shape.length := Shape.place_lt named
  rw [across, sizeAlong_eq_getElem inside]
  exact List.insertIdx_eraseIdx_getElem inside

theorem aligned_of_shape {size : Nat} (named : Shape.Names number (common.length + 1))
    (shaped : output.shape = common.insertIdx (Shape.place number (common.length + 1)) size) :
    output.rank = common.length + 1 ∧ output.across number = common ∧
      output.sizeAlong number = size := by
  have inside := Nat.le_of_lt_succ (Shape.place_lt named)
  have ranked : output.rank = common.length + 1 := by
    rw [rank, shaped, List.length_insertIdx_of_le_length inside]
  have axis : output.axisAt number = Shape.place number (common.length + 1) := by
    rw [axisAt, ranked]
  refine ⟨ranked, ?_, ?_⟩
  · rw [across, axis, shaped, List.eraseIdx_insertIdx_self]
  · rw [sizeAlong, axis, sizeAt, shaped, List.getD_eq_getElem?_getD,
      List.getElem?_insertIdx_self, if_pos inside, Option.getD_some]

theorem exists_aligned (named : Shape.Names number input.rank)
    (stretches : (input.across number).StretchesTo common)
    (counted : number < 0 ∨ input.rank = common.length + 1)
    (small : ∀ size ∈ common, size < Word.modulus) :
    ∃ output, input.expand (common.insertIdx (Shape.place number (common.length + 1))
        (input.sizeAlong number)) = .ok output ∧ Aligned number common input output := by
  have removed := length_across named
  have enough := stretches.1
  have more : input.rank ≤ common.length + 1 := by omega
  have moved : Shape.place number (common.length + 1) =
      common.length - (input.across number).length + input.axisAt number := by
    rw [Shape.place_of_le named more counted, axisAt]
    omega
  have wide := stretches.insertIdx (input.axisAt number) (input.sizeAlong number)
  rw [insertIdx_across named, ← moved] at wide
  obtain ⟨output, expanded⟩ := exists_expand wide
  obtain ⟨_stretches, shaped, elements⟩ :=
    expand_eq_ok (Shape.sizes_lt_insertIdx (sizeAlong_lt named) small _) expanded
  obtain ⟨ranked, acrossSame, alongSame⟩ := aligned_of_shape (named.mono more) shaped
  refine ⟨output, expanded, ranked, acrossSame, alongSame, ?_⟩
  intro entry below index within stored
  have aligned := Shape.length_of_within within
  have read := @Shape.readIndex_insertIdx (input.across number) index (input.axisAt number)
    (input.sizeAlong number) entry (by omega)
    (by have inside := Shape.place_lt named; unfold axisAt; omega) below
  rw [insertIdx_across named, aligned, ← moved] at read
  unfold slice
  rw [elements _ stored, axisAt, ranked, read]

theorem gap_bind_eq {Value : Type} {rank : Nat} (named : Shape.Names number (rank + 1))
    (next : Nat → Except ShapeFault Value) :
    (if 0 ≤ number then pure number.toNat >>= next else Shape.gap number rank >>= next) =
      next (Shape.place number (rank + 1)) := by
  by_cases front : 0 ≤ number
  · rw [if_pos front, Shape.place, if_neg (by omega)]
    rfl
  · rw [if_neg front, Shape.gap, Shape.position?_of_names named]
    rfl

theorem broadcast_eq_ok {tensors outputs : List Tensor}
    (named : ∀ tensor ∈ tensors, Shape.Names number tensor.rank)
    (merged : Shape.common (tensors.map (across · number)) = .ok common)
    (expanded : List.Forall₂ (fun tensor output =>
      tensor.expand (common.insertIdx (Shape.place number (common.length + 1))
        (tensor.sizeAlong number)) = .ok output) tensors outputs) :
    broadcastForConcatenation tensors number = .ok outputs := by
  have axes : tensors.mapM (fun tensor => Shape.axis number tensor.rank) =
      .ok (tensors.map (axisAt · number)) := by
    rw [Collection.mapM_eq_ok_iff, List.forall₂_map_right_iff, List.forall₂_same]
    exact fun tensor member => Shape.axis_eq_ok (named tensor member)
  have shapes : List.zipWith (fun tensor axis => tensor.shape.eraseIdx axis) tensors
      (tensors.map (axisAt · number)) = tensors.map (across · number) := by
    rw [List.zipWith_map_right, List.zipWith_self]
    rfl
  unfold broadcastForConcatenation
  rw [Outcome.bind_eq_ok_iff]
  refine ⟨_, axes, ?_⟩
  rw [shapes, Outcome.bind_eq_ok_iff]
  refine ⟨common, merged, ?_⟩
  rw [← List.map_prod_left_eq_zip, List.mapM_map, Collection.mapM_eq_ok_iff]
  cases tensors with
  | nil =>
      cases expanded
      exact .nil
  | cons head rest =>
      have namedHead := named head (List.mem_cons_self ..)
      have removed := length_across namedHead
      have enough := ((Shape.joins_common merged).above (head.across number)
        (List.mem_cons_self ..)).1
      have namedCommon : Shape.Names number (common.length + 1) := namedHead.mono (by omega)
      exact expanded.imp fun tensor output step => (gap_bind_eq namedCommon _).trans step

theorem rank_of_joins {tensors : List Tensor} {ranks : Nat}
    (named : ∀ tensor ∈ tensors, Shape.Names number tensor.rank)
    (same : ∀ tensor ∈ tensors, tensor.rank = ranks)
    (joins : Shape.Joins (tensors.map (across · number)) common) (member : input ∈ tensors) :
    input.rank = common.length + 1 := by
  have short : common.length ≤ ranks - 1 := by
    apply joins.length_le
    refine List.forall_mem_map.mpr fun other otherMember => ?_
    have removed := length_across (named other otherMember)
    have rank := same other otherMember
    omega
  have removed := length_across (named input member)
  have enough := (joins.above (input.across number) (List.mem_map_of_mem member)).1
  have rank := same input member
  omega

/-- Tensors whose other axes have a common shape are broadcast without a fault, each output to
the slices of its input, when the axis is counted from the back or there is only one rank. -/
theorem broadcast_keeps_slices {tensors : List Tensor}
    (named : ∀ tensor ∈ tensors, Shape.Names number tensor.rank)
    (joint : ∃ target, ∀ tensor ∈ tensors, (tensor.across number).StretchesTo target)
    (counted : number < 0 ∨ ∃ rank, ∀ tensor ∈ tensors, tensor.rank = rank) :
    ∃ common outputs, Shape.Joins (tensors.map (across · number)) common ∧
      broadcastForConcatenation tensors number = .ok outputs ∧
      List.Forall₂ (Aligned number common) tensors outputs := by
  obtain ⟨target, bounded⟩ := joint
  obtain ⟨common, merged, joins⟩ := @Shape.exists_common target (tensors.map (across · number))
    (List.forall_mem_map.mpr bounded)
  have small := joins.sizes_lt (List.forall_mem_map.mpr fun tensor _member size sizeMember =>
    tensor.sizes_lt size (List.mem_of_mem_eraseIdx sizeMember))
  have each : ∀ tensor ∈ tensors, ∃ output,
      tensor.expand (common.insertIdx (Shape.place number (common.length + 1))
        (tensor.sizeAlong number)) = .ok output ∧ Aligned number common tensor output := by
    intro tensor member
    have above := joins.above (tensor.across number) (List.mem_map_of_mem member)
    have ranks : number < 0 ∨ tensor.rank = common.length + 1 := by
      rcases counted with negative | ⟨rank, same⟩
      · exact Or.inl negative
      · exact Or.inr (rank_of_joins named same joins member)
    exact exists_aligned (named tensor member) above ranks small
  obtain ⟨outputs, related⟩ := Collection.exists_forall₂ each
  exact ⟨common, outputs, joins,
    broadcast_eq_ok named merged (related.imp fun _input _output both => both.1),
    related.imp fun _input _output both => both.2⟩

/-- Tensors of shapes (2, 1, 2) and (3, 1) meet in (2, 3) in front of their last axis. -/
theorem broadcast_keeps_slices_from_back :
    ∃ first second,
      broadcastForConcatenation [numbered [2, 1, 2] 0, numbered [3, 1] 20] (-1) =
        .ok [first, second] ∧
      first.shape = [2, 3, 2] ∧ second.shape = [2, 3, 1] ∧
      first.slice (-1) 1 [1, 2] = (numbered [2, 1, 2] 0).slice (-1) 1 [1, 0] ∧
      second.slice (-1) 0 [1, 2] = (numbered [3, 1] 20).slice (-1) 0 [2] := by
  obtain ⟨common, outputs, _joins, ran, aligned⟩ :=
    @broadcast_keeps_slices (-1) [numbered [2, 1, 2] 0, numbered [3, 1] 20]
      (by decide) ⟨[2, 3], by decide⟩ (Or.inl (by decide))
  cases aligned with
  | cons firstAligned rest =>
      cases rest with
      | cons secondAligned none =>
          cases none
          rename_i first second
          have shapes : (broadcastForConcatenation [numbered [2, 1, 2] 0, numbered [3, 1] 20]
              (-1)).map (List.map shape) = .ok [[2, 3, 2], [2, 3, 1]] := rfl
          rw [ran] at shapes
          injection shapes with shapes
          injection shapes with firstShape rest
          injection rest with secondShape _none
          have meet : common = [2, 3] := by
            rw [← firstAligned.across, across, axisAt, rank, firstShape]
            rfl
          have within : Shape.Within common [1, 2] := by
            rw [meet]
            exact ⟨by decide, by decide, trivial⟩
          have firstExact : first.Exact := exact_of_volume_lt (by rw [firstShape]; decide)
          have secondExact : second.Exact := exact_of_volume_lt (by rw [secondShape]; decide)
          refine ⟨first, second, ran, firstShape, secondShape,
            firstAligned.slices 1 (by decide) [1, 2] within (firstExact.stores ?_),
            secondAligned.slices 0 (by decide) [1, 2] within (secondExact.stores ?_)⟩
          · rw [axisAt, rank, firstShape]
            exact ⟨by decide, by decide, by decide, trivial⟩
          · rw [axisAt, rank, secondShape]
            exact ⟨by decide, by decide, by decide, trivial⟩

/-- From the front, at place 0 of shapes (1, 2) and (2), the two elements of the second tensor
come to lie along the last axis of its output instead of the first. -/
theorem front_axis_not_aligned :
    (∀ tensor ∈ [numbered [1, 2] 5, numbered [2] 7],
      Shape.Names 0 tensor.rank ∧ (tensor.across 0).StretchesTo [2]) ∧
    ¬ ∃ common outputs,
      broadcastForConcatenation [numbered [1, 2] 5, numbered [2] 7] 0 = .ok outputs ∧
      List.Forall₂ (Aligned 0 common) [numbered [1, 2] 5, numbered [2] 7] outputs := by
  refine ⟨by decide, ?_⟩
  rintro ⟨common, outputs, ran, aligned⟩
  cases aligned with
  | cons _firstAligned rest =>
      cases rest with
      | cons secondAligned none =>
          cases none
          rename_i first second
          have entries : (broadcastForConcatenation [numbered [1, 2] 5, numbered [2] 7] 0).map
              (List.map fun output => (output.shape, output.get 1)) =
            .ok [([1, 2], ⟨6⟩), ([2, 2], ⟨8⟩)] := rfl
          rw [ran] at entries
          injection entries with entries
          injection entries with _firstEntry rest
          injection rest with secondEntry _none
          injection secondEntry with secondShape entry
          have meet : common = [2] := by
            rw [← secondAligned.across, across, axisAt, rank, secondShape]
            rfl
          have secondExact : second.Exact := exact_of_volume_lt (by rw [secondShape]; decide)
          have slice := secondAligned.slices 0 (by decide) [1]
            (by rw [meet]; exact ⟨by decide, trivial⟩)
            (secondExact.stores (by
              rw [axisAt, rank, secondShape]
              exact ⟨by decide, by decide, trivial⟩))
          rw [Tensor.slice, element, axisAt, rank, secondShape] at slice
          change second.get 1 = _ at slice
          rw [entry] at slice
          exact absurd slice (by decide)

end Tensor

end Featurize
