import Featurize.Proofs.Shapes.Merging
import Featurize.Proofs.Tensors.Joining
import Featurize.Stage.Operation

/-!
Broadcasting in front of joining. Tensors that can be joined along an axis already have the common
shape of their other axes, so stretching them to it gives each of them back, element for element,
and a join with broadcasting stores what the plain join stores. Conversely, whatever broadcasting
gives can be joined: all its tensors have the common shape with one more axis at one place.
-/

namespace Featurize

namespace Tensor

variable {first joined : Tensor} {tensors others outputs : List Tensor}
  {number : Int} {common : Shape}

theorem broadcast_of_concatenate (exact : ∀ tensor ∈ tensors, tensor.Exact)
    (made : concatenate tensors number = .ok joined) :
    broadcastForConcatenation tensors number = .ok tensors := by
  cases tensors with
  | nil => cases made
  | cons first others =>
      obtain ⟨named, beside, _joined⟩ := concatenate_cons_eq_ok_iff.mp made
      have all : ∀ tensor ∈ first :: others, Beside number first tensor :=
        List.forall_mem_cons.mpr ⟨⟨rfl, rfl⟩, beside⟩
      have namedAll : ∀ tensor ∈ first :: others, Shape.Names number tensor.rank :=
        fun tensor member => (all tensor member).1 ▸ named
      have merged : Shape.common ((first :: others).map (across · number)) =
          .ok (first.across number) :=
        Shape.common_of_forall_eq (List.cons_ne_nil _ _)
          (List.forall_mem_map.mpr fun tensor member => (all tensor member).2)
      refine broadcast_eq_ok namedAll merged (List.forall₂_same.mpr fun tensor member => ?_)
      obtain ⟨ranked, aligned⟩ := all tensor member
      have place : Shape.place number ((first.across number).length + 1) =
          tensor.axisAt number := by
        rw [length_across named, axisAt, ranked]
      rw [place, ← aligned, insertIdx_across (namedAll tensor member)]
      exact expand_self (exact tensor member)

/-! ### Tensors that were broadcast -/

/-- What broadcasting succeeds with: an axis of every tensor, the common shape of the other axes,
and each tensor expanded to that shape with its own size at one place. -/
theorem exists_common_of_broadcast (nonempty : tensors ≠ [])
    (ran : broadcastForConcatenation tensors number = .ok outputs) :
    ∃ common : Shape, Shape.Names number (common.length + 1) ∧
      Shape.Joins (tensors.map (across · number)) common ∧
      (∀ tensor ∈ tensors, Shape.Names number tensor.rank) ∧
      List.Forall₂ (fun tensor output =>
        tensor.expand (common.insertIdx (Shape.place number (common.length + 1))
          (tensor.sizeAlong number)) = .ok output) tensors outputs := by
  unfold broadcastForConcatenation at ran
  obtain ⟨axes, found, ran⟩ := Outcome.bind_eq_ok_iff.mp ran
  obtain ⟨common, merged, expanded⟩ := Outcome.bind_eq_ok_iff.mp ran
  have each := (Collection.mapM_eq_ok_iff.mp found).imp
    fun _tensor _axis known => Shape.axis_eq_ok_iff.mp known
  have axesAre : tensors.map (axisAt · number) = axes := by
    rw [← List.forall₂_eq_eq_eq, List.forall₂_map_left_iff]
    exact each.imp fun _tensor _axis both => both.2
  subst axesAre
  rw [List.forall₂_map_right_iff, List.forall₂_same] at each
  have named : ∀ tensor ∈ tensors, Shape.Names number tensor.rank :=
    fun tensor member => (each tensor member).1
  rw [List.zipWith_map_right, List.zipWith_self] at merged
  have joins : Shape.Joins (tensors.map (across · number)) common := Shape.joins_common merged
  obtain ⟨head, member⟩ := List.exists_mem_of_ne_nil tensors nonempty
  have removed := length_across (named head member)
  have enough := (joins.above (head.across number) (List.mem_map_of_mem member)).1
  have namedCommon : Shape.Names number (common.length + 1) :=
    (named head member).mono (by omega)
  refine ⟨common, namedCommon, joins, named, ?_⟩
  rw [← List.map_prod_left_eq_zip, List.mapM_map, Collection.mapM_eq_ok_iff] at expanded
  exact expanded.imp fun _tensor _output step => (gap_bind_eq namedCommon _).symm.trans step

theorem concatenate_of_broadcast (nonempty : tensors ≠ [])
    (ran : broadcastForConcatenation tensors number = .ok outputs) :
    ∃ joined, concatenate outputs number = .ok joined := by
  obtain ⟨common, namedCommon, joins, named, expanded⟩ := exists_common_of_broadcast nonempty ran
  have smallCommon := joins.sizes_lt (List.forall_mem_map.mpr fun tensor _member size sizeMember =>
    tensor.sizes_lt size (List.mem_of_mem_eraseIdx sizeMember))
  have shaped : ∀ output ∈ outputs, output.rank = common.length + 1 ∧
      output.across number = common := by
    intro output member
    obtain ⟨tensor, tensorMember, stretched⟩ :=
      Collection.exists_item_of_mapM (Collection.mapM_eq_ok_iff.mpr expanded) member
    obtain ⟨_stretches, shape, _elements⟩ :=
      expand_eq_ok
        (Shape.sizes_lt_insertIdx (sizeAlong_lt (named tensor tensorMember)) smallCommon _) stretched
    obtain ⟨ranked, aligned, _along⟩ := aligned_of_shape namedCommon shape
    exact ⟨ranked, aligned⟩
  cases expanded with
  | nil => exact absurd rfl nonempty
  | @cons _tensor first _tensors others _head _tail =>
      obtain ⟨ranked, aligned⟩ := shaped first (List.mem_cons_self ..)
      refine ⟨_, concatenate_cons_eq_ok_iff.mpr ⟨ranked ▸ namedCommon, fun part member => ?_, rfl⟩⟩
      obtain ⟨partRanked, partAligned⟩ := shaped part (List.mem_cons_of_mem _ member)
      exact ⟨partRanked.trans ranked.symm, partAligned.trans aligned.symm⟩

end Tensor

theorem Record.concatenate_of_unchanged {record : Record} {inputs : List String}
    {tensors : List Tensor} {joined : Tensor} {number : Int}
    (read : inputs.mapM record.tensor = .ok tensors)
    (made : Tensor.concatenate tensors number = .ok joined)
    (unchanged : Tensor.broadcastForConcatenation tensors number = .ok tensors)
    (output : String) (broadcast : Bool) :
    record.concatenate inputs output number broadcast =
      .ok (record.set output (.tensor joined)) := by
  refine Outcome.bind_eq_ok_iff.mpr ⟨tensors, read, ?_⟩
  have stored : (do return record.set output (.tensor (← Tensor.concatenate tensors number)) :
      Except Fault Record) = .ok (record.set output (.tensor joined)) :=
    Outcome.bind_eq_ok_iff.mpr ⟨joined, Outcome.liftShape_eq_ok_iff.mpr made, rfl⟩
  cases broadcast with
  | false => exact stored
  | true =>
      exact Outcome.bind_eq_ok_iff.mpr
        ⟨tensors, Outcome.liftShape_eq_ok_iff.mpr unchanged, stored⟩

/-- Tensors that can be joined along an axis are unchanged by broadcasting, so a record stores the
same joined tensor with and without it, and what broadcasting gives can always be joined. -/
theorem Tensor.broadcast_extends_concatenation {tensors : List Tensor} {number : Int}
    (nonempty : tensors ≠ []) (exact : ∀ tensor ∈ tensors, tensor.Exact) :
    (∀ joined, concatenate tensors number = .ok joined →
      broadcastForConcatenation tensors number = .ok tensors ∧
      ∀ (record : Record) inputs output, inputs.mapM record.tensor = .ok tensors →
        ∀ broadcast, Operation.run record (.concatenate inputs output number broadcast) =
          .ok (record.set output (.tensor joined))) ∧
    ∀ outputs, broadcastForConcatenation tensors number = .ok outputs →
      ∃ joined, concatenate outputs number = .ok joined := by
  refine ⟨fun joined made => ?_, fun outputs ran => concatenate_of_broadcast nonempty ran⟩
  have unchanged := broadcast_of_concatenate exact made
  exact ⟨unchanged, fun record inputs output read broadcast =>
    Record.concatenate_of_unchanged read made unchanged output broadcast⟩

/-- Sizes zero and one along the joined axis stay as they are. A tensor without the first axis
cannot be joined to the others, but what it is stretched to can. -/
theorem Tensor.broadcast_extends_concatenation_empty :
    ∃ joined outputs wide,
      concatenate [numbered [2, 0] 0, numbered [2, 1] 0, numbered [2, 3] 2] (-1) = .ok joined ∧
      broadcastForConcatenation [numbered [2, 0] 0, numbered [2, 1] 0, numbered [2, 3] 2] (-1) =
        .ok [numbered [2, 0] 0, numbered [2, 1] 0, numbered [2, 3] 2] ∧
      broadcastForConcatenation [numbered [2, 0] 0, numbered [3] 2] (-1) = .ok outputs ∧
      concatenate outputs (-1) = .ok wide := by
  have ran : concatenate [numbered [2, 0] 0, numbered [2, 1] 0, numbered [2, 3] 2] (-1) =
      .ok (_ : Tensor) := rfl
  have stretched : broadcastForConcatenation [numbered [2, 0] 0, numbered [3] 2] (-1) =
      .ok (_ : List Tensor) := rfl
  have plain := @broadcast_extends_concatenation
    [numbered [2, 0] 0, numbered [2, 1] 0, numbered [2, 3] 2] (-1) (List.cons_ne_nil _ _)
    (by decide)
  have wide := @broadcast_extends_concatenation [numbered [2, 0] 0, numbered [3] 2] (-1)
    (List.cons_ne_nil _ _) (by decide)
  obtain ⟨joined, made⟩ := wide.2 _ stretched
  exact ⟨_, _, joined, ran, (plain.1 _ ran).1, stretched, made⟩

end Featurize
