import Featurize.Proofs.Grouping
import Featurize.Proofs.Tensors.Columns

/-!
Concatenation slice by slice. Along the joined axis, the slices of the result are those of the
first tensor, then those of the second, and so on. An exact tensor is known by its slices, so it
makes no difference which tensors are joined first, and the columns that a tensor took in the last
axis give that tensor back.
-/

namespace Featurize

namespace Shape

theorem exists_insertIdx_of_within {common : Shape} {index : List Nat} {place size : Nat}
    (inside : place ≤ common.length) (within : Within (common.insertIdx place size) index) :
    ∃ entry < size, ∃ rest, common.Within rest ∧ rest.insertIdx place entry = index := by
  induction place generalizing common index with
  | zero =>
      cases index with
      | nil => exact within.elim
      | cons entry rest => exact ⟨entry, within.1, rest, within.2, rfl⟩
  | succ place ih =>
      cases common with
      | nil => cases inside
      | cons first sizes =>
          cases index with
          | nil => exact within.elim
          | cons coordinate coordinates =>
              obtain ⟨entry, below, rest, restWithin, same⟩ :=
                ih (Nat.le_of_succ_le_succ inside) within.2
              refine ⟨entry, below, coordinate :: rest, ⟨within.1, restWithin⟩, ?_⟩
              rw [List.insertIdx_succ_cons, same]

end Shape

namespace Tensor

variable {number : Int} {common : Shape} {tensor first second third part joined left right : Tensor}
  {parts before after others : List Tensor}

/-! ### Side by side -/

theorem Beside.refl : Beside number first first := ⟨rfl, rfl⟩

theorem Beside.symm (beside : Beside number first second) : Beside number second first :=
  ⟨beside.1.symm, beside.2.symm⟩

theorem Beside.trans (beside : Beside number first second) (next : Beside number second third) :
    Beside number first third :=
  ⟨next.1.trans beside.1, next.2.trans beside.2⟩

/-! ### Slices in order -/

/-- The slices along an axis, in order, each with the elements under the indices of the other
axes. -/
def slices (number : Int) (common : Shape) (tensor : Tensor) :
    List ({ index : List Nat // common.Within index } → Double) :=
  (List.range (tensor.sizeAlong number)).map fun entry index => tensor.slice number entry index.1

theorem length_slices (number : Int) (common : Shape) (tensor : Tensor) :
    (tensor.slices number common).length = tensor.sizeAlong number := by
  rw [slices, List.length_map, List.length_range]

theorem length_flatMap_slices (number : Int) (common : Shape) (tensors : List Tensor) :
    (tensors.flatMap (slices number common)).length = totalAlong number tensors := by
  rw [List.length_flatMap, totalAlong]
  simp only [length_slices]

theorem totalAlong_append (before after : List Tensor) :
    totalAlong number (before ++ after) = totalAlong number before + totalAlong number after := by
  rw [totalAlong, List.map_append, List.sum_append, totalAlong, totalAlong]

theorem JoinedAlong.sizeAlong (along : JoinedAlong number parts joined)
    (small : totalAlong number parts < Word.modulus) :
    joined.sizeAlong number = totalAlong number parts := by
  rw [along.along, Word.wrap_of_lt small]

theorem JoinedAlong.slices_behind (along : JoinedAlong number parts joined)
    (fits : totalAlong number parts * (joined.across number).volume < Word.modulus)
    (split : parts = before ++ after) :
    ((List.range (totalAlong number after)).map
        fun entry (index : { index : List Nat // (joined.across number).Within index }) =>
          joined.slice number (totalAlong number before + entry) index.1) =
      after.flatMap (Tensor.slices number (joined.across number)) := by
  induction after generalizing before with
  | nil => rfl
  | cons part after ih =>
      have later := @ih (before ++ [part]) (by rw [split, List.append_assoc]; rfl)
      have total : totalAlong number (part :: after) =
          part.sizeAlong number + totalAlong number after := rfl
      have next : totalAlong number (before ++ [part]) =
          totalAlong number before + part.sizeAlong number := totalAlong_append before [part]
      rw [List.flatMap_cons, ← later, total, List.range_add, List.map_append, List.map_map]
      congr 1
      · refine List.map_congr_left fun entry member => funext fun index => ?_
        exact along.slices fits before part after split entry (List.mem_range.mp member) index.1
          index.2
      · refine List.map_congr_left fun entry _member => funext fun index => ?_
        rw [Function.comp_apply, next, Nat.add_assoc]

theorem JoinedAlong.slices_eq (along : JoinedAlong number parts joined)
    (small : totalAlong number parts < Word.modulus)
    (fits : totalAlong number parts * (joined.across number).volume < Word.modulus) :
    joined.slices number (joined.across number) =
      parts.flatMap (Tensor.slices number (joined.across number)) := by
  rw [← along.slices_behind fits (List.nil_append parts).symm, Tensor.slices,
    along.sizeAlong small]
  refine List.map_congr_left fun entry _member => funext fun index => ?_
  rw [totalAlong, List.map_nil, List.sum_nil, Nat.zero_add]

theorem axisAt_le_length_across (named : Shape.Names number tensor.rank) :
    tensor.axisAt number ≤ (tensor.across number).length := by
  have inside : tensor.axisAt number < tensor.rank := Shape.place_lt named
  have removed := length_across named
  omega

/-- Exact tensors with the same slices are the same. -/
theorem ext_of_slices (exact : left.Exact) (named : Shape.Names number left.rank)
    (beside : Beside number left right)
    (same : left.slices number (left.across number) =
      right.slices number (left.across number)) : left = right := by
  have sizes : left.sizeAlong number = right.sizeAlong number := by
    rw [← length_slices number (left.across number) left, same, length_slices]
  have rightNamed : Shape.Names number right.rank := beside.1 ▸ named
  have shaped := insertIdx_across named
  have sameShape : left.shape = right.shape := by
    rw [← shaped, ← insertIdx_across rightNamed, beside.2, beside.axisAt, sizes]
  refine ext_of_elements exact sameShape fun index within => ?_
  rw [← shaped] at within
  obtain ⟨entry, below, rest, restWithin, reached⟩ :=
    Shape.exists_insertIdx_of_within (axisAt_le_length_across named) within
  have entries := congrArg (fun listed => listed[entry]?) same
  simp only [Tensor.slices, List.getElem?_map, List.getElem?_range below,
    List.getElem?_range (sizes ▸ below), Option.map_some, Option.some.injEq] at entries
  have slice := congrFun entries ⟨rest, restWithin⟩
  rw [Tensor.slice, Tensor.slice, beside.axisAt, reached] at slice
  exact slice

theorem JoinedAlong.shape_eq (along : JoinedAlong number parts joined)
    (named : Shape.Names number joined.rank) (small : totalAlong number parts < Word.modulus) :
    joined.shape =
      (joined.across number).insertIdx (joined.axisAt number) (totalAlong number parts) := by
  rw [← along.sizeAlong small, insertIdx_across named]

theorem JoinedAlong.exact (along : JoinedAlong number parts joined)
    (named : Shape.Names number joined.rank) (small : totalAlong number parts < Word.modulus)
    (fits : totalAlong number parts * (joined.across number).volume < Word.modulus) :
    joined.Exact := by
  rw [exact_iff_fitsWord, along.shape_eq named small]
  exact Shape.fitsWord_insertIdx (axisAt_le_length_across named) fits

/-! ### The last axis -/

section Last

variable (named : Shape.Names number tensor.rank)
  (last : tensor.axisAt number + 1 = tensor.rank)
include named last

theorem slice_last {index : List Nat} (within : (tensor.across number).Within index)
    (entry : Nat) : tensor.slice number entry index = tensor.element (index ++ [entry]) := by
  have removed := length_across named
  have aligned := Shape.length_of_within within
  have place : index.length = tensor.axisAt number := by omega
  rw [← slice_around place, List.append_nil]

theorem shape_last : tensor.shape = tensor.across number ++ [tensor.sizeAlong number] := by
  have removed := length_across named
  exact shape_around named (List.append_nil _).symm (by omega)

end Last

theorem JoinedAlong.selectColumns_eq_ok (along : JoinedAlong number parts joined)
    (named : Shape.Names number joined.rank) (small : totalAlong number parts < Word.modulus)
    (fits : totalAlong number parts * (joined.across number).volume < Word.modulus)
    (last : joined.axisAt number + 1 = joined.rank) (split : parts = before ++ part :: after) :
    joined.selectColumns (List.range' (totalAlong number before) (part.sizeAlong number)) =
      .ok part := by
  have beside := along.beside part (split ▸ List.mem_append_right _ (List.mem_cons_self ..))
  have partNamed : Shape.Names number part.rank := beside.1.symm ▸ named
  have partLast : part.axisAt number + 1 = part.rank := by rw [beside.axisAt, last, beside.1]
  have shaped := shape_last named last
  have partShape := shape_last partNamed partLast
  have partTotal : totalAlong number parts = totalAlong number before +
      (part.sizeAlong number + totalAlong number after) := by
    rw [split, totalAlong_append]
    rfl
  rw [along.sizeAlong small] at shaped
  rw [beside.2] at partShape
  have wide : Shape.FitsWord (joined.across number ++ [totalAlong number parts]) := by
    rw [Shape.FitsWord, Shape.volume_concat, Nat.mul_comm]
    exact fits
  have counted : (List.range' (totalAlong number before) (part.sizeAlong number)).length =
      part.sizeAlong number := List.length_range'
  have chosen : ∀ column ∈ List.range' (totalAlong number before) (part.sizeAlong number),
      column < totalAlong number parts := by
    intro column member
    have range := List.mem_range'_1.mp member
    omega
  obtain ⟨selected, made, selectedShape, elements⟩ := exists_selectColumns shaped
    (exact_iff_fitsWord.mpr (shaped ▸ wide)) (counted.symm ▸ sizeAlong_lt partNamed)
    (counted.symm ▸ wide.of_fewer_columns (by omega)) chosen
  rw [counted] at selectedShape elements
  rw [made]
  refine congrArg Except.ok (ext_of_elements ?_ (selectedShape.trans partShape.symm) ?_)
  · rw [exact_iff_fitsWord, selectedShape]
    exact wide.of_fewer_columns (by omega)
  · intro index within
    rw [selectedShape] at within
    obtain ⟨line, column, rfl, lineWithin, below⟩ := Shape.exists_concat_of_within within
    rw [elements line lineWithin column below, List.getElem?_toArray, List.getElem?_range' below,
      Option.getD_some, Nat.one_mul, ← slice_last named last lineWithin,
      along.slices fits before part after split column below line lineWithin]
    exact slice_last partNamed partLast (beside.2.symm ▸ lineWithin) column

theorem exists_concatenate_iff :
    (∃ joined, concatenate (first :: others) number = .ok joined) ↔
      Shape.Names number first.rank ∧ ∀ part ∈ others, Beside number first part := by
  constructor
  · rintro ⟨joined, made⟩
    obtain ⟨named, beside, _made⟩ := concatenate_cons_eq_ok_iff.mp made
    exact ⟨named, beside⟩
  · rintro ⟨named, beside⟩
    exact ⟨_, concatenate_cons_eq_ok_iff.mpr ⟨named, beside, rfl⟩⟩

end Tensor

/-! ### Groups of tensors -/

namespace Grouping

variable {number : Int} {parts : List (Grouping Tensor)} {results : List Tensor}
  {first result : Tensor}

mutual

def concatenate (number : Int) : Grouping Tensor → Except ShapeFault Tensor
  | .single tensor => .ok tensor
  | .group parts => do Tensor.concatenate (← concatenateAll number parts) number

def concatenateAll (number : Int) : List (Grouping Tensor) → Except ShapeFault (List Tensor)
  | [] => .ok []
  | part :: parts => do
      let tensor ← concatenate number part
      return tensor :: (← concatenateAll number parts)

end

theorem concatenateAll_eq_mapM (number : Int) (parts : List (Grouping Tensor)) :
    concatenateAll number parts = parts.mapM (concatenate number) := by
  induction parts with
  | nil => rfl
  | cons part parts ih => rw [concatenateAll, ih, List.mapM_cons]

theorem concatenate_group_eq_ok_iff :
    concatenate number (.group parts) = .ok result ↔ ∃ results,
      List.Forall₂ (fun part tensor => part.concatenate number = .ok tensor) parts results ∧
        Tensor.concatenate results number = .ok result := by
  rw [concatenate, Outcome.bind_eq_ok_iff]
  refine exists_congr fun results => and_congr_left fun _joined => ?_
  rw [concatenateAll_eq_mapM, Collection.mapM_eq_ok_iff]

theorem named_of_concatenate (made : concatenate number (.group parts) = .ok result) :
    Shape.Names number result.rank := by
  obtain ⟨results, _related, joined⟩ := concatenate_group_eq_ok_iff.mp made
  cases results with
  | nil => cases joined
  | cons head tail =>
      obtain ⟨named, _beside⟩ := Tensor.exists_concatenate_iff.mp ⟨result, joined⟩
      have beside := (Tensor.joinedAlong_of_concatenate joined).beside head (List.mem_cons_self ..)
      exact beside.1 ▸ named

theorem exists_concatenate {grouping : Grouping Tensor} (filled : grouping.Filled)
    (named : Shape.Names number first.rank)
    (beside : ∀ member ∈ grouping.members, Tensor.Beside number first member) :
    ∃ result, grouping.concatenate number = .ok result ∧ Tensor.Beside number first result := by
  induction filled with
  | single tensor => exact ⟨tensor, rfl, beside tensor (List.mem_singleton_self tensor)⟩
  | @group parts some _each ih =>
      have made : ∀ part ∈ parts, ∃ result, part.concatenate number = .ok result ∧
          Tensor.Beside number first result := fun part listed =>
        ih part listed fun member inside =>
          beside member (mem_membersAll_iff.mpr ⟨part, listed, inside⟩)
      obtain ⟨results, related⟩ := Collection.exists_forall₂ made
      have each := related.imp fun _part _tensor both => both.1
      cases related with
      | nil => exact absurd rfl some
      | @cons _part head _parts tail headMade tailMade =>
          have headBeside := headMade.2
          have tailBeside : ∀ tensor ∈ tail, Tensor.Beside number head tensor := by
            intro tensor listed
            obtain ⟨_part, _listed, made⟩ := Collection.exists_item_of_forall₂ tailMade listed
            exact headBeside.symm.trans made.2
          obtain ⟨result, joined⟩ := Tensor.exists_concatenate_iff.mpr
            ⟨headBeside.1.symm ▸ named, tailBeside⟩
          have resultBeside :=
            (Tensor.joinedAlong_of_concatenate joined).beside head (List.mem_cons_self ..)
          exact ⟨result, concatenate_group_eq_ok_iff.mpr ⟨_, each, joined⟩,
            headBeside.trans resultBeside.symm⟩

theorem beside_membersAll
    (each : List.Forall₂ (fun part tensor =>
      ∀ member ∈ part.members, Tensor.Beside number tensor member) parts results)
    (beside : ∀ tensor ∈ results, Tensor.Beside number result tensor) :
    ∀ member ∈ membersAll parts, Tensor.Beside number result member := by
  induction each with
  | nil => exact fun _member inside => nomatch inside
  | cons head _tail ih =>
      obtain ⟨first, rest⟩ := List.forall_mem_cons.mp beside
      rw [membersAll]
      exact List.forall_mem_append.mpr
        ⟨fun member inside => first.trans (head member inside), ih rest⟩

theorem beside_of_concatenate {grouping : Grouping Tensor} (filled : grouping.Filled)
    (made : grouping.concatenate number = .ok result) :
    ∀ member ∈ grouping.members, Tensor.Beside number result member := by
  induction filled generalizing result with
  | single tensor =>
      cases made
      exact List.forall_mem_singleton.mpr .refl
  | @group parts some _each ih =>
      obtain ⟨results, related, joined⟩ := concatenate_group_eq_ok_iff.mp made
      have each := (List.forall₂_and_left parts results).mpr ⟨@ih, related⟩
      cases related with
      | nil => exact absurd rfl some
      | cons head tail =>
          exact beside_membersAll (each.imp fun _part _tensor both => both.1 both.2)
            (Tensor.joinedAlong_of_concatenate joined).beside

/-- Groups are joined exactly if their members stand side by side on an axis that they have. -/
theorem exists_concatenate_group_iff {others : List Tensor}
    (filled : (Grouping.group parts).Filled) (listed : membersAll parts = first :: others) :
    (∃ result, concatenate number (.group parts) = .ok result) ↔
      Shape.Names number first.rank ∧ ∀ part ∈ others, Tensor.Beside number first part := by
  constructor
  · rintro ⟨result, made⟩
    have beside := beside_of_concatenate filled made
    rw [members, listed, List.forall_mem_cons] at beside
    obtain ⟨firstBeside, othersBeside⟩ := beside
    refine ⟨firstBeside.1.symm ▸ named_of_concatenate made, fun part member => ?_⟩
    exact firstBeside.symm.trans (othersBeside part member)
  · rintro ⟨named, beside⟩
    obtain ⟨result, made, _beside⟩ := exists_concatenate filled named (by
      rw [members, listed]
      exact List.forall_mem_cons.mpr ⟨.refl, beside⟩)
    exact ⟨result, made⟩

theorem totalAlong_part_le {part : Grouping Tensor} (listed : part ∈ parts) :
    Tensor.totalAlong number part.members ≤ Tensor.totalAlong number (membersAll parts) := by
  obtain ⟨before, after, split⟩ := List.append_of_mem listed
  rw [split, membersAll_eq_flatMap, List.flatMap_append, List.flatMap_cons,
    Tensor.totalAlong_append, Tensor.totalAlong_append]
  omega

theorem slices_membersAll {common : Shape}
    (each : List.Forall₂ (fun part tensor => Tensor.slices number common tensor =
      part.members.flatMap (Tensor.slices number common)) parts results) :
    results.flatMap (Tensor.slices number common) =
      (membersAll parts).flatMap (Tensor.slices number common) := by
  induction each with
  | nil => rfl
  | cons head _tail ih =>
      rw [List.flatMap_cons, head, ih, membersAll, List.flatMap_append]

/-- However tensors are grouped, the result has the slices of all of them in order. -/
theorem slices_of_concatenate {grouping : Grouping Tensor} (filled : grouping.Filled)
    (made : grouping.concatenate number = .ok result)
    (small : Tensor.totalAlong number grouping.members < Word.modulus)
    (fits : Tensor.totalAlong number grouping.members * (result.across number).volume <
      Word.modulus) :
    result.slices number (result.across number) =
      grouping.members.flatMap (Tensor.slices number (result.across number)) := by
  induction filled generalizing result with
  | single tensor =>
      cases made
      exact (List.flatMap_singleton _ _).symm
  | @group parts some _each ih =>
      obtain ⟨results, related, joined⟩ := concatenate_group_eq_ok_iff.mp made
      rw [members] at small fits ⊢
      have along : Tensor.JoinedAlong number results result := by
        cases related with
        | nil => exact absurd rfl some
        | cons head tail => exact Tensor.joinedAlong_of_concatenate joined
      have parted : List.Forall₂ (fun part tensor =>
          Tensor.slices number (result.across number) tensor =
            part.members.flatMap (Tensor.slices number (result.across number))) parts results := by
        refine (Collection.forall₂_and_mem related).imp fun part tensor each => ?_
        obtain ⟨listed, given, partMade⟩ := each
        have fewer := @totalAlong_part_le number parts part listed
        have same := (along.beside tensor given).2
        rw [← same] at fits ⊢
        exact ih part listed partMade (Nat.lt_of_le_of_lt fewer small)
          (Nat.lt_of_le_of_lt (Nat.mul_le_mul_right _ fewer) fits)
      have slices := slices_membersAll parted
      have total : Tensor.totalAlong number results =
          Tensor.totalAlong number (membersAll parts) := by
        rw [← Tensor.length_flatMap_slices number (result.across number), slices,
          Tensor.length_flatMap_slices]
      rw [← slices]
      exact along.slices_eq (total ▸ small) (total ▸ fits)

end Grouping

/-- Tensors can be joined exactly if the number names an axis of the first one and all have its
rank and its sizes on the other axes, and in groups exactly if at once. The result has the slices
of the first tensor, then those of the second, and so on; every grouping gives the same result; and
on the last axis, the columns that a tensor took give it back. -/
theorem Tensor.joining_keeps_slices_in_order (number : Int) (first : Tensor)
    (others : List Tensor) :
    ((∃ joined, concatenate (first :: others) number = .ok joined) ↔
      Shape.Names number first.rank ∧ ∀ part ∈ others, Beside number first part) ∧
    (∀ parts, Grouping.membersAll parts = first :: others → (Grouping.group parts).Filled →
      ((∃ joined, Grouping.concatenate number (.group parts) = .ok joined) ↔
        ∃ joined, concatenate (first :: others) number = .ok joined)) ∧
    ∀ joined, concatenate (first :: others) number = .ok joined →
      totalAlong number (first :: others) < Word.modulus →
      totalAlong number (first :: others) * (first.across number).volume < Word.modulus →
      joined.Exact ∧
      joined.shape = (first.across number).insertIdx (first.axisAt number)
        (totalAlong number (first :: others)) ∧
      joined.slices number (first.across number) =
        (first :: others).flatMap (slices number (first.across number)) ∧
      (∀ grouping : Grouping Tensor, grouping.members = first :: others → grouping.Filled →
        grouping.concatenate number = .ok joined) ∧
      (joined.axisAt number + 1 = joined.rank →
        ∀ before part after, first :: others = before ++ part :: after →
          joined.selectColumns
            (List.range' (totalAlong number before) (part.sizeAlong number)) = .ok part) := by
  refine ⟨exists_concatenate_iff, fun parts listed filled => ?_, fun joined made small fits => ?_⟩
  · rw [exists_concatenate_iff]
    exact Grouping.exists_concatenate_group_iff filled listed
  · obtain ⟨named, _beside⟩ := exists_concatenate_iff.mp ⟨joined, made⟩
    have along := joinedAlong_of_concatenate made
    have beside := along.beside first (List.mem_cons_self ..)
    have joinedNamed : Shape.Names number joined.rank := beside.1 ▸ named
    rw [beside.2] at fits ⊢
    rw [beside.axisAt]
    have exact := along.exact joinedNamed small fits
    refine ⟨exact, along.shape_eq joinedNamed small, along.slices_eq small fits, ?_,
      fun last before part after => along.selectColumns_eq_ok joinedNamed small fits last⟩
    intro grouping listed filled
    obtain ⟨result, grouped, resultBeside⟩ := Grouping.exists_concatenate filled joinedNamed
      (listed ▸ along.beside)
    have sameSlices := Grouping.slices_of_concatenate filled grouped (listed ▸ small)
      (listed ▸ resultBeside.2 ▸ fits)
    rw [listed, resultBeside.2, ← along.slices_eq small fits] at sameSlices
    rw [grouped, ext_of_slices exact joinedNamed resultBeside sameSlices.symm]

/-- One column, none and two in the last axis, of which the first two are joined beforehand. Columns
of two and of three lines cannot be joined. -/
theorem Tensor.joining_keeps_slices_in_order_with_empty :
    ∃ joined, concatenate [numbered [2, 1] 5, numbered [2, 0] 7, numbered [2, 2] 20] (-1) =
        .ok joined ∧
      joined.shape = [2, 3] ∧
      Grouping.concatenate (-1) (.group [.group [.single (numbered [2, 1] 5),
        .single (numbered [2, 0] 7)], .single (numbered [2, 2] 20)]) = .ok joined ∧
      joined.selectColumns [] = .ok (numbered [2, 0] 7) ∧
      joined.selectColumns [1, 2] = .ok (numbered [2, 2] 20) ∧
      ∀ refused, concatenate [numbered [2, 2] 5, numbered [3, 1] 20] (-1) ≠ .ok refused := by
  obtain ⟨joins, _groups, each⟩ := joining_keeps_slices_in_order (-1) (numbered [2, 1] 5)
    [numbered [2, 0] 7, numbered [2, 2] 20]
  obtain ⟨joined, made⟩ := joins.mpr ⟨by decide, List.forall_mem_cons.mpr
    ⟨⟨rfl, rfl⟩, List.forall_mem_singleton.mpr ⟨rfl, rfl⟩⟩⟩
  obtain ⟨_exact, shaped, _slices, grouped, columns⟩ := each joined made (by decide) (by decide)
  have last : joined.axisAt (-1) + 1 = joined.rank := by
    rw [axisAt, rank, shaped]
    rfl
  have pair : (Grouping.group [.single (numbered [2, 1] 5), .single (numbered [2, 0] 7)]).Filled :=
    .group (by decide) (List.forall_mem_cons.mpr
      ⟨.single _, List.forall_mem_singleton.mpr (.single _)⟩)
  refine ⟨joined, made, shaped, grouped _ rfl (.group (by decide) (List.forall_mem_cons.mpr
    ⟨pair, List.forall_mem_singleton.mpr (.single _)⟩)), ?_, ?_, fun refused failed => ?_⟩
  · exact columns last [numbered [2, 1] 5] (numbered [2, 0] 7) [numbered [2, 2] 20] rfl
  · exact columns last [numbered [2, 1] 5, numbered [2, 0] 7] (numbered [2, 2] 20) [] rfl
  · have beside := ((joining_keeps_slices_in_order (-1) (numbered [2, 2] 5)
      [numbered [3, 1] 20]).1.mp ⟨refused, failed⟩).2
    exact absurd (beside _ (List.mem_singleton_self _)).2 (by decide)

end Featurize
