import Featurize.Proofs.Collection
import Featurize.Proofs.Grouping
import Featurize.Proofs.Shapes.Stretching

/-!
Merging in any order. The common shape of a list is the least of the shapes to which all of its
shapes stretch, and there is one exactly if they stretch to any shape at all. A least shape is
known by the shapes below it, so neither their order makes a difference, nor the groups in which
they are merged first: each intermediate result stands for the shapes that went into it. Only
which shape a refusal names depends on the order.
-/

namespace Featurize

namespace Shape

variable {shape target least other : Shape} {shapes : List Shape}

theorem StretchesTo.antisymm (first : shape.StretchesTo target)
    (second : target.StretchesTo shape) : shape = target := by
  have aligned : shape.length = target.length := Nat.le_antisymm first.1 second.1
  have there := (stretchesTo_iff_of_length_eq aligned).mp first
  have back := (stretchesTo_iff_of_length_eq aligned.symm).mp second
  clear first second aligned
  induction there with
  | nil => rfl
  | cons head _tail ih =>
      cases back with
      | cons headBack tailBack =>
          rw [ih tailBack]
          congr 1
          rcases head with same | one
          · exact same
          · rcases headBack with sameBack | oneBack
            · exact sameBack.symm
            · rw [one, oneBack]

theorem Joins.unique (joins : Joins shapes least) (others : Joins shapes other) :
    least = other :=
  (joins.below other others.above).antisymm (others.below least joins.above)

theorem common_eq_ok_iff : common shapes = .ok least ↔ Joins shapes least := by
  constructor
  · exact joins_common
  · intro joins
    obtain ⟨found, merged, foundJoins⟩ := exists_common joins.above
    rw [merged, foundJoins.unique joins]

theorem exists_common_iff :
    (∃ least, common shapes = .ok least) ↔
      ∃ target, ∀ shape ∈ shapes, shape.StretchesTo target := by
  constructor
  · rintro ⟨least, merged⟩
    exact ⟨least, (joins_common merged).above⟩
  · rintro ⟨target, bounded⟩
    obtain ⟨least, merged, _joins⟩ := exists_common bounded
    exact ⟨least, merged⟩

theorem joins_singleton : Joins [shape] shape where
  above := List.forall_mem_singleton.mpr (stretchesTo_refl shape)
  below := fun _target bounded => bounded shape (List.mem_singleton_self shape)

theorem common_of_forall_eq (nonempty : shapes ≠ [])
    (equal : ∀ other ∈ shapes, other = shape) : common shapes = .ok shape := by
  refine common_eq_ok_iff.mpr (joins_iff.mpr fun target => ?_)
  constructor
  · intro stretches other member
    exact equal other member ▸ stretches
  · intro stretch
    obtain ⟨head, member⟩ := List.exists_mem_of_ne_nil shapes nonempty
    exact equal head member ▸ stretch head member

theorem Joins.perm_iff {reordered : List Shape} (permuted : reordered.Perm shapes) :
    Joins reordered least ↔ Joins shapes least := by
  rw [joins_iff, joins_iff]
  exact forall_congr' fun target => iff_congr Iff.rfl
    (forall_congr' fun shape => imp_congr_left permuted.mem_iff)

end Shape

/-! ### Groups of shapes -/

namespace Grouping

variable {parts : List (Grouping Shape)} {shapes : List Shape} {least : Shape}

mutual

def common : Grouping Shape → Except ShapeFault Shape
  | .single shape => .ok shape
  | .group parts => do Shape.common (← commonAll parts)

def commonAll : List (Grouping Shape) → Except ShapeFault (List Shape)
  | [] => .ok []
  | part :: parts => do
      let shape ← common part
      return shape :: (← commonAll parts)

end

theorem commonAll_eq_mapM (parts : List (Grouping Shape)) :
    commonAll parts = parts.mapM common := by
  induction parts with
  | nil => rfl
  | cons part parts ih => rw [commonAll, ih, List.mapM_cons]

theorem commonAll_eq_ok_iff :
    commonAll parts = .ok shapes ↔
      List.Forall₂ (fun part shape => common part = .ok shape) parts shapes := by
  rw [commonAll_eq_mapM, Collection.mapM_eq_ok_iff]

/-- The results of the parts stretch exactly where the members of the parts do. -/
theorem forall_stretchesTo_iff
    (each : List.Forall₂ (fun part shape => Shape.Joins (members part) shape) parts shapes)
    (target : Shape) :
    (∀ shape ∈ shapes, shape.StretchesTo target) ↔
      ∀ member ∈ membersAll parts, member.StretchesTo target := by
  induction each with
  | nil => exact Iff.rfl
  | cons head _tail ih =>
      rw [List.forall_mem_cons, ih, Shape.joins_iff.mp head target, membersAll,
        List.forall_mem_append]

theorem joins_membersAll_iff
    (each : List.Forall₂ (fun part shape => Shape.Joins (members part) shape) parts shapes) :
    Shape.Joins shapes least ↔ Shape.Joins (membersAll parts) least := by
  rw [Shape.joins_iff, Shape.joins_iff]
  exact forall_congr' fun target => iff_congr Iff.rfl (forall_stretchesTo_iff each target)

/-- However shapes are grouped, they are merged to the least shape of them all. -/
theorem common_eq_ok_iff {grouping : Grouping Shape} :
    grouping.common = .ok least ↔ Shape.Joins grouping.members least := by
  induction grouping generalizing least with
  | single shape =>
      rw [common, Except.ok.injEq]
      constructor
      · intro same
        exact same ▸ Shape.joins_singleton
      · exact Shape.joins_singleton.unique
  | group parts each =>
      rw [common, members, Outcome.bind_eq_ok_iff]
      constructor
      · rintro ⟨shapes, merged, joined⟩
        have parted := (List.forall₂_and_left parts shapes).mpr
          ⟨@each, commonAll_eq_ok_iff.mp merged⟩
        have joins := parted.imp fun _part _shape both => both.1.mp both.2
        exact (joins_membersAll_iff joins).mp (Shape.common_eq_ok_iff.mp joined)
      · intro joins
        have merged : ∀ part ∈ parts, ∃ shape, common part = .ok shape ∧
            Shape.Joins part.members shape := by
          intro part listed
          obtain ⟨shape, _merged, partJoins⟩ := Shape.exists_common fun member inside =>
            joins.above member (mem_membersAll_iff.mpr ⟨part, listed, inside⟩)
          exact ⟨shape, (each part listed).mpr partJoins, partJoins⟩
        obtain ⟨shapes, related⟩ := Collection.exists_forall₂ merged
        have joined := related.imp fun _part _shape both => both.2
        exact ⟨shapes, commonAll_eq_ok_iff.mpr (related.imp fun _part _shape both => both.1),
          Shape.common_eq_ok_iff.mpr ((joins_membersAll_iff joined).mpr joins)⟩

end Grouping

/-- Shapes have a common shape exactly if there is any shape to which all of them stretch, and then
it is the least one. The outcome is the same in every order, and for every way to merge some of
the shapes first and the results later, however deep. -/
theorem Shape.common_is_least_in_any_grouping (shapes : List Shape) :
    ((∃ least, common shapes = .ok least) ↔
      ∃ target, ∀ shape ∈ shapes, shape.StretchesTo target) ∧
    (∀ least, common shapes = .ok least →
      (∀ shape ∈ shapes, shape.StretchesTo least) ∧
      ∀ target, (∀ shape ∈ shapes, shape.StretchesTo target) → least.StretchesTo target) ∧
    (∀ reordered : List Shape, reordered.Perm shapes →
      ∀ least, common reordered = .ok least ↔ common shapes = .ok least) ∧
    ∀ grouping : Grouping Shape, grouping.members.Perm shapes →
      ∀ least, grouping.common = .ok least ↔ common shapes = .ok least := by
  refine ⟨exists_common_iff, fun least merged => ?_, fun reordered permuted least => ?_,
    fun grouping permuted least => ?_⟩
  · have joins := joins_common merged
    exact ⟨joins.above, joins.below⟩
  · rw [common_eq_ok_iff, common_eq_ok_iff]
    exact Joins.perm_iff permuted
  · rw [Grouping.common_eq_ok_iff, common_eq_ok_iff]
    exact Joins.perm_iff permuted

/-- The first shape is merged with the last one before both meet the one between them, which has
more axes. A size zero meets sizes zero and one, and nothing else. -/
theorem Shape.common_is_least_in_any_grouping_nested :
    Grouping.common (.group [.group [.single [3, 1], .single [0]], .single [2, 1, 1]]) =
      .ok [2, 3, 0] ∧
    common [[3, 1], [2, 1, 1], [0]] = .ok [2, 3, 0] ∧
    ∀ least, Grouping.common (.group [.single [2], .group [.single [1, 1], .single [0]]]) ≠
      .ok least := by
  have merged := common_is_least_in_any_grouping [[3, 1], [2, 1, 1], [0]]
  have refused := common_is_least_in_any_grouping [[2], [1, 1], [0]]
  obtain ⟨_exists, _least, _order, grouped⟩ := merged
  obtain ⟨_exists, _least, _order, groupedRefused⟩ := refused
  refine ⟨(grouped _ (by decide) _).mpr rfl, rfl, fun least found => ?_⟩
  have flat := (groupedRefused _ (List.Perm.refl _) least).mp found
  cases flat

end Featurize
