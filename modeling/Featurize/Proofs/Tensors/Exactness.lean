import Featurize.Proofs.Shapes.Volume
import Featurize.Proofs.Tensors.Elements
import Featurize.Tensor.Columns
import Featurize.Tensor.Concatenate
import Featurize.Tensor.Product

/-!
Exact tensors under operations. A tensor has one element for each position of its shape as
long as the sizes multiply to less than the number of words. Where an operation keeps the
elements, or keeps whole lines of them, it keeps exactness; where it makes elements for a
new shape, the result is exact when the sizes of that shape do not multiply to more than a
word holds.
-/

namespace Featurize

namespace Shape

theorem axis_lt {number : Int} {rank place : Nat} (found : axis number rank = .ok place) :
    place < rank := by
  unfold axis at found
  cases named : position? number rank with
  | none =>
      rw [named] at found
      cases found
  | some position =>
      rw [named] at found
      cases found
      exact position?_lt named

theorem gap_le {number : Int} {rank place : Nat} (found : gap number rank = .ok place) :
    place ≤ rank := by
  unfold gap at found
  cases named : position? number (rank + 1) with
  | none =>
      rw [named] at found
      cases found
  | some position =>
      rw [named] at found
      cases found
      exact Nat.le_of_lt_succ (position?_lt named)

end Shape

namespace Tensor

variable {tensor left right result : Tensor} {shape : Shape}

/-- The number of elements is that of the positions exactly when the sizes multiply to a word;
otherwise it is what the product leaves in a word. -/
theorem exact_iff_fitsWord : tensor.Exact ↔ tensor.shape.FitsWord :=
  ⟨Exact.volume_lt, exact_of_volume_lt⟩

theorem exact_of_shape (shaped : tensor.shape = shape.words) (fits : shape.FitsWord) :
    tensor.Exact := by
  apply exact_of_volume_lt
  rw [shaped, Shape.volume_words fits]
  exact fits

theorem exact_ofList (values : List Double) : (ofList values).Exact := by
  apply exact_of_volume_lt
  change Word.wrap values.length * 1 < Word.modulus
  rw [Nat.mul_one]
  exact Word.wrap_lt _

theorem exact_of_same_shape (exact : tensor.Exact) (same : result.shape = tensor.shape) :
    result.Exact :=
  exact_of_volume_lt (same ▸ exact.volume_lt)

/-! ### Elements that stay -/

theorem exact_multiply (exact : left.Exact) (made : left.multiply right = .ok result) :
    result.Exact := by
  unfold multiply at made
  split at made
  · cases made
    exact exact_of_same_shape exact (left.shape_tabulate_shape _)
  · cases made

theorem exact_selectColumns {columns : List Nat} (exact : tensor.Exact)
    (made : tensor.selectColumns columns = .ok result) : result.Exact := by
  unfold selectColumns at made
  obtain ⟨axes, chosen⟩ := Outcome.guard_eq_ok_iff.mp made
  split at chosen
  · cases chosen
  · rename_i inside
    obtain ⟨shaped, stored⟩ := shape_ofData chosen
    have some : tensor.shape ≠ [] := fun none => axes (congrArg List.length none)
    have counted : result.size =
        (if tensor.width = 0 then 0 else tensor.size / tensor.width) * columns.length := by
      unfold size
      rw [stored, Array.size_ofFn]
      rfl
    have lines : (if tensor.width = 0 then 0 else tensor.size / tensor.width) * columns.length =
        Shape.volume (tensor.shape.dropLast ++ [columns.length]) := by
      rw [Shape.volume_concat]
      by_cases none : tensor.width = 0
      · cases columns with
        | nil => rfl
        | cons column columns =>
            rw [List.find?_cons_of_pos (by simp [none])] at inside
            cases inside
      · have volume := Shape.volume_dropLast some
        rw [if_neg none, exact, volume]
        change Shape.volume _ * tensor.width / tensor.width * _ = _
        rw [Nat.mul_div_cancel _ (Nat.pos_of_ne_zero none)]
    refine exact_of_shape shaped ?_
    unfold Shape.FitsWord
    rw [← lines, ← counted, size_eq]
    exact Word.wrap_lt _

theorem exact_reshape_open {sizes : List Int} (fits : Shape.FitsWord (sizes.map Int.toNat))
    (made : tensor.reshape (-1 :: sizes) = .ok result) : result.Exact := by
  unfold reshape at made
  obtain ⟨requested, accepted, made⟩ := Outcome.bind_eq_ok_iff.mp made
  have asked := (requestedSizes_open accepted).2
  have known : requested.filterMap id = sizes.map Int.toNat := by
    rw [asked, List.filterMap_cons_none rfl, List.filterMap_map]
    change sizes.filterMap (some ∘ Int.toNat) = _
    rw [List.filterMap_eq_map]
  obtain ⟨divisible, made⟩ := Outcome.guard_eq_ok_iff.mp made
  obtain ⟨_counted, made⟩ := Outcome.guard_eq_ok_iff.mp made
  rw [known, Shape.elementCount_of_lt fits] at divisible made
  have divides : tensor.size % Shape.volume (sizes.map Int.toNat) = 0 :=
    Decidable.byContradiction fun rest =>
      divisible ⟨asked ▸ List.mem_cons_self .., .inr rest⟩
  have filled (size : Nat) : Shape.volume (requested.map (fun given => given.getD size)) =
      size * Shape.volume (sizes.map Int.toNat) := by
    rw [asked, List.map_cons, List.map_map]
    rfl
  refine exact_of_shape (shape_ofData made).1 ?_
  unfold Shape.FitsWord
  rw [filled, Nat.div_mul_cancel (Nat.dvd_of_mod_eq_zero divides), size_eq]
  exact Word.wrap_lt _

/-! ### Elements that are made -/

theorem exact_tabulate (fits : shape.FitsWord) (element : Nat → Double) :
    (tabulate shape element).Exact :=
  exact_of_shape rfl fits

theorem exact_oneHot {classes count : Nat} {rows : Tensor}
    (fits : Shape.FitsWord (tensor.shape ++ [classes]))
    (encoded : tensor.oneHot classes = .ok rows) (kept : rows.firstColumns count = .ok result) :
    result.Exact := by
  unfold oneHot at encoded
  obtain ⟨_numbers, _numbered, same⟩ := Outcome.bind_eq_ok_iff.mp encoded
  cases same
  exact exact_selectColumns (exact_tabulate fits _) kept

def joinedShape? (axis : Int) : List Tensor → Option Shape
  | [] => none
  | first :: tensors =>
      match Shape.axis axis first.rank with
      | .ok place => some (first.shape.set place (totalAt place (first :: tensors)))
      | .error _ => none

theorem exact_concatenate {axis : Int} {tensors : List Tensor}
    (fits : ∀ shape ∈ joinedShape? axis tensors, shape.FitsWord)
    (made : concatenate tensors axis = .ok result) : result.Exact := by
  cases tensors with
  | nil => cases made
  | cons first tensors =>
      unfold concatenate at made
      obtain ⟨place, found, made⟩ := Outcome.bind_eq_ok_iff.mp made
      obtain ⟨_checked, _beside, same⟩ := Outcome.bind_eq_ok_iff.mp made
      cases same
      refine exact_of_shape (Shape.words_set_wrap first.shape place _) (fits _ ?_)
      simp only [joinedShape?, found, Option.mem_def]

theorem exact_identity {size : Nat} (fits : Shape.FitsWord [size, size]) :
    (identity size).Exact :=
  exact_tabulate fits _

def outerShape? (left right : Tensor) : Option Shape :=
  match Shape.common [left.shape.dropLast, right.shape.dropLast] with
  | .ok lead => some (lead ++ [left.shape.getLastD 0 * right.shape.getLastD 0])
  | .error _ => none

theorem exact_outerProduct (fits : ∀ shape ∈ outerShape? left right, shape.FitsWord)
    (made : left.outerProduct right = .ok result) : result.Exact := by
  unfold outerProduct at made
  obtain ⟨_axes, made⟩ := Outcome.guard_eq_ok_iff.mp made
  obtain ⟨lead, joined, made⟩ := Outcome.bind_eq_ok_iff.mp made
  obtain ⟨_stretchedLeft, _left, made⟩ := Outcome.bind_eq_ok_iff.mp made
  obtain ⟨_stretchedRight, _right, same⟩ := Outcome.bind_eq_ok_iff.mp made
  cases same
  refine exact_tabulate (fits _ ?_) _
  simp only [outerShape?, joined, Option.mem_def]

def repeatedShape? (axis : Int) (count : Nat) (tensor : Tensor) : Option Shape :=
  match Shape.gap axis tensor.rank with
  | .ok place => some (tensor.shape.insertIdx place count)
  | .error _ => none

theorem exact_unsqueeze {axis : Int} (exact : tensor.Exact)
    (made : tensor.unsqueeze axis = .ok result) : result.Exact := by
  unfold unsqueeze at made
  obtain ⟨place, found, made⟩ := Outcome.bind_eq_ok_iff.mp made
  refine exact_of_shape (shape_ofData made).1 ?_
  unfold Shape.FitsWord
  rw [Shape.volume_insertIdx (Shape.gap_le found), Nat.one_mul]
  exact exact.volume_lt

theorem exact_tile {counts : List Nat} (aligned : counts.length = tensor.rank)
    (fits : tensor.shape.volume * Shape.volume counts < Word.modulus)
    (made : tensor.tile counts = .ok result) : result.Exact := by
  unfold tile at made
  rw [if_neg (Nat.not_lt.mpr (Nat.le_of_eq aligned.symm))] at made
  cases made
  refine exact_of_shape rfl ?_
  have unpadded : tensor.shape.leftPad counts.length = tensor.shape := by
    unfold Shape.leftPad
    rw [aligned, rank, Nat.sub_self]
    rfl
  unfold Shape.FitsWord
  rw [unpadded, Shape.volume_zipWith aligned.symm]
  exact fits

theorem exact_repeat {axis : Int} {count place : Nat} {inserted : Tensor}
    (fits : ∀ shape ∈ repeatedShape? axis count tensor, shape.FitsWord) (exact : tensor.Exact)
    (unsqueezed : tensor.unsqueeze axis = .ok inserted)
    (found : Shape.axis axis inserted.rank = .ok place)
    (tiled : inserted.tile ((List.replicate inserted.rank 1).set place count) = .ok result) :
    result.Exact := by
  have asked : inserted.shape.volume * count < Word.modulus := by
    unfold unsqueeze at unsqueezed
    obtain ⟨gap, opened, stored⟩ := Outcome.bind_eq_ok_iff.mp unsqueezed
    have inside := Shape.gap_le opened
    have repeated : Shape.FitsWord (tensor.shape.insertIdx gap count) := by
      refine fits _ ?_
      simp only [repeatedShape?, opened, Option.mem_def]
    have one : Shape.FitsWord (tensor.shape.insertIdx gap 1) := by
      unfold Shape.FitsWord
      rw [Shape.volume_insertIdx inside, Nat.one_mul]
      exact exact.volume_lt
    unfold Shape.FitsWord at repeated
    rw [Shape.volume_insertIdx inside] at repeated
    rw [(shape_ofData stored).1, Shape.volume_words one, Shape.volume_insertIdx inside,
      Nat.one_mul, Nat.mul_comm]
    exact repeated
  refine exact_tile ?_ ?_ tiled
  · rw [List.length_set, List.length_replicate]
  · rw [Shape.volume_set_one (Shape.axis_lt found)]
    exact asked

end Tensor

end Featurize
