import Featurize.Tensor.Basic

/-!
Volumes of shapes. The number of positions of a shape follows the way in which the shape is made:
it multiplies over parts, and an axis multiplies it by its size wherever it stands. Sizes that
multiply to a machine word are counted without wrapping, also when they are taken as words.
-/

namespace Featurize

namespace Shape

def FitsWord (shape : Shape) : Prop := shape.volume < Word.modulus

instance (shape : Shape) : Decidable shape.FitsWord :=
  inferInstanceAs (Decidable (shape.volume < Word.modulus))

theorem volume_append (first later : Shape) :
    (first ++ later).volume = first.volume * later.volume := by
  induction first with
  | nil => exact (Nat.one_mul _).symm
  | cons size sizes ih => rw [List.cons_append, volume, volume, ih, Nat.mul_assoc]

theorem volume_concat (shape : Shape) (size : Nat) :
    (shape ++ [size]).volume = shape.volume * size := by
  rw [volume_append, volume, volume, Nat.mul_one]

theorem volume_dropLast {shape : Shape} (axes : shape ≠ []) :
    shape.volume = volume shape.dropLast * shape.getLastD 0 := by
  have whole := List.dropLast_concat_getLast axes
  rw [← volume_concat, List.getLastD_eq_getLast?, List.getLast?_eq_some_getLast axes,
    Option.getD_some, whole]

theorem volume_insertIdx {shape : Shape} {place : Nat} (inside : place ≤ shape.length)
    (size : Nat) : volume (shape.insertIdx place size) = size * shape.volume := by
  induction shape generalizing place with
  | nil =>
      rw [Nat.le_zero.mp inside]
      rfl
  | cons first sizes ih =>
      cases place with
      | zero => rfl
      | succ place =>
          rw [List.insertIdx_succ_cons, volume, ih (Nat.le_of_succ_le_succ inside), volume,
            Nat.mul_left_comm]

theorem fitsWord_insertIdx {shape : Shape} {place size : Nat} (inside : place ≤ shape.length)
    (fits : size * shape.volume < Word.modulus) : FitsWord (shape.insertIdx place size) := by
  rw [FitsWord, volume_insertIdx inside]
  exact fits

theorem elementCount_insertIdx_one {shape : Shape} {place : Nat} (inside : place ≤ shape.length) :
    elementCount (shape.insertIdx place 1) = shape.elementCount := by
  rw [elementCount, volume_insertIdx inside, Nat.one_mul, elementCount]

theorem volume_replicate_one (count : Nat) : volume (List.replicate count 1) = 1 := by
  induction count with
  | zero => rfl
  | succ count ih => rw [List.replicate_succ, volume, ih]

theorem volume_set_one {count place : Nat} (inside : place < count) (size : Nat) :
    volume ((List.replicate count 1).set place size) = size := by
  induction count generalizing place with
  | zero => cases inside
  | succ count ih =>
      cases place with
      | zero =>
          rw [List.replicate_succ, List.set_cons_zero, volume, volume_replicate_one, Nat.mul_one]
      | succ place =>
          rw [List.replicate_succ, List.set_cons_succ, volume, Nat.one_mul,
            ih (Nat.lt_of_succ_lt_succ inside)]

theorem volume_zipWith {first second : Shape} (aligned : first.length = second.length) :
    volume (List.zipWith (· * ·) first second) = first.volume * second.volume := by
  induction first generalizing second with
  | nil =>
      cases List.eq_nil_of_length_eq_zero aligned.symm
      rfl
  | cons size sizes ih =>
      cases second with
      | nil => cases aligned
      | cons count counts =>
          rw [List.zipWith_cons_cons, volume, ih (Nat.succ.inj aligned), volume, volume,
            Nat.mul_mul_mul_comm]

theorem volume_words {shape : Shape} (fits : shape.FitsWord) :
    shape.words.volume = shape.volume := by
  unfold FitsWord at fits
  induction shape with
  | nil => rfl
  | cons size sizes ih =>
      change Word.wrap size * volume (words sizes) = size * volume sizes
      rw [volume] at fits
      rcases Nat.eq_zero_or_pos size with none | some
      · rw [none, Nat.zero_mul]
        exact Nat.zero_mul _
      · have rest := ih (Nat.lt_of_le_of_lt (Nat.le_mul_of_pos_left _ some) fits)
        rw [rest]
        rcases Nat.eq_zero_or_pos (volume sizes) with empty | filled
        · rw [empty, Nat.mul_zero, Nat.mul_zero]
        · rw [Word.wrap_of_lt (Nat.lt_of_le_of_lt (Nat.le_mul_of_pos_right _ filled) fits)]

theorem words_set_wrap (shape : Shape) (axis size : Nat) :
    words (shape.set axis (Word.wrap size)) = words (shape.set axis size) := by
  unfold words
  rw [List.map_set, List.map_set, Word.wrap_wrap]

theorem FitsWord.of_fewer_rows {rest : Shape} {fewer more : Nat} (fits : FitsWord (more :: rest))
    (below : fewer ≤ more) : FitsWord (fewer :: rest) :=
  Nat.lt_of_le_of_lt (Nat.mul_le_mul_right _ below) fits

theorem FitsWord.of_fewer_columns {rest : Shape} {fewer more : Nat}
    (fits : FitsWord (rest ++ [more])) (below : fewer ≤ more) : FitsWord (rest ++ [fewer]) := by
  rw [FitsWord, volume_concat] at fits ⊢
  exact Nat.lt_of_le_of_lt (Nat.mul_le_mul_left _ below) fits

theorem elementCount_words {shape : Shape} (fits : shape.FitsWord) :
    shape.words.elementCount = shape.volume := by
  rw [elementCount, volume_words fits]
  exact Word.wrap_of_lt fits

end Shape

end Featurize
