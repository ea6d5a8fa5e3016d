import Featurize.Proofs.Tensors.Joining
import Featurize.Stage.Layout

/-!
Stacking of pairs. The values of a list of pairs are joined along their first axis, which puts
their elements one after the other, and only the joined elements are cut into rows. So the
pairs keep apart, each with rows of its own, exactly if the elements of every single value fill
whole rows. A value that does not lends its last row to the next one, and nothing is refused as
long as the whole comes out even.
-/

namespace Featurize

/-! ### Joining along the first axis -/

theorem Word.wrap_le (count : Nat) : Word.wrap count ≤ count := Nat.mod_le count Word.modulus

theorem Shape.volume_words_modEq (shape : Shape) :
    shape.words.volume ≡ shape.volume [MOD Word.modulus] := by
  induction shape with
  | nil => rfl
  | cons size sizes ih => exact (Nat.mod_modEq size _).mul ih

namespace Tensor

def elements (parts : List Tensor) : List Double :=
  parts.flatMap (fun part => part.data.toList)

def totalSize (parts : List Tensor) : Nat := (parts.map size).sum

theorem totalSize_cons (part : Tensor) (parts : List Tensor) :
    totalSize (part :: parts) = part.size + totalSize parts :=
  List.sum_cons

theorem length_elements (parts : List Tensor) : (elements parts).length = totalSize parts := by
  induction parts with
  | nil => rfl
  | cons part parts ih =>
      rw [totalSize_cons, ← ih]
      exact List.length_append

theorem blockSize_first (part : Tensor) : part.blockSize 0 = part.size := part.size_eq.symm

theorem lineSize_first (parts : List Tensor) : lineSize 0 parts = totalSize parts := by
  induction parts with
  | nil => rfl
  | cons part parts ih => rw [lineSize, ih, blockSize_first, totalSize_cons]

theorem exists_blockAt {parts : List Tensor} {position : Nat}
    (inside : position < totalSize parts) :
    ∃ part within, blockAt? 0 parts position = some (part, within) ∧
      (elements parts)[position]? = part.data[within]? := by
  induction parts generalizing position with
  | nil => cases inside
  | cons part parts ih =>
      rw [totalSize_cons] at inside
      have sizeIs : part.data.toList.length = part.size := rfl
      unfold blockAt? elements
      rw [blockSize_first, List.flatMap_cons]
      by_cases here : position < part.size
      · refine ⟨part, position, if_pos here, ?_⟩
        rw [List.getElem?_append_left (sizeIs ▸ here), Array.getElem?_toList]
      · have behind : position - part.size < totalSize parts := by omega
        obtain ⟨other, within, found, same⟩ := ih behind
        refine ⟨other, within, (if_neg here).trans found, ?_⟩
        rw [List.getElem?_append_right (by omega), sizeIs]
        exact same

theorem joinedElement_first {parts : List Tensor} {position : Nat}
    (inside : position < totalSize parts) :
    (elements parts)[position]? = some (joinedElement parts 0 (lineSize 0 parts) position) := by
  obtain ⟨part, within, found, same⟩ := exists_blockAt inside
  have present : position < (elements parts).length := length_elements parts ▸ inside
  unfold joinedElement
  rw [lineSize_first, Nat.mod_eq_of_lt inside, found, Nat.div_eq_of_lt inside]
  simp only [Nat.zero_mul, Nat.zero_add]
  rw [get, ← same, List.getElem?_eq_getElem present, Option.getD_some]

theorem totalSize_modEq {parts : List Tensor} {rest : Shape}
    (beside : ∀ part ∈ parts, ∃ rows, part.shape = rows :: rest) :
    totalSize parts ≡ totalAt 0 parts * rest.volume [MOD Word.modulus] := by
  induction parts with
  | nil =>
      rw [totalAt, Nat.zero_mul]
      rfl
  | cons part parts ih =>
      obtain ⟨rows, shaped⟩ := beside part (List.mem_cons_self ..)
      have rowsIs : part.sizeAt 0 = rows := by
        rw [sizeAt, shaped]
        rfl
      have sizeIs : part.size ≡ rows * rest.volume [MOD Word.modulus] := by
        rw [size_eq, shaped]
        exact Nat.mod_modEq _ _
      rw [totalSize_cons, totalAt, rowsIs, Nat.add_mul]
      exact sizeIs.add (ih fun other member => beside other (List.mem_cons_of_mem _ member))

theorem concatenate_first_eq_ok {parts : List Tensor} {joined : Tensor}
    (concatenated : concatenate parts 0 = .ok joined) :
    ∃ rest, (∀ part ∈ parts, ∃ rows, part.shape = rows :: rest) ∧
      joined = tabulate (Word.wrap (totalAt 0 parts) :: rest)
        (joinedElement parts 0 (lineSize 0 parts)) := by
  cases parts with
  | nil => cases concatenated
  | cons first others =>
      obtain ⟨named, beside, made⟩ := concatenate_cons_eq_ok_iff.mp concatenated
      have all : ∀ part ∈ first :: others, Beside 0 first part :=
        List.forall_mem_cons.mpr ⟨⟨rfl, rfl⟩, beside⟩
      cases shaped : first.shape with
      | nil => exact absurd (congrArg List.length shaped) (Nat.ne_of_gt named.positive)
      | cons rows rest =>
          refine ⟨rest, fun part member => ?_, ?_⟩
          · obtain ⟨ranks, across⟩ := all part member
            have filled : 0 < part.rank := ranks.symm ▸ named.positive
            cases own : part.shape with
            | nil => exact absurd (congrArg List.length own) (Nat.ne_of_gt filled)
            | cons size sizes =>
                unfold Tensor.across at across
                rw [own, shaped] at across
                exact ⟨size, congrArg (size :: ·) across⟩
          · rw [← Beside.totalAt all, shaped] at made
            exact made.symm

/-- Joined along the first axis, parts leave their elements one after the other, as many as a
word counts. -/
theorem data_concatenate_first {parts : List Tensor} {joined : Tensor}
    (concatenated : concatenate parts 0 = .ok joined) :
    joined.data.toList = (elements parts).take (Word.wrap (totalSize parts)) := by
  obtain ⟨rest, beside, same⟩ := concatenate_first_eq_ok concatenated
  have count : Shape.elementCount (Shape.words (Word.wrap (totalAt 0 parts) :: rest)) =
      Word.wrap (totalSize parts) :=
    calc Shape.volume (Shape.words (Word.wrap (totalAt 0 parts) :: rest))
      _ ≡ Word.wrap (totalAt 0 parts) * Shape.volume rest [MOD Word.modulus] :=
        Shape.volume_words_modEq _
      _ ≡ totalAt 0 parts * Shape.volume rest [MOD Word.modulus] :=
        (Nat.mod_modEq _ _).mul_right _
      _ ≡ totalSize parts [MOD Word.modulus] := (totalSize_modEq beside).symm
  subst same
  apply List.ext_getElem?
  intro position
  unfold tabulate
  rw [Array.getElem?_toList, Array.getElem?_ofFn, List.getElem?_take]
  by_cases inside : position < Word.wrap (totalSize parts)
  · have within : position < totalSize parts :=
      Nat.lt_of_lt_of_le inside (Word.wrap_le _)
    rw [dif_pos (count.symm ▸ inside), if_pos inside, joinedElement_first within]
  · rw [dif_neg (count.symm ▸ inside), if_neg inside]

theorem size_concatenate_first {parts : List Tensor} {joined : Tensor}
    (concatenated : concatenate parts 0 = .ok joined) :
    joined.size = Word.wrap (totalSize parts) := by
  have counted := congrArg List.length (data_concatenate_first concatenated)
  rw [List.length_take, length_elements, Nat.min_eq_left (Word.wrap_le _)] at counted
  exact counted

/-! ### Cutting rows -/

theorem reshape_rows {tensor matrix : Tensor} {width : Nat} (word : width < Word.modulus)
    (cut : tensor.reshape [-1, Word.signed width] = .ok matrix) :
    0 < width ∧ ∃ rows, rows * width = tensor.size ∧ matrix.shape = [rows, width] ∧
      matrix.data = tensor.data := by
  unfold reshape at cut
  simp only [Outcome.bind_eq_ok_iff, Outcome.guard_eq_ok_iff] at cut
  obtain ⟨requested, accepted, divisible, _counted, stored⟩ := cut
  cases @requestedSizes_words [width] (List.forall_mem_singleton.mpr word) requested accepted
  have known : Shape.elementCount [width] = width := by
    rw [Shape.elementCount_of_lt] <;> rw [Shape.volume, Shape.volume, Nat.mul_one]
    exact word
  simp only [List.map_cons, List.map_nil, List.filterMap_cons, List.filterMap_nil, id, known,
    List.mem_cons, true_or, true_and, not_or, Decidable.not_not, Option.getD_none,
    Option.getD_some] at divisible stored
  obtain ⟨positive, even⟩ := divisible
  obtain ⟨shape, data⟩ := shape_ofData stored
  have rowsWord : tensor.size / width < Word.modulus := by
    have whole : tensor.size < Word.modulus := tensor.size_eq ▸ Word.wrap_lt _
    exact Nat.lt_of_le_of_lt (Nat.div_le_self _ _) whole
  have words : ∀ size ∈ [tensor.size / width, width], size < Word.modulus :=
    List.forall_mem_cons.mpr ⟨rowsWord, List.forall_mem_singleton.mpr word⟩
  exact ⟨Nat.pos_of_ne_zero positive, tensor.size / width,
    Nat.div_mul_cancel (Nat.dvd_of_mod_eq_zero even), shape.trans (Shape.words_of_lt words), data⟩

/-- Parts lie in the rows of a matrix one after the other: each fills as many rows as its height
says, with its own elements in their order. -/
structure StackedFrom (matrix : Tensor) (parts : List Tensor) (width : Nat)
    (heights : List Nat) : Prop where
  fills : List.Forall₂ (fun part height => part.size = height * width) parts heights
  shape : matrix.shape = [heights.sum, width]
  element : ∀ (index : Nat) (part : Tensor) (height row column : Nat),
    parts[index]? = some part → heights[index]? = some height → row < height →
      column < width → matrix.element [(heights.take index).sum + row, column] =
        part.get (row * width + column)

section Rows

variable {matrix : Tensor} {parts : List Tensor} {heights : List Nat} {width rows : Nat}

theorem totalSize_of_fills
    (fills : List.Forall₂ (fun part height => part.size = height * width) parts heights) :
    totalSize parts = heights.sum * width := by
  induction fills with
  | nil => exact (Nat.zero_mul width).symm
  | cons filled _rest ih => rw [totalSize_cons, List.sum_cons, Nat.add_mul, filled, ih]

theorem dvd_of_fills
    (fills : List.Forall₂ (fun part height => part.size = height * width) parts heights) :
    ∀ part ∈ parts, width ∣ part.size := by
  induction fills with
  | nil => exact List.forall_mem_nil _
  | cons filled _rest ih =>
      exact List.forall_mem_cons.mpr ⟨filled ▸ Nat.dvd_mul_left width _, ih⟩

theorem getElem?_elements {index offset : Nat} {part : Tensor} (partAt : parts[index]? = some part)
    (inside : offset < part.size) :
    (elements parts)[totalSize (parts.take index) + offset]? = part.data[offset]? := by
  induction parts generalizing index with
  | nil => cases partAt
  | cons first parts ih =>
      have sizeIs : first.data.toList.length = first.size := rfl
      unfold elements
      rw [List.flatMap_cons]
      cases index with
      | zero =>
          cases partAt
          have start : totalSize ((part :: parts).take 0) + offset = offset := Nat.zero_add offset
          rw [start, List.getElem?_append_left (sizeIs ▸ inside), Array.getElem?_toList]
      | succ index =>
          rw [List.take_succ_cons, totalSize_cons,
            List.getElem?_append_right (by rw [sizeIs]; omega), sizeIs, Nat.add_assoc,
            Nat.add_sub_cancel_left]
          exact ih partAt

theorem element_of_rows (shape : matrix.shape = [rows, width]) (row column : Nat) :
    matrix.element [row, column] = matrix.get (row * width + column) := by
  unfold element
  rw [shape]
  simp only [Shape.position, Shape.volume, Nat.mul_one, Nat.add_zero]

/-- Parts whose elements lie in the rows one after the other are kept apart exactly if each of
them fills whole rows and a word counts them all. -/
theorem exists_stackedFrom_iff (positive : 0 < width) (shape : matrix.shape = [rows, width])
    (filled : rows * width = Word.wrap (totalSize parts))
    (data : matrix.data.toList = (elements parts).take (Word.wrap (totalSize parts))) :
    (∃ heights, matrix.StackedFrom parts width heights) ↔
      (∀ part ∈ parts, width ∣ part.size) ∧ totalSize parts < Word.modulus := by
  constructor
  · intro ⟨heights, stacked⟩
    have sameRows : rows = heights.sum :=
      (List.cons.inj (shape.symm.trans stacked.shape)).1
    have whole : totalSize parts = Word.wrap (totalSize parts) := by
      rw [← filled, sameRows, totalSize_of_fills stacked.fills]
    exact ⟨dvd_of_fills stacked.fills, whole ▸ Word.wrap_lt _⟩
  · intro ⟨divides, fits⟩
    have fills : List.Forall₂ (fun part height => part.size = height * width) parts
        (parts.map (fun part => part.size / width)) :=
      List.forall₂_map_right_iff.mpr (List.forall₂_same.mpr fun part member =>
        (Nat.div_mul_cancel (divides part member)).symm)
    rw [Word.wrap_of_lt fits] at filled data
    rw [List.take_of_length_le (Nat.le_of_eq (length_elements parts))] at data
    have rowsIs : rows = (parts.map (fun part => part.size / width)).sum :=
      Nat.eq_of_mul_eq_mul_right positive (filled.trans (totalSize_of_fills fills))
    refine ⟨_, fills, rowsIs ▸ shape, ?_⟩
    intro index part height row column partAt heightAt inRow inColumn
    have isHeight : part.size = height * width := by
      rw [List.getElem?_map, partAt, Option.map_some, Option.some.injEq] at heightAt
      rw [← heightAt, Nat.div_mul_cancel (divides part (List.mem_of_getElem? partAt))]
    have inside : row * width + column < part.size := by
      rw [isHeight]
      exact Shape.entry_lt inRow inColumn
    have before : totalSize (parts.take index) =
        ((parts.map (fun part => part.size / width)).take index).sum * width :=
      totalSize_of_fills (List.forall₂_take index fills)
    rw [element_of_rows shape, Nat.add_mul, Nat.add_assoc, ← before]
    unfold get
    rw [← Array.getElem?_toList, data, getElem?_elements partAt inside]

end Rows

end Tensor

namespace Record

open Tensor (elements totalSize)

variable {record output : Record} {keys : List String} {size : Nat} {key : String}
  {pairs : List ValuePresence}

/-- What stacking leaves under a key that held a list of pairs, however often it meets the key:
a matrix stays as it is. -/
theorem find?_stackRows (held : record.find? key = some (.valuePresenceList pairs))
    (listed : key ∈ keys) (stacked : record.stackRows keys size = .ok output) :
    ∃ matrix, output.find? key = some (.tensor matrix) ∧
      (pairs = [] ∧ matrix = Tensor.full [0, size] 0.0 ∨
        ∃ joined, Tensor.concatenate (pairs.map ValuePresence.value) 0 = .ok joined ∧
          joined.reshape [-1, Word.signed size] = .ok matrix) := by
  unfold stackRows at stacked
  have replaced := find?_replaceEach_of_stable ?stable stacked listed
  case stable =>
    intro name field changed made again madeAgain
    have dense : ∃ matrix, changed = .tensor matrix := by
      split at made
      · split at made
        · cases made
          exact ⟨_, rfl⟩
        · cases made
      · cases made
        exact ⟨_, rfl⟩
      · simp only [Outcome.bind_eq_ok_iff, Outcome.pure_eq_ok_iff] at made
        obtain ⟨_joined, _concatenated, matrix, _cut, same⟩ := made
        exact ⟨matrix, same.symm⟩
      · cases made
    obtain ⟨matrix, isMatrix⟩ := dense
    subst isMatrix
    simp only at madeAgain
    split at madeAgain
    · cases madeAgain
      rfl
    · cases madeAgain
  obtain ⟨field, changed, found, made, stored⟩ := replaced
  cases found.symm.trans held
  cases pairs with
  | nil =>
      cases made
      exact ⟨_, stored, .inl ⟨rfl, rfl⟩⟩
  | cons pair pairs =>
      simp only [Outcome.bind_eq_ok_iff, Outcome.liftShape_eq_ok_iff,
        Outcome.pure_eq_ok_iff] at made
      obtain ⟨joined, concatenated, matrix, cut, same⟩ := made
      exact ⟨matrix, same ▸ stored, .inr ⟨joined, concatenated, cut⟩⟩

/-- Stacking puts the elements of the values of all pairs one after the other into the rows. The
pairs are kept apart exactly if each single value fills whole rows, and all of them together are
as few as a word counts; that the total comes out even is not enough. -/
theorem rows_apart_iff (word : size < Word.modulus)
    (held : record.find? key = some (.valuePresenceList pairs)) (listed : key ∈ keys)
    (stacked : record.stackRows keys size = .ok output) :
    ∃ matrix, output.find? key = some (.tensor matrix) ∧
      matrix.data.toList = (elements (pairs.map ValuePresence.value)).take
        (Word.wrap (totalSize (pairs.map ValuePresence.value))) ∧
      ((∃ heights, matrix.StackedFrom (pairs.map ValuePresence.value) size heights) ↔
        (∀ pair ∈ pairs, size ∣ pair.value.size) ∧
          totalSize (pairs.map ValuePresence.value) < Word.modulus) := by
  obtain ⟨matrix, found, ⟨empty, none⟩ | ⟨joined, concatenated, cut⟩⟩ :=
    find?_stackRows held listed stacked
  · subst empty none
    have shape : (Tensor.full [0, size] 0.0).shape = [0, size] :=
      congrArg (fun width => [0, width]) (Word.wrap_of_lt word)
    have apart : (Tensor.full [0, size] 0.0).StackedFrom [] size [] :=
      ⟨.nil, shape, fun _index _part _height _row _column absent => nomatch absent⟩
    have nothing : (Tensor.full [0, size] 0.0).data.toList = [] := by
      rw [← List.length_eq_zero_iff, Array.length_toList, Tensor.data_size, shape,
        Shape.elementCount, Shape.volume, Nat.zero_mul]
      rfl
    have fits : totalSize [] < Word.modulus := by decide
    exact ⟨_, found, nothing, iff_of_true ⟨[], apart⟩ ⟨List.forall_mem_nil _, fits⟩⟩
  · obtain ⟨positive, rows, filled, shape, sameData⟩ := Tensor.reshape_rows word cut
    have data := Tensor.data_concatenate_first concatenated
    rw [Tensor.size_concatenate_first concatenated] at filled
    rw [← sameData] at data
    have apart := Tensor.exists_stackedFrom_iff positive shape filled data
    rw [List.forall_mem_map] at apart
    exact ⟨matrix, found, data, apart⟩

/-- Two elements fill one row and four fill two. -/
theorem rows_apart_iff_even :
    ∃ pairs output matrix,
      pairs = [ValuePresence.mk (.numbered [2] 5) (.full [2] 1.0),
        ValuePresence.mk (.numbered [4] 7) (.full [4] 1.0)] ∧
      (Record.empty.set "a" (.valuePresenceList pairs)).stackRows ["a"] 2 = .ok output ∧
      output.find? "a" = some (.tensor matrix) ∧
      ∃ heights, matrix.StackedFrom (pairs.map ValuePresence.value) 2 heights := by
  have stacked : (Record.empty.set "a" (.valuePresenceList
      [ValuePresence.mk (.numbered [2] 5) (.full [2] 1.0),
        ValuePresence.mk (.numbered [4] 7) (.full [4] 1.0)])).stackRows ["a"] 2 =
      .ok (_ : Record) := rfl
  obtain ⟨matrix, found, _data, apart⟩ :=
    rows_apart_iff (by decide) (find?_set ..) (List.mem_singleton_self "a") stacked
  exact ⟨_, _, matrix, rfl, stacked, found, apart.mpr ⟨by decide, by decide⟩⟩

/-- Three elements and one are cut to two rows of two, and the second row holds the last element
of the first pair beside the only one of the second. -/
theorem row_of_two_pairs :
    ∃ pairs output matrix,
      pairs = [ValuePresence.mk (.numbered [3] 1) (.full [3] 1.0),
        ValuePresence.mk (.numbered [1] 9) (.full [1] 1.0)] ∧
      (Record.empty.set "a" (.valuePresenceList pairs)).stackRows ["a"] 2 = .ok output ∧
      output.find? "a" = some (.tensor matrix) ∧ matrix.shape = [2, 2] ∧
      matrix.element [1, 0] = (Tensor.numbered [3] 1).element [2] ∧
      matrix.element [1, 1] = (Tensor.numbered [1] 9).element [0] ∧
      ¬ ∃ heights, matrix.StackedFrom (pairs.map ValuePresence.value) 2 heights := by
  refine ⟨_, _, _, rfl, rfl, rfl, rfl, rfl, rfl, ?_⟩
  intro ⟨heights, stacked⟩
  cases stacked.fills with
  | @cons _part height _parts _heights filled _rest =>
      change 3 = height * 2 at filled
      omega

end Record

end Featurize
