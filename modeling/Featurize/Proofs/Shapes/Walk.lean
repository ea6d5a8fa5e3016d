import Featurize.Proofs.Shapes.Volume
import Featurize.Proofs.Tensors.Elements
import Featurize.Tensor.Replicate
import Mathlib.Data.Nat.ModEq
import Mathlib.Logic.Function.Iterate

/-!
The row-major walk. One step moves a multi-index to the one stored next, and from the last one
back to the first, so the walk from the origin visits the multi-indices of a shape in row-major
order, each of them once in every round. A tensor that is read along the walk of a shape has, under
every multi-index whose position it stores, the element that was read for this index.
-/

namespace Featurize

namespace Shape

variable {shape : Shape} {index : List Nat}

theorem volume_cons (size : Nat) (sizes : Shape) :
    volume (size :: sizes) = size * volume sizes := rfl

theorem within_cons {size coordinate : Nat} {sizes : Shape} {coordinates : List Nat} :
    Within (size :: sizes) (coordinate :: coordinates) ↔
      coordinate < size ∧ Within sizes coordinates := Iff.rfl

theorem position_cons (size coordinate : Nat) (sizes : Shape) (coordinates : List Nat) :
    position (size :: sizes) (coordinate :: coordinates) =
      coordinate * volume sizes + position sizes coordinates := rfl

theorem length_of_within (within : shape.Within index) : index.length = shape.length := by
  induction shape generalizing index with
  | nil =>
      cases index with
      | nil => rfl
      | cons coordinate coordinates => exact within.elim
  | cons size sizes ih =>
      cases index with
      | nil => exact within.elim
      | cons coordinate coordinates => exact congrArg Nat.succ (ih within.2)

theorem within_origin (filled : 0 < shape.volume) : shape.Within shape.origin := by
  induction shape with
  | nil => trivial
  | cons size sizes ih =>
      rw [volume_cons] at filled
      exact within_cons.mpr
        ⟨Nat.pos_of_mul_pos_right filled, ih (Nat.pos_of_mul_pos_left filled)⟩

theorem position_origin (shape : Shape) : shape.position shape.origin = 0 := by
  induction shape with
  | nil => rfl
  | cons size sizes ih =>
      change position (size :: sizes) (0 :: origin sizes) = 0
      rw [position_cons, ih, Nat.zero_mul]

theorem position_injective {left right : List Nat} (leftWithin : shape.Within left)
    (rightWithin : shape.Within right) (same : shape.position left = shape.position right) :
    left = right := by
  induction shape generalizing left right with
  | nil =>
      rw [List.length_eq_zero_iff.mp (length_of_within leftWithin),
        List.length_eq_zero_iff.mp (length_of_within rightWithin)]
  | cons size sizes ih =>
      cases left with
      | nil => exact leftWithin.elim
      | cons leftHead leftTail =>
          cases right with
          | nil => exact rightWithin.elim
          | cons rightHead rightTail =>
              have leftBelow := position_lt_volume leftWithin.2
              have rightBelow := position_lt_volume rightWithin.2
              have filled : 0 < volume sizes := by omega
              rw [position_cons, position_cons, Nat.mul_comm leftHead,
                Nat.mul_comm rightHead] at same
              have heads := congrArg (· / volume sizes) same
              have tails := congrArg (· % volume sizes) same
              simp only [Nat.mul_add_div filled, Nat.div_eq_of_lt leftBelow,
                Nat.div_eq_of_lt rightBelow, Nat.add_zero] at heads
              simp only [Nat.mul_add_mod, Nat.mod_eq_of_lt leftBelow,
                Nat.mod_eq_of_lt rightBelow] at tails
              rw [heads, ih leftWithin.2 rightWithin.2 tails]

/-- A multi-index is stored before another one if it is smaller in the first coordinate in which
the two differ. -/
theorem position_lt_iff_lex {left right : List Nat} (leftWithin : shape.Within left)
    (rightWithin : shape.Within right) :
    shape.position left < shape.position right ↔ List.Lex (· < ·) left right := by
  induction shape generalizing left right with
  | nil =>
      rw [List.length_eq_zero_iff.mp (length_of_within leftWithin),
        List.length_eq_zero_iff.mp (length_of_within rightWithin)]
      exact iff_of_false (Nat.lt_irrefl _) List.not_lex_nil
  | cons size sizes ih =>
      cases left with
      | nil => exact leftWithin.elim
      | cons leftHead leftTail =>
          cases right with
          | nil => exact rightWithin.elim
          | cons rightHead rightTail =>
              have leftBelow := position_lt_volume leftWithin.2
              have rightBelow := position_lt_volume rightWithin.2
              rw [List.cons_lex_cons_iff, ← ih leftWithin.2 rightWithin.2, position_cons,
                position_cons]
              rcases Nat.lt_trichotomy leftHead rightHead with before | same | behind
              · have block := Nat.mul_le_mul_right (volume sizes) before
                rw [Nat.succ_mul] at block
                exact iff_of_true (by omega) (Or.inl before)
              · subst same
                simp only [Nat.add_lt_add_iff_left, Nat.lt_irrefl, false_or, true_and]
              · have block := Nat.mul_le_mul_right (volume sizes) behind
                rw [Nat.succ_mul] at block
                exact iff_of_false (by omega) (by omega)

theorem dot_strides (shape : Shape) (index : List Nat) :
    dot index shape.strides ≡ shape.position index [MOD Word.modulus] := by
  induction shape generalizing index with
  | nil => cases index <;> rfl
  | cons size sizes ih =>
      cases index with
      | nil => rfl
      | cons coordinate coordinates =>
          rw [position_cons]
          exact ((Nat.mod_modEq _ _).mul_left coordinate).add (ih coordinates)

theorem dot_strides_of_fits (fits : shape.FitsWord) (within : shape.Within index) :
    dot index shape.strides = shape.position index := by
  induction shape generalizing index with
  | nil =>
      rw [List.length_eq_zero_iff.mp (length_of_within within)]
      rfl
  | cons size sizes ih =>
      cases index with
      | nil => exact within.elim
      | cons coordinate coordinates =>
          obtain ⟨inside, rest⟩ := within_cons.mp within
          have behind : FitsWord sizes :=
            Nat.lt_of_le_of_lt (Nat.le_mul_of_pos_left _ (Nat.zero_lt_of_lt inside)) fits
          change coordinate * elementCount sizes + dot coordinates (strides sizes) = _
          rw [elementCount_of_lt behind, ih behind rest, position_cons]

/-! ### Indices in two parts -/

section Parts

variable {outer inner : Shape} {lead rest : List Nat}

theorem position_append (aligned : lead.length = outer.length) :
    position (outer ++ inner) (lead ++ rest) =
      outer.position lead * inner.volume + inner.position rest := by
  induction outer generalizing lead with
  | nil =>
      rw [List.length_eq_zero_iff.mp aligned]
      change inner.position rest = 0 * inner.volume + inner.position rest
      rw [Nat.zero_mul, Nat.zero_add]
  | cons size sizes ih =>
      cases lead with
      | nil => cases aligned
      | cons coordinate coordinates =>
          rw [List.cons_append, List.cons_append, position_cons, position_cons,
            ih (Nat.succ.inj aligned), volume_append, Nat.add_mul, Nat.mul_assoc, Nat.add_assoc]

theorem within_append_iff (aligned : lead.length = outer.length) :
    Within (outer ++ inner) (lead ++ rest) ↔ outer.Within lead ∧ inner.Within rest := by
  induction outer generalizing lead with
  | nil =>
      rw [List.length_eq_zero_iff.mp aligned]
      exact (and_iff_right trivial).symm
  | cons size sizes ih =>
      cases lead with
      | nil => cases aligned
      | cons coordinate coordinates =>
          rw [List.cons_append, List.cons_append, within_cons, within_cons,
            ih (Nat.succ.inj aligned), and_assoc]

theorem exists_append_of_within {index : List Nat} (within : Within (outer ++ inner) index) :
    ∃ lead rest, index = lead ++ rest ∧ outer.Within lead ∧ inner.Within rest := by
  have aligned := length_of_within within
  rw [List.length_append] at aligned
  have leads : (index.take outer.length).length = outer.length := by
    rw [List.length_take]
    omega
  rw [← List.take_append_drop outer.length index] at within
  exact ⟨_, _, (List.take_append_drop outer.length index).symm,
    (within_append_iff leads).mp within⟩

theorem unpad {shape : Shape} {rank : Nat} {index : List Nat}
    (within : (shape.leftPad rank).Within index) :
    shape.Within (index.drop (rank - shape.length)) ∧
      (shape.leftPad rank).position index =
        shape.position (index.drop (rank - shape.length)) := by
  obtain ⟨lead, rest, split, leadWithin, restWithin⟩ := exists_append_of_within within
  have counted := length_of_within leadWithin
  have first := position_lt_volume leadWithin
  rw [volume_replicate_one] at first
  have dropped : index.drop (rank - shape.length) = rest := by
    rw [split]
    exact List.drop_left' (counted.trans List.length_replicate)
  rw [dropped, split, leftPad, position_append counted, Nat.lt_one_iff.mp first, Nat.zero_mul,
    Nat.zero_add]
  exact ⟨restWithin, rfl⟩

end Parts

/-! ### One step -/

theorem advance_cons (size coordinate : Nat) (sizes : Shape) (coordinates : List Nat) :
    advance (size :: sizes) (coordinate :: coordinates) =
      match advance sizes coordinates with
      | (moved, true) =>
          if coordinate + 1 < size then ((coordinate + 1) :: moved, false)
          else (0 :: moved, true)
      | (moved, false) => (coordinate :: moved, false) := rfl

/-- A step either reaches the next position, or carries out of the first axis after the last
one and is back at the origin. -/
theorem advance_cases (within : shape.Within index) :
    (∃ moved, shape.advance index = (moved, false) ∧ shape.Within moved ∧
      shape.position moved = shape.position index + 1) ∨
    (shape.advance index = (shape.origin, true) ∧
      shape.position index + 1 = shape.volume) := by
  induction shape generalizing index with
  | nil =>
      rw [List.length_eq_zero_iff.mp (length_of_within within)]
      exact Or.inr ⟨rfl, rfl⟩
  | cons size sizes ih =>
      cases index with
      | nil => exact within.elim
      | cons coordinate coordinates =>
          obtain ⟨inside, rest⟩ := within_cons.mp within
          rw [advance_cons]
          rcases ih rest with ⟨moved, step, movedWithin, next⟩ | ⟨step, last⟩
          · rw [step]
            refine Or.inl ⟨coordinate :: moved, rfl, ⟨inside, movedWithin⟩, ?_⟩
            rw [position_cons, position_cons, next, Nat.add_assoc]
          · rw [step]
            have filled : 0 < volume sizes := by omega
            by_cases more : coordinate + 1 < size
            · refine Or.inl ⟨(coordinate + 1) :: origin sizes, if_pos more,
                ⟨more, within_origin filled⟩, ?_⟩
              rw [position_cons, position_cons, position_origin, Nat.succ_mul]
              omega
            · refine Or.inr ⟨if_neg more, ?_⟩
              have full : size = coordinate + 1 := by omega
              rw [position_cons, volume_cons, full, Nat.succ_mul]
              omega

theorem next_cycles (within : shape.Within index) :
    shape.Within (shape.next index) ∧
      shape.position (shape.next index) = (shape.position index + 1) % shape.volume := by
  unfold next
  rcases advance_cases within with ⟨moved, step, movedWithin, position⟩ | ⟨step, last⟩
  · rw [step, ← position]
    exact ⟨movedWithin, (Nat.mod_eq_of_lt (position_lt_volume movedWithin)).symm⟩
  · rw [step, last, Nat.mod_self]
    exact ⟨within_origin (by omega), position_origin shape⟩

/-! ### The walk -/

theorem iterate_next_cycles (within : shape.Within index) (steps : Nat) :
    shape.Within (shape.next^[steps] index) ∧
      shape.position (shape.next^[steps] index) =
        (shape.position index + steps) % shape.volume := by
  induction steps with
  | zero => exact ⟨within, (Nat.mod_eq_of_lt (position_lt_volume within)).symm⟩
  | succ steps ih =>
      obtain ⟨inside, reached⟩ := ih
      obtain ⟨nextInside, next⟩ := next_cycles inside
      rw [Function.iterate_succ_apply']
      refine ⟨nextInside, ?_⟩
      rw [next, reached, Nat.mod_add_mod, Nat.add_assoc]

/-- An index further on is reached by as many steps as its position is ahead. -/
theorem iterate_next_eq {found : List Nat} (within : shape.Within index)
    (foundWithin : shape.Within found) (behind : shape.position index ≤ shape.position found) :
    shape.next^[shape.position found - shape.position index] index = found := by
  obtain ⟨inside, reached⟩ :=
    iterate_next_cycles within (shape.position found - shape.position index)
  rw [Nat.add_sub_cancel' behind, Nat.mod_eq_of_lt (position_lt_volume foundWithin)] at reached
  exact position_injective inside foundWithin reached

theorem iterate_next_origin {steps : Nat} (below : steps < shape.volume) :
    shape.Within (shape.next^[steps] shape.origin) ∧
      shape.position (shape.next^[steps] shape.origin) = steps := by
  have cycles := iterate_next_cycles (within_origin (Nat.zero_lt_of_lt below)) steps
  rw [position_origin, Nat.zero_add, Nat.mod_eq_of_lt below] at cycles
  exact cycles

theorem exists_index {position : Nat} (below : position < shape.volume) :
    ∃ index, shape.Within index ∧ shape.position index = position :=
  ⟨shape.next^[position] shape.origin, iterate_next_origin below⟩

theorem existsUnique_steps (within : shape.Within index) :
    ∃! steps, steps < shape.volume ∧ shape.next^[steps] shape.origin = index := by
  have below := position_lt_volume within
  obtain ⟨inside, reached⟩ := iterate_next_origin below
  refine ⟨shape.position index, ⟨below, position_injective inside within reached⟩, ?_⟩
  rintro steps ⟨stepsBelow, same⟩
  rw [← same, (iterate_next_origin stepsBelow).2]

theorem iterate_next_volume (filled : 0 < shape.volume) :
    shape.next^[shape.volume] shape.origin = shape.origin := by
  obtain ⟨inside, back⟩ := iterate_next_cycles (within_origin filled) shape.volume
  rw [Nat.add_mod_right, Nat.mod_eq_of_lt (position_lt_volume (within_origin filled))] at back
  exact position_injective inside (within_origin filled) back

/-- The walk from the origin is the row-major enumeration of a shape that has positions and fits a
word. After so many steps it stands at a multi-index to which the strides lead by exactly this
number; each multi-index is reached by one number of steps below the volume; a later one differs
from an earlier one first in a larger coordinate; and the whole round ends at the origin. -/
theorem walk_enumerates_row_major (filled : 0 < shape.volume) (fits : shape.FitsWord) :
    (∀ steps < shape.volume,
      shape.Within (shape.next^[steps] shape.origin) ∧
        dot (shape.next^[steps] shape.origin) shape.strides = steps) ∧
    (∀ index, shape.Within index →
      ∃! steps, steps < shape.volume ∧ shape.next^[steps] shape.origin = index) ∧
    (∀ earlier later, earlier < later → later < shape.volume →
      List.Lex (· < ·) (shape.next^[earlier] shape.origin) (shape.next^[later] shape.origin)) ∧
    shape.next^[shape.volume] shape.origin = shape.origin := by
  refine ⟨fun steps below => ?_, fun index within => existsUnique_steps within,
    fun earlier later before below => ?_, iterate_next_volume filled⟩
  · obtain ⟨inside, reached⟩ := iterate_next_origin below
    exact ⟨inside, (dot_strides_of_fits fits inside).trans reached⟩
  · obtain ⟨inside, reached⟩ := iterate_next_origin (Nat.lt_trans before below)
    obtain ⟨laterInside, laterReached⟩ := iterate_next_origin below
    rw [← position_lt_iff_lex inside laterInside, reached, laterReached]
    exact before

/-- In two blocks of one row of three, the third step carries through the axis of size one, the
last index is reached by one number of steps, and the sixth step is back at the origin. -/
theorem walk_enumerates_row_major_unit_axis :
    0 < volume [2, 1, 3] ∧ FitsWord [2, 1, 3] ∧
      (next [2, 1, 3])^[3] (origin [2, 1, 3]) = [1, 0, 0] ∧
      dot [1, 0, 0] (strides [2, 1, 3]) = 3 ∧
      List.Lex (· < ·) [0, 0, 2] [1, 0, 0] ∧
      (∃! steps, steps < 6 ∧ (next [2, 1, 3])^[steps] (origin [2, 1, 3]) = [1, 0, 2]) ∧
      (next [2, 1, 3])^[6] (origin [2, 1, 3]) = [0, 0, 0] := by
  have filled : 0 < volume [2, 1, 3] := by decide
  have fits : FitsWord [2, 1, 3] := by decide
  obtain ⟨inside, visits, rises, closes⟩ := walk_enumerates_row_major filled fits
  have carried : (next [2, 1, 3])^[3] (origin [2, 1, 3]) = [1, 0, 0] := by decide
  have strides := (inside 3 (by decide)).2
  rw [carried] at strides
  exact ⟨filled, fits, carried, strides, rises 2 3 (by decide) (by decide),
    visits [1, 0, 2] ⟨by decide, by decide, by decide, trivial⟩, closes⟩

end Shape

/-! ### Reading along the walk -/

namespace Tensor

variable {tensor : Tensor} {shape : Shape} {source : List Nat → Nat}

theorem getElem?_readAlong_of_lt {count : Nat} {index : List Nat} {read : Array Double}
    {position : Nat} (before : position < read.size) :
    (tensor.readAlong shape source count index read)[position]? = read[position]? := by
  induction count generalizing index read with
  | zero => rfl
  | succ count ih =>
      rw [readAlong, ih (by rw [Array.size_push]; omega), Array.getElem?_push_lt before,
        Array.getElem?_eq_getElem before]

/-- Each turn reads for the index at which the walk stands. -/
theorem getElem?_readAlong_iterate {count steps : Nat} {index : List Nat} {read : Array Double}
    (turn : steps < count) :
    (tensor.readAlong shape source count index read)[read.size + steps]? =
      some (tensor.get (Word.wrap (source (shape.next^[steps] index)))) := by
  induction count generalizing steps index read with
  | zero => omega
  | succ count ih =>
      rw [readAlong]
      cases steps with
      | zero =>
          rw [Nat.add_zero, getElem?_readAlong_of_lt (by rw [Array.size_push]; omega),
            Array.getElem?_push_size]
          rfl
      | succ steps =>
          have rest := @ih steps (shape.next index)
            (read.push (tensor.get (Word.wrap (source index)))) (by omega)
          rw [Array.size_push, Nat.add_right_comm] at rest
          rw [Function.iterate_succ_apply, ← rest, Nat.add_assoc]

theorem getElem?_readAlong {count : Nat} {index found : List Nat} {read : Array Double}
    (within : shape.Within index) (foundWithin : shape.Within found)
    (behind : shape.position index ≤ shape.position found)
    (reached : shape.position found < shape.position index + count) :
    (tensor.readAlong shape source count index read)[
        read.size + (shape.position found - shape.position index)]? =
      some (tensor.get (Word.wrap (source found))) := by
  have turn : shape.position found - shape.position index < count := by omega
  rw [getElem?_readAlong_iterate turn, Shape.iterate_next_eq within foundWithin behind]

theorem shape_gather (small : ∀ size ∈ shape, size < Word.modulus) :
    (tensor.gather shape source).shape = shape :=
  Shape.words_of_lt small

theorem data_gather (small : ∀ size ∈ shape, size < Word.modulus) :
    (tensor.gather shape source).data =
      tensor.readAlong shape source shape.elementCount shape.origin #[] := by
  change tensor.readAlong shape.words source shape.words.elementCount shape.words.origin #[] = _
  rw [Shape.words_of_lt small]

theorem element_gather (small : ∀ size ∈ shape, size < Word.modulus) {index : List Nat}
    (within : shape.Within index)
    (stored : shape.position index < (tensor.gather shape source).size) :
    (tensor.gather shape source).element index =
      tensor.get (Word.wrap (source index)) := by
  rw [size_eq, shape_gather small] at stored
  have filled : 0 < shape.volume :=
    Nat.lt_of_le_of_lt (Nat.zero_le _) (Shape.position_lt_volume within)
  have read := @getElem?_readAlong tensor shape source shape.elementCount shape.origin index #[]
    (Shape.within_origin filled) within (by rw [Shape.position_origin]; omega)
    (by rw [Shape.position_origin]; omega)
  rw [Shape.position_origin, Nat.sub_zero, Array.size_empty, Nat.zero_add] at read
  unfold element
  rw [shape_gather small, get, data_gather small, read, Option.getD_some]

end Tensor

end Featurize
