import Featurize.Proofs.Tensors.Alignment
import Featurize.Proofs.Tensors.Exactness

/-!
Joining along an axis. Tensors can be joined exactly if the number names an axis of the first one
and all have its rank and its sizes on the other axes. Blocks of elements are moved, and a block
ends where the axis is over, so the joined tensor has the slices of all tensors, one tensor after
the other, as long as its sizes multiply to a word.
-/

namespace Featurize

namespace Tensor

variable {part joined first : Tensor} {parts before after : List Tensor} {outer inner : Shape}

/-! ### Blocks -/

theorem blockSize_of_shape {size : Nat} (shaped : part.shape = outer ++ size :: inner) :
    part.blockSize outer.length = Word.wrap (size * inner.volume) := by
  unfold blockSize
  rw [shaped, List.drop_left]
  rfl

theorem lineSize_of_shape
    (shaped : ∀ part ∈ parts, part.shape = outer ++ part.sizeAt outer.length :: inner)
    (small : totalAt outer.length parts * inner.volume < Word.modulus) :
    lineSize outer.length parts = totalAt outer.length parts * inner.volume := by
  induction parts with
  | nil => exact (Nat.zero_mul _).symm
  | cons part parts ih =>
      obtain ⟨head, tail⟩ := List.forall_mem_cons.mp shaped
      rw [totalAt, Nat.add_mul] at small
      rw [lineSize, totalAt, Nat.add_mul, blockSize_of_shape head, Word.wrap_of_lt (by omega),
        ih tail (by omega)]

theorem totalAt_append (axis : Nat) (before after : List Tensor) :
    totalAt axis (before ++ after) = totalAt axis before + totalAt axis after := by
  induction before with
  | nil => exact (Nat.zero_add _).symm
  | cons part before ih => rw [List.cons_append, totalAt, totalAt, ih, Nat.add_assoc]

theorem blockAt?_append {axis offset : Nat} (inside : offset < part.blockSize axis) :
    blockAt? axis (before ++ part :: after) (lineSize axis before + offset) =
      some (part, offset) := by
  induction before with
  | nil =>
      have start : lineSize axis [] + offset = offset := Nat.zero_add offset
      rw [start]
      exact if_pos inside
  | cons head before ih =>
      rw [List.cons_append, lineSize, blockAt?, Nat.add_assoc, if_neg (by omega),
        Nat.add_sub_cancel_left, ih]

theorem joinedElement_of_blockAt {axis line block offset within : Nat} (inside : offset < line)
    (found : blockAt? axis parts offset = some (part, within)) :
    joinedElement parts axis line (block * line + offset) =
      part.get (block * part.blockSize axis + within) := by
  have filled : 0 < line := Nat.lt_of_le_of_lt (Nat.zero_le _) inside
  unfold joinedElement
  rw [Nat.mul_comm, Nat.mul_add_mod, Nat.mod_eq_of_lt inside, found, Nat.mul_add_div filled,
    Nat.div_eq_of_lt inside, Nat.add_zero]

section Entry

variable {lead rest : List Nat} {entry : Nat}

theorem offset_lt {size : Nat} (inside : entry < size) (restWithin : inner.Within rest) :
    entry * inner.volume + inner.position rest < size * inner.volume :=
  Shape.entry_lt inside (Shape.position_lt_volume restWithin)

theorem position_around (size : Nat) (aligned : lead.length = outer.length) :
    Shape.position (outer ++ size :: inner) (lead ++ entry :: rest) =
      outer.position lead * (size * inner.volume) +
        (entry * inner.volume + inner.position rest) :=
  Shape.position_append aligned

theorem words_around {size : Nat} (shaped : part.shape = outer ++ part.sizeAt outer.length :: inner)
    (word : size < Word.modulus) :
    Shape.words (outer ++ size :: inner) = outer ++ size :: inner := by
  have words := part.sizes_lt
  rw [shaped] at words
  refine Shape.words_of_lt fun other member => ?_
  rcases List.mem_append.mp member with front | rest
  · exact words other (List.mem_append_left _ front)
  · rcases List.mem_cons.mp rest with same | back
    · exact same ▸ word
    · exact words other (List.mem_append_right _ (List.mem_cons_of_mem _ back))

/-- The joined element at an entry of the axis is the element of the tensor to which the entry
belongs, under the same coordinates on the other axes. -/
theorem element_joined
    (shaped : ∀ other ∈ before ++ part :: after,
      other.shape = outer ++ other.sizeAt outer.length :: inner)
    (small : outer.volume * (totalAt outer.length (before ++ part :: after) * inner.volume) <
      Word.modulus)
    (made : joined = tabulate
      (outer ++ Word.wrap (totalAt outer.length (before ++ part :: after)) :: inner)
      (joinedElement (before ++ part :: after) outer.length
        (lineSize outer.length (before ++ part :: after))))
    (leadWithin : outer.Within lead) (restWithin : inner.Within rest)
    (inside : entry < part.sizeAt outer.length) :
    joined.element (lead ++ (totalAt outer.length before + entry) :: rest) =
      part.element (lead ++ entry :: rest) := by
  have aligned := Shape.length_of_within leadWithin
  have partShape := shaped part (List.mem_append_right _ (List.mem_cons_self ..))
  have total := totalAt_append outer.length before (part :: after)
  rw [totalAt] at total
  have outerFilled : 0 < outer.volume :=
    Nat.lt_of_le_of_lt (Nat.zero_le _) (Shape.position_lt_volume leadWithin)
  have innerFilled : 0 < inner.volume :=
    Nat.lt_of_le_of_lt (Nat.zero_le _) (Shape.position_lt_volume restWithin)
  have lineSmall := Nat.lt_of_le_of_lt (Nat.le_mul_of_pos_left _ outerFilled) small
  have totalSmall := Nat.lt_of_le_of_lt (Nat.le_mul_of_pos_right _ innerFilled) lineSmall
  have shorter : ∀ size ≤ totalAt outer.length (before ++ part :: after),
      size * inner.volume < Word.modulus := fun size below =>
    Nat.lt_of_le_of_lt (Nat.mul_le_mul_right _ below) lineSmall
  have line := lineSize_of_shape shaped lineSmall
  have lineBefore := lineSize_of_shape
    (fun other member => shaped other (List.mem_append_left _ member)) (shorter _ (by omega))
  have block : part.blockSize outer.length = part.sizeAt outer.length * inner.volume := by
    rw [blockSize_of_shape partShape, Word.wrap_of_lt (shorter _ (by omega))]
  have sizes := words_around partShape totalSmall
  have found := @blockAt?_append part before after outer.length
    (entry * inner.volume + inner.position rest) (by rw [block]; exact offset_lt inside restWithin)
  rw [lineBefore, ← Nat.add_assoc, ← Nat.add_mul] at found
  have entryInside : totalAt outer.length before + entry <
      totalAt outer.length (before ++ part :: after) := by omega
  have within := (Shape.within_append_iff aligned).mpr
    ⟨leadWithin, Shape.within_cons.mpr ⟨entryInside, restWithin⟩⟩
  have stored : Shape.position (outer ++ totalAt outer.length (before ++ part :: after) :: inner)
      (lead ++ (totalAt outer.length before + entry) :: rest) <
        Shape.elementCount (outer ++ totalAt outer.length (before ++ part :: after) :: inner) := by
    rw [Shape.elementCount_of_lt (by rw [Shape.volume_append]; exact small)]
    exact Shape.position_lt_volume within
  rw [Word.wrap_of_lt totalSmall] at made
  rw [element, element, made, shape_tabulate, sizes, get_tabulate, position_around _ aligned, line,
    joinedElement_of_blockAt (offset_lt entryInside restWithin) found, partShape,
    position_around _ aligned, block]
  rw [sizes]
  exact stored

end Entry

/-! ### Joining by number -/

section Number

variable {number : Int} {others : List Tensor} {lead rest : List Nat} {entry : Nat}

def totalAlong (number : Int) (tensors : List Tensor) : Nat :=
  (tensors.map (sizeAlong · number)).sum

def Beside (number : Int) (first tensor : Tensor) : Prop :=
  tensor.rank = first.rank ∧ tensor.across number = first.across number

/-- The joined tensor has the slices of the parts, one part after the other. They are found
under their entries as long as the sizes of the joined tensor multiply to a word. -/
structure JoinedAlong (number : Int) (parts : List Tensor) (joined : Tensor) : Prop where
  beside : ∀ part ∈ parts, Beside number joined part
  along : joined.sizeAlong number = Word.wrap (totalAlong number parts)
  slices : totalAlong number parts * (joined.across number).volume < Word.modulus →
    ∀ before part after, parts = before ++ part :: after →
    ∀ entry < part.sizeAlong number, ∀ index, (joined.across number).Within index →
    joined.slice number (totalAlong number before + entry) index = part.slice number entry index

theorem Beside.axisAt (beside : Beside number first part) :
    part.axisAt number = first.axisAt number := by
  rw [Tensor.axisAt, Tensor.axisAt, beside.1]

theorem Beside.totalAt (beside : ∀ part ∈ parts, Beside number first part) :
    totalAt (first.axisAt number) parts = totalAlong number parts := by
  induction parts with
  | nil => rfl
  | cons part parts ih =>
      obtain ⟨head, tail⟩ := List.forall_mem_cons.mp beside
      rw [Tensor.totalAt, ih tail, ← head.axisAt]
      rfl

theorem checkBeside_eq_ok_iff :
    checkBeside first.shape (first.axisAt number) part = .ok () ↔ Beside number first part := by
  have axes : first.rank = first.shape.length := rfl
  unfold checkBeside Beside across axisAt
  rw [← axes]
  by_cases ranked : part.rank = first.rank
  · rw [if_neg (not_not_intro ranked), ranked, and_iff_right rfl]
    by_cases aligned : part.shape.eraseIdx (Shape.place number first.rank) =
        first.shape.eraseIdx (Shape.place number first.rank)
    · rw [if_neg (not_not_intro aligned)]
      exact iff_of_true rfl aligned
    · rw [if_pos aligned]
      exact iff_of_false (fun succeeded => (nomatch succeeded)) aligned
  · rw [if_pos ranked]
    exact iff_of_false (fun succeeded => (nomatch succeeded)) (fun both => ranked both.1)

theorem concatenate_cons_eq_ok_iff :
    concatenate (first :: others) number = .ok joined ↔
      Shape.Names number first.rank ∧ (∀ part ∈ others, Beside number first part) ∧
        tabulate (first.shape.set (first.axisAt number)
            (Word.wrap (totalAlong number (first :: others))))
          (joinedElement (first :: others) (first.axisAt number)
            (lineSize (first.axisAt number) (first :: others))) = joined := by
  unfold concatenate
  simp only [Outcome.bind_eq_ok_iff, Outcome.pure_eq_ok_iff, Shape.axis_eq_ok_iff]
  constructor
  · rintro ⟨axis, ⟨named, rfl⟩, _checked, passed, made⟩
    have beside := fun part member =>
      checkBeside_eq_ok_iff.mp (Collection.forM_eq_ok_iff.mp passed part member)
    refine ⟨named, fun part member => beside part (List.mem_cons_of_mem _ member), ?_⟩
    rw [← Beside.totalAt beside]
    exact made
  · rintro ⟨named, beside, made⟩
    have all : ∀ part ∈ first :: others, Beside number first part :=
      List.forall_mem_cons.mpr ⟨⟨rfl, rfl⟩, beside⟩
    refine ⟨_, ⟨named, rfl⟩, (), Collection.forM_eq_ok_iff.mpr fun part member =>
      checkBeside_eq_ok_iff.mpr (all part member), ?_⟩
    rw [← Beside.totalAt all] at made
    exact made

theorem exists_around (named : Shape.Names number first.rank) :
    ∃ outer inner, first.across number = outer ++ inner ∧ outer.length = first.axisAt number := by
  have inside : first.axisAt number < first.rank := Shape.place_lt named
  have removed := length_across named
  refine ⟨(first.across number).take (first.axisAt number),
    (first.across number).drop (first.axisAt number), (List.take_append_drop _ _).symm, ?_⟩
  rw [List.length_take]
  omega

theorem shape_around (named : Shape.Names number part.rank)
    (around : part.across number = outer ++ inner) (aligned : outer.length = part.axisAt number) :
    part.shape = outer ++ part.sizeAlong number :: inner := by
  rw [← insertIdx_across named, around, ← aligned]
  exact Shape.insertIdx_append_right outer inner 0 (part.sizeAlong number)

theorem slice_around (aligned : lead.length = part.axisAt number) :
    part.slice number entry (lead ++ rest) = part.element (lead ++ entry :: rest) := by
  rw [slice, ← aligned]
  exact congrArg part.element (Shape.insertIdx_append_right lead rest 0 entry)

theorem shape_concatenate (made : concatenate (first :: others) number = .ok joined) :
    joined.shape = (first.across number).insertIdx (first.axisAt number)
      (Word.wrap (totalAlong number (first :: others))) := by
  obtain ⟨named, _beside, rfl⟩ := concatenate_cons_eq_ok_iff.mp made
  have inside : first.axisAt number < first.shape.length := Shape.place_lt named
  rw [shape_tabulate, across, List.insertIdx_eraseIdx_self (Nat.ne_of_lt inside)]
  apply Shape.words_of_lt
  intro size member
  rcases List.mem_or_eq_of_mem_set member with old | new
  · exact first.sizes_lt size old
  · exact new ▸ Word.wrap_lt _

theorem joinedAlong_of_concatenate (made : concatenate (first :: others) number = .ok joined) :
    JoinedAlong number (first :: others) joined := by
  obtain ⟨named, beside, tabulated⟩ := concatenate_cons_eq_ok_iff.mp made
  have all : ∀ part ∈ first :: others, Beside number first part :=
    List.forall_mem_cons.mpr ⟨⟨rfl, rfl⟩, beside⟩
  have removed := length_across named
  have shaped := shape_concatenate made
  rw [axisAt, ← removed] at shaped
  obtain ⟨ranked, aligned, along⟩ := aligned_of_shape (removed.symm ▸ named) shaped
  have rank : joined.rank = first.rank := ranked.trans removed
  refine ⟨fun part member => ⟨(all part member).1.trans rank.symm,
    (all part member).2.trans aligned.symm⟩, along, ?_⟩
  rw [aligned]
  intro small before part after split entry inside index within
  obtain ⟨outer, inner, around, axis⟩ := exists_around named
  rw [around] at small within
  obtain ⟨lead, rest, rfl, leadWithin, restWithin⟩ := Shape.exists_append_of_within within
  have leads := Shape.length_of_within leadWithin
  have joinedAxis : joined.axisAt number = first.axisAt number := by rw [axisAt, rank, axisAt]
  have besidePart := all part (split ▸ List.mem_append_right _ (List.mem_cons_self ..))
  have shapes : ∀ other ∈ first :: others,
      other.shape = outer ++ other.sizeAt outer.length :: inner := by
    intro other member
    have otherBeside := all other member
    have shape := @shape_around other outer inner number (otherBeside.1 ▸ named)
      (otherBeside.2.trans around) (axis.trans otherBeside.axisAt.symm)
    rwa [sizeAlong, otherBeside.axisAt, ← axis] at shape
  have totalBefore : totalAlong number before = totalAt outer.length before := by
    rw [axis, Beside.totalAt fun other member =>
      all other (split ▸ List.mem_append_left _ member)]
  have total : totalAlong number (first :: others) = totalAt outer.length (first :: others) := by
    rw [axis, Beside.totalAt all]
  have firstShape := shapes first (List.mem_cons_self ..)
  rw [slice_around (leads.trans (axis.trans joinedAxis.symm)),
    slice_around (leads.trans (axis.trans besidePart.axisAt.symm)), totalBefore]
  rw [sizeAlong, besidePart.axisAt, ← axis] at inside
  rw [total, ← axis, firstShape, List.set_append_right _ _ (Nat.le_refl _), Nat.sub_self,
    List.set_cons_zero] at tabulated
  rw [split] at tabulated shapes total
  refine element_joined shapes ?_ tabulated.symm leadWithin restWithin inside
  rw [← total, ← split, Nat.mul_left_comm, ← Shape.volume_append]
  exact small

end Number

end Tensor

end Featurize
