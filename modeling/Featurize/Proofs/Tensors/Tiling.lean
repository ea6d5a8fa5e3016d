import Featurize.Proofs.Tensors.Expansion

/-!
Tiling. A tensor is repeated along every axis as often as the counts say; counts beyond its axes
repeat it along new leading axes. Under every multi-index of the tiled tensor stands the element
at the index modulo the padded shape. Tiling what was tiled multiplies the counts, and where only
axes of size one are repeated, tiling is expansion.
-/

namespace Featurize

namespace Shape

variable {shape sizes : Shape} {counts later index : List Nat}

def tiled (shape : Shape) (counts : List Nat) : Shape :=
  List.zipWith (· * ·) (shape.leftPad counts.length) counts

/-- Where a shape is read for a multi-index of a tiling: at the index modulo the padded shape,
without the zeros of the padding. -/
def tileIndex (shape : Shape) (index : List Nat) : List Nat :=
  (List.zipWith (· % ·) index (shape.leftPad index.length)).drop (index.length - shape.length)

def combinedCounts (counts later : List Nat) : List Nat :=
  List.zipWith (· * ·) later (leftPad counts later.length)

theorem drop_leftPad (shape : Shape) (rank : Nat) :
    (shape.leftPad rank).drop (rank - shape.length) = shape :=
  List.drop_left' List.length_replicate

theorem length_tiled (enough : shape.length ≤ counts.length) :
    (shape.tiled counts).length = counts.length := by
  rw [tiled, List.length_zipWith, length_leftPad enough, Nat.min_self]

theorem tileIndex_eq_zipWith (shape : Shape) (index : List Nat) :
    shape.tileIndex index =
      List.zipWith (· % ·) (index.drop (index.length - shape.length)) shape := by
  rw [tileIndex, List.drop_zipWith, drop_leftPad]

/-! ### Inside a tiling -/

theorem within_mod (aligned : sizes.length = counts.length)
    (within : Within (List.zipWith (· * ·) sizes counts) index) :
    sizes.Within (List.zipWith (· % ·) index sizes) := by
  induction sizes generalizing counts index with
  | nil => cases index <;> trivial
  | cons size sizes ih =>
      cases counts with
      | nil => cases aligned
      | cons count counts =>
          cases index with
          | nil => exact within.elim
          | cons coordinate coordinates =>
              obtain ⟨inside, rest⟩ := within_cons.mp within
              have filled : 0 < size := Nat.pos_of_mul_pos_right (Nat.zero_lt_of_lt inside)
              exact within_cons.mpr
                ⟨Nat.mod_lt coordinate filled, ih (Nat.succ.inj aligned) rest⟩

theorem within_tileIndex (enough : shape.length ≤ counts.length)
    (within : (shape.tiled counts).Within index) :
    shape.Within (shape.tileIndex index) ∧
      (shape.leftPad counts.length).position
          (List.zipWith (· % ·) index (shape.leftPad counts.length)) =
        shape.position (shape.tileIndex index) := by
  have aligned := length_of_within within
  rw [length_tiled enough] at aligned
  rw [tileIndex, aligned]
  exact unpad (within_mod (length_leftPad enough) within)

theorem volume_le_tiled (enough : shape.length ≤ counts.length)
    (within : (shape.tiled counts).Within index) :
    shape.volume ≤ (shape.tiled counts).volume := by
  have filled := Nat.zero_lt_of_lt (position_lt_volume within)
  rw [tiled, volume_zipWith (length_leftPad enough), leftPad, volume_append,
    volume_replicate_one, Nat.one_mul] at filled ⊢
  exact Nat.le_mul_of_pos_right _ (Nat.pos_of_mul_pos_left filled)

/-! ### Tiling twice -/

theorem leftPad_leftPad {rank total : Nat} (enough : shape.length ≤ rank) (more : rank ≤ total) :
    (shape.leftPad rank).leftPad total = shape.leftPad total := by
  have ones : total - rank + (rank - shape.length) = total - shape.length := by omega
  rw [leftPad, length_leftPad enough, leftPad, ← List.append_assoc,
    List.replicate_append_replicate, ones, leftPad]

theorem leftPad_zipWith_mul (aligned : sizes.length = counts.length) (total : Nat) :
    leftPad (List.zipWith (· * ·) sizes counts) total =
      List.zipWith (· * ·) (sizes.leftPad total) (leftPad counts total) := by
  have ones : List.zipWith (· * ·) (List.replicate (total - counts.length) 1)
      (List.replicate (total - counts.length) 1) = List.replicate (total - counts.length) 1 :=
    List.zipWith_replicate'
  rw [leftPad, leftPad, leftPad, List.length_zipWith, aligned, Nat.min_self,
    List.zipWith_append rfl, ones]

theorem zipWith_mul_assoc (sizes counts later : List Nat) :
    List.zipWith (· * ·) (List.zipWith (· * ·) sizes counts) later =
      List.zipWith (· * ·) sizes (List.zipWith (· * ·) later counts) := by
  induction sizes generalizing counts later with
  | nil => rfl
  | cons size sizes ih =>
      cases counts with
      | nil => cases later <;> rfl
      | cons count counts =>
          cases later with
          | nil => rfl
          | cons more later =>
              simp only [List.zipWith_cons_cons, ih, Nat.mul_assoc, Nat.mul_comm count]

theorem length_combinedCounts (longer : counts.length ≤ later.length) :
    (combinedCounts counts later).length = later.length := by
  rw [combinedCounts, List.length_zipWith, length_leftPad longer, Nat.min_self]

theorem tiled_tiled (enough : shape.length ≤ counts.length)
    (longer : counts.length ≤ later.length) :
    (shape.tiled counts).tiled later = shape.tiled (combinedCounts counts later) := by
  rw [tiled, tiled, leftPad_zipWith_mul (length_leftPad enough), leftPad_leftPad enough longer,
    zipWith_mul_assoc, tiled, length_combinedCounts longer, combinedCounts]

theorem zipWith_mod_mod (aligned : sizes.length = counts.length) (index : List Nat) :
    List.zipWith (· % ·) (List.zipWith (· % ·) index (List.zipWith (· * ·) sizes counts)) sizes =
      List.zipWith (· % ·) index sizes := by
  induction sizes generalizing counts index with
  | nil => cases index <;> rfl
  | cons size sizes ih =>
      cases counts with
      | nil => cases aligned
      | cons count counts =>
          cases index with
          | nil => rfl
          | cons coordinate coordinates =>
              simp only [List.zipWith_cons_cons, Nat.mod_mul_right_mod, ih (Nat.succ.inj aligned)]

/-- Reading through a tiling in between leads to the same place as reading at once. -/
theorem tileIndex_tileIndex (enough : shape.length ≤ counts.length)
    (longer : counts.length ≤ index.length) :
    shape.tileIndex ((shape.tiled counts).tileIndex index) = shape.tileIndex index := by
  have counted : ((shape.tiled counts).tileIndex index).length = counts.length := by
    rw [tileIndex_eq_zipWith, List.length_zipWith, List.length_drop, length_tiled enough]
    omega
  have dropped : index.length - counts.length + (counts.length - shape.length) =
      index.length - shape.length := by omega
  have behind : (shape.tiled counts).drop (counts.length - shape.length) =
      List.zipWith (· * ·) shape (counts.drop (counts.length - shape.length)) := by
    rw [tiled, List.drop_zipWith, drop_leftPad]
  have aligned : shape.length = (counts.drop (counts.length - shape.length)).length := by
    rw [List.length_drop]
    omega
  calc shape.tileIndex ((shape.tiled counts).tileIndex index)
      = List.zipWith (· % ·) (List.zipWith (· % ·) (index.drop (index.length - shape.length))
          (List.zipWith (· * ·) shape (counts.drop (counts.length - shape.length)))) shape := by
        rw [tileIndex_eq_zipWith, counted, tileIndex_eq_zipWith, List.drop_zipWith,
          List.drop_drop, length_tiled enough, dropped, behind]
    _ = shape.tileIndex index := by
        rw [zipWith_mod_mod aligned, tileIndex_eq_zipWith]

theorem words_zipWith_mul (sizes counts : List Nat) :
    words (List.zipWith (· * ·) sizes (words counts)) =
      words (List.zipWith (· * ·) sizes counts) := by
  unfold words
  rw [List.zipWith_map_right, List.map_zipWith, List.map_zipWith]
  congr 1
  funext size count
  exact Nat.mul_mod_mod size count Word.modulus

/-! ### Axes of size one -/

def RepeatsUnits (sizes : Shape) (counts : List Nat) : Prop :=
  List.Forall₂ (fun size count => count ≠ 1 → size = 1) sizes counts

instance : DecidableRel RepeatsUnits := fun sizes counts =>
  inferInstanceAs (Decidable (List.Forall₂ (fun size count => count ≠ 1 → size = 1) sizes counts))

theorem forall₂_fits_of_repeatsUnits (units : RepeatsUnits sizes counts) :
    List.Forall₂ Fits sizes (List.zipWith (· * ·) sizes counts) := by
  unfold RepeatsUnits at units
  induction units with
  | nil => exact .nil
  | @cons size count _sizes _counts unit _units ih =>
      refine .cons ?_ ih
      change Fits size (size * count)
      by_cases once : count = 1
      · rw [once, Nat.mul_one]
        exact Or.inl rfl
      · exact Or.inr (unit once)

theorem zipWith_mod_eq_pin (units : RepeatsUnits sizes counts)
    (within : Within (List.zipWith (· * ·) sizes counts) index) :
    List.zipWith (· % ·) index sizes = List.zipWith pin sizes index := by
  unfold RepeatsUnits at units
  induction units generalizing index with
  | nil => cases index <;> rfl
  | @cons size count _sizes _counts unit _units ih =>
      cases index with
      | nil => exact within.elim
      | cons coordinate coordinates =>
          obtain ⟨inside, rest⟩ := within_cons.mp within
          rw [List.zipWith_cons_cons, List.zipWith_cons_cons, ih rest]
          congr 1
          by_cases one : size = 1
          · rw [one, Nat.mod_one]
            rfl
          · have once : count = 1 := Decidable.byContradiction fun more => one (unit more)
            change coordinate < size * count at inside
            rw [once, Nat.mul_one] at inside
            rw [Nat.mod_eq_of_lt inside, pin_of_lt inside]

theorem stretchesTo_tiled (enough : shape.length ≤ counts.length)
    (units : RepeatsUnits (shape.leftPad counts.length) counts) :
    shape.StretchesTo (shape.tiled counts) := by
  have padded := length_leftPad enough
  have fits := forall₂_fits_of_repeatsUnits units
  exact ((leftPad_stretchesTo_iff enough).mp
    ((stretchesTo_iff_of_length_eq (padded.trans (length_tiled enough).symm)).mpr fits)).2

theorem tileIndex_eq_readIndex (enough : shape.length ≤ counts.length)
    (units : RepeatsUnits (shape.leftPad counts.length) counts)
    (within : (shape.tiled counts).Within index) :
    shape.tileIndex index = shape.readIndex index := by
  have aligned := length_of_within within
  rw [length_tiled enough] at aligned
  rw [tileIndex, aligned, zipWith_mod_eq_pin units within, List.drop_zipWith, drop_leftPad,
    readIndex, aligned]

end Shape

namespace Tensor

variable {tensor output : Tensor} {counts later index : List Nat}

theorem tile_eq_ok_iff :
    tensor.tile counts = .ok output ↔ tensor.rank ≤ counts.length ∧
      output = tensor.gather (tensor.shape.tiled counts) (fun index =>
        Shape.dot (List.zipWith (· % ·) index (tensor.shape.leftPad counts.length))
          (tensor.shape.leftPad counts.length).strides) := by
  unfold tile
  by_cases short : counts.length < tensor.rank
  · rw [if_pos short]
    exact iff_of_false nofun (fun both => absurd both.1 (Nat.not_le.mpr short))
  · rw [if_neg short, Except.ok.injEq, and_iff_right (Nat.not_lt.mp short)]
    exact eq_comm

theorem exists_tile_iff :
    (∃ output, tensor.tile counts = .ok output) ↔ tensor.rank ≤ counts.length := by
  simp only [tile_eq_ok_iff, exists_and_left, exists_eq, and_true]

theorem shape_tile (sizes : ∀ size ∈ tensor.shape.tiled counts, size < Word.modulus)
    (made : tensor.tile counts = .ok output) : output.shape = tensor.shape.tiled counts := by
  obtain ⟨_enough, same⟩ := tile_eq_ok_iff.mp made
  rw [same, shape_gather sizes]

theorem stores_tileIndex (enough : tensor.rank ≤ counts.length)
    (fits : (tensor.shape.tiled counts).FitsWord)
    (within : (tensor.shape.tiled counts).Within index) :
    tensor.Stores (tensor.shape.tileIndex index) := by
  have unwrapped : tensor.Exact :=
    exact_of_volume_lt (Nat.lt_of_le_of_lt (Shape.volume_le_tiled enough within) fits)
  exact unwrapped.stores (Shape.within_tileIndex enough within).1

theorem element_tile (sizes : ∀ size ∈ tensor.shape.tiled counts, size < Word.modulus)
    (fits : (tensor.shape.tiled counts).FitsWord) (made : tensor.tile counts = .ok output)
    (within : (tensor.shape.tiled counts).Within index) :
    output.element index = tensor.element (tensor.shape.tileIndex index) := by
  have shaped := shape_tile sizes made
  have unwrapped : output.Exact := exact_iff_fitsWord.mpr (shaped ▸ fits)
  have written := (unwrapped.stores (shaped ▸ within)).2
  obtain ⟨enough, same⟩ := tile_eq_ok_iff.mp made
  have stored := (stores_tileIndex enough fits within).2
  have below : tensor.size < Word.modulus := by
    rw [size_eq]
    exact Word.wrap_lt _
  have words := Shape.dot_strides (tensor.shape.leftPad counts.length)
    (List.zipWith (· % ·) index (tensor.shape.leftPad counts.length))
  rw [(Shape.within_tileIndex enough within).2] at words
  have wrapped : Word.wrap (Shape.dot _ _) = Word.wrap _ := words
  rw [shaped, same] at written
  rw [same, element_gather sizes within written, wrapped, Word.wrap_of_lt (by omega)]
  rfl

theorem gather_congr {shape other : Shape} {source : List Nat → Nat}
    (same : shape.words = other.words) :
    tensor.gather shape source = tensor.gather other source := by
  refine ext_of_fields same ?_
  change tensor.readAlong shape.words source shape.words.elementCount shape.words.origin #[] =
    tensor.readAlong other.words source other.words.elementCount other.words.origin #[]
  rw [same]

theorem tile_words (tensor : Tensor) (counts : List Nat) :
    tensor.tile (Shape.words counts) = tensor.tile counts := by
  have length : (Shape.words counts).length = counts.length := List.length_map Word.wrap
  have sizes := Shape.words_zipWith_mul (tensor.shape.leftPad counts.length) counts
  unfold tile
  simp only [length, gather_congr sizes]

/-- Tiling in two steps gives what the combined counts give. -/
theorem tile_tile {tiled : Tensor} (sizes : ∀ size ∈ tensor.shape.tiled counts, size < Word.modulus)
    (first : tensor.tile counts = .ok tiled) (longer : counts.length ≤ later.length)
    (laterSizes : ∀ size ∈ tiled.shape.tiled later, size < Word.modulus)
    (fits : (tiled.shape.tiled later).FitsWord) (second : tiled.tile later = .ok output) :
    tensor.tile (Shape.combinedCounts counts later) = .ok output := by
  have enough := exists_tile_iff.mp ⟨tiled, first⟩
  have shaped := shape_tile sizes first
  have ranked : tiled.shape.length = counts.length := by
    rw [shaped, Shape.length_tiled enough]
  have merged : tiled.shape.tiled later =
      tensor.shape.tiled (Shape.combinedCounts counts later) := by
    rw [shaped, Shape.tiled_tiled enough longer]
  obtain ⟨direct, made⟩ :
      ∃ direct, tensor.tile (Shape.combinedCounts counts later) = .ok direct := by
    rw [exists_tile_iff, Shape.length_combinedCounts longer]
    exact Nat.le_trans enough longer
  have directShape := shape_tile (merged ▸ laterSizes) made
  have unwrapped : direct.Exact := exact_iff_fitsWord.mpr (directShape ▸ merged ▸ fits)
  have same : direct = output := by
    refine ext_of_elements unwrapped
      (directShape.trans (merged.symm.trans (shape_tile laterSizes second).symm))
      fun index within => ?_
    rw [directShape] at within
    have laterWithin : (tiled.shape.tiled later).Within index := merged ▸ within
    have between := (Shape.within_tileIndex (ranked ▸ longer) laterWithin).1
    have betweenFits : (tensor.shape.tiled counts).FitsWord := by
      rw [← shaped]
      exact Nat.lt_of_le_of_lt (Shape.volume_le_tiled (ranked ▸ longer) laterWithin) fits
    have long : counts.length ≤ index.length := by
      rw [Shape.length_of_within laterWithin, Shape.length_tiled (ranked ▸ longer)]
      exact longer
    rw [shaped] at between
    rw [element_tile (merged ▸ laterSizes) (merged ▸ fits) made within,
      element_tile laterSizes fits second laterWithin, shaped,
      element_tile sizes betweenFits first between, Shape.tileIndex_tileIndex enough long]
  rw [made, same]

/-- Where only axes of size one are repeated, tiling is expansion. -/
theorem expand_of_tile (sizes : ∀ size ∈ tensor.shape.tiled counts, size < Word.modulus)
    (fits : (tensor.shape.tiled counts).FitsWord) (made : tensor.tile counts = .ok output)
    (units : Shape.RepeatsUnits (tensor.shape.leftPad counts.length) counts) :
    tensor.expand (tensor.shape.tiled counts) = .ok output := by
  have enough := exists_tile_iff.mp ⟨output, made⟩
  obtain ⟨expanded, stretched⟩ := exists_expand (Shape.stretchesTo_tiled enough units)
  obtain ⟨_stretches, shaped, _elements⟩ := expand_eq_ok sizes stretched
  have unwrapped : expanded.Exact := exact_iff_fitsWord.mpr (shaped ▸ fits)
  have same : expanded = output := by
    refine ext_of_elements unwrapped (shaped.trans (shape_tile sizes made).symm)
      fun index within => ?_
    rw [shaped] at within
    rw [element_expand sizes fits stretched within, element_tile sizes fits made within,
      Shape.tileIndex_eq_readIndex enough units within]
  rw [stretched, same]

/-- A tensor can be tiled exactly if there is a count for each of its axes. Under every index of the
tiled tensor stands the element at the index modulo the padded shape. A second tiling makes of it
what the product of the counts makes at once, and where only axes of size one are repeated, the
tiled tensor is the expanded one. -/
theorem tiling_repeats_and_composes (tensor : Tensor) (counts : List Nat) :
    ((∃ output, tensor.tile counts = .ok output) ↔ tensor.rank ≤ counts.length) ∧
    ∀ output, tensor.tile counts = .ok output →
      (∀ size ∈ tensor.shape.tiled counts, size < Word.modulus) →
      (tensor.shape.tiled counts).FitsWord →
      output.shape = tensor.shape.tiled counts ∧ output.Exact ∧
      (∀ index, (tensor.shape.tiled counts).Within index →
        tensor.Stores (tensor.shape.tileIndex index) ∧
        output.element index = tensor.element (tensor.shape.tileIndex index)) ∧
      (∀ later, counts.length ≤ later.length →
        (∀ size ∈ output.shape.tiled later, size < Word.modulus) →
        (output.shape.tiled later).FitsWord →
        ∃ final, output.tile later = .ok final ∧
          tensor.tile (Shape.combinedCounts counts later) = .ok final ∧
          tensor.tile (Shape.words (Shape.combinedCounts counts later)) = .ok final) ∧
      (Shape.RepeatsUnits (tensor.shape.leftPad counts.length) counts →
        tensor.expand (tensor.shape.tiled counts) = .ok output) := by
  refine ⟨exists_tile_iff, fun output made sizes fits => ?_⟩
  have enough := exists_tile_iff.mp ⟨output, made⟩
  have shaped := shape_tile sizes made
  refine ⟨shaped, exact_iff_fitsWord.mpr (shaped ▸ fits), fun index within =>
    ⟨stores_tileIndex enough fits within, element_tile sizes fits made within⟩,
    fun later longer laterSizes laterFits => ?_, expand_of_tile sizes fits made⟩
  have ranked : output.rank ≤ later.length := by
    rw [rank, shaped, Shape.length_tiled enough]
    exact longer
  obtain ⟨final, second⟩ := exists_tile_iff.mpr ranked
  have atOnce := tile_tile sizes made longer laterSizes laterFits second
  exact ⟨final, second, atOnce, (tile_words tensor _).trans atOnce⟩

/-- A column of two elements, taken twice in front and three times along its axis of size one, and
the whole then three times in front and twice along the second axis. -/
theorem tiling_repeats_and_composes_column :
    ∃ output final, (numbered [2, 1] 5).tile [2, 1, 3] = .ok output ∧
      output.element [1, 1, 2] = (numbered [2, 1] 5).element [1, 0] ∧
      (numbered [2, 1] 5).expand [2, 2, 3] = .ok output ∧
      output.tile [3, 1, 2, 1] = .ok final ∧
      (numbered [2, 1] 5).tile [3, 2, 2, 3] = .ok final ∧
      ∀ refused, (numbered [2, 1] 5).tile [4] ≠ .ok refused := by
  obtain ⟨tiles, each⟩ := tiling_repeats_and_composes (numbered [2, 1] 5) [2, 1, 3]
  have short := (tiling_repeats_and_composes (numbered [2, 1] 5) [4]).1
  obtain ⟨output, made⟩ := tiles.mpr (by decide)
  obtain ⟨shaped, _exact, elements, composes, expands⟩ := each output made (by decide) (by decide)
  obtain ⟨final, second, atOnce, _words⟩ := composes [3, 1, 2, 1] (by decide)
    (by rw [shaped]; decide) (by rw [shaped]; decide)
  have within : Shape.Within [2, 2, 3] [1, 1, 2] := ⟨by decide, by decide, by decide, trivial⟩
  exact ⟨output, final, made, (elements [1, 1, 2] within).2, expands (by decide), second, atOnce,
    fun refused made => absurd (short.mp ⟨refused, made⟩) (by decide)⟩

end Tensor

end Featurize
