import Featurize.Proofs.Tensors.Exactness

/-!
Reshaping. Sizes are accepted exactly if none is below minus one, at most one is left open, and
the known ones multiply to the number of elements or, beside an open one, to a positive divisor of
it. The elements stay in their order, and the open size takes the quotient. Since only the elements
matter, a tensor that was reshaped can be reshaped to what the first tensor can be reshaped to.
-/

namespace Featurize

namespace Tensor

variable {tensor other reshaped : Tensor} {sizes : List Int} {filler : Nat}

/-! ### Sizes with an open one -/

def knownProduct : List Int → Int
  | [] => 1
  | size :: sizes => if size = -1 then knownProduct sizes else size * knownProduct sizes

def knownCount (sizes : List Int) : Nat :=
  Shape.elementCount ((sizes.map openSize).filterMap id)

def filledShape (filler : Nat) (sizes : List Int) : Shape :=
  sizes.map fun size => (openSize size).getD filler

def FilledBy (sizes : List Int) (count : Nat) : Prop :=
  (∀ size ∈ sizes, -1 ≤ size) ∧
    (-1 ∉ sizes ∧ knownProduct sizes = count ∨
      sizes.count (-1) = 1 ∧ 0 < knownProduct sizes ∧ knownProduct sizes ∣ count)

instance (sizes : List Int) (count : Nat) : Decidable (FilledBy sizes count) :=
  inferInstanceAs (Decidable ((∀ size ∈ sizes, -1 ≤ size) ∧
    (-1 ∉ sizes ∧ knownProduct sizes = count ∨
      sizes.count (-1) = 1 ∧ 0 < knownProduct sizes ∧ knownProduct sizes ∣ count)))

theorem none_mem_openSizes_iff : none ∈ sizes.map openSize ↔ -1 ∈ sizes := by
  rw [List.mem_map]
  constructor
  · intro listed
    obtain ⟨size, member, isOpen⟩ := listed
    by_cases inferred : size = -1
    · exact inferred ▸ member
    · rw [openSize, if_neg inferred] at isOpen
      cases isOpen
  · intro member
    exact ⟨-1, member, rfl⟩

theorem volume_known (above : ∀ size ∈ sizes, -1 ≤ size) :
    (Shape.volume ((sizes.map openSize).filterMap id) : Int) = knownProduct sizes := by
  induction sizes with
  | nil => rfl
  | cons size sizes ih =>
      obtain ⟨least, others⟩ := List.forall_mem_cons.mp above
      rw [List.map_cons, knownProduct]
      by_cases inferred : size = -1
      · have isOpen : openSize size = none := if_pos inferred
        rw [if_pos inferred, isOpen, List.filterMap_cons_none rfl, ih others]
      · have isKnown : openSize size = some size.toNat := if_neg inferred
        have isSize : (size.toNat : Int) = size := Int.toNat_of_nonneg (by omega)
        rw [if_neg inferred, isKnown]
        change ((size.toNat * Shape.volume ((sizes.map openSize).filterMap id) : Nat) : Int) = _
        rw [Int.natCast_mul, isSize, ih others]

theorem knownCount_eq (above : ∀ size ∈ sizes, -1 ≤ size)
    (fits : knownProduct sizes < Word.modulus) : (knownCount sizes : Int) = knownProduct sizes := by
  have volume := volume_known above
  rw [knownCount, Shape.elementCount_of_lt (by omega), volume]

theorem volume_filledShape (above : ∀ size ∈ sizes, -1 ≤ size) (few : sizes.count (-1) ≤ 1) :
    ((filledShape filler sizes).volume : Int) =
      if -1 ∈ sizes then filler * knownProduct sizes else knownProduct sizes := by
  induction sizes with
  | nil => rfl
  | cons size sizes ih =>
      obtain ⟨least, others⟩ := List.forall_mem_cons.mp above
      have cons : ((filledShape filler (size :: sizes)).volume : Int) =
          ((openSize size).getD filler : Nat) * ((filledShape filler sizes).volume : Int) :=
        Int.natCast_mul _ _
      rw [cons, knownProduct]
      by_cases inferred : size = -1
      · rw [inferred, List.count_cons_self] at few
        have closed : -1 ∉ sizes := List.count_eq_zero.mp (by omega)
        have isOpen : openSize size = none := if_pos inferred
        rw [ih others (by omega), if_neg closed, if_pos inferred, isOpen, Option.getD_none,
          if_pos (inferred ▸ List.mem_cons_self ..)]
      · rw [List.count_cons_of_ne inferred] at few
        have isKnown : openSize size = some size.toNat := if_neg inferred
        have isSize : (size.toNat : Int) = size := Int.toNat_of_nonneg (by omega)
        have behind : -1 ∈ size :: sizes ↔ -1 ∈ sizes := by
          rw [List.mem_cons, or_iff_right (fun same => inferred same.symm)]
        rw [ih others few, if_neg inferred, isKnown, Option.getD_some, isSize]
        simp only [behind]
        split
        · exact Int.mul_left_comm size filler (knownProduct sizes)
        · rfl

theorem words_filledShape (small : ∀ size ∈ sizes, size < Word.signedLimit)
    (word : filler < Word.modulus) :
    (filledShape filler sizes).words = filledShape filler sizes := by
  refine Shape.words_of_lt (List.forall_mem_map.mpr fun size member => ?_)
  have below := small size member
  unfold Word.signedLimit at below
  unfold Word.modulus at word ⊢
  unfold openSize
  split
  · exact word
  · rw [Option.getD_some]
    omega

theorem FilledBy.count_le {count : Nat} (filled : FilledBy sizes count) :
    sizes.count (-1) ≤ 1 := by
  rcases filled.2 with ⟨closed, _same⟩ | ⟨single, _divides⟩
  · rw [List.count_eq_zero.mpr closed]
    exact Nat.zero_le 1
  · exact Nat.le_of_eq single

/-- The check by counts decides whether so many elements can take the sizes. -/
theorem filledBy_iff_counted {count : Nat} (above : ∀ size ∈ sizes, -1 ≤ size)
    (few : sizes.count (-1) ≤ 1) (fits : knownProduct sizes < Word.modulus)
    (word : count < Word.modulus) :
    FilledBy sizes count ↔
      ¬ (-1 ∈ sizes ∧ (knownCount sizes = 0 ∨ count % knownCount sizes ≠ 0)) ∧
        (filledShape (count / knownCount sizes) sizes).elementCount = count := by
  have known := knownCount_eq above fits
  have volume := @volume_filledShape sizes (count / knownCount sizes) above few
  rw [FilledBy, and_iff_right above, ← known]
  by_cases isOpen : -1 ∈ sizes
  · have single : sizes.count (-1) = 1 := by
      have listed := List.count_pos_iff.mpr isOpen
      omega
    rw [if_pos isOpen, ← known, ← Int.natCast_mul, Int.natCast_inj] at volume
    have below := Nat.div_mul_le_self count (knownCount sizes)
    rw [Shape.elementCount_of_lt (by omega), volume]
    simp only [isOpen, single, not_true_eq_false, false_and, false_or, true_and, not_or,
      Int.natCast_pos, Int.natCast_dvd_natCast, Decidable.not_not, ne_eq, and_assoc]
    constructor
    · intro both
      obtain ⟨filled, divides⟩ := both
      exact ⟨Nat.ne_of_gt filled, Nat.mod_eq_zero_of_dvd divides, Nat.div_mul_cancel divides⟩
    · intro all
      obtain ⟨filled, divides, _taken⟩ := all
      exact ⟨Nat.pos_of_ne_zero filled, Nat.dvd_of_mod_eq_zero divides⟩
  · have none : sizes.count (-1) ≠ 1 := by
      rw [List.count_eq_zero.mpr isOpen]
      exact Nat.zero_ne_one
    rw [if_neg isOpen, ← known, Int.natCast_inj] at volume
    rw [Shape.elementCount_of_lt (by omega), volume]
    simp only [isOpen, none, not_false_eq_true, true_and, false_and, or_false, Int.natCast_inj]

/-! ### Reshaping -/

theorem ofData_eq_ok_iff {shape : Shape} {data : Array Double} :
    ofData shape data = .ok tensor ↔ tensor.shape = shape.words ∧ tensor.data = data := by
  constructor
  · exact shape_ofData
  · intro both
    obtain ⟨shaped, rfl⟩ := both
    unfold ofData
    rw [dif_pos (shaped ▸ tensor.data_size)]
    exact congrArg Except.ok (ext_of_fields shaped.symm rfl)

theorem reshape_eq_ok_iff_counted :
    tensor.reshape sizes = .ok reshaped ↔
      ((∀ size ∈ sizes, -1 ≤ size) ∧ sizes.count (-1) ≤ 1) ∧
        ¬ (-1 ∈ sizes ∧ (knownCount sizes = 0 ∨ tensor.size % knownCount sizes ≠ 0)) ∧
        (filledShape (tensor.size / knownCount sizes) sizes).elementCount = tensor.size ∧
        reshaped.shape = (filledShape (tensor.size / knownCount sizes) sizes).words ∧
        reshaped.data = tensor.data := by
  unfold reshape
  simp only [Outcome.bind_eq_ok_iff, Outcome.guard_eq_ok_iff, requestedSizes_eq_ok_iff,
    ofData_eq_ok_iff, Bool.toNat_false, Nat.add_zero, Decidable.not_not, ne_eq]
  constructor
  · intro asked
    obtain ⟨requested, ⟨above, few, rfl⟩, divisible, counted, made⟩ := asked
    rw [none_mem_openSizes_iff] at divisible
    rw [List.map_map] at counted made
    exact ⟨⟨above, few⟩, divisible, counted, made⟩
  · intro asked
    obtain ⟨⟨above, few⟩, divisible, counted, made⟩ := asked
    rw [← none_mem_openSizes_iff] at divisible
    refine ⟨_, ⟨above, few, rfl⟩, divisible, ?_, ?_⟩
    · rw [List.map_map]
      exact counted
    · rw [List.map_map]
      exact made

theorem reshape_eq_ok_iff_of_data (same : tensor.data = other.data) :
    tensor.reshape sizes = .ok reshaped ↔ other.reshape sizes = .ok reshaped := by
  have size : tensor.size = other.size := congrArg Array.size same
  rw [reshape_eq_ok_iff_counted, reshape_eq_ok_iff_counted, size, same]

theorem reshape_eq_ok_iff (small : ∀ size ∈ sizes, size < Word.signedLimit)
    (fits : knownProduct sizes < Word.modulus) :
    tensor.reshape sizes = .ok reshaped ↔ FilledBy sizes tensor.size ∧
      reshaped.shape = filledShape (tensor.size / (knownProduct sizes).toNat) sizes ∧
      reshaped.data = tensor.data := by
  have word : tensor.size < Word.modulus := tensor.size_eq ▸ Word.wrap_lt _
  have quotient := Nat.lt_of_le_of_lt (Nat.div_le_self tensor.size (knownProduct sizes).toNat) word
  have shape (above : ∀ size ∈ sizes, -1 ≤ size) :
      (filledShape (tensor.size / knownCount sizes) sizes).words =
        filledShape (tensor.size / (knownProduct sizes).toNat) sizes := by
    rw [← knownCount_eq above fits, Int.toNat_natCast] at quotient ⊢
    exact words_filledShape small quotient
  rw [reshape_eq_ok_iff_counted]
  constructor
  · intro asked
    obtain ⟨⟨above, few⟩, divisible, counted, shaped, stored⟩ := asked
    exact ⟨(filledBy_iff_counted above few fits word).mpr ⟨divisible, counted⟩,
      shaped.trans (shape above), stored⟩
  · intro filled
    obtain ⟨filled, shaped, stored⟩ := filled
    have both := (filledBy_iff_counted filled.1 filled.count_le fits word).mp filled
    exact ⟨⟨filled.1, filled.count_le⟩, both.1, both.2, shaped.trans (shape filled.1).symm, stored⟩

theorem volume_of_filledBy {count : Nat} (filled : FilledBy sizes count) :
    (filledShape (count / (knownProduct sizes).toNat) sizes).volume = count := by
  have volume := @volume_filledShape sizes (count / (knownProduct sizes).toNat) filled.1
    filled.count_le
  rcases filled.2 with ⟨closed, same⟩ | ⟨single, positive, divides⟩
  · rw [if_neg closed] at volume
    exact Int.natCast_inj.mp (volume.trans same)
  · have isOpen : -1 ∈ sizes := List.count_pos_iff.mp (by omega)
    obtain ⟨known, isKnown⟩ := Int.eq_ofNat_of_zero_le (Int.le_of_lt positive)
    rw [isKnown, Int.natCast_dvd_natCast] at divides
    rw [if_pos isOpen, isKnown, Int.toNat_natCast, ← Int.natCast_mul,
      Nat.div_mul_cancel divides] at volume
    rw [isKnown, Int.toNat_natCast]
    exact Int.natCast_inj.mp volume

theorem exists_reshape (small : ∀ size ∈ sizes, size < Word.signedLimit)
    (fits : knownProduct sizes < Word.modulus) (filled : FilledBy sizes tensor.size) :
    ∃ reshaped, tensor.reshape sizes = .ok reshaped := by
  have word : tensor.size < Word.modulus := tensor.size_eq ▸ Word.wrap_lt _
  have volume := volume_of_filledBy filled
  have words := @words_filledShape sizes (tensor.size / (knownProduct sizes).toNat) small
    (Nat.lt_of_le_of_lt (Nat.div_le_self _ _) word)
  have counted := @Shape.elementCount_of_lt
    (filledShape (tensor.size / (knownProduct sizes).toNat) sizes) (by omega)
  exact ⟨⟨filledShape (tensor.size / (knownProduct sizes).toNat) sizes, tensor.data,
    words ▸ Shape.words_lt _, (counted.trans volume).symm⟩,
    (reshape_eq_ok_iff small fits).mpr ⟨filled, rfl, rfl⟩⟩

/-- A tensor can be reshaped exactly to sizes that its elements can take: none is below minus one,
and the known ones multiply to the number of elements or, beside a single open one, to a positive
divisor of it, of which the open one takes the quotient. The elements stay as they are, so for any
later sizes the reshaped tensor gives what the tensor itself gives, or both are refused. -/
theorem reshaping_keeps_elements (tensor : Tensor) (sizes : List Int) :
    ((∀ size ∈ sizes, size < Word.signedLimit) → knownProduct sizes < Word.modulus →
      ((∃ reshaped, tensor.reshape sizes = .ok reshaped) ↔ FilledBy sizes tensor.size) ∧
      ∀ reshaped, tensor.reshape sizes = .ok reshaped →
        reshaped.data = tensor.data ∧
        reshaped.shape = filledShape (tensor.size / (knownProduct sizes).toNat) sizes ∧
        reshaped.shape.volume = tensor.size) ∧
    ∀ reshaped, tensor.reshape sizes = .ok reshaped → ∀ later result,
      reshaped.reshape later = .ok result ↔ tensor.reshape later = .ok result := by
  constructor
  · intro small fits
    refine ⟨⟨fun made => ?_, exists_reshape small fits⟩, fun reshaped made => ?_⟩
    · obtain ⟨reshaped, made⟩ := made
      exact ((reshape_eq_ok_iff small fits).mp made).1
    · obtain ⟨filled, shaped, stored⟩ := (reshape_eq_ok_iff small fits).mp made
      exact ⟨stored, shaped, shaped ▸ volume_of_filledBy filled⟩
  · intro reshaped made later result
    exact reshape_eq_ok_iff_of_data (reshape_eq_ok_iff_counted.mp made).2.2.2.2

/-- Six elements fill rows of three, and the rows again a single one. Two open sizes, a known size
of zero beside an open one, and a known size that does not divide six are refused. -/
theorem reshaping_keeps_elements_six :
    ∃ rows line, (numbered [6] 5).reshape [-1, 3] = .ok rows ∧ rows.shape = [2, 3] ∧
      rows.data = (numbered [6] 5).data ∧
      rows.reshape [1, 6] = .ok line ∧ (numbered [6] 5).reshape [1, 6] = .ok line ∧
      ∀ refused, (numbered [6] 5).reshape [-1, -1] ≠ .ok refused ∧
        (numbered [6] 5).reshape [-1, 0] ≠ .ok refused ∧
        (numbered [6] 5).reshape [-1, 4] ≠ .ok refused := by
  have given (sizes : List Int) := reshaping_keeps_elements (numbered [6] 5) sizes
  obtain ⟨takes, each⟩ := (given [-1, 3]).1 (by decide) (by decide)
  obtain ⟨rows, made⟩ := takes.mpr (by decide)
  obtain ⟨stored, shaped, _volume⟩ := each rows made
  obtain ⟨line, direct⟩ := ((given [1, 6]).1 (by decide) (by decide)).1.mpr (by decide)
  have again := ((given [-1, 3]).2 rows made [1, 6] line).mpr direct
  refine ⟨rows, line, made, shaped, stored, again, direct, fun refused => ⟨?_, ?_, ?_⟩⟩
  · intro made
    exact absurd (((given [-1, -1]).1 (by decide) (by decide)).1.mp ⟨refused, made⟩) (by decide)
  · intro made
    exact absurd (((given [-1, 0]).1 (by decide) (by decide)).1.mp ⟨refused, made⟩) (by decide)
  · intro made
    exact absurd (((given [-1, 4]).1 (by decide) (by decide)).1.mp ⟨refused, made⟩) (by decide)

end Tensor

end Featurize
