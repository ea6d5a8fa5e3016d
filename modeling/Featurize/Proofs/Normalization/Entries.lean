import Featurize.Proofs.Tensors.Elements
import Featurize.Stage.Normalization

/-!
Entries on the common scale. What the standard normalizer makes of a pair has the shape
of the values, and each of its elements comes from the value and the presence at the same
place: rescaled by the parameters of the column, or zero where the value is missing or is
not a number.
-/

namespace Featurize

def NormalizationParameters.entry (parameters : NormalizationParameters)
    (value presence : Double) : Double :=
  if presence == 0.0 || value.isNaN then 0.0 else parameters.rescale value

structure NormalizationData.Scales (data : NormalizationData) (pair : ValuePresence)
    (scaled : Tensor) : Prop where
  value : pair.value.shape = [pair.value.rows, data.size]
  presence : pair.presence.shape = pair.value.shape
  shape : scaled.shape = pair.value.shape
  element : ∀ row column parameters, row < pair.value.rows →
    data.parameters[column]? = some parameters →
      scaled.element [row, column] =
        parameters.entry (pair.value.element [row, column]) (pair.presence.element [row, column])

theorem NormalizationParameters.entry_eq (parameters : NormalizationParameters)
    (value presence : Double) :
    parameters.entry value presence =
      if (if value.isNaN then 0.0 else presence) == (0.0 : Double) then 0.0
      else parameters.rescale (if value.isNaN then 0.0 else value) := by
  have zero : ((0.0 : Double) == 0.0) = true := by decide
  unfold entry
  cases missing : value.isNaN with
  | true => simp only [Bool.or_true, ↓reduceIte, zero]
  | false => simp only [Bool.or_false, Bool.false_eq_true, ↓reduceIte]

/-! ### Pairs without values that are not numbers -/

namespace ValuePresence

variable {pair : ValuePresence}

theorem shape_value_withoutNaN (pair : ValuePresence) :
    pair.withoutNaN.value.shape = pair.value.shape :=
  pair.value.shape_tabulate_shape _

theorem element_value_withoutNaN (unwrapped : pair.value.Exact) {index : List Nat}
    (within : pair.value.shape.Within index) :
    pair.withoutNaN.value.element index =
      if (pair.value.element index).isNaN then 0.0 else pair.value.element index :=
  Tensor.element_tabulate unwrapped _ within

theorem element_presence_withoutNaN (unwrapped : pair.value.Exact) (aligned : pair.Aligned)
    {index : List Nat} (within : pair.value.shape.Within index) :
    pair.withoutNaN.presence.element index =
      if (pair.value.element index).isNaN then 0.0 else pair.presence.element index := by
  unfold Aligned at aligned
  have presenceExact : pair.presence.Exact :=
    Tensor.exact_of_volume_lt (aligned ▸ unwrapped.volume_lt)
  rw [aligned] at within
  have entry := Tensor.element_tabulate presenceExact (fun position =>
    if (pair.value.get position).isNaN then 0.0 else pair.presence.get position) within
  unfold Tensor.element at entry ⊢
  rw [aligned]
  exact entry

end ValuePresence

/-! ### The standard normalizer -/

namespace NormalizationData

variable {data : NormalizationData} {value presence scaled : Tensor}

theorem shape_of_normalize (normalized : data.normalize value presence = .ok scaled) :
    value.shape = presence.shape ∧ value.shape = [value.rows, data.size] ∧
      scaled.shape = value.shape := by
  unfold normalize at normalized
  by_cases aligned : value.shape = presence.shape
  · rw [if_neg (not_not_intro aligned)] at normalized
    refine ⟨aligned, ?_⟩
    unfold Tensor.rows
    split at normalized
    · rename_i rows columns shape
      by_cases counted : columns = data.size
      · rw [if_pos counted] at normalized
        cases normalized
        refine ⟨?_, value.shape_tabulate_shape _⟩
        rw [shape, counted]
        rfl
      · rw [if_neg counted] at normalized
        cases normalized
    · cases normalized
  · rw [if_pos aligned] at normalized
    cases normalized

theorem element_of_normalize (unwrapped : value.Exact)
    (normalized : data.normalize value presence = .ok scaled) {row column : Nat}
    {parameters : NormalizationParameters} (inside : row < value.rows)
    (listed : data.parameters[column]? = some parameters) :
    scaled.element [row, column] =
      if presence.element [row, column] == 0.0 then 0.0
      else parameters.rescale (value.element [row, column]) := by
  obtain ⟨aligned, shape, _same⟩ := shape_of_normalize normalized
  have columnInside : column < data.size := (List.getElem?_eq_some_iff.mp listed).1
  have within : value.shape.Within [row, column] := by
    rw [shape]
    exact ⟨inside, columnInside, trivial⟩
  have position : value.shape.position [row, column] = row * data.size + column := by
    rw [shape]
    simp only [Shape.position, Shape.volume, Nat.mul_one, Nat.add_zero]
  have columnOf : (row * data.size + column) % data.size = column := by
    rw [Nat.mul_comm, Nat.mul_add_mod, Nat.mod_eq_of_lt columnInside]
  unfold normalize at normalized
  rw [if_neg (not_not_intro aligned), shape] at normalized
  simp only [↓reduceIte] at normalized
  rw [← shape] at normalized
  cases normalized
  rw [Tensor.element_tabulate unwrapped _ within]
  unfold Tensor.element
  rw [← aligned, position, columnOf, List.getElem?_toArray, listed]

end NormalizationData

/-! ### One field -/

namespace DenseNormalization

theorem normalizeField_eq_ok_iff {normalizer : Normalizer} {key : String} {field changed : Field} :
    normalizeField normalizer key field = .ok changed ↔
      ∃ pair scaled, field = .valuePresence pair ∧ pair.Aligned ∧
        normalizer.normalize pair.withoutNaN.value pair.withoutNaN.presence = .ok scaled ∧
        changed = .tensor scaled := by
  unfold normalizeField ValuePresence.checkAligned
  simp only [Outcome.bind_eq_ok_iff, Outcome.pure_eq_ok_iff]
  constructor
  · rintro ⟨pair, read, checked, aligned, scaled, normalized, same⟩
    cases field with
    | valuePresence held =>
        cases read
        refine ⟨pair, scaled, rfl, ?_, normalized, same.symm⟩
        by_cases holds : pair.Aligned
        · exact holds
        · rw [if_neg holds] at aligned
          cases aligned
    | _ => cases read
  · rintro ⟨pair, scaled, read, aligned, normalized, same⟩
    subst read
    refine ⟨pair, rfl, (), ?_, scaled, normalized, same.symm⟩
    rw [if_pos aligned]
    rfl

theorem normalizeField_once {normalizer : Normalizer} {key : String} {field changed again : Field}
    (normalized : normalizeField normalizer key field = .ok changed) :
    normalizeField normalizer key changed ≠ .ok again := by
  intro repeated
  obtain ⟨_pair, scaled, _read, _aligned, _normalized, same⟩ :=
    normalizeField_eq_ok_iff.mp normalized
  obtain ⟨_other, _scaled, pairAgain, _⟩ := normalizeField_eq_ok_iff.mp repeated
  cases same.symm.trans pairAgain

/-- The standard normalizer scales a pair with as many elements as its shape has positions. -/
theorem scales_of_normalizeField {data : NormalizationData} {device : Device}
    {normalizer : Normalizer} {key : String} {pair : ValuePresence} {changed : Field}
    (standard : data.normalizer device = .ok normalizer) (unwrapped : pair.value.Exact)
    (normalized : normalizeField normalizer key (.valuePresence pair) = .ok changed) :
    ∃ scaled, changed = .tensor scaled ∧ data.Scales pair scaled := by
  obtain ⟨held, scaled, read, aligned, made, same⟩ := normalizeField_eq_ok_iff.mp normalized
  cases read
  unfold NormalizationData.normalizer at standard
  by_cases available : device.name = "cpu"
  · rw [if_pos available] at standard
    cases standard
    have filtered := Outcome.mapError_eq_ok_iff.mp made
    have valueShape := pair.shape_value_withoutNaN
    have filteredExact : pair.withoutNaN.value.Exact :=
      Tensor.exact_of_volume_lt (valueShape ▸ unwrapped.volume_lt)
    obtain ⟨_sameShape, matrix, kept⟩ := NormalizationData.shape_of_normalize filtered
    have rowsKept : pair.withoutNaN.value.rows = pair.value.rows :=
      congrArg (fun shape : Shape => shape.headD 0) valueShape
    rw [valueShape, rowsKept] at matrix
    refine ⟨scaled, same, matrix, aligned.symm, kept.trans valueShape, ?_⟩
    intro row column parameters inside listed
    have within : pair.value.shape.Within [row, column] := by
      rw [matrix]
      exact ⟨inside, (List.getElem?_eq_some_iff.mp listed).1, trivial⟩
    rw [NormalizationData.element_of_normalize filteredExact filtered (rowsKept ▸ inside) listed,
      ValuePresence.element_value_withoutNaN unwrapped within,
      ValuePresence.element_presence_withoutNaN unwrapped aligned within]
    exact (NormalizationParameters.entry_eq parameters _ _).symm
  · rw [if_neg available] at standard
    cases standard

end DenseNormalization

end Featurize
