import Featurize.Proofs.Collection
import Featurize.Proofs.Normalization.Entries
import Mathlib.Data.List.ProdSigma

/-!
Statistics that are read from JSON. They are written and read back as they are, and each column
can be rescaled with its own. So the loop that normalizes a matrix, with every read and write
checked, never misses a bound, and on a matrix that holds one element for each position it never
leaves the statistics, the values, the presence or the output.
-/

namespace Featurize

/-! ### One column -/

namespace NormalizationParameters

variable {json : Json} {parameters : NormalizationParameters}

/-- Statistics that their column can be rescaled with. -/
structure Usable (parameters : NormalizationParameters) : Prop where
  spread : parameters.featureType = .continuous → parameters.deviation > 0.0
  bounds : parameters.featureType = .continuousAction →
    ∃ lowest highest, parameters.lowest = some lowest ∧ parameters.highest = some highest ∧
      highest > lowest

theorem check_eq_ok_iff : parameters.check = .ok () ↔ parameters.Usable := by
  rcases parameters with ⟨featureId, featureType, mean, deviation, lowest, highest⟩
  cases featureType with
  | continuous =>
      by_cases positive : deviation > 0.0
      · exact ⟨fun _passed => ⟨fun _same => positive, nofun⟩, fun _usable => if_pos positive⟩
      · constructor
        · intro passed
          cases (if_neg positive).symm.trans passed
        · intro usable
          exact absurd (usable.spread rfl) positive
  | continuousAction =>
      constructor
      · intro passed
        unfold check at passed
        dsimp only at passed
        split at passed
        · rename_i low high
          by_cases apart : high > low
          · exact ⟨nofun, fun _same => ⟨low, high, rfl, rfl, apart⟩⟩
          · rw [if_neg apart] at passed
            cases passed
        · cases passed
      · intro usable
        rcases usable.bounds rfl with ⟨low, high, rfl, rfl, apart⟩
        exact if_pos apart
  | _ => exact ⟨fun _passed => ⟨nofun, nofun⟩, fun _usable => rfl⟩

/-- Statistics are read member by member, and only those that are usable are kept. -/
theorem ofJson_eq_ok_iff :
    ofJson json = .ok parameters ↔
      (json.require "feature_id" >>= Json.asId) = .ok parameters.featureId ∧
      (∃ name,
        json.withDefault "feature_type" FeatureType.continuous.name Json.asString = .ok name ∧
        FeatureType.ofName name = .ok parameters.featureType) ∧
      json.withDefault "mean" 0.0 Json.asDouble = .ok parameters.mean ∧
      json.withDefault "stddev" 1.0 Json.asDouble = .ok parameters.deviation ∧
      json.optional "min_value" Json.asDouble = .ok parameters.lowest ∧
      json.optional "max_value" Json.asDouble = .ok parameters.highest ∧
      parameters.Usable := by
  unfold ofJson wellFormed
  simp only [Outcome.bind_eq_ok_iff, Outcome.mapError_eq_ok_iff, Outcome.pure_eq_ok_iff,
    ← check_eq_ok_iff]
  constructor
  · rintro ⟨_id, id, name, named, _type, type, _mean, mean, _deviation, deviation, _lowest, lowest,
      _highest, highest, _checked, checked, rfl⟩
    exact ⟨id, ⟨name, named, type⟩, mean, deviation, lowest, highest, checked⟩
  · rintro ⟨id, ⟨name, named, type⟩, mean, deviation, lowest, highest, checked⟩
    exact ⟨_, id, name, named, _, type, _, mean, _, deviation, _, lowest, _, highest, (), checked,
      rfl⟩

theorem ofJson_toJson (usable : parameters.Usable) : ofJson parameters.toJson = .ok parameters := by
  refine ofJson_eq_ok_iff.mpr ?_
  rcases parameters with ⟨featureId, featureType, mean, deviation, lowest, highest⟩
  have id : Json.asId (Json.ofId featureId) = .ok featureId :=
    congrArg Except.ok featureId.ofInt_toInt
  have type := FeatureType.ofName_name featureType
  cases lowest <;> cases highest <;>
    exact ⟨id, ⟨_, rfl, type⟩, rfl, rfl, rfl, rfl, usable⟩

end NormalizationParameters

/-! ### All columns -/

namespace NormalizationData

variable {json : Json} {data : NormalizationData}

theorem usable_of_ofJson (read : ofJson json = .ok data) :
    ∀ parameters ∈ data.parameters, parameters.Usable := by
  unfold ofJson at read
  split at read
  · rename_i entries _listed
    rcases Outcome.bind_eq_ok_iff.mp read with ⟨columns, made, same⟩
    cases same
    intro parameters member
    rcases Collection.exists_item_of_mapM made member with ⟨entry, _listed, given⟩
    rcases NormalizationParameters.ofJson_eq_ok_iff.mp given with
      ⟨_id, _type, _mean, _deviation, _lowest, _highest, usable⟩
    exact usable
  · cases read

theorem ofJson_toJson (usable : ∀ parameters ∈ data.parameters, parameters.Usable) :
    ofJson data.toJson = .ok data := by
  have each : (data.parameters.map NormalizationParameters.toJson).mapM
      NormalizationParameters.ofJson = .ok data.parameters := by
    refine Collection.mapM_eq_ok_iff.mpr (List.forall₂_map_left_iff.mpr ?_)
    exact List.forall₂_same.mpr fun parameters member =>
      NormalizationParameters.ofJson_toJson (usable parameters member)
  change (do
    let columns ← (data.parameters.map NormalizationParameters.toJson).mapM
      NormalizationParameters.ofJson
    return NormalizationData.mk columns) = .ok data
  rw [each]
  rfl

end NormalizationData

/-! ### A checked run -/

inductive Misread where
  | bound
  | parameters
  | value
  | presence
  | output
  deriving Repr, DecidableEq

def Misread.expect {Found : Type} (misread : Misread) : Option Found → Except Misread Found
  | some found => .ok found
  | none => .error misread

def NormalizationParameters.checkedRescale (parameters : NormalizationParameters)
    (value : Double) : Except Misread Double :=
  match parameters.featureType with
  | .continuousAction => do
      let low : Double := -1.0 + 1e-6
      let high : Double := 1.0 - 1e-6
      let highest ← Misread.bound.expect parameters.highest
      let lowest ← Misread.bound.expect parameters.lowest
      let scale := (high - low) / (highest - lowest)
      return clamp ((value - lowest) * scale + low) low high
  | _ => .ok (parameters.rescale value)

theorem NormalizationParameters.Usable.checkedRescale {parameters : NormalizationParameters}
    (usable : parameters.Usable) (value : Double) :
    parameters.checkedRescale value = .ok (parameters.rescale value) := by
  rcases parameters with ⟨featureId, featureType, mean, deviation, lowest, highest⟩
  cases featureType with
  | continuousAction =>
      rcases usable.bounds rfl with ⟨low, high, rfl, rfl, _apart⟩
      rfl
  | _ => rfl

namespace NormalizationData

variable {data : NormalizationData} {value presence : Tensor} {rows columns : Nat}
  {place : Nat × Nat} {done : List Nat} {output : Array Double} {misread : Misread}

def stored (columns : Nat) (place : Nat × Nat) : Nat := Word.wrap (place.1 * columns + place.2)

def writeEntry (data : NormalizationData) (value presence : Tensor) (columns : Nat)
    (output : Array Double) (place : Nat × Nat) : Except Misread (Array Double) := do
  let present ← Misread.presence.expect presence.data[stored columns place]?
  if present == 0.0 then return output
  let parameters ← Misread.parameters.expect data.parameters[place.2]?
  let found ← Misread.value.expect value.data[stored columns place]?
  let entry ← parameters.checkedRescale found
  if inside : stored columns place < output.size then
    return output.set (stored columns place) entry
  else throw .output

def places (rows columns : Nat) : List (Nat × Nat) :=
  (List.range rows).product (List.range columns)

/-- The normalization with every read and write checked: the shapes first, and then entry by entry
into a matrix of zeros. -/
def checkedNormalize (data : NormalizationData) (value presence : Tensor) :
    Except Misread (Except ShapeFault (Array Double)) :=
  if value.shape ≠ presence.shape then
    .ok (.error (.normalizedPresence value.shape presence.shape))
  else
    match value.shape with
    | [rows, columns] =>
        if columns = data.size then do
          let output ← (places rows columns).foldlM (data.writeEntry value presence columns)
            (Tensor.full value.shape 0.0).data
          return .ok output
        else .ok (.error (.normalizedColumns data.size value.shape))
    | _ => .ok (.error (.normalizedColumns data.size value.shape))

/-! #### Bounds -/

theorem expect_eq_ok_iff {Found : Type} {found : Option Found} {value : Found} :
    misread.expect found = .ok value ↔ found = some value := by
  cases found with
  | some found =>
      rw [Option.some.injEq]
      exact (Except.ok.injEq found value).to_iff
  | none => exact ⟨nofun, nofun⟩

theorem expect_ne_bound {Found : Type} {found : Option Found} (other : misread ≠ .bound) :
    misread.expect found ≠ .error .bound := by
  intro missing
  cases found with
  | some found => cases missing
  | none => exact other (Except.error.inj missing)

theorem writeEntry_ne_bound (usable : ∀ parameters ∈ data.parameters, parameters.Usable) :
    data.writeEntry value presence columns output place ≠ .error .bound := by
  intro missing
  unfold writeEntry at missing
  rcases Outcome.bind_eq_error_iff.mp missing with absent | ⟨present, _found, rest⟩
  · exact expect_ne_bound (by decide) absent
  split at rest
  · cases rest
  rcases Outcome.bind_eq_error_iff.mp rest with absent | ⟨parameters, listed, rest⟩
  · exact expect_ne_bound (by decide) absent
  rcases Outcome.bind_eq_error_iff.mp rest with absent | ⟨found, _read, rest⟩
  · exact expect_ne_bound (by decide) absent
  have member := List.mem_of_getElem? (expect_eq_ok_iff.mp listed)
  rw [(usable parameters member).checkedRescale] at rest
  simp only [bind, Except.bind] at rest
  split at rest
  · cases rest
  · cases rest

theorem foldlM_writeEntry_ne_bound (usable : ∀ parameters ∈ data.parameters, parameters.Usable)
    (entries : List (Nat × Nat)) :
    entries.foldlM (data.writeEntry value presence columns) output ≠ .error .bound := by
  induction entries generalizing output with
  | nil => exact nofun
  | cons place entries ih =>
      intro missing
      rw [List.foldlM_cons] at missing
      rcases Outcome.bind_eq_error_iff.mp missing with here | ⟨next, _written, later⟩
      · exact writeEntry_ne_bound usable here
      · exact ih later

/-! #### Positions -/

def entryFor (data : NormalizationData) (value presence : Tensor) (position : Nat) : Double :=
  if presence.get position == 0.0 then 0.0
  else
    match data.parameters[position % data.size]? with
    | some parameters => parameters.rescale (value.get position)
    | none => 0.0

def written (data : NormalizationData) (value presence : Tensor) (done : List Nat) : Tensor :=
  Tensor.tabulate value.shape fun position =>
    if position ∈ done then data.entryFor value presence position else 0.0

theorem normalize_eq_tabulate (aligned : value.shape = presence.shape)
    (matrix : value.shape = [rows, data.size]) :
    data.normalize value presence =
      .ok (Tensor.tabulate value.shape (data.entryFor value presence)) := by
  have entries (position : Nat) :
      (if presence.get position == 0.0 then 0.0
        else
          match data.parameters.toArray[position % data.size]? with
          | some parameters => parameters.rescale (value.get position)
          | none => 0.0) = data.entryFor value presence position := by
    rw [List.getElem?_toArray, entryFor]
  unfold normalize
  rw [if_neg (not_not_intro aligned), matrix, ← funext entries]
  exact if_pos rfl

theorem getElem?_data {tensor : Tensor} {position : Nat} (inside : position < tensor.size) :
    tensor.data[position]? = some (tensor.get position) := by
  unfold Tensor.get
  rw [Array.getElem?_eq_getElem inside]
  rfl

theorem written_of_missing {position : Nat} (missing : (presence.get position == 0.0) = true) :
    data.written value presence (position :: done) = data.written value presence done := by
  refine Tensor.tabulate_congr fun other _inside => ?_
  by_cases same : other = position
  · subst same
    have zero : data.entryFor value presence other = 0.0 := if_pos missing
    rw [zero, ite_self, ite_self]
  · simp only [List.mem_cons, same, false_or]

theorem set_written {position : Nat}
    (inside : position < (data.written value presence done).data.size) :
    (data.written value presence done).data.set position
        (data.entryFor value presence position) inside =
      (data.written value presence (position :: done)).data := by
  refine Array.ext (by rw [Array.size_set]; exact Array.size_ofFn.trans Array.size_ofFn.symm)
    fun other first second => ?_
  rw [Array.getElem_set]
  unfold written Tensor.tabulate
  simp only [Array.getElem_ofFn, List.mem_cons]
  by_cases same : position = other
  · rw [if_pos same, if_pos (.inl same.symm), same]
  · rw [if_neg same]
    simp only [Ne.symm same, false_or]

theorem size_of_matrix (unwrapped : value.Exact) (matrix : value.shape = [rows, columns]) :
    value.size = rows * columns := by
  rw [unwrapped, matrix]
  simp only [Shape.volume, Nat.mul_one]

theorem writeEntry_written (usable : ∀ parameters ∈ data.parameters, parameters.Usable)
    (unwrapped : value.Exact) (aligned : value.shape = presence.shape)
    (matrix : value.shape = [rows, data.size]) (done : List Nat) {row column : Nat}
    (rowInside : row < rows) (columnInside : column < data.size) :
    data.writeEntry value presence data.size (data.written value presence done).data
        (row, column) =
      .ok (data.written value presence ((row * data.size + column) :: done)).data := by
  have size := size_of_matrix unwrapped matrix
  have inside : row * data.size + column < value.size :=
    size ▸ Shape.entry_lt rowInside columnInside
  have bounded : value.size < Word.modulus := by
    rw [unwrapped]
    exact unwrapped.volume_lt
  have place : stored data.size (row, column) = row * data.size + column :=
    Word.wrap_of_lt (Nat.lt_trans inside bounded)
  have columnOf : (row * data.size + column) % data.size = column := by
    rw [Nat.mul_comm, Nat.mul_add_mod, Nat.mod_eq_of_lt columnInside]
  generalize row * data.size + column = position at *
  have presentRead : presence.data[position]? = some (presence.get position) := by
    refine getElem?_data ?_
    rwa [Tensor.size_eq, ← aligned, ← Tensor.size_eq]
  have valueRead := getElem?_data inside
  have listed := List.getElem?_eq_getElem columnInside
  have room : position < (data.written value presence done).data.size := by
    rw [(data.written value presence done).data_size, written, Tensor.shape_tabulate_shape,
      ← Tensor.size_eq]
    exact inside
  have rescaled := (usable _ (List.getElem_mem columnInside)).checkedRescale (value.get position)
  unfold writeEntry
  rw [place, presentRead, valueRead]
  simp only [Misread.expect, listed, bind, Except.bind, rescaled]
  by_cases missing : (presence.get position == 0.0) = true
  · rw [if_pos missing, written_of_missing missing]
    rfl
  · have entry : data.entryFor value presence position =
        data.parameters[column].rescale (value.get position) := by
      unfold entryFor
      rw [if_neg missing, columnOf, listed]
    rw [if_neg missing, dif_pos room, ← entry, set_written]
    rfl

theorem foldlM_writeEntry_written (usable : ∀ parameters ∈ data.parameters, parameters.Usable)
    (unwrapped : value.Exact) (aligned : value.shape = presence.shape)
    (matrix : value.shape = [rows, data.size]) {entries : List (Nat × Nat)}
    (inside : ∀ place ∈ entries, place.1 < rows ∧ place.2 < data.size) (done : List Nat) :
    entries.foldlM (data.writeEntry value presence data.size)
        (data.written value presence done).data =
      .ok (data.written value presence
        ((entries.map fun place => place.1 * data.size + place.2).reverse ++ done)).data := by
  induction entries generalizing done with
  | nil => rfl
  | cons place entries ih =>
      rcases place with ⟨row, column⟩
      rcases List.forall_mem_cons.mp inside with ⟨⟨rowInside, columnInside⟩, rest⟩
      rw [List.foldlM_cons,
        writeEntry_written usable unwrapped aligned matrix done rowInside columnInside]
      change entries.foldlM _ _ = _
      rw [ih rest, List.map_cons, List.reverse_cons, List.append_assoc]
      rfl

theorem mem_places {row column : Nat} :
    (row, column) ∈ places rows columns ↔ row < rows ∧ column < columns := by
  unfold places
  rw [List.pair_mem_product, List.mem_range, List.mem_range]

theorem exists_place {position : Nat} (inside : position < rows * columns) :
    ∃ place ∈ places rows columns, place.1 * columns + place.2 = position := by
  have some_column : 0 < columns := Nat.pos_of_mul_pos_left (Nat.zero_lt_of_lt inside)
  refine ⟨(position / columns, position % columns), mem_places.mpr ⟨?_, ?_⟩, ?_⟩
  · exact Nat.div_lt_of_lt_mul (by rwa [Nat.mul_comm])
  · exact Nat.mod_lt position some_column
  · exact Nat.div_add_mod' position columns

theorem written_nil :
    (data.written value presence []).data = (Tensor.full value.shape 0.0).data := by
  unfold written Tensor.tabulate Tensor.full
  simp only [List.not_mem_nil, ↓reduceIte]
  refine Array.ext (Array.size_ofFn.trans Array.size_replicate.symm) fun position first second => ?_
  rw [Array.getElem_ofFn, Array.getElem_replicate]

/-- On a matrix with one element for each position, the whole loop stays inside, and what it leaves
is the normalized matrix. -/
theorem foldlM_writeEntry_places (usable : ∀ parameters ∈ data.parameters, parameters.Usable)
    (unwrapped : value.Exact) (aligned : value.shape = presence.shape)
    (matrix : value.shape = [rows, data.size]) :
    (places rows data.size).foldlM (data.writeEntry value presence data.size)
        (Tensor.full value.shape 0.0).data =
      .ok (Tensor.tabulate value.shape (data.entryFor value presence)).data := by
  rw [← @written_nil data value presence,
    foldlM_writeEntry_written usable unwrapped aligned matrix fun place => mem_places.mp,
    List.append_nil]
  refine congrArg (fun output : Tensor => Except.ok output.data)
    (Tensor.tabulate_congr fun position inside => if_pos ?_)
  rw [Shape.words_of_lt value.sizes_lt, ← Tensor.size_eq, size_of_matrix unwrapped matrix] at inside
  exact List.mem_reverse.mpr (List.mem_map.mpr (exists_place inside))

/-- The checked normalization of values that hold one element for each position misses nothing and
has the outcome of the normalization, also where that is a refusal. -/
theorem checkedNormalize_of_exact (usable : ∀ parameters ∈ data.parameters, parameters.Usable)
    (unwrapped : value.Exact) :
    data.checkedNormalize value presence =
      .ok ((data.normalize value presence).map Tensor.data) := by
  by_cases aligned : value.shape = presence.shape
  · unfold checkedNormalize
    rw [if_neg (not_not_intro aligned)]
    split
    · rename_i rows columns matrix
      by_cases counted : columns = data.size
      · subst counted
        rw [if_pos rfl, foldlM_writeEntry_places usable unwrapped aligned matrix,
          normalize_eq_tabulate aligned matrix]
        rfl
      · unfold normalize
        rw [if_neg counted, if_neg (not_not_intro aligned), matrix]
        simp only [counted, ↓reduceIte]
        rfl
    · rename_i other
      unfold normalize
      rw [if_neg (not_not_intro aligned)]
      split
      · rename_i rows columns matrix
        exact absurd matrix (other rows columns)
      · rfl
  · unfold checkedNormalize normalize
    rw [if_pos aligned, if_pos aligned]
    rfl

theorem checkedNormalize_ne_bound (usable : ∀ parameters ∈ data.parameters, parameters.Usable)
    (value presence : Tensor) : data.checkedNormalize value presence ≠ .error .bound := by
  unfold checkedNormalize
  split
  · exact nofun
  split
  · split
    · intro missing
      rcases Outcome.bind_eq_error_iff.mp missing with run | ⟨_output, _ran, done⟩
      · exact foldlM_writeEntry_ne_bound usable _ run
      · cases done
    · exact nofun
  · exact nofun

/-- Statistics that were read survive their written form and can be used. Each column is rescaled
without a bound that is not there, and where the values hold one element for each position, every
read and write of the loop is inside. -/
theorem usable_of_read {json : Json} {data : NormalizationData} (read : ofJson json = .ok data) :
    ofJson data.toJson = .ok data ∧ (∀ parameters ∈ data.parameters, parameters.Usable) ∧
      ∀ value presence : Tensor, data.checkedNormalize value presence ≠ .error .bound ∧
        (value.Exact → data.checkedNormalize value presence =
          .ok ((data.normalize value presence).map Tensor.data)) := by
  have usable := usable_of_ofJson read
  exact ⟨ofJson_toJson usable, usable, fun value presence =>
    ⟨checkedNormalize_ne_bound usable value presence, checkedNormalize_of_exact usable⟩⟩

/-- One column of actions between the bounds zero and one. -/
theorem usable_of_read_action :
    ∃ data value presence,
      ofJson (.obj [("dense_normalization_parameters", .arr [.obj [("feature_id", .int 7),
        ("feature_type", .str "CONTINUOUS_ACTION"), ("max_value", .int 1),
        ("min_value", .int 0)]])]) = .ok data ∧
      data.size = 1 ∧ value.Exact ∧
      data.checkedNormalize value presence =
        .ok ((data.normalize value presence).map Tensor.data) := by
  have read : ∃ data, ofJson (.obj [("dense_normalization_parameters", .arr [.obj [
      ("feature_id", .int 7), ("feature_type", .str "CONTINUOUS_ACTION"), ("max_value", .int 1),
      ("min_value", .int 0)]])]) = .ok data ∧ data.size = 1 := ⟨_, rfl, rfl⟩
  rcases read with ⟨data, read, counted⟩
  have exact : (Tensor.full [2, 1] 0.0).Exact := by decide
  exact ⟨data, .full [2, 1] 0.0, .full [2, 1] 1.0, read, counted, exact,
    ((usable_of_read read).2.2 _ _).2 exact⟩

end NormalizationData

end Featurize
