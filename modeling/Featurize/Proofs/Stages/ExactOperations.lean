import Featurize.Proofs.Records.Exactness
import Featurize.Proofs.Sequences.Slates
import Featurize.Stage.Operation

/-!
Exactness under operations. Pairing, masking, selecting, columns, rows and moves of whole
fields make no tensor that could fail to be exact. The other operations make elements for
shapes that they compute from their options and from the tensors that they meet; where the
sizes of such a shape multiply to more than a word holds, the product wraps and the elements
are too few. As long as none of the shapes asked for does so, an exact record stays exact.
-/

namespace Featurize

/-! ### Shapes that operations ask for -/

namespace Field

def oneHotShape? (classes : Nat) : Field → Option Shape
  | .tensor dense => some (dense.shape ++ [classes])
  | _ => none

def slateShape? (size : Nat) : Field → Option Shape
  | .tensor dense =>
      match dense.shape with
      | [_, columns] => some [size, columns]
      | _ => none
  | _ => none

def extendedShape? (axis : Int) (value : Double) : Field → Option Shape
  | .tensor dense =>
      Tensor.joinedShape? axis [Tensor.full (dense.shape.dropLast ++ [1]) value, dense]
  | _ => none

def repeatedShape? (axis : Int) (count : Nat) : Field → Option Shape
  | .tensor dense => dense.repeatedShape? axis count
  | _ => none

end Field

namespace Record

def askedEach (replace : Record → String → Except Fault Record) (ask : Field → Option Shape) :
    Record → List String → List Shape
  | _, [] => []
  | record, key :: keys =>
      ((record.find? key).bind ask).toList ++
        match replace record key with
        | .ok next => askedEach replace ask next keys
        | .error _ => []

def askedSlates (record : Record) (keys : List String) (size : Nat) : List Shape :=
  record.askedEach (fun record key => record.replaceEach [key] (cutSlates size))
    (Field.slateShape? size) keys

def joinedTensors (record : Record) (inputs : List String) (axis : Int) (broadcast : Bool) :
    Except Fault (List Tensor) := do
  let tensors ← inputs.mapM record.tensor
  if broadcast then Tensor.broadcastForConcatenation tensors axis else pure tensors

end Record

/-- The shapes for which an operation makes elements on a record. The pairing, masking and
selecting of presence, columns, and moves of whole fields ask for none. -/
def Operation.asked (record : Record) : Operation → List Shape
  | .oneHotActions keys actions =>
      record.askedEach (fun record key => record.oneHotActions [key] actions)
        (Field.oneHotShape? (Word.wrap (actions + 1))) keys
  | .slateView keys size => record.askedSlates keys size
  | .appendConstant keys axis value =>
      record.askedEach (fun record key => record.appendConstant [key] axis value)
        (Field.extendedShape? axis value) keys
  | .unsqueezeRepeat keys axis count =>
      record.askedEach (fun record key => record.unsqueezeRepeat [key] axis count)
        (Field.repeatedShape? axis count) keys
  | .outerProduct left right _ _ =>
      match record.tensor left, record.tensor right with
      | .ok leftFactor, .ok rightFactor => (leftFactor.outerShape? rightFactor).toList
      | _, _ => []
  | .identityMatrix _ size => [[size, size]]
  | .concatenate inputs _ axis broadcast =>
      match record.joinedTensors inputs axis broadcast with
      | .ok tensors => (Tensor.joinedShape? axis tensors).toList
      | .error _ => []
  | _ => []

/-! ### Operations -/

theorem Word.toNat_signed_le (size : Nat) : (Word.signed size).toNat ≤ size := by
  have whole : (size : Int) % (Word.modulus : Int) ≤ size := by
    rw [← Int.natCast_emod]
    exact Int.ofNat_le.mpr (Nat.mod_le size Word.modulus)
  unfold Word.signed
  rw [Int.bmod_def]
  split <;> omega

theorem Word.toNat_signed_lt (size : Nat) : (Word.signed size).toNat < Word.modulus := by
  have below : Word.signed size < Word.modulus := by
    have half := @Int.bmod_lt size Word.modulus (by decide)
    unfold Word.signed
    omega
  have positive : 0 < Word.modulus := by decide
  omega

namespace Record

variable {record output : Record} {keys : List String}
  {change : String → Field → Except Fault Field} {ask : Field → Option Shape}

/-- What every change keeps, as long as the shape that it asks for fits, fields replaced in turn
keep. -/
theorem exact_replaceEach {replace : Record → String → Except Fault Record}
    (exact : record.Exact) (fits : ∀ shape ∈ record.askedEach replace ask keys, shape.FitsWord)
    (replaced : record.replaceEach keys change = .ok output)
    (alone : ∀ record key, replace record key = record.replaceEach [key] change)
    (step : ∀ key field changed, change key field = .ok changed → field.Exact →
      (∀ shape ∈ ask field, shape.FitsWord) → changed.Exact) : output.Exact := by
  induction keys generalizing record with
  | nil =>
      cases replaced
      exact exact
  | cons key keys ih =>
      obtain ⟨field, changed, found, made, rest⟩ := replaceEach_cons_eq_ok_iff.mp replaced
      have single : replace record key = .ok (record.set key changed) := by
        rw [alone]
        exact replaceEach_cons_eq_ok_iff.mpr ⟨field, changed, found, made, rfl⟩
      unfold askedEach at fits
      rw [found, single] at fits
      obtain ⟨here, later⟩ := List.forall_mem_append.mp fits
      have kept := step key field changed made (exact key field found)
        (fun shape asked => here shape (Option.mem_toList.mpr asked))
      exact ih (exact.set key kept) later rest

theorem askedEach_none (replace : Record → String → Except Fault Record) (record : Record)
    (keys : List String) : record.askedEach replace (fun _field => none) keys = [] := by
  induction keys generalizing record with
  | nil => rfl
  | cons key keys ih =>
      unfold askedEach
      rw [Option.bind_fun_none, Option.toList_none, List.nil_append]
      split
      · exact ih _
      · rfl

theorem exact_replaceEach_of_keeps (exact : record.Exact)
    (replaced : record.replaceEach keys change = .ok output)
    (keeps : ∀ key field changed, change key field = .ok changed → field.Exact → changed.Exact) :
    output.Exact := by
  have fits : ∀ shape ∈ record.askedEach (fun record key => record.replaceEach [key] change)
      (fun _field => none) keys, shape.FitsWord := by
    rw [askedEach_none]
    exact nofun
  exact exact_replaceEach exact fits replaced (fun _record _key => rfl)
    (fun key field changed made held _fits => keeps key field changed made held)

theorem exact_foldl {Item : Type} {step : Record → Item → Record}
    (keeps : ∀ record item, record.Exact → (step record item).Exact) (exact : record.Exact)
    (items : List Item) : (items.foldl step record).Exact := by
  induction items generalizing record with
  | nil => exact exact
  | cons item items ih => exact ih (keeps record item exact)

theorem exact_dense? {field : Field} (held : field.Exact) {dense : Tensor}
    (viewed : field.dense? = some dense) : dense.Exact := by
  cases field with
  | tensor given =>
      cases viewed
      exact held
  | scalarList values =>
      cases viewed
      exact Tensor.exact_ofList values
  | _ => cases viewed

theorem exact_pairPresence (exact : record.Exact) : record.pairPresence.Exact := by
  refine exact_foldl (fun record key exact => ?_) exact _
  unfold pairPresenceAt
  split
  · rename_i value presence valueAt presenceAt
    obtain ⟨field, found, viewed⟩ := Option.bind_eq_some_iff.mp valueAt
    obtain ⟨mask, maskFound, maskViewed⟩ := Option.bind_eq_some_iff.mp presenceAt
    exact (exact.erase _).set _ ⟨exact_dense? (exact _ _ found) viewed,
      exact_dense? (exact _ _ maskFound) maskViewed⟩
  · exact exact

theorem exact_asTensor {key : String} {field : Field} {dense : Tensor} (held : field.Exact)
    (read : field.asTensor key = .ok dense) : field = .tensor dense ∧ dense.Exact := by
  cases field with
  | tensor given =>
      cases read
      exact ⟨rfl, held⟩
  | _ => cases read

theorem exact_maskByPresence (exact : record.Exact)
    (masked : record.maskByPresence keys = .ok output) : output.Exact := by
  refine exact_replaceEach_of_keeps exact masked (fun key field changed made held => ?_)
  simp only [Outcome.bind_eq_ok_iff, Outcome.liftShape_eq_ok_iff, Outcome.pure_eq_ok_iff] at made
  obtain ⟨pair, read, _checked, _aligned, product, multiplied, rfl⟩ := made
  cases field with
  | valuePresence given =>
      cases read
      exact Tensor.exact_multiply held.value multiplied
  | _ => cases read

theorem exact_selectColumns {source destination : String} {columns : List Nat}
    (exact : record.Exact)
    (selected : record.selectColumns source destination columns = .ok output) :
    output.Exact := by
  unfold selectColumns at selected
  simp only [Outcome.bind_eq_ok_iff, Outcome.liftShape_eq_ok_iff, Outcome.pure_eq_ok_iff,
    Outcome.guard_eq_ok_iff] at selected
  obtain ⟨pair, read, _checked, _aligned, _matrix, value, valueChosen, presence, presenceChosen,
    rfl⟩ := selected
  have held := exact.pair read
  exact exact.set _ ⟨Tensor.exact_selectColumns held.value valueChosen,
    Tensor.exact_selectColumns held.presence presenceChosen⟩

theorem exact_columnVector (exact : record.Exact)
    (made : record.columnVector keys = .ok output) : output.Exact := by
  refine exact_replaceEach_of_keeps exact made (fun key field changed made held => ?_)
  simp only [Outcome.bind_eq_ok_iff, Outcome.liftShape_eq_ok_iff, Outcome.pure_eq_ok_iff,
    Outcome.guard_eq_ok_iff] at made
  obtain ⟨_value, _read, _column, shaped, reshaped, rfl⟩ := made
  exact Tensor.exact_reshape_open (by decide) reshaped

theorem exact_oneHotActions {actions : Nat} (exact : record.Exact)
    (fits : ∀ shape ∈ (Operation.oneHotActions keys actions).asked record, shape.FitsWord)
    (made : record.oneHotActions keys actions = .ok output) : output.Exact := by
  refine exact_replaceEach exact fits made (fun _record _key => rfl)
    (fun key field changed made held fits => ?_)
  simp only [Outcome.bind_eq_ok_iff, Outcome.liftShape_eq_ok_iff, Outcome.pure_eq_ok_iff] at made
  obtain ⟨dense, read, rows, encoded, kept, chosen, rfl⟩ := made
  obtain ⟨rfl, _dense⟩ := exact_asTensor held read
  exact Tensor.exact_oneHot (fits _ rfl) encoded chosen

theorem exact_stackRows {size : Nat} (exact : record.Exact)
    (made : record.stackRows keys size = .ok output) : output.Exact := by
  refine exact_replaceEach_of_keeps exact made (fun key field changed made held => ?_)
  split at made
  · split at made
    · cases made
      exact held
    · cases made
  · cases made
    refine Tensor.exact_of_shape rfl ?_
    unfold Shape.FitsWord
    rw [Shape.volume, Nat.zero_mul]
    decide
  · simp only [Outcome.bind_eq_ok_iff, Outcome.liftShape_eq_ok_iff, Outcome.pure_eq_ok_iff] at made
    obtain ⟨_joined, _concatenated, rows, reshaped, rfl⟩ := made
    refine Tensor.exact_reshape_open ?_ reshaped
    change (Word.signed size).toNat * 1 < Word.modulus
    rw [Nat.mul_one]
    exact Word.toNat_signed_lt size
  · cases made

theorem exact_of_cutSlates {size : Nat} {key : String} {field changed : Field}
    (made : cutSlates size key field = .ok changed)
    (fits : ∀ shape ∈ field.slateShape? size, shape.FitsWord) : changed.Exact := by
  obtain ⟨matrix, rows, columns, slates, rfl, shaped, regrouped, rfl⟩ :=
    cutSlates_eq_ok_iff.mp made
  have asked : Shape.FitsWord [size, columns] := by
    refine fits _ ?_
    simp only [Field.slateShape?, shaped, Option.mem_def]
  refine Tensor.exact_reshape_open (Nat.lt_of_le_of_lt ?_ asked) regrouped
  exact Nat.mul_le_mul (Word.toNat_signed_le size)
    (Nat.mul_le_mul_right 1 (Word.toNat_signed_le columns))

theorem exact_slateView {size : Nat} (exact : record.Exact)
    (fits : ∀ shape ∈ record.askedSlates keys size, shape.FitsWord)
    (made : record.slateView keys size = .ok output) : output.Exact :=
  exact_replaceEach exact fits (slateView_eq_ok_iff.mp made).2 (fun _record _key => rfl)
    (fun _key _field _changed made _held fits => exact_of_cutSlates made fits)

theorem exact_appendConstant {axis : Int} {value : Double} (exact : record.Exact)
    (fits : ∀ shape ∈ (Operation.appendConstant keys axis value).asked record, shape.FitsWord)
    (made : record.appendConstant keys axis value = .ok output) : output.Exact := by
  refine exact_replaceEach exact fits made (fun _record _key => rfl)
    (fun key field changed made held fits => ?_)
  simp only [Outcome.bind_eq_ok_iff, Outcome.liftShape_eq_ok_iff, Outcome.pure_eq_ok_iff,
    Outcome.guard_eq_ok_iff] at made
  obtain ⟨dense, read, _axes, joined, concatenated, rfl⟩ := made
  obtain ⟨rfl, _dense⟩ := exact_asTensor held read
  refine Tensor.exact_concatenate ?_ concatenated
  exact fits

theorem exact_unsqueezeRepeat {axis : Int} {count : Nat} (exact : record.Exact)
    (fits : ∀ shape ∈ (Operation.unsqueezeRepeat keys axis count).asked record, shape.FitsWord)
    (made : record.unsqueezeRepeat keys axis count = .ok output) : output.Exact := by
  refine exact_replaceEach exact fits made (fun _record _key => rfl)
    (fun key field changed made held fits => ?_)
  simp only [Outcome.bind_eq_ok_iff, Outcome.liftShape_eq_ok_iff] at made
  obtain ⟨dense, read, inserted, unsqueezed, made⟩ := made
  obtain ⟨rfl, denseExact⟩ := exact_asTensor held read
  split at made
  · cases made
    exact Tensor.exact_unsqueeze denseExact unsqueezed
  · simp only [Outcome.bind_eq_ok_iff, Outcome.liftShape_eq_ok_iff, Outcome.pure_eq_ok_iff]
      at made
    obtain ⟨place, found, tiled, repeated, rfl⟩ := made
    exact Tensor.exact_repeat fits denseExact unsqueezed found repeated

theorem exact_outerProduct {left right target : String} {dropInputs : Bool} (exact : record.Exact)
    (fits : ∀ shape ∈ (Operation.outerProduct left right target dropInputs).asked record,
      shape.FitsWord)
    (made : record.outerProduct left right target dropInputs = .ok output) : output.Exact := by
  unfold outerProduct at made
  simp only [Outcome.bind_eq_ok_iff, Outcome.liftShape_eq_ok_iff, Outcome.pure_eq_ok_iff] at made
  obtain ⟨rightFactor, rightRead, leftFactor, leftRead, product, multiplied, same⟩ := made
  have stored : (record.set target (.tensor product)).Exact := by
    refine exact.set target (Tensor.exact_outerProduct (fun shape asked => fits shape ?_) multiplied)
    simp only [Operation.asked, leftRead, rightRead]
    exact Option.mem_toList.mpr asked
  split at same
  · exact same ▸ (stored.erase left).erase right
  · exact same ▸ stored

theorem exact_concatenate {inputs : List String} {target : String} {axis : Int} {broadcast : Bool}
    (exact : record.Exact)
    (fits : ∀ shape ∈ (Operation.concatenate inputs target axis broadcast).asked record,
      shape.FitsWord)
    (made : record.concatenate inputs target axis broadcast = .ok output) : output.Exact := by
  unfold concatenate at made
  obtain ⟨tensors, read, made⟩ := Outcome.bind_eq_ok_iff.mp made
  have parts : ∃ parts joined, record.joinedTensors inputs axis broadcast = .ok parts ∧
      Tensor.concatenate parts axis = .ok joined ∧ record.set target (.tensor joined) = output := by
    unfold joinedTensors
    simp only [read]
    cases broadcast with
    | true =>
        simp only [↓reduceIte, Outcome.bind_eq_ok_iff, Outcome.liftShape_eq_ok_iff,
          Outcome.pure_eq_ok_iff] at made
        obtain ⟨parts, stretched, joined, concatenated, same⟩ := made
        exact ⟨parts, joined, Outcome.liftShape_eq_ok_iff.mpr stretched, concatenated, same⟩
    | false =>
        simp only [Bool.false_eq_true, ↓reduceIte, Outcome.bind_eq_ok_iff,
          Outcome.liftShape_eq_ok_iff, Outcome.pure_eq_ok_iff] at made
        obtain ⟨_tensors, rfl, joined, concatenated, same⟩ := made
        exact ⟨tensors, joined, rfl, concatenated, same⟩
  obtain ⟨parts, joined, joins, concatenated, rfl⟩ := parts
  refine exact.set target (Tensor.exact_concatenate (fun shape asked => fits shape ?_) concatenated)
  simp only [Operation.asked, joins]
  exact Option.mem_toList.mpr asked

/-! ### Names -/

theorem exact_rename {names : List (String × String)} (exact : record.Exact)
    (renamed : record.rename names = .ok output) : output.Exact := by
  unfold rename at renamed
  induction names generalizing record with
  | nil =>
      cases renamed
      exact exact
  | cons name names ih =>
      rw [List.foldlM_cons] at renamed
      obtain ⟨next, moved, rest⟩ := Outcome.bind_eq_ok_iff.mp renamed
      refine ih ?_ rest
      unfold take at moved
      simp only [Outcome.bind_eq_ok_iff, Outcome.pure_eq_ok_iff] at moved
      obtain ⟨⟨field, others⟩, ⟨held, read, same⟩, rfl⟩ := moved
      cases same
      exact (exact.erase name.1).set name.2 (exact.get read)

theorem exact_keep (exact : record.Exact) (keys : List String) : (record.keep keys).Exact := by
  refine exact_foldl (fun kept key keptExact => ?_) exact_empty keys
  cases found : record.find? key with
  | none => exact keptExact
  | some field => exact keptExact.set key (exact key field found)

theorem exact_remove (exact : record.Exact) (keys : List String) : (record.remove keys).Exact :=
  exact_foldl (fun _record key held => held.erase key) exact keys

end Record

def Operation.KeepsExact : Operation → Prop
  | .mapTensors _ function _ =>
      ∀ tensor result, tensor.Exact → function tensor = .ok result → result.Exact
  | _ => True

theorem Operation.exact_run {plain : Operation} {record output : Record}
    (keeps : plain.KeepsExact) (exact : record.Exact)
    (fits : ∀ shape ∈ plain.asked record, shape.FitsWord)
    (passed : plain.run record = .ok output) : output.Exact := by
  cases plain with
  | pairPresence =>
      cases passed
      exact Record.exact_pairPresence exact
  | maskByPresence keys => exact Record.exact_maskByPresence exact passed
  | selectColumns source destination columns => exact Record.exact_selectColumns exact passed
  | columnVector keys => exact Record.exact_columnVector exact passed
  | oneHotActions keys actions => exact Record.exact_oneHotActions exact fits passed
  | stackRows keys size => exact Record.exact_stackRows exact passed
  | slateView keys size => exact Record.exact_slateView exact fits passed
  | appendConstant keys axis value => exact Record.exact_appendConstant exact fits passed
  | unsqueezeRepeat keys axis count => exact Record.exact_unsqueezeRepeat exact fits passed
  | outerProduct left right target dropInputs =>
      exact Record.exact_outerProduct exact fits passed
  | identityMatrix key size =>
      cases passed
      exact exact.set key (Tensor.exact_identity (fits _ (List.mem_singleton_self _)))
  | concatenate inputs target axis broadcast => exact Record.exact_concatenate exact fits passed
  | rename old new => exact Record.exact_rename exact passed
  | keep keys =>
      cases passed
      exact Record.exact_keep exact keys
  | remove keys =>
      cases passed
      exact Record.exact_remove exact keys
  | mapTensors keys function name =>
      refine Record.exact_replaceEach_of_keeps exact passed (fun key field changed made held => ?_)
      simp only [Outcome.bind_eq_ok_iff, Outcome.pure_eq_ok_iff] at made
      obtain ⟨dense, read, result, mapped, rfl⟩ := made
      exact keeps dense result (Record.exact_asTensor held read).2 mapped

end Featurize
