import Featurize.Proofs.Outcome
import Featurize.Proofs.Stages.Renewal
import Featurize.Stage.Basic

/-!
The order of keys. A stage that works on listed keys changes the field under one key after the
other, and what it makes of a field does not depend on the fields under other keys. So updates under
different keys can be exchanged, and with distinct keys the order in which they are listed decides
neither whether a record is refused nor what becomes of it.
-/

namespace Featurize

/-! ### Updates in turn -/

namespace Record

variable {Item : Type} {key : Item → String} {change : Item → Option Field → Except Fault Field}
  {items others : List Item} {record output : Record}

def updateEach (key : Item → String) (change : Item → Option Field → Except Fault Field) :
    List Item → Record → Except Fault Record
  | [], record => .ok record
  | item :: items, record =>
      change item (record.find? (key item)) >>= fun changed =>
        updateEach key change items (record.set (key item) changed)

theorem set_comm {first second : String} (different : first ≠ second) (record : Record)
    (field other : Field) :
    (record.set first field).set second other = (record.set second other).set first field := by
  refine ext_find? fun name => ?_
  rw [find?_set, find?_set, find?_set, find?_set]
  by_cases isFirst : first = name
  · have notSecond : ¬ second = name := fun same => different (isFirst.trans same.symm)
    rw [if_neg notSecond, if_pos isFirst, if_pos isFirst]
  · rw [if_neg isFirst, if_neg isFirst]

theorem updateEach_cons_eq_ok_iff {item : Item} :
    updateEach key change (item :: items) record = .ok output ↔
      ∃ changed, change item (record.find? (key item)) = .ok changed ∧
        updateEach key change items (record.set (key item) changed) = .ok output :=
  Outcome.bind_eq_ok_iff

theorem updateEach_append (items others : List Item) (record : Record) :
    updateEach key change (items ++ others) record =
      updateEach key change items record >>= updateEach key change others := by
  induction items generalizing record with
  | nil => rfl
  | cons item items ih =>
      rw [List.cons_append, updateEach, updateEach]
      cases change item (record.find? (key item)) with
      | error fault => rfl
      | ok changed => exact ih (record.set (key item) changed)

theorem updateEach_swap_eq_ok {first second : Item} (different : key first ≠ key second)
    (made : updateEach key change (first :: second :: items) record = .ok output) :
    updateEach key change (second :: first :: items) record = .ok output := by
  obtain ⟨changedFirst, madeFirst, rest⟩ := updateEach_cons_eq_ok_iff.mp made
  obtain ⟨changedSecond, madeSecond, rest⟩ := updateEach_cons_eq_ok_iff.mp rest
  rw [find?_set, if_neg different] at madeSecond
  rw [set_comm different] at rest
  refine updateEach_cons_eq_ok_iff.mpr ⟨changedSecond, madeSecond,
    updateEach_cons_eq_ok_iff.mpr ⟨changedFirst, ?_, rest⟩⟩
  rw [find?_set, if_neg different.symm]
  exact madeFirst

/-- Updates under distinct keys have one result in every order. -/
theorem updateEach_perm (permuted : items.Perm others) (distinct : (items.map key).Nodup) :
    updateEach key change items record = .ok output ↔
      updateEach key change others record = .ok output := by
  -- Distinct keys are needed for the exchange alone, but every step has to hand them on.
  induction permuted generalizing record with
  | nil => exact Iff.rfl
  | cons item _permuted ih =>
      have tail := (List.nodup_cons.mp distinct).2
      rw [updateEach_cons_eq_ok_iff, updateEach_cons_eq_ok_iff]
      exact exists_congr fun changed => and_congr_right fun _made => ih tail
  | swap first second items =>
      have different : key second ≠ key first := fun same =>
        (List.nodup_cons.mp distinct).1 (same ▸ List.mem_cons_self ..)
      exact ⟨updateEach_swap_eq_ok different, updateEach_swap_eq_ok different.symm⟩
  | trans leads _follows ihLeads ihFollows =>
      exact (ihLeads distinct).trans (ihFollows ((leads.map key).nodup_iff.mp distinct))

theorem replaceEach_eq_updateEach (record : Record) (keys : List String)
    (change : String → Field → Except Fault Field) :
    record.replaceEach keys change =
      updateEach id (fun key field? => field?.elim (.error (.missingField key)) (change key)) keys
        record := by
  induction keys generalizing record with
  | nil => rfl
  | cons key keys ih =>
      rw [replaceEach_cons, updateEach, id, get]
      cases record.find? key with
      | none => rfl
      | some field =>
          change (change key field >>= fun changed =>
            (record.set key changed).replaceEach keys _) = _
          exact congrArg _ (funext fun changed => ih _)

theorem replaceEach_perm {keys permuted : List String}
    {change : String → Field → Except Fault Field} (reordered : permuted.Perm keys) (distinct : keys.Nodup) :
    record.replaceEach permuted change = .ok output ↔
      record.replaceEach keys change = .ok output := by
  rw [replaceEach_eq_updateEach, replaceEach_eq_updateEach]
  refine updateEach_perm reordered ?_
  rw [List.map_id]
  exact reordered.nodup_iff.mpr distinct

end Record

/-! ### Operations in place -/

namespace Operation

def listed? : Operation → Option (List String)
  | .maskByPresence keys => some keys
  | .columnVector keys => some keys
  | .oneHotActions keys _ => some keys
  | .stackRows keys _ => some keys
  | .slateView keys _ => some keys
  | .appendConstant keys _ _ => some keys
  | .unsqueezeRepeat keys _ _ => some keys
  | .mapTensors keys _ _ => some keys
  | _ => none

def withKeys (keys : List String) : Operation → Operation
  | .maskByPresence _ => .maskByPresence keys
  | .columnVector _ => .columnVector keys
  | .oneHotActions _ actions => .oneHotActions keys actions
  | .stackRows _ size => .stackRows keys size
  | .slateView _ size => .slateView keys size
  | .appendConstant _ axis value => .appendConstant keys axis value
  | .unsqueezeRepeat _ axis count => .unsqueezeRepeat keys axis count
  | .mapTensors _ function name => .mapTensors keys function name
  | other => other

variable {plain : Operation} {keys permuted : List String} {record output : Record}

theorem withKeys_of_listed (listed : plain.listed? = some keys) : plain.withKeys keys = plain := by
  cases plain <;> cases listed <;> rfl

theorem exists_change (listed : plain.listed? = some keys) :
    ∃ refusal : Except Fault Unit, ∃ change, ∀ other record,
      (plain.withKeys other).run record = refusal >>= fun _ => record.replaceEach other change := by
  cases plain with
  | maskByPresence keys => exact ⟨.ok (), _, fun _other _record => rfl⟩
  | columnVector keys => exact ⟨.ok (), _, fun _other _record => rfl⟩
  | oneHotActions keys actions => exact ⟨.ok (), _, fun _other _record => rfl⟩
  | stackRows keys size => exact ⟨.ok (), _, fun _other _record => rfl⟩
  | slateView keys size =>
      refine ⟨if size = 0 then .error (.config .noSlateSize) else .ok (), Record.cutSlates size,
        fun other record => ?_⟩
      change record.slateView other size = _
      unfold Record.slateView
      split
      · rfl
      · rfl
  | appendConstant keys axis value => exact ⟨.ok (), _, fun _other _record => rfl⟩
  | unsqueezeRepeat keys axis count => exact ⟨.ok (), _, fun _other _record => rfl⟩
  | mapTensors keys function name => exact ⟨.ok (), _, fun _other _record => rfl⟩
  | _ => cases listed

theorem run_withKeys_perm (listed : plain.listed? = some keys) (distinct : keys.Nodup)
    (reordered : permuted.Perm keys) :
    (plain.withKeys permuted).run record = .ok output ↔ plain.run record = .ok output := by
  obtain ⟨refusal, change, runs⟩ := exists_change listed
  have own := runs keys record
  rw [withKeys_of_listed listed] at own
  rw [own, runs permuted record, Outcome.bind_eq_ok_iff, Outcome.bind_eq_ok_iff]
  exact exists_congr fun _passed => and_congr_right fun _accepted =>
    Record.replaceEach_perm reordered distinct

end Operation

/-! ### Stages with a collaborator -/

namespace Deferred

variable {Product : Type} {deferred : Deferred Product} {product : Product}

theorem product_supply_again (supplied : deferred.supply.product = .ok product) :
    deferred.supply.deferred.supply.product = .ok product := by
  rw [supply_of_held (held_iff_supplied.mpr supplied)]

end Deferred

theorem DenseNormalization.apply_perm {stage : DenseNormalization} {permuted : List String}
    {record output : Record} (distinct : stage.keys.Nodup) (reordered : permuted.Perm stage.keys) :
    (({ stage with keys := permuted }).apply record).outcome = .ok output ↔
      (stage.apply record).outcome = .ok output := by
  rw [outcome_apply, outcome_apply, Outcome.bind_eq_ok_iff, Outcome.bind_eq_ok_iff]
  exact exists_congr fun _normalizer => and_congr_right fun _supplied =>
    Record.replaceEach_perm reordered distinct

namespace IdListMapping

variable {stage : IdListMapping} {record output : Record}

def encodeEntry (stage : IdListMapping) (product : Except Fault SparseEncoder)
    (entry : String × SparseForm) (field? : Option Field) : Except Fault Field :=
  (if stage.enabled then field? else none).elim (.ok .absent) fun field =>
    product >>= fun encoder => encodeField encoder entry.1 field entry.2

/-- Once the encoder is there it is the same for all fields, and before that it is built by the
first field that needs it, whichever that is. -/
theorem outcome_encodeAll (stage : IdListMapping) (entries : List (String × SparseForm))
    (encoder : Deferred SparseEncoder) (record : Record) :
    (stage.encodeAll entries encoder record).outcome =
      Record.updateEach Prod.fst (stage.encodeEntry encoder.supply.product) entries record := by
  induction entries generalizing encoder record with
  | nil => rfl
  | cons entry entries ih =>
      obtain ⟨key, form⟩ := entry
      unfold encodeAll Record.updateEach encodeEntry
      cases listed : (if stage.enabled then record.find? key else none) with
      | none => exact ih encoder (record.set key .absent)
      | some field =>
          simp only [Option.elim_some]
          cases supplied : encoder.supply.product with
          | error fault => rfl
          | ok product =>
              cases encoded : encodeField product key field form with
              | error fault => simp only [bind, Except.bind, encoded, Run.after, Run.silent]
              | ok changed =>
                  simp only [bind, Except.bind, encoded, Run.after]
                  rw [ih, Deferred.product_supply_again supplied]
                  rfl

theorem outcome_apply (stage : IdListMapping) (record : Record) :
    (stage.apply record).outcome =
      Record.updateEach Prod.fst (stage.encodeEntry stage.encoder.supply.product) stage.entries
        record :=
  stage.outcome_encodeAll stage.entries stage.encoder record

theorem updateEach_form_perm {keys permuted : List String} {form : SparseForm}
    {change : String × SparseForm → Option Field → Except Fault Field}
    (reordered : permuted.Perm keys) (distinct : keys.Nodup) :
    Record.updateEach Prod.fst change (permuted.map fun key => (key, form)) record = .ok output ↔
      Record.updateEach Prod.fst change (keys.map fun key => (key, form)) record = .ok output := by
  refine Record.updateEach_perm (reordered.map _) ?_
  rw [List.map_map]
  change (permuted.map id).Nodup
  rw [List.map_id]
  exact reordered.nodup_iff.mpr distinct

theorem apply_perm {ids scored : List String} (distinctIds : stage.idListKeys.Nodup)
    (distinctScored : stage.idScoreListKeys.Nodup) (idsReordered : ids.Perm stage.idListKeys)
    (scoredReordered : scored.Perm stage.idScoreListKeys) :
    (({ stage with idListKeys := ids, idScoreListKeys := scored }).apply record).outcome =
        .ok output ↔ (stage.apply record).outcome = .ok output := by
  rw [outcome_apply, outcome_apply, entries, entries, Record.updateEach_append,
    Record.updateEach_append, Outcome.bind_eq_ok_iff, Outcome.bind_eq_ok_iff]
  exact exists_congr fun _encodedIds => and_congr (updateEach_form_perm idsReordered distinctIds)
    (updateEach_form_perm scoredReordered distinctScored)

end IdListMapping

/-! ### Stages -/

namespace Stage

/-- The second stage is the first one in the same state, with its distinct keys listed in another
order. A mapping of id lists has two such lists. -/
inductive Reordered : Stage → Stage → Prop where
  | operation {plain : Operation} {keys permuted : List String}
      (listed : plain.listed? = some keys) (distinct : keys.Nodup)
      (reordered : permuted.Perm keys) :
      Reordered (.operation plain) (.operation (plain.withKeys permuted))
  | normalization {stage : DenseNormalization} {permuted : List String}
      (distinct : stage.keys.Nodup) (reordered : permuted.Perm stage.keys) :
      Reordered (.normalization stage) (.normalization { stage with keys := permuted })
  | encoding {stage : IdListMapping} {ids scored : List String}
      (distinctIds : stage.idListKeys.Nodup) (distinctScored : stage.idScoreListKeys.Nodup)
      (idsReordered : ids.Perm stage.idListKeys)
      (scoredReordered : scored.Perm stage.idScoreListKeys) :
      Reordered (.encoding stage)
        (.encoding { stage with idListKeys := ids, idScoreListKeys := scored })

variable {stage other : Stage}

/-- The order in which a stage lists its keys is of no consequence: from the same state every record
has one and the same output in both orders, or is refused in both. -/
theorem key_order_irrelevant (reordered : stage.Reordered other) (record : Record) :
    (∀ output, (other.apply record).outcome = .ok output ↔
      (stage.apply record).outcome = .ok output) ∧
    ((∃ fault, (other.apply record).outcome = .error fault) ↔
      ∃ fault, (stage.apply record).outcome = .error fault) := by
  have same : ∀ output, (other.apply record).outcome = .ok output ↔
      (stage.apply record).outcome = .ok output := by
    intro output
    cases reordered with
    | operation listed distinct reordered =>
        exact Operation.run_withKeys_perm listed distinct reordered
    | normalization distinct reordered => exact DenseNormalization.apply_perm distinct reordered
    | encoding distinctIds distinctScored idsReordered scoredReordered =>
        exact IdListMapping.apply_perm distinctIds distinctScored idsReordered scoredReordered
  exact ⟨same, Outcome.refused_iff_of_same same⟩

/-- A list of numbers and a matrix with one column, made columns in both orders. -/
theorem key_order_irrelevant_columns :
    ∃ output,
      ((Stage.operation (.columnVector ["a", "b"])).apply
        (.ofFields [("a", .scalarList [⟨3⟩, ⟨4⟩]), ("b", .tensor (.full [3, 1] 2.0))])).outcome =
          .ok output ∧
      ((Stage.operation (.columnVector ["b", "a"])).apply
        (.ofFields [("a", .scalarList [⟨3⟩, ⟨4⟩]), ("b", .tensor (.full [3, 1] 2.0))])).outcome =
          .ok output := by
  have passed : ((Stage.operation (.columnVector ["a", "b"])).apply (.ofFields
      [("a", .scalarList [⟨3⟩, ⟨4⟩]), ("b", .tensor (.full [3, 1] 2.0))])).outcome =
        .ok (_ : Record) := rfl
  have swapped : (Stage.operation (.columnVector ["a", "b"])).Reordered
      (.operation (.columnVector ["b", "a"])) :=
    @Reordered.operation (.columnVector ["a", "b"]) _ _ rfl (by decide) (.swap "a" "b" [])
  exact ⟨_, passed, ((key_order_irrelevant swapped _).1 _).mpr passed⟩

end Stage

end Featurize
