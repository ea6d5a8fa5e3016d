import Featurize.Proofs.Normalization.Entries
import Featurize.Proofs.Stages.Confinement
import Featurize.Proofs.Stages.Renewal

/-!
Masking. What the standard normalizer makes of a pair is one entry for each position, decided by
the column, the value and the presence there, and a missing value decides nothing. Two records
whose pairs have the same entries missing and the same values elsewhere therefore fare alike: both
are refused with one fault, or both get the same tensors, with zero wherever a value is missing.
-/

namespace Featurize

/-! ### Scaled pairs -/

namespace ValuePresence

def missingAt (pair : ValuePresence) (position : Nat) : Bool :=
  pair.presence.get position == 0.0 || (pair.value.get position).isNaN

/-- The same entries are missing in both pairs, and all others have the same value. Masks and values
have one shape. -/
structure SameKnown (left right : ValuePresence) : Prop where
  leftAligned : left.Aligned
  rightAligned : right.Aligned
  shape : left.value.shape = right.value.shape
  missing : ∀ position < left.value.size, left.missingAt position = right.missingAt position
  known : ∀ position < left.value.size, left.missingAt position = false →
    left.value.get position = right.value.get position

end ValuePresence

namespace NormalizationData

variable {data : NormalizationData} {pair left right : ValuePresence}

def entryAt (data : NormalizationData) (column : Nat) (value presence : Double) : Double :=
  (data.parameters[column]?.map (·.entry value presence)).getD 0.0

def scaled (data : NormalizationData) (pair : ValuePresence) : Tensor :=
  Tensor.tabulate pair.value.shape fun position =>
    data.entryAt (position % data.size) (pair.value.get position) (pair.presence.get position)

theorem entryAt_of_missing {position : Nat} (missing : pair.missingAt position = true)
    (column : Nat) :
    data.entryAt column (pair.value.get position) (pair.presence.get position) = 0.0 := by
  unfold entryAt
  cases data.parameters[column]? with
  | none => rfl
  | some parameters => exact if_pos missing

theorem entryAt_of_known {position : Nat} (present : pair.missingAt position = false)
    (column : Nat) :
    data.entryAt column (pair.value.get position) (pair.presence.get position) =
      (data.parameters[column]?.map (·.rescale (pair.value.get position))).getD 0.0 := by
  unfold entryAt
  cases data.parameters[column]? with
  | none => rfl
  | some parameters => exact if_neg (Bool.eq_false_iff.mp present)

theorem get_scaled_of_missing {position : Nat} (missing : pair.missingAt position = true) :
    (data.scaled pair).get position = 0.0 := by
  unfold Tensor.get scaled Tensor.tabulate
  rw [Array.getElem?_ofFn]
  split
  · exact entryAt_of_missing missing _
  · rfl

/-- Missing entries leave no trace in the scaled pair. -/
theorem scaled_eq_of_sameKnown (same : left.SameKnown right) :
    data.scaled left = data.scaled right := by
  unfold scaled
  rw [← same.shape]
  refine Tensor.tabulate_congr fun position inside => ?_
  have stored : position < left.value.size := by
    rwa [Tensor.size_eq, ← Shape.words_of_lt left.value.sizes_lt]
  cases missing : left.missingAt position with
  | true =>
      rw [entryAt_of_missing missing,
        entryAt_of_missing ((same.missing position stored).symm.trans missing)]
  | false =>
      rw [entryAt_of_known missing,
        entryAt_of_known ((same.missing position stored).symm.trans missing),
        same.known position stored missing]

theorem normalize_withoutNaN (aligned : pair.Aligned) :
    data.normalize pair.withoutNaN.value pair.withoutNaN.presence =
      if pair.value.shape = [pair.value.rows, data.size] then .ok (data.scaled pair)
      else .error (.normalizedColumns data.size pair.value.shape) := by
  have valueShape := pair.shape_value_withoutNaN
  have presenceShape : pair.withoutNaN.presence.shape = pair.value.shape :=
    (pair.presence.shape_tabulate_shape _).trans aligned.symm
  unfold normalize
  rw [valueShape, presenceShape, if_neg (not_not_intro rfl)]
  split
  · rename_i rows columns shape
    have rowsAre : pair.value.rows = rows := congrArg (fun sizes : Shape => sizes.headD 0) shape
    by_cases counted : columns = data.size
    · rw [if_pos counted, if_pos (by rw [shape, rowsAre, counted])]
      refine congrArg Except.ok (Tensor.tabulate_congr fun position inside => ?_)
      have value : pair.withoutNaN.value.get position =
          if (pair.value.get position).isNaN then 0.0 else pair.value.get position :=
        Tensor.get_tabulate _ _ _ inside
      have presence : pair.withoutNaN.presence.get position =
          if (pair.value.get position).isNaN then 0.0 else pair.presence.get position :=
        Tensor.get_tabulate _ _ _ (by rwa [← aligned])
      rw [value, presence, List.getElem?_toArray, counted, entryAt]
      cases data.parameters[position % data.size]? with
      | none => exact ite_self _
      | some parameters => exact (parameters.entry_eq _ _).symm
    · rw [if_neg counted, if_neg]
      intro matrix
      rw [shape] at matrix
      injection matrix with _rows rest
      injection rest with columnsAre
      exact counted columnsAre
  · rename_i other
    rw [if_neg (other _ _)]

end NormalizationData

/-! ### Records -/

theorem Record.replaceEach_alike {change : String → Field → Except Fault Field}
    {keys : List String} {left right : Record}
    (alike : ∀ key ∈ keys, (left.get key >>= change key) = (right.get key >>= change key)) :
    (∃ fault, left.replaceEach keys change = .error fault ∧
      right.replaceEach keys change = .error fault) ∨
    ∃ leftOutput rightOutput, left.replaceEach keys change = .ok leftOutput ∧
      right.replaceEach keys change = .ok rightOutput ∧
      AgreeOn keys leftOutput rightOutput := by
  induction keys generalizing left right with
  | nil => exact .inr ⟨left, right, rfl, rfl, nofun⟩
  | cons key keys ih =>
      obtain ⟨here, rest⟩ := List.forall_mem_cons.mp alike
      rw [replaceEach_cons, replaceEach_cons, here]
      cases made : right.get key >>= change key with
      | error fault => exact .inl ⟨fault, rfl, rfl⟩
      | ok changed =>
          have later : ∀ other ∈ keys, ((left.set key changed).get other >>= change other) =
              ((right.set key changed).get other >>= change other) := by
            intro other member
            by_cases same : key = other
            · have both : (left.set key changed).find? other =
                  (right.set key changed).find? other := by
                rw [find?_set, find?_set, if_pos same, if_pos same]
              rw [get_eq_of_find? both]
            · have kept (record : Record) :
                  (record.set key changed).get other = record.get other :=
                get_eq_of_find? (by rw [find?_set, if_neg same])
              rw [kept left, kept right]
              exact rest other member
          rcases ih later with failed | ⟨leftOutput, rightOutput, passed, passedToo, agree⟩
          · exact .inl failed
          · refine .inr ⟨leftOutput, rightOutput, passed, passedToo, fun name member => ?_⟩
            by_cases again : name ∈ keys
            · exact agree name again
            · have isKey : name = key := (List.mem_cons.mp member).resolve_right again
              rw [find?_replaceEach_of_not_mem passed again,
                find?_replaceEach_of_not_mem passedToo again, find?_set, find?_set,
                if_pos isKey.symm, if_pos isKey.symm]

namespace DenseNormalization

variable {stage : DenseNormalization} {keys : List String} {data : NormalizationData}
  {device : Device} {normalizer : Normalizer} {key : String} {pair : ValuePresence}

def after (stage : DenseNormalization) (history : List Record) : DenseNormalization :=
  Run.stateAfter apply stage history

theorem renewed_after (steady : stage.normalizer.Steady) (history : List Record) :
    (stage.after history).renewed = stage.renewed ∧ (stage.after history).normalizer.Steady :=
  Run.stateAfter_keeps
    (fun later : DenseNormalization => later.renewed = stage.renewed ∧ later.normalizer.Steady)
    (fun later record kept =>
      ⟨(later.renewed_apply record).trans kept.1, steady_apply kept.2 record⟩)
    ⟨rfl, steady⟩ history

theorem outcome_after_standard
    (configured : configure keys data device (some .standard) = .ok stage) (history : List Record)
    (record : Record) :
    ((stage.after history).apply record).outcome =
      (data.normalizer device).mapError Fault.config >>= fun normalizer =>
        record.replaceEach keys (normalizeField normalizer) := by
  obtain ⟨make, given, options⟩ := configure_eq_ok_iff.mp configured
  cases given
  have steady : stage.normalizer.Steady := by
    rw [options]
    exact Deferred.steady_of_constant (fun _call => rfl)
  obtain ⟨renewed, steadyLater⟩ := renewed_after steady history
  have keysLater := congrArg DenseNormalization.keys renewed
  have buildLater := congrArg (fun later : DenseNormalization => later.normalizer.build 0) renewed
  change (stage.after history).keys = stage.keys at keysLater
  change (stage.after history).normalizer.build 0 = stage.normalizer.build 0 at buildLater
  rw [outcome_apply, steadyLater.product_supply, buildLater, keysLater, options]
  rfl

theorem normalizeField_standard (standard : data.normalizer device = .ok normalizer)
    (aligned : pair.Aligned) :
    normalizeField normalizer key (.valuePresence pair) =
      if pair.value.shape = [pair.value.rows, data.size] then .ok (.tensor (data.scaled pair))
      else .error (.shape (.normalizedColumns data.size pair.value.shape)) := by
  have checked : pair.checkAligned key = .ok () := if_pos aligned
  have normalizes : normalizer.normalize pair.withoutNaN.value pair.withoutNaN.presence =
      (data.normalize pair.withoutNaN.value pair.withoutNaN.presence).mapError Fault.shape := by
    unfold NormalizationData.normalizer at standard
    split at standard
    · cases standard
      rfl
    · cases standard
  change ((liftM (pair.checkAligned key) : Except Fault Unit) >>= fun _checked =>
    normalizer.normalize pair.withoutNaN.value pair.withoutNaN.presence >>= fun scaled =>
      pure (Field.tensor scaled)) = _
  rw [checked, normalizes, NormalizationData.normalize_withoutNaN aligned]
  split
  · rfl
  · rfl

theorem normalizeField_eq_of_sameKnown {left right : ValuePresence}
    (standard : data.normalizer device = .ok normalizer) (same : left.SameKnown right) :
    normalizeField normalizer key (.valuePresence left) =
      normalizeField normalizer key (.valuePresence right) := by
  have rows : left.value.rows = right.value.rows :=
    congrArg (fun sizes : Shape => sizes.headD 0) same.shape
  rw [normalizeField_standard standard same.leftAligned,
    normalizeField_standard standard same.rightAligned, data.scaled_eq_of_sameKnown same, rows,
    same.shape]

theorem nodup_of_normalized {record output : Record}
    (replaced : record.replaceEach keys (normalizeField normalizer) = .ok output) : keys.Nodup := by
  refine Record.nodup_of_replaceEach (fun key field changed made again => ?_) replaced
  exact normalizeField_once made

/-- Pairs are scaled exactly if no key is listed twice and all have a column for each set of
parameters. -/
theorem exists_scaled_iff {record : Record} {pairs : String → ValuePresence}
    (standard : data.normalizer device = .ok normalizer)
    (held : ∀ key ∈ keys, record.find? key = some (.valuePresence (pairs key)))
    (aligned : ∀ key ∈ keys, (pairs key).Aligned) :
    (∃ output, record.replaceEach keys (normalizeField normalizer) = .ok output) ↔
      keys.Nodup ∧ ∀ key ∈ keys, (pairs key).value.shape = [(pairs key).value.rows, data.size] := by
  have each : ∀ key ∈ keys, (∃ field changed, record.find? key = some field ∧
      normalizeField normalizer key field = .ok changed) ↔
        (pairs key).value.shape = [(pairs key).value.rows, data.size] := by
    intro key member
    simp only [held key member, Option.some.injEq, exists_and_left, exists_eq_left',
      normalizeField_standard standard (aligned key member)]
    by_cases matrix : (pairs key).value.shape = [(pairs key).value.rows, data.size]
    · rw [if_pos matrix]
      exact iff_of_true ⟨_, rfl⟩ matrix
    · rw [if_neg matrix]
      exact iff_of_false (fun ⟨_, succeeded⟩ => nomatch succeeded) matrix
  constructor
  · rintro ⟨output, replaced⟩
    have distinct := nodup_of_normalized replaced
    have changed := (Record.exists_replaceEach_iff distinct).mp ⟨output, replaced⟩
    exact ⟨distinct, fun key member => (each key member).mp (changed key member)⟩
  · rintro ⟨distinct, matrices⟩
    exact (Record.exists_replaceEach_iff distinct).mpr fun key member =>
      (each key member).mpr (matrices key member)

/-- With the standard factory on the processor, two records whose pairs have the same entries
missing and the same values elsewhere are both refused with one fault, or get the same tensors, with
zero wherever a value is missing. They are refused if a key is listed twice or a pair has not one
column for each set of parameters, and only then. -/
theorem masked_entries_leave_no_trace
    (configured : configure keys data device (some .standard) = .ok stage)
    (processor : device.name = "cpu") (leftHistory rightHistory : List Record)
    {left right : Record} {leftPairs rightPairs : String → ValuePresence}
    (heldLeft : ∀ key ∈ keys, left.find? key = some (.valuePresence (leftPairs key)))
    (heldRight : ∀ key ∈ keys, right.find? key = some (.valuePresence (rightPairs key)))
    (same : ∀ key ∈ keys, (leftPairs key).SameKnown (rightPairs key)) :
    ((∃ fault, ((stage.after leftHistory).apply left).outcome = .error fault ∧
        ((stage.after rightHistory).apply right).outcome = .error fault) ∨
      ∃ leftOutput rightOutput, ((stage.after leftHistory).apply left).outcome = .ok leftOutput ∧
        ((stage.after rightHistory).apply right).outcome = .ok rightOutput ∧
        ∀ key ∈ keys, ∃ scaled, leftOutput.find? key = some (.tensor scaled) ∧
          rightOutput.find? key = some (.tensor scaled) ∧
          ∀ position, (leftPairs key).missingAt position = true → scaled.get position = 0.0) ∧
    ((∃ output, ((stage.after leftHistory).apply left).outcome = .ok output) ↔
      keys.Nodup ∧ ∀ key ∈ keys,
        (leftPairs key).value.shape = [(leftPairs key).value.rows, data.size]) := by
  obtain ⟨normalizer, standard⟩ : ∃ normalizer, data.normalizer device = .ok normalizer :=
    ⟨_, if_pos processor⟩
  have outcome : ∀ history record, ((stage.after history).apply record).outcome =
      record.replaceEach keys (normalizeField normalizer) := by
    intro history record
    rw [outcome_after_standard configured history record, standard]
    rfl
  rw [outcome, outcome]
  refine ⟨?_, exists_scaled_iff standard heldLeft fun key member => (same key member).leftAligned⟩
  have alike : ∀ key ∈ keys, (left.get key >>= normalizeField normalizer key) =
      (right.get key >>= normalizeField normalizer key) := by
    intro key member
    rw [Record.get_eq_ok_iff.mpr (heldLeft key member),
      Record.get_eq_ok_iff.mpr (heldRight key member)]
    exact normalizeField_eq_of_sameKnown standard (same key member)
  rcases Record.replaceEach_alike alike with failed |
    ⟨leftOutput, rightOutput, passed, passedToo, agree⟩
  · exact .inl failed
  · refine .inr ⟨leftOutput, rightOutput, passed, passedToo, fun key member => ?_⟩
    have distinct := nodup_of_normalized passed
    obtain ⟨field, changed, found, made, stored⟩ :=
      Record.find?_replaceEach_of_mem distinct passed member
    cases (heldLeft key member).symm.trans found
    rw [normalizeField_standard standard (same key member).leftAligned] at made
    split at made
    · cases made
      exact ⟨_, stored, (agree key member).symm.trans stored,
        fun position missing => data.get_scaled_of_missing missing⟩
    · cases made

/-- A value that is not a number and one that its mask hides are both missing, and the masks of the
present values need not be equal. The stage of the first record was used before. -/
theorem masked_entries_leave_no_trace_row :
    ∃ left right stage leftOutput rightOutput scaled,
      left = ValuePresence.mk
        (.tabulate [1, 2] fun position => if position = 0 then Double.indefinite else 3.0)
        (.full [1, 2] 1.0) ∧
      right = ValuePresence.mk (.full [1, 2] 3.0)
        (.tabulate [1, 2] fun position => if position = 0 then 0.0 else 2.0) ∧
      configure ["a"] { parameters := [{}, { featureType := .doNotPreprocess }] } {}
        (some .standard) = .ok stage ∧
      ((stage.after [Record.empty]).apply (Record.empty.set "a" (.valuePresence left))).outcome =
        .ok leftOutput ∧
      ((stage.after []).apply (Record.empty.set "a" (.valuePresence right))).outcome =
        .ok rightOutput ∧
      leftOutput.find? "a" = some (.tensor scaled) ∧
      rightOutput.find? "a" = some (.tensor scaled) ∧ scaled.get 0 = 0.0 := by
  have configured : configure ["a"]
      { parameters := [{}, { featureType := .doNotPreprocess }] } {} (some .standard) =
        .ok (_ : DenseNormalization) := rfl
  obtain ⟨same, accepted⟩ := @masked_entries_leave_no_trace _ _ _ _ configured rfl
    [Record.empty] []
    (Record.empty.set "a" (.valuePresence (.mk
      (.tabulate [1, 2] fun position => if position = 0 then Double.indefinite else 3.0)
      (.full [1, 2] 1.0))))
    (Record.empty.set "a" (.valuePresence (.mk (.full [1, 2] 3.0)
      (.tabulate [1, 2] fun position => if position = 0 then 0.0 else 2.0))))
    (fun _key => .mk
      (.tabulate [1, 2] fun position => if position = 0 then Double.indefinite else 3.0)
      (.full [1, 2] 1.0))
    (fun _key => .mk (.full [1, 2] 3.0)
      (.tabulate [1, 2] fun position => if position = 0 then 0.0 else 2.0))
    (List.forall_mem_singleton.mpr rfl) (List.forall_mem_singleton.mpr rfl)
    (List.forall_mem_singleton.mpr ⟨rfl, rfl, rfl, by decide, by decide⟩)
  obtain ⟨output, passed⟩ := accepted.mpr ⟨by decide,
    List.forall_mem_singleton.mpr rfl⟩
  rcases same with ⟨fault, stopped, _stoppedToo⟩ | ⟨leftOutput, rightOutput, ran, ranToo, each⟩
  · cases stopped.symm.trans passed
  · obtain ⟨scaled, stored, storedToo, zero⟩ := each "a" (List.mem_singleton_self "a")
    exact ⟨_, _, _, leftOutput, rightOutput, scaled, rfl, rfl, configured, ran, ranToo, stored,
      storedToo, zero 0 (by decide)⟩

end DenseNormalization

end Featurize
