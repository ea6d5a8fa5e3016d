import Featurize.Proofs.Sequences.Stride
import Mathlib.Data.List.Perm.Basic

/-!
The order of batches. A sequence that teaches a stride can keep no other one, whichever of
the two rules it is learned by. So records that go through one selection in some order, and
would each go through a new one, all teach the same stride; they go through in every other
order too, each with the outcome that it has as the first record.
-/

namespace Featurize

theorem SequenceFeature.Teaches.signed {feature : SequenceFeature} {stride : Nat}
    (taught : feature.Teaches stride) : (stride : Int) < Word.signedLimit := by
  have word : ∃ length : Int64, length.toInt = stride := by
    have measured := taught.2
    split at measured
    · exact ⟨_, measured⟩
    · exact ⟨_, measured.2⟩
  obtain ⟨length, isStride⟩ := word
  have below := length.toInt_lt
  unfold Word.signedLimit
  omega

namespace FixedLengthSequences

variable {stage : FixedLengthSequences} {record output : Record} {stride learned : Nat}
  {key : String} {sequenceId : Int64} {feature : SequenceFeature}

def outcomes (stage : FixedLengthSequences) (records : List Record) :
    List (Except Fault Record) :=
  Run.outcomes apply stage records

theorem eq_of_teaches_of_select {payload : ValuePresence} (taught : feature.Teaches learned)
    (small : (stride : Int) < Word.signedLimit)
    (chosen : select key sequenceId stride feature = .ok payload) : learned = stride := by
  have word : (Int64.ofNat stride).toInt = stride := by
    apply Int64.toInt_ofNat_of_lt
    unfold Word.signedLimit at small
    omega
  obtain ⟨offsets, held⟩ := feature
  obtain ⟨positive, measured⟩ := taught
  unfold select at chosen
  simp only at chosen
  split at chosen
  case isTrue => cases chosen
  case isFalse aligned =>
    split at chosen
    case isTrue => cases chosen
    case isFalse counted =>
      have aligned := Decidable.not_not.mp aligned
      have counted := Decidable.not_not.mp counted
      match offsets with
      | [] =>
          -- An empty batch has no rows, and no rows teach no stride.
          rw [List.length_nil, Nat.zero_mul] at counted
          have empty := measured.2
          rw [counted] at empty
          change (0 : Int) = learned at empty
          omega
      | [_first] =>
          rw [List.length_singleton, Nat.one_mul, Word.wrap_of_lt
            (by unfold Word.signedLimit at small; unfold Word.modulus; omega)] at counted
          have rows := measured.2
          rw [counted, word] at rows
          exact Int.ofNat.inj rows.symm
      | first :: second :: _rest =>
          have heads : 0 * Int64.ofNat stride = first ∧ 1 * Int64.ofNat stride = second := by
            unfold alignedOffsets at aligned
            simp only [List.length_cons, List.range_succ_eq_map, List.map_cons, List.cons.injEq]
              at aligned
            exact ⟨aligned.1, aligned.2.1⟩
          have distance : (second - first).toInt = (learned : Int) := measured
          rw [← heads.1, ← heads.2, Int64.zero_mul, Int64.one_mul, Int64.sub_zero, word] at distance
          exact Int.ofNat.inj distance.symm

def withStride (stage : FixedLengthSequences) (stride : Nat) : FixedLengthSequences :=
  { stage with stride := some stride }

theorem state_apply_withStride (stage : FixedLengthSequences) (stride : Nat) (record : Record) :
    ((stage.withStride stride).apply record).state = stage.withStride stride := by
  have kept : ((stage.withStride stride).apply record).state.stride = some stride :=
    (apply_of_known rfl).1
  change { stage with stride := ((stage.withStride stride).apply record).state.stride } = _
  rw [kept]
  rfl

theorem outcome_apply_withStride (stage : FixedLengthSequences) (stride : Nat) (record : Record) :
    ((stage.withStride stride).apply record).outcome =
      stage.entries.foldlM (store stage.sequenceId stride) record :=
  (apply_of_known rfl).2

/-- A record after which the stride is set leaves the selection with that stride, and fares as
if the stride had been known. -/
theorem apply_of_settled (settled : (stage.apply record).state.stride = some stride) :
    (stage.apply record).state = stage.withStride stride ∧
      ((stage.withStride stride).apply record).outcome = (stage.apply record).outcome := by
  constructor
  · change { stage with stride := (stage.apply record).state.stride } = _
    rw [settled]
    rfl
  · rw [outcome_apply settled, outcome_apply_withStride]

theorem settled_of_accepted {other : Record} (unset : stage.stride = none)
    (keyed : stage.entries ≠ []) (alone : (stage.apply record).outcome = .ok output)
    (small : (stride : Int) < Word.signedLimit)
    (known : ((stage.withStride stride).apply record).outcome = .ok other) :
    (stage.apply record).state.stride = some stride := by
  obtain ⟨learned, settled⟩ := exists_stride_of_accepted keyed alone
  obtain ⟨entry, feature, first, held, taught⟩ := (stride_apply_of_unset unset).mp settled
  obtain ⟨rest, listed⟩ := List.head?_eq_some_iff.mp first
  rw [outcome_apply_withStride, listed, List.foldlM_cons, Outcome.bind_eq_ok_iff] at known
  obtain ⟨_next, stored, _rest⟩ := known
  obtain ⟨again, heldAgain, chosen, _same⟩ := store_eq_ok_iff.mp stored
  rw [heldAgain.unique held] at chosen
  rw [settled, eq_of_teaches_of_select taught small chosen]

/-! ### Any order -/

/-- Records that a new selection accepts, each alone and all in turn, leave it in one state, and
each has in that state the outcome that it has as the first record. -/
theorem exists_settled {records : List Record} (unset : stage.stride = none)
    (alone : ∀ record ∈ records, ∃ output, (stage.apply record).outcome = .ok output)
    (together : ∀ outcome ∈ stage.outcomes records, ∃ output, outcome = .ok output) :
    ∃ settled : FixedLengthSequences, ∀ record ∈ records,
      (stage.apply record).state = settled ∧ (settled.apply record).state = settled ∧
        (settled.apply record).outcome = (stage.apply record).outcome := by
  by_cases unkeyed : stage.entries = []
  · refine ⟨stage, fun record _member => ?_⟩
    have passed := apply_of_no_entries unkeyed record
    exact ⟨passed.1, passed.1, rfl⟩
  · cases records with
    | nil => exact ⟨stage, fun record member => by cases member⟩
    | cons first rest =>
        obtain ⟨output, accepted⟩ := alone first (List.mem_cons_self ..)
        obtain ⟨stride, settled⟩ := exists_stride_of_accepted unkeyed accepted
        obtain ⟨_entry, _feature, _first, _held, taught⟩ := (stride_apply_of_unset unset).mp settled
        have settles (record : Record) (_member : record ∈ rest) :=
          state_apply_withStride stage stride record
        have inTurn := (Run.history_of_settled settles
          (fun record member => ⟨settles record member, rfl⟩)).1
        have settledBy : ∀ record ∈ first :: rest,
            (stage.apply record).state.stride = some stride := by
          intro record member
          rcases List.mem_cons.mp member with same | later
          · rw [same, settled]
          · obtain ⟨own, acceptedAlone⟩ := alone record member
            obtain ⟨next, acceptedLater⟩ := together
              ((stage.withStride stride).apply record).outcome (by
                unfold outcomes
                rw [Run.outcomes, (apply_of_settled settled).1, inTurn]
                exact List.mem_cons_of_mem _ (List.mem_map_of_mem later))
            exact settled_of_accepted unset unkeyed acceptedAlone taught.signed acceptedLater
        refine ⟨stage.withStride stride, fun record member => ?_⟩
        obtain ⟨state, outcome⟩ := apply_of_settled (settledBy record member)
        exact ⟨state, state_apply_withStride stage stride record, outcome⟩

/-- Records that a new selection without a stride accepts, each alone and all in turn, are
accepted in every order. Each of them then has the same output, and the same stride is
learned. -/
theorem accepted_in_any_order {keys : List String} {targets : Option (List String)}
    (configured : configure keys sequenceId none targets = .ok stage)
    {records reordered : List Record} (same : reordered.Perm records)
    (alone : ∀ record ∈ records, ∃ output, (stage.apply record).outcome = .ok output)
    (together : ∀ outcome ∈ stage.outcomes records, ∃ output, outcome = .ok output) :
    (∀ outcome ∈ stage.outcomes reordered, ∃ output, outcome = .ok output) ∧
      (reordered.zip (stage.outcomes reordered)).Perm (records.zip (stage.outcomes records)) ∧
      (stage.after reordered).stride = (stage.after records).stride := by
  obtain ⟨_parallel, _notEmpty, options⟩ := configure_eq_ok_iff.mp configured
  have unset : stage.stride = none := congrArg FixedLengthSequences.stride options
  obtain ⟨settled, each⟩ := exists_settled unset alone together
  have history : ∀ list : List Record, (∀ record ∈ list, record ∈ records) →
      stage.outcomes list = list.map (fun record => (stage.apply record).outcome) ∧
        stage.after list = if list = [] then stage else settled :=
    fun list within => Run.history_of_settled
      (fun record member => (each record (within record member)).1)
      (fun record member => (each record (within record member)).2)
  obtain ⟨outcomes, state⟩ := history records (fun _record member => member)
  obtain ⟨outcomesToo, stateToo⟩ := history reordered (fun _record member => same.mem_iff.mp member)
  refine ⟨fun outcome member => ?_, ?_, ?_⟩
  · rw [outcomesToo] at member
    obtain ⟨record, present, isOutcome⟩ := List.mem_map.mp member
    exact isOutcome ▸ alone record (same.mem_iff.mp present)
  · rw [outcomes, outcomesToo, List.zip_eq_zipWith, List.zip_eq_zipWith, List.zipWith_map_right,
      List.zipWith_map_right, List.zipWith_self, List.zipWith_self]
    exact same.map _
  · have emptyToo : reordered = [] ↔ records = [] := by
      rw [← List.length_eq_zero_iff, ← List.length_eq_zero_iff, same.length_eq]
    rw [state, stateToo]
    simp only [emptyToo]

/-- Offsets 0 and 3 teach the stride by their distance, a single element of three rows by its
length. Whichever comes first, both are accepted and three is learned. -/
theorem accepted_in_any_order_by_either_rule :
    ∃ stage pair single,
      pair = Record.empty.withSequence "steps" 7 (.ones [0, 3] 6) ∧
      single = Record.empty.withSequence "steps" 7 (.ones [0] 3) ∧
      configure ["steps"] 7 none none = .ok stage ∧
      (∀ outcome ∈ stage.outcomes [single, pair], ∃ output, outcome = .ok output) ∧
      ([single, pair].zip (stage.outcomes [single, pair])).Perm
        ([pair, single].zip (stage.outcomes [pair, single])) ∧
      (stage.after [single, pair]).stride = some 3 ∧
      (stage.after [pair, single]).stride = some 3 := by
  have configured : configure ["steps"] 7 none none =
      .ok { keys := ["steps"], sequenceId := 7, stride := none, targets := ["steps"] } := rfl
  obtain ⟨accepted, alike, _stride⟩ := accepted_in_any_order configured
    (List.Perm.swap (Record.empty.withSequence "steps" 7 (.ones [0, 3] 6))
      (Record.empty.withSequence "steps" 7 (.ones [0] 3)) [])
    (by
      intro record member
      rcases List.mem_cons.mp member with same | later
      · exact same ▸ ⟨_, rfl⟩
      · exact List.mem_singleton.mp later ▸ ⟨_, rfl⟩)
    (by
      intro outcome member
      change outcome ∈ [_, _] at member
      rcases List.mem_cons.mp member with same | later
      · exact same ▸ ⟨_, rfl⟩
      · exact List.mem_singleton.mp later ▸ ⟨_, rfl⟩)
  exact ⟨_, _, _, rfl, rfl, configured, accepted, alike, rfl, rfl⟩

end FixedLengthSequences

end Featurize
