import Featurize.Proofs.Histories
import Featurize.Proofs.Sequences.Selection

/-!
The stride of a selection of sequences over its whole life. It is set at construction or
by the first sequence that teaches one, it is positive, and nothing changes it again.
While it is not set, only the sequence under the first key can teach it, and it does so
whether or not the record is accepted in the end. Once it is set, the accepted records
are exactly those whose sequences keep it.
-/

namespace Featurize

namespace FixedLengthSequences

variable {stage : FixedLengthSequences} {record output : Record} {stride : Nat}

def after (stage : FixedLengthSequences) (history : List Record) : FixedLengthSequences :=
  Run.stateAfter apply stage history

def entries (stage : FixedLengthSequences) : List (String × String) :=
  stage.keys.zip stage.targets

theorem configure_eq_ok_iff {keys : List String} {sequenceId : Int64} {length : Option Nat}
    {targets : Option (List String)} :
    configure keys sequenceId length targets = .ok stage ↔
      (targets.getD keys).length = keys.length ∧ length ≠ some 0 ∧
        stage = { keys, sequenceId, stride := length, targets := targets.getD keys } := by
  unfold configure
  by_cases parallel : (targets.getD keys).length = keys.length
  · by_cases empty : length = some 0
    · simp only [parallel, empty, ne_eq, not_true_eq_false, ↓reduceIte, reduceCtorEq, false_and,
        and_false]
    · simp only [parallel, empty, ne_eq, not_true_eq_false, ↓reduceIte, Except.ok.injEq,
        not_false_eq_true, true_and]
      exact eq_comm
  · simp only [parallel, ne_eq, not_false_eq_true, ↓reduceIte, reduceCtorEq, false_and]

/-! ### One record -/

theorem apply_of_no_entries (unkeyed : stage.entries = []) (record : Record) :
    (stage.apply record).state = stage ∧ (stage.apply record).outcome = .ok record := by
  unfold entries at unkeyed
  unfold apply
  rw [unkeyed]
  exact ⟨rfl, rfl⟩

theorem apply_of_known (known : stage.stride = some stride) :
    (stage.apply record).state.stride = some stride ∧
      (stage.apply record).outcome =
        stage.entries.foldlM (store stage.sequenceId stride) record := by
  change (selectAll stage.sequenceId stage.entries stage.stride record).state = some stride ∧
    (selectAll stage.sequenceId stage.entries stage.stride record).outcome = _
  rw [known]
  exact selectAll_known stage.entries record

/-- Without a stride, the sequence under the first key teaches it before anything is
checked, and the record goes on as under that stride. -/
theorem selectAll_taught {sequenceId : Int64} {entry : String × String}
    {entries : List (String × String)} {feature : SequenceFeature}
    (held : record.HoldsSequence entry.1 sequenceId feature) (taught : feature.Teaches stride) :
    (selectAll sequenceId (entry :: entries) none record).state = some stride ∧
      (selectAll sequenceId (entry :: entries) none record).outcome =
        (entry :: entries).foldlM (store sequenceId stride) record := by
  obtain ⟨key, target⟩ := entry
  have found : find record key sequenceId = .ok feature := find_eq_ok_iff.mpr held
  have learned : learn key sequenceId feature = .ok stride := learn_eq_ok_iff.mpr taught
  unfold selectAll
  simp only [found, settle, learned, List.foldlM_cons, store, bind, Except.bind, pure,
    Except.pure]
  cases chosen : select key sequenceId stride feature with
  | error fault => exact ⟨rfl, rfl⟩
  | ok payload => exact selectAll_known entries (record.set target (.valuePresence payload))

theorem selectAll_untaught {sequenceId : Int64} {entry : String × String}
    {entries : List (String × String)}
    (nothing : ¬ ∃ feature stride, record.HoldsSequence entry.1 sequenceId feature ∧
      feature.Teaches stride) :
    (selectAll sequenceId (entry :: entries) none record).state = none ∧
      ∃ fault, (selectAll sequenceId (entry :: entries) none record).outcome = .error fault := by
  obtain ⟨key, target⟩ := entry
  unfold selectAll
  cases found : find record key sequenceId with
  | error fault => exact ⟨rfl, fault, rfl⟩
  | ok feature =>
      have held := find_eq_ok_iff.mp found
      cases learned : learn key sequenceId feature with
      | ok stride => exact (nothing ⟨feature, stride, held, learn_eq_ok_iff.mp learned⟩).elim
      | error fault =>
          simp only [settle, learned, bind, Except.bind]
          exact ⟨rfl, fault, rfl⟩

/-- While the stride is open, a record sets it exactly to what the sequence under the first
key teaches. -/
theorem stride_apply_of_unset (unset : stage.stride = none) :
    (stage.apply record).state.stride = some stride ↔
      ∃ entry feature, stage.entries.head? = some entry ∧
        record.HoldsSequence entry.1 stage.sequenceId feature ∧ feature.Teaches stride := by
  change (selectAll stage.sequenceId stage.entries stage.stride record).state = some stride ↔ _
  rw [unset]
  cases listed : stage.entries with
  | nil =>
      constructor
      · intro learned
        cases learned
      · rintro ⟨entry, feature, first, _held, _taught⟩
        cases first
  | cons entry entries =>
      constructor
      · intro learned
        by_cases teacher : ∃ feature stride,
            record.HoldsSequence entry.1 stage.sequenceId feature ∧ feature.Teaches stride
        · obtain ⟨feature, other, held, taught⟩ := teacher
          rw [(selectAll_taught held taught).1, Option.some.injEq] at learned
          exact ⟨entry, feature, rfl, held, learned ▸ taught⟩
        · rw [(selectAll_untaught teacher).1] at learned
          cases learned
      · rintro ⟨first, feature, same, held, taught⟩
        rw [List.head?_cons, Option.some.injEq] at same
        subst same
        exact (selectAll_taught held taught).1

theorem exists_stride_of_accepted (keyed : stage.entries ≠ [])
    (accepted : (stage.apply record).outcome = .ok output) :
    ∃ stride, (stage.apply record).state.stride = some stride := by
  cases before : stage.stride with
  | some known => exact ⟨known, (apply_of_known before).1⟩
  | none =>
      change (selectAll stage.sequenceId stage.entries stage.stride record).outcome = _ at accepted
      rw [before] at accepted
      cases listed : stage.entries with
      | nil => exact absurd listed keyed
      | cons entry entries =>
          rw [listed] at accepted
          by_cases teacher : ∃ feature stride,
              record.HoldsSequence entry.1 stage.sequenceId feature ∧ feature.Teaches stride
          · obtain ⟨feature, stride, held, taught⟩ := teacher
            exact ⟨stride, (stride_apply_of_unset before).mpr
              ⟨entry, feature, congrArg List.head? listed, held, taught⟩⟩
          · obtain ⟨_unset, fault, refused⟩ := @selectAll_untaught record _ entry entries teacher
            rw [refused] at accepted
            cases accepted

/-- Whether the stride was set before or by this very record, the outcome is that of storing
the entries under the stride that holds after the record. -/
theorem outcome_apply (settled : (stage.apply record).state.stride = some stride) :
    (stage.apply record).outcome =
      stage.entries.foldlM (store stage.sequenceId stride) record := by
  cases before : stage.stride with
  | some known =>
      have kept := (apply_of_known before).1.symm.trans settled
      cases kept
      exact (apply_of_known before).2
  | none =>
      obtain ⟨entry, feature, first, held, taught⟩ := (stride_apply_of_unset before).mp settled
      obtain ⟨rest, listed⟩ := List.head?_eq_some_iff.mp first
      change (selectAll stage.sequenceId stage.entries stage.stride record).outcome = _
      rw [before, listed]
      exact (selectAll_taught held taught).2

/-! ### Histories -/

theorem after_eq (stage : FixedLengthSequences) (history : List Record) :
    stage.after history = { stage with stride := (stage.after history).stride } := by
  refine Run.stateAfter_keeps
    (fun later : FixedLengthSequences => later = { stage with stride := later.stride })
    (fun later record same => ?_) rfl history
  change { later with stride := (later.apply record).state.stride } =
    { stage with stride := (later.apply record).state.stride }
  rw [same]

theorem stride_after_of_known (known : stage.stride = some stride) (history : List Record) :
    (stage.after history).stride = some stride :=
  Run.stateAfter_keeps (fun later : FixedLengthSequences => later.stride = some stride)
    (fun _later _record kept => (apply_of_known kept).1) known history

theorem stride_after_satisfies {Good : Nat → Prop}
    (taught : ∀ feature stride, SequenceFeature.Teaches feature stride → Good stride)
    (configured : ∀ stride, stage.stride = some stride → Good stride) (history : List Record) :
    ∀ stride, (stage.after history).stride = some stride → Good stride := by
  refine Run.stateAfter_keeps
    (fun later : FixedLengthSequences => ∀ stride, later.stride = some stride → Good stride)
    (fun later record good stride settled => ?_) configured history
  cases before : later.stride with
  | some known =>
      have kept := (apply_of_known before).1.symm.trans settled
      cases kept
      exact good stride before
  | none =>
      obtain ⟨_entry, feature, _first, _held, teaches⟩ :=
        (stride_apply_of_unset before).mp settled
      exact taught feature stride teaches

theorem stride_positive {keys : List String} {sequenceId : Int64} {length : Option Nat}
    {targets : Option (List String)}
    (configured : configure keys sequenceId length targets = .ok stage) (history : List Record) :
    ∀ stride, (stage.after history).stride = some stride → 0 < stride := by
  obtain ⟨_parallel, notEmpty, same⟩ := configure_eq_ok_iff.mp configured
  refine stride_after_satisfies (fun _feature _stride teaches => teaches.1)
    (fun stride known => Nat.pos_of_ne_zero (fun empty => notEmpty ?_)) history
  rw [same] at known
  exact known.trans (congrArg some empty)

theorem stride_lt_modulus {keys : List String} {sequenceId : Int64} {length : Option Nat}
    {targets : Option (List String)}
    (configured : configure keys sequenceId length targets = .ok stage)
    (word : ∀ stride, length = some stride → stride < Word.modulus) (history : List Record) :
    ∀ stride, (stage.after history).stride = some stride → stride < Word.modulus := by
  obtain ⟨_parallel, _notEmpty, same⟩ := configure_eq_ok_iff.mp configured
  refine stride_after_satisfies (fun feature stride teaches => ?_) (fun stride known => ?_) history
  · have signedWord : ∃ length : Int64, length.toInt = stride := by
      have taught := teaches.2
      split at taught
      · exact ⟨_, taught⟩
      · exact ⟨_, taught.2⟩
    obtain ⟨length, isStride⟩ := signedWord
    have below := length.toInt_lt
    unfold Word.modulus
    omega
  · rw [same] at known
    exact word stride known

/-- However many records came before, a configured selection keeps its options, and with its
present stride it could have been configured anew. -/
theorem configure_after {keys : List String} {sequenceId : Int64} {length : Option Nat}
    {targets : Option (List String)}
    (configured : configure keys sequenceId length targets = .ok stage) (history : List Record) :
    configure keys sequenceId (stage.after history).stride targets = .ok (stage.after history) := by
  obtain ⟨parallel, _notEmpty, same⟩ := configure_eq_ok_iff.mp configured
  refine configure_eq_ok_iff.mpr ⟨parallel, fun empty => ?_, ?_⟩
  · exact Nat.lt_irrefl 0 (stride_positive configured history 0 empty)
  · have options := after_eq stage history
    rw [same] at options ⊢
    exact options

theorem after_append_singleton (stage : FixedLengthSequences) (history : List Record)
    (record : Record) :
    stage.after (history ++ [record]) = ((stage.after history).apply record).state :=
  Run.stateAfter_append stage history [record]

/-! ### What a record teaches -/

private theorem head?_entries {keys targets : List String}
    (parallel : targets.length = keys.length) (key : String) :
    (∃ target, (keys.zip targets).head? = some (key, target)) ↔ keys.head? = some key := by
  cases keys with
  | nil => simp only [List.zip_nil_left, List.head?_nil, reduceCtorEq, exists_false]
  | cons first keys =>
      cases targets with
      | nil => cases parallel
      | cons target targets =>
          simp only [List.zip_cons_cons, List.head?_cons, Option.some.injEq, Prod.mk.injEq,
            exists_and_left, exists_eq', and_true]

/-- While the stride is not set, a record, accepted or refused, leaves exactly the stride that
the sequence under the first key teaches, and none where that sequence is missing or teaches
none. Either way the selection is then the one that is freshly configured with what was
learned, so all later records fare as they would there. -/
theorem learned_from_first_key {keys : List String} {sequenceId : Int64} {length : Option Nat}
    {targets : Option (List String)}
    (configured : configure keys sequenceId length targets = .ok stage) (history : List Record)
    (unset : (stage.after history).stride = none) (record : Record) :
    (∀ stride, ((stage.after history).apply record).state.stride = some stride ↔
      ∃ key feature, keys.head? = some key ∧ record.HoldsSequence key sequenceId feature ∧
        feature.Teaches stride) ∧
    configure keys sequenceId ((stage.after history).apply record).state.stride targets =
      .ok ((stage.after history).apply record).state := by
  constructor
  · intro stride
    obtain ⟨parallel, _notEmpty, same⟩ :=
      configure_eq_ok_iff.mp (configure_after configured history)
    rw [stride_apply_of_unset unset, same]
    constructor
    · rintro ⟨⟨key, target⟩, feature, first, held, taught⟩
      exact ⟨key, feature, (head?_entries parallel key).mp ⟨target, first⟩, held, taught⟩
    · rintro ⟨key, feature, first, held, taught⟩
      obtain ⟨target, listed⟩ := (head?_entries parallel key).mpr first
      exact ⟨(key, target), feature, listed, held, taught⟩
  · rw [← after_append_singleton]
    exact configure_after configured (history ++ [record])

/-- Two rows do not fill two elements of three steps, yet three is what is learned. -/
theorem learned_from_first_key_of_refused :
    ∃ stage, configure ["steps"] 7 none none = .ok stage ∧ (stage.after []).stride = none ∧
      ((stage.after []).apply (Record.empty.withSequence "steps" 7 (.ones [0, 3] 2))).state.stride =
        some 3 := by
  have held : (Record.empty.withSequence "steps" 7 (.ones [0, 3] 2)).HoldsSequence "steps" 7
      (.ones [0, 3] 2) := Record.holdsSequence_withSequence_iff.mpr rfl
  have configured : configure ["steps"] 7 none none =
      .ok { keys := ["steps"], sequenceId := 7, stride := none, targets := ["steps"] } := rfl
  exact ⟨_, configured, rfl, ((learned_from_first_key configured [] rfl _).1 3).mpr
    ⟨"steps", .ones [0, 3] 2, rfl, held, by decide, rfl⟩⟩

/-- A refused record does teach a stride: after offsets 0 and 3 over two rows, a record with
stride one is refused that a fresh selection accepts. -/
theorem refused_record_teaches :
    ∃ stage fault refusal output,
      configure ["steps"] 7 none none = .ok stage ∧ stage.stride = none ∧
      (stage.apply (Record.empty.withSequence "steps" 7 (.ones [0, 3] 2))).outcome =
        .error fault ∧
      (stage.apply (Record.empty.withSequence "steps" 7 (.ones [0, 3] 2))).state.stride = some 3 ∧
      ((stage.apply (Record.empty.withSequence "steps" 7 (.ones [0, 3] 2))).state.apply
        (Record.empty.withSequence "steps" 7 (.ones [0, 1] 2))).outcome = .error refusal ∧
      (stage.apply (Record.empty.withSequence "steps" 7 (.ones [0, 1] 2))).outcome = .ok output :=
  ⟨_, _, _, _, rfl, rfl, rfl, rfl, rfl, rfl⟩

/-! ### What is accepted -/

private theorem entries_split {keys targets : List String} {index : Nat} {key target : String}
    (keyAt : keys[index]? = some key) (targetAt : targets[index]? = some target)
    (last : target ∉ targets.drop (index + 1)) :
    ∃ before later, keys.zip targets = before ++ (key, target) :: later ∧
      ∀ entry ∈ later, entry.2 ≠ target := by
  have entryAt : (keys.zip targets)[index]? = some (key, target) :=
    List.getElem?_zip_eq_some.mpr ⟨keyAt, targetAt⟩
  obtain ⟨inside, here⟩ := List.getElem?_eq_some_iff.mp entryAt
  refine ⟨(keys.zip targets).take index, (keys.zip targets).drop (index + 1), ?_, ?_⟩
  · rw [← here, ← List.drop_eq_getElem_cons inside, List.take_append_drop]
  · intro entry member same
    rw [List.zip_eq_zipWith, List.drop_zipWith, ← List.zip_eq_zipWith] at member
    exact last (same ▸ (List.of_mem_zip member).2)

/-- Once the stride is set it is positive and stays. Then, when no key is written as a target
before it is read, exactly the records are accepted in which every key has a sequence whose
offsets are the multiples of the stride and whose payload has one row for each step, and each
target holds the unchanged payload of the last key that is written to it. -/
theorem accepted_iff_keepsStride {keys : List String} {sequenceId : Int64} {length : Option Nat}
    {targets : Option (List String)}
    (configured : configure keys sequenceId length targets = .ok stage) (history : List Record)
    (settled : (stage.after history).stride = some stride) :
    0 < stride ∧ (∀ later, (stage.after (history ++ later)).stride = some stride) ∧
      ∀ record, stage.entries.Pairwise (fun earlier later => later.1 ≠ earlier.2) →
        (∀ key ∈ keys, ∀ feature, record.HoldsSequence key sequenceId feature →
          feature.StepsFit stride) →
        ((∃ output, ((stage.after history).apply record).outcome = .ok output) ↔
          ∀ key ∈ keys, ∃ feature, record.HoldsSequence key sequenceId feature ∧
            feature.KeepsStride stride) ∧
        ∀ output, ((stage.after history).apply record).outcome = .ok output →
          ∀ (index : Nat) (key target : String), keys[index]? = some key →
            stage.targets[index]? = some target → target ∉ stage.targets.drop (index + 1) →
              ∃ feature, record.HoldsSequence key sequenceId feature ∧
                output.find? target = some (.valuePresence feature.payload) := by
  refine ⟨stride_positive configured history stride settled, fun later => ?_, ?_⟩
  · unfold after
    rw [Run.stateAfter_append]
    exact stride_after_of_known settled later
  · intro record unwritten small
    obtain ⟨parallel, _notEmpty, same⟩ := configure_eq_ok_iff.mp configured
    have outcome : ((stage.after history).apply record).outcome =
        stage.entries.foldlM (store sequenceId stride) record := by
      rw [(apply_of_known settled).2, after_eq stage history, same]
      rfl
    have keyOf : ∀ entry ∈ stage.entries, entry.1 ∈ keys := by
      intro entry member
      rw [same] at member
      exact (List.of_mem_zip member).1
    have entryOf : ∀ key ∈ keys, ∃ entry ∈ stage.entries, entry.1 = key := by
      intro key member
      rw [same]
      unfold entries
      rw [← List.mem_map, List.map_fst_zip (Nat.le_of_eq parallel.symm)]
      exact member
    rw [outcome]
    constructor
    · rw [exists_store_iff unwritten (fun entry member => small entry.1 (keyOf entry member))]
      constructor
      · intro kept key member
        obtain ⟨entry, listed, isKey⟩ := entryOf key member
        exact isKey ▸ kept entry listed
      · intro kept entry member
        exact kept entry.1 (keyOf entry member)
    · intro output stored index key target keyAt targetAt last
      have keysSame : stage.keys = keys := congrArg FixedLengthSequences.keys same
      obtain ⟨before, later, split, unwrittenLater⟩ :=
        entries_split (keysSame ▸ keyAt) targetAt last
      unfold entries at stored
      rw [split] at stored
      obtain ⟨feature, held, _chosen, found⟩ := find?_store_of_last stored unwrittenLater
      exact ⟨feature, held, found⟩

/-- A stride of two is learned from one record and kept by a batch of one and one of two. -/
theorem accepted_iff_keepsStride_learned :
    ∃ record stage output,
      record = (Record.empty.withSequence "near" 7 (.ones [0] 2)).withSequence "far" 7
        (.ones [0, 2] 4) ∧
      configure ["near", "far"] 7 none (some ["first", "second"]) = .ok stage ∧
      (stage.after [Record.empty.withSequence "near" 7 (.ones [0, 2, 4] 6)]).stride = some 2 ∧
      ((stage.after [Record.empty.withSequence "near" 7 (.ones [0, 2, 4] 6)]).apply
        record).outcome = .ok output ∧
      ∃ feature, record.HoldsSequence "near" 7 feature ∧
        output.find? "first" = some (.valuePresence feature.payload) := by
  have configured : configure ["near", "far"] 7 none (some ["first", "second"]) =
      .ok { keys := ["near", "far"], sequenceId := 7, stride := none
            targets := ["first", "second"] } := rfl
  have near : ((Record.empty.withSequence "near" 7 (.ones [0] 2)).withSequence "far" 7
      (.ones [0, 2] 4)).HoldsSequence "near" 7 (.ones [0] 2) := by
    rw [Record.holdsSequence_withSequence_iff, if_neg (by decide),
      Record.holdsSequence_withSequence_iff, if_pos rfl]
  have far : ((Record.empty.withSequence "near" 7 (.ones [0] 2)).withSequence "far" 7
      (.ones [0, 2] 4)).HoldsSequence "far" 7 (.ones [0, 2] 4) := by
    rw [Record.holdsSequence_withSequence_iff, if_pos rfl]
  obtain ⟨_positive, _kept, whole⟩ := accepted_iff_keepsStride configured
    [Record.empty.withSequence "near" 7 (.ones [0, 2, 4] 6)] (show _ = some 2 from rfl)
  obtain ⟨accepted, stored⟩ := whole
    ((Record.empty.withSequence "near" 7 (.ones [0] 2)).withSequence "far" 7 (.ones [0, 2] 4))
    (by decide) (by
      intro key member feature held
      rw [List.mem_cons, List.mem_singleton] at member
      rcases member with same | same
      · subst same
        rw [held.unique near]
        decide
      · subst same
        rw [held.unique far]
        decide)
  obtain ⟨output, succeeded⟩ := accepted.mpr (by
    intro key member
    rw [List.mem_cons, List.mem_singleton] at member
    rcases member with same | same
    · subst same
      exact ⟨_, near, by decide⟩
    · subst same
      exact ⟨_, far, by decide⟩)
  exact ⟨_, _, output, rfl, configured, rfl, succeeded,
    stored output succeeded 0 "near" "first" rfl rfl (by decide)⟩

/-- Two keys with one target: both sequences keep the stride and the record is accepted, but
the target does not hold the payload of the first key. -/
theorem shared_target_holds_last :
    ∃ record stage feature output,
      record = (Record.empty.withSequence "near" 7 (.ones [0] 1)).withSequence "far" 7
        (.ones [0, 1] 2) ∧
      configure ["near", "far"] 7 (some 1) (some ["joint", "joint"]) = .ok stage ∧
      stage.entries.Pairwise (fun earlier later => later.1 ≠ earlier.2) ∧
      (stage.apply record).outcome = .ok output ∧
      record.HoldsSequence "near" 7 feature ∧ feature.KeepsStride 1 ∧ feature.StepsFit 1 ∧
      stage.keys[0]? = some "near" ∧ stage.targets[0]? = some "joint" ∧
      output.find? "joint" ≠ some (.valuePresence feature.payload) := by
  refine ⟨_, _, .ones [0] 1, _, rfl, rfl, by decide, rfl, ?_, by decide, by decide, rfl, rfl, ?_⟩
  · rw [Record.holdsSequence_withSequence_iff, if_neg (by decide),
      Record.holdsSequence_withSequence_iff, if_pos rfl]
  · intro same
    change some (Field.valuePresence (SequenceFeature.ones [0, 1] 2).payload) =
      some (.valuePresence (SequenceFeature.ones [0] 1).payload) at same
    have rows := congrArg (fun pair : ValuePresence => pair.value.rows)
      (Field.valuePresence.inj (Option.some.inj same))
    exact absurd rows (by decide)

end FixedLengthSequences

end Featurize
