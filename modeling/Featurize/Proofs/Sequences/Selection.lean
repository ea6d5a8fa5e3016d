import Featurize.Proofs.Outcome
import Featurize.Stage.Sequences

/-!
What the selection of sequences accepts. A single sequence is accepted under a stride
when its offsets are the multiples of the stride and its payload has one row for each
step; a record is accepted when this holds under every key, read in the record as it
is when the key's turn comes. Sequences never come from an earlier target, since what
is written there is a pair and not a sequence.
-/

namespace Featurize

def Record.HoldsSequence (record : Record) (key : String) (sequenceId : Int64)
    (feature : SequenceFeature) : Prop :=
  ∃ sequences, record.find? key = some (.raggedSequence sequences) ∧
    sequences[sequenceId]? = some feature

theorem Record.HoldsSequence.unique {record : Record} {key : String} {sequenceId : Int64}
    {left right : SequenceFeature} (first : record.HoldsSequence key sequenceId left)
    (second : record.HoldsSequence key sequenceId right) : left = right := by
  obtain ⟨sequences, found, listed⟩ := first
  obtain ⟨others, foundAgain, listedAgain⟩ := second
  cases found.symm.trans foundAgain
  exact Option.some.inj (listed.symm.trans listedAgain)

def Record.withSequence (record : Record) (key : String) (sequenceId : Int64)
    (feature : SequenceFeature) : Record :=
  record.set key (.raggedSequence ((∅ : IdMap SequenceFeature).insert sequenceId feature))

theorem Record.holdsSequence_withSequence_iff {record : Record} {key name : String}
    {sequenceId : Int64} {feature found : SequenceFeature} :
    (record.withSequence key sequenceId feature).HoldsSequence name sequenceId found ↔
      if key = name then found = feature else record.HoldsSequence name sequenceId found := by
  unfold HoldsSequence withSequence
  rw [find?_set]
  by_cases same : key = name
  · simp only [if_pos same, Option.some.injEq, Field.raggedSequence.injEq, exists_eq_left',
      Std.ExtTreeMap.getElem?_insert_self]
    exact eq_comm
  · simp only [if_neg same]

namespace SequenceFeature

def ones (offsets : List Int64) (rows : Nat) : SequenceFeature :=
  { offsets
    payload := { value := .full [rows, 1] 1.0, presence := .full [rows, 1] 1.0 } }

/-- The offsets are zero, one stride, two strides and so on, and the payload has as many
rows as the steps of all batch elements together. -/
structure KeepsStride (feature : SequenceFeature) (stride : Nat) : Prop where
  offsets : feature.offsets.map Int64.toInt =
    (List.range feature.offsets.length).map (fun element => ((element * stride : Nat) : Int))
  rows : feature.payload.value.rows = feature.offsets.length * stride

/-- The first batch element has this many steps, and at least one. Of a single batch
element the payload is one sequence. -/
def Teaches (feature : SequenceFeature) (stride : Nat) : Prop :=
  0 < stride ∧
    match feature.offsets with
    | first :: second :: _ => (second - first).toInt = stride
    | _ => feature.payload.value.rank ≠ 0 ∧
        (Int64.ofNat feature.payload.value.rows).toInt = stride

/-- The number of steps of a sequence under a stride is a signed word. -/
def StepsFit (feature : SequenceFeature) (stride : Nat) : Prop :=
  ((feature.offsets.length * stride : Nat) : Int) < Word.signedLimit

instance (feature : SequenceFeature) (stride : Nat) : Decidable (feature.KeepsStride stride) :=
  decidable_of_iff
    (feature.offsets.map Int64.toInt =
        (List.range feature.offsets.length).map
          (fun element => ((element * stride : Nat) : Int)) ∧
      feature.payload.value.rows = feature.offsets.length * stride)
    ⟨fun both => ⟨both.1, both.2⟩, fun keeps => ⟨keeps.offsets, keeps.rows⟩⟩

instance (feature : SequenceFeature) (stride : Nat) : Decidable (feature.StepsFit stride) :=
  inferInstanceAs (Decidable (_ < _))

end SequenceFeature

namespace FixedLengthSequences

variable {key target : String} {sequenceId : Int64} {feature : SequenceFeature} {stride : Nat}
  {record output : Record}

/-! ### One sequence -/

theorem find_eq_ok_iff :
    find record key sequenceId = .ok feature ↔ record.HoldsSequence key sequenceId feature := by
  unfold find Record.sequences Record.HoldsSequence
  simp only [Outcome.bind_eq_ok_iff, Record.get_eq_ok_iff]
  constructor
  · rintro ⟨sequences, ⟨field, found, read⟩, listed⟩
    cases field with
    | raggedSequence held =>
        cases read
        refine ⟨sequences, found, ?_⟩
        cases here : sequences[sequenceId]? with
        | none =>
            rw [here] at listed
            cases listed
        | some other =>
            rw [here] at listed
            cases listed
            rfl
    | _ => cases read
  · rintro ⟨sequences, found, listed⟩
    refine ⟨sequences, ⟨_, found, rfl⟩, ?_⟩
    rw [listed]
    rfl

theorem toInt_alignedOffsets {count : Nat}
    (small : ((count * stride : Nat) : Int) < Word.signedLimit) :
    (alignedOffsets stride count).map Int64.toInt =
      (List.range count).map (fun element => ((element * stride : Nat) : Int)) := by
  unfold alignedOffsets
  rw [List.map_map]
  refine List.map_congr_left (fun element member => ?_)
  have below : element * stride ≤ count * stride :=
    Nat.mul_le_mul_right stride (Nat.le_of_lt (List.mem_range.mp member))
  have bound : element * stride < 2 ^ 63 := by
    unfold Word.signedLimit at small
    omega
  rw [Function.comp_apply, ← Int64.ofNat_mul, Int64.toInt_ofNat_of_lt bound]

theorem alignedOffsets_eq_iff (small : feature.StepsFit stride) :
    alignedOffsets stride feature.offsets.length = feature.offsets ↔
      feature.offsets.map Int64.toInt =
        (List.range feature.offsets.length).map
          (fun element => ((element * stride : Nat) : Int)) := by
  rw [← toInt_alignedOffsets small]
  constructor
  · intro aligned
    exact congrArg (List.map Int64.toInt) aligned.symm
  · intro same
    exact ((List.map_inj_right (fun _left _right => Int64.toInt.inj)).mp same).symm

theorem select_eq_ok_iff {payload : ValuePresence} (small : feature.StepsFit stride) :
    select key sequenceId stride feature = .ok payload ↔
      feature.KeepsStride stride ∧ payload = feature.payload := by
  have whole : Word.wrap (feature.offsets.length * stride) = feature.offsets.length * stride := by
    apply Word.wrap_of_lt
    unfold SequenceFeature.StepsFit Word.signedLimit at small
    unfold Word.modulus
    omega
  unfold select
  simp only [whole]
  by_cases aligned : alignedOffsets stride feature.offsets.length = feature.offsets
  · rw [if_neg (not_not_intro aligned)]
    by_cases counted : feature.payload.value.rows = feature.offsets.length * stride
    · rw [if_neg (not_not_intro counted)]
      constructor
      · intro chosen
        cases chosen
        exact ⟨⟨(alignedOffsets_eq_iff small).mp aligned, counted⟩, rfl⟩
      · rintro ⟨_keeps, same⟩
        rw [same]
    · rw [if_pos counted]
      constructor
      · intro chosen
        cases chosen
      · rintro ⟨keeps, _same⟩
        exact absurd keeps.rows counted
  · rw [if_pos aligned]
    constructor
    · intro chosen
      cases chosen
    · rintro ⟨keeps, _same⟩
      exact absurd ((alignedOffsets_eq_iff small).mpr keeps.offsets) aligned

theorem payload_of_select {payload : ValuePresence}
    (chosen : select key sequenceId stride feature = .ok payload) : payload = feature.payload := by
  unfold select at chosen
  simp only at chosen
  split at chosen
  · cases chosen
  · split at chosen
    · cases chosen
    · cases chosen
      rfl

private theorem positiveLength_iff {length : Int64} {fault : Fault} :
    (if length ≤ 0 then throw fault else pure length.toInt.toNat : Except Fault Nat) =
      .ok stride ↔ 0 < stride ∧ length.toInt = stride := by
  have order : length ≤ 0 ↔ length.toInt ≤ 0 := by
    rw [Int64.le_iff_toInt_le, Int64.toInt_zero]
  by_cases positive : length ≤ 0
  · rw [if_pos positive]
    have notPositive := order.mp positive
    constructor
    · intro stopped
      cases stopped
    · rintro ⟨above, same⟩
      omega
  · rw [if_neg positive, Outcome.pure_eq_ok_iff]
    have isPositive : ¬ length.toInt ≤ 0 := fun bounded => positive (order.mpr bounded)
    constructor
    · intro same
      omega
    · rintro ⟨above, same⟩
      omega

theorem learn_eq_ok_iff :
    learn key sequenceId feature = .ok stride ↔ feature.Teaches stride := by
  obtain ⟨offsets, payload⟩ := feature
  unfold learn SequenceFeature.Teaches
  simp only [Outcome.bind_eq_ok_iff, Outcome.liftShape_eq_ok_iff, positiveLength_iff]
  unfold firstLength
  match offsets with
  | first :: second :: rest => simp only [Except.ok.injEq, exists_eq_left']
  | [] | [_] =>
      by_cases flat : payload.value.rank = 0
      · simp only [flat, ↓reduceIte, reduceCtorEq, false_and, exists_false, ne_eq,
          not_true_eq_false, and_false]
      · simp only [flat, ↓reduceIte, Except.ok.injEq, exists_eq_left', ne_eq, not_false_eq_true,
          true_and]

/-! ### One record under a known stride -/

def store (sequenceId : Int64) (stride : Nat) (record : Record) (entry : String × String) :
    Except Fault Record := do
  let feature ← find record entry.1 sequenceId
  let payload ← select entry.1 sequenceId stride feature
  return record.set entry.2 (.valuePresence payload)

theorem store_eq_ok_iff {entry : String × String} {next : Record} :
    store sequenceId stride record entry = .ok next ↔
      ∃ feature, record.HoldsSequence entry.1 sequenceId feature ∧
        select entry.1 sequenceId stride feature = .ok feature.payload ∧
        next = record.set entry.2 (.valuePresence feature.payload) := by
  unfold store
  simp only [Outcome.bind_eq_ok_iff, Outcome.pure_eq_ok_iff, find_eq_ok_iff]
  constructor
  · rintro ⟨feature, held, payload, chosen, stored⟩
    have same := payload_of_select chosen
    subst same
    exact ⟨feature, held, chosen, stored.symm⟩
  · rintro ⟨feature, held, chosen, stored⟩
    exact ⟨feature, held, feature.payload, chosen, stored.symm⟩

theorem selectAll_known (entries : List (String × String)) (record : Record) :
    (selectAll sequenceId entries (some stride) record).state = some stride ∧
      (selectAll sequenceId entries (some stride) record).outcome =
        entries.foldlM (store sequenceId stride) record := by
  induction entries generalizing record with
  | nil => exact ⟨rfl, rfl⟩
  | cons entry entries ih =>
      obtain ⟨key, target⟩ := entry
      unfold selectAll
      simp only [settle, List.foldlM_cons, store, bind, Except.bind]
      cases found : find record key sequenceId with
      | error fault => exact ⟨rfl, rfl⟩
      | ok feature =>
          dsimp only
          cases chosen : select key sequenceId stride feature with
          | error fault => exact ⟨rfl, rfl⟩
          | ok payload => exact ih (record.set target (.valuePresence payload))

/-- What is written under a target is a pair, so a sequence found afterwards was there
before. -/
theorem holdsSequence_of_set {name : String} {pair : ValuePresence}
    (held : (record.set target (.valuePresence pair)).HoldsSequence name sequenceId feature) :
    target ≠ name ∧ record.HoldsSequence name sequenceId feature := by
  obtain ⟨sequences, found, listed⟩ := held
  rw [Record.find?_set] at found
  by_cases same : target = name
  · rw [if_pos same] at found
    cases found
  · rw [if_neg same] at found
    exact ⟨same, sequences, found, listed⟩

theorem holdsSequence_set_iff {name : String} {pair : ValuePresence} (different : target ≠ name) :
    (record.set target (.valuePresence pair)).HoldsSequence name sequenceId feature ↔
      record.HoldsSequence name sequenceId feature := by
  unfold Record.HoldsSequence
  rw [Record.find?_set, if_neg different]

/-- When no key is written before it is read, a record is accepted exactly when every
key has a sequence that keeps the stride. -/
theorem exists_store_iff {entries : List (String × String)}
    (unwritten : entries.Pairwise (fun earlier later => later.1 ≠ earlier.2))
    (small : ∀ entry ∈ entries, ∀ feature,
      record.HoldsSequence entry.1 sequenceId feature → feature.StepsFit stride) :
    (∃ output, entries.foldlM (store sequenceId stride) record = .ok output) ↔
      ∀ entry ∈ entries, ∃ feature,
        record.HoldsSequence entry.1 sequenceId feature ∧ feature.KeepsStride stride := by
  induction entries generalizing record with
  | nil =>
      constructor
      · intro _accepted entry member
        cases member
      · intro _kept
        exact ⟨record, rfl⟩
  | cons entry entries ih =>
      obtain ⟨headUnwritten, tailUnwritten⟩ := List.pairwise_cons.mp unwritten
      have headSmall := small entry (List.mem_cons_self ..)
      have sameLater (pair : ValuePresence) (later : String × String) (member : later ∈ entries)
          (other : SequenceFeature) :
          (record.set entry.2 (.valuePresence pair)).HoldsSequence later.1 sequenceId other ↔
            record.HoldsSequence later.1 sequenceId other :=
        holdsSequence_set_iff (fun same => headUnwritten later member same.symm)
      have tailSmall (pair : ValuePresence) : ∀ later ∈ entries, ∀ other,
          (record.set entry.2 (.valuePresence pair)).HoldsSequence later.1 sequenceId other →
            other.StepsFit stride :=
        fun later member other held => small later (List.mem_cons_of_mem _ member) other
          ((sameLater pair later member other).mp held)
      simp only [List.foldlM_cons, Outcome.bind_eq_ok_iff, store_eq_ok_iff, List.forall_mem_cons]
      constructor
      · rintro ⟨output, next, ⟨feature, held, chosen, stored⟩, rest⟩
        subst stored
        have keeps := ((select_eq_ok_iff (headSmall feature held)).mp chosen).1
        refine ⟨⟨feature, held, keeps⟩, fun later member => ?_⟩
        obtain ⟨other, heldLater, keepsLater⟩ :=
          (ih tailUnwritten (tailSmall feature.payload)).mp ⟨output, rest⟩ later member
        exact ⟨other, (sameLater feature.payload later member other).mp heldLater, keepsLater⟩
      · rintro ⟨⟨feature, held, keeps⟩, later⟩
        have chosen : select entry.1 sequenceId stride feature = .ok feature.payload :=
          (select_eq_ok_iff (headSmall feature held)).mpr ⟨keeps, rfl⟩
        have kept : ∀ name ∈ entries, ∃ other,
            (record.set entry.2 (.valuePresence feature.payload)).HoldsSequence name.1 sequenceId
              other ∧ other.KeepsStride stride := by
          intro name member
          obtain ⟨other, heldLater, keepsLater⟩ := later name member
          exact ⟨other, (sameLater feature.payload name member other).mpr heldLater, keepsLater⟩
        obtain ⟨output, rest⟩ := (ih tailUnwritten (tailSmall feature.payload)).mpr kept
        exact ⟨output, _, ⟨feature, held, chosen, rfl⟩, rest⟩

theorem holdsSequence_of_store {entries : List (String × String)} {name : String}
    (stored : entries.foldlM (store sequenceId stride) record = .ok output)
    (held : output.HoldsSequence name sequenceId feature) :
    record.HoldsSequence name sequenceId feature := by
  induction entries generalizing record with
  | nil =>
      cases stored
      exact held
  | cons entry entries ih =>
      rw [List.foldlM_cons, Outcome.bind_eq_ok_iff] at stored
      obtain ⟨next, first, rest⟩ := stored
      obtain ⟨other, _held, _chosen, same⟩ := store_eq_ok_iff.mp first
      subst same
      exact (holdsSequence_of_set (ih rest)).2

theorem find?_store_of_not_target {entries : List (String × String)} {name : String}
    (stored : entries.foldlM (store sequenceId stride) record = .ok output)
    (untouched : ∀ entry ∈ entries, entry.2 ≠ name) : output.find? name = record.find? name := by
  induction entries generalizing record with
  | nil =>
      cases stored
      rfl
  | cons entry entries ih =>
      rw [List.foldlM_cons, Outcome.bind_eq_ok_iff] at stored
      obtain ⟨next, first, rest⟩ := stored
      obtain ⟨other, _held, _chosen, same⟩ := store_eq_ok_iff.mp first
      subst same
      rw [ih rest (fun later member => untouched later (List.mem_cons_of_mem _ member)),
        Record.find?_set, if_neg (untouched entry (List.mem_cons_self ..))]

/-- The last key that is written to a target leaves its payload there. -/
theorem find?_store_of_last {before later : List (String × String)}
    (stored : (before ++ (key, target) :: later).foldlM (store sequenceId stride) record =
      .ok output)
    (last : ∀ entry ∈ later, entry.2 ≠ target) :
    ∃ feature, record.HoldsSequence key sequenceId feature ∧
      select key sequenceId stride feature = .ok feature.payload ∧
      output.find? target = some (.valuePresence feature.payload) := by
  rw [List.foldlM_append, Outcome.bind_eq_ok_iff] at stored
  obtain ⟨middle, earlier, rest⟩ := stored
  rw [List.foldlM_cons, Outcome.bind_eq_ok_iff] at rest
  obtain ⟨next, here, after⟩ := rest
  obtain ⟨feature, held, chosen, same⟩ := store_eq_ok_iff.mp here
  subst same
  refine ⟨feature, holdsSequence_of_store earlier held, chosen, ?_⟩
  rw [find?_store_of_not_target after last, Record.find?_set, if_pos rfl]

end FixedLengthSequences

end Featurize
