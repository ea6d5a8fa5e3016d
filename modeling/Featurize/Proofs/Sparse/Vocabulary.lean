import Featurize.Proofs.Collection
import Featurize.Sparse.Encoder
import Mathlib.Data.Fintype.EquivFin

/-!
Vocabularies as maps from ids to embedding rows. A known id goes to the row of its first
occurrence, whatever else the vocabulary holds. The unknown ids share one bucket, numbered by
the count of distinct ids. In a vocabulary without repeated entries that is the row behind
all others; a repeated entry can put the bucket on the row of a known id.
-/

namespace Featurize

/-! ### The index of a vocabulary -/

private theorem getElem?_foldl_insertIfNew (entries : List (Int64 × Nat)) (index : IdMap Nat)
    (id : Int64) :
    (entries.foldl (fun index (id, position) => index.insertIfNew id position) index)[id]? =
      index[id]?.or (entries.lookup id) := by
  induction entries generalizing index with
  | nil => rw [List.foldl_nil, List.lookup_nil, Option.or_none]
  | cons entry entries ih =>
      obtain ⟨head, row⟩ := entry
      rw [List.foldl_cons, ih, Std.ExtTreeMap.getElem?_insertIfNew, List.lookup_cons]
      by_cases same : head = id
      · subst same
        cases held : index[head]? with
        | none =>
            have absent : head ∉ index := by
              rw [Std.ExtTreeMap.mem_iff_isSome_getElem?, held]
              exact Bool.false_ne_true
            simp only [Std.compare_self, absent, not_false_eq_true, and_self, ↓reduceIte,
              Option.some_or, Option.none_or, beq_self_eq_true]
        | some first =>
            have present : head ∈ index := Std.ExtTreeMap.mem_iff_isSome_getElem?.mpr (held ▸ rfl)
            simp only [present, not_true_eq_false, and_false, ↓reduceIte, Option.some_or]
      · have apart : compare head id ≠ .eq := fun equal => same (Std.compare_eq_iff_eq.mp equal)
        have differs : (id == head) = false := beq_eq_false_iff_ne.mpr (Ne.symm same)
        simp only [apart, false_and, ↓reduceIte, differs]

private theorem lookup_zipIdx (vocabulary : List Int64) (start : Nat) (id : Int64) :
    (vocabulary.zipIdx start).lookup id = (vocabulary.idxOf? id).map (start + ·) := by
  induction vocabulary generalizing start with
  | nil => rfl
  | cons head vocabulary ih =>
      rw [List.zipIdx_cons, List.lookup_cons, List.idxOf?_cons]
      by_cases same : head = id
      · subst same
        simp only [beq_self_eq_true, ↓reduceIte, Option.map_some, Nat.add_zero]
      · have backward : (id == head) = false := beq_eq_false_iff_ne.mpr (Ne.symm same)
        have forward : (head == id) = false := beq_eq_false_iff_ne.mpr same
        simp only [backward, forward, Bool.false_eq_true, ↓reduceIte, ih, Option.map_map]
        congr 1
        funext row
        exact Nat.add_right_comm start 1 row

theorem getElem?_vocabularyIndex (vocabulary : List Int64) (id : Int64) :
    (vocabularyIndex vocabulary)[id]? = vocabulary.idxOf? id := by
  unfold vocabularyIndex
  rw [getElem?_foldl_insertIfNew, lookup_zipIdx, Std.ExtTreeMap.getElem?_empty, Option.none_or]
  cases vocabulary.idxOf? id with
  | none => rfl
  | some row => exact congrArg some (Nat.zero_add row)

theorem size_vocabularyIndex (vocabulary : List Int64) :
    (vocabularyIndex vocabulary).size = vocabulary.dedup.length := by
  refine Collection.size_eq_length_dedup fun id => ?_
  rw [Std.ExtTreeMap.mem_iff_isSome_getElem?, getElem?_vocabularyIndex, List.isSome_idxOf?]

/-! ### Rows -/

def vocabularyRow (vocabulary : List Int64) (id : Int64) : Nat :=
  (vocabulary.idxOf? id).getD vocabulary.dedup.length

theorem getElem?_vocabularyRow {vocabulary : List Int64} {id : Int64} (known : id ∈ vocabulary) :
    vocabulary[vocabularyRow vocabulary id]? = some id := by
  unfold vocabularyRow
  cases found : vocabulary.idxOf? id with
  | none => exact absurd known (List.idxOf?_eq_none_iff.mp found)
  | some row =>
      obtain ⟨inside, here, _first⟩ := List.idxOf?_eq_some_iff.mp found
      exact List.getElem?_eq_some_iff.mpr ⟨inside, here⟩

theorem vocabularyRow_of_not_mem {vocabulary : List Int64} {id : Int64}
    (unknown : id ∉ vocabulary) : vocabularyRow vocabulary id = vocabulary.dedup.length := by
  unfold vocabularyRow
  rw [List.idxOf?_eq_none_iff.mpr unknown, Option.getD_none]

private theorem length_lt_modulus {vocabulary : List Int64} {id : Int64}
    (distinct : vocabulary.Nodup) (unknown : id ∉ vocabulary) :
    vocabulary.length < Word.modulus := by
  have bits : Function.Injective (fun id : Int64 => id.toBitVec.toFin) := by
    intro left right same
    exact Int64.toBitVec_inj.mp (BitVec.toFin_inj.mp same)
  have counted := (List.nodup_cons.mpr ⟨unknown, distinct⟩).map bits |>.length_le_card
  rw [List.length_map, List.length_cons, Fintype.card_fin] at counted
  unfold Word.modulus
  omega

private theorem ofNat_inj_of_lt {left right : Nat} (leftWord : left < Word.modulus)
    (rightWord : right < Word.modulus) (same : Int64.ofNat left = Int64.ofNat right) :
    left = right := by
  have bits := congrArg (fun word : Int64 => word.toBitVec.toNat) same
  unfold Word.modulus at leftWord rightWord
  simp only [Int64.toBitVec_ofNat', BitVec.toNat_ofNat] at bits
  omega

namespace FeatureConfig

variable {config : FeatureConfig} {name : String} {vocabulary : List Int64}

theorem mapIds_eq_map (listed : config.vocabularies[name]? = some vocabulary)
    (ids : List Int64) :
    config.mapIds name ids = ids.map (fun id => Int64.ofNat (vocabularyRow vocabulary id)) := by
  unfold mapIds vocabularyRow
  simp only [listed, getElem?_vocabularyIndex, size_vocabularyIndex]

/-! ### Encoded features -/

def storeFeature {Feature : Type} (config : FeatureConfig) (encode : String → Feature → Feature)
    (stored : NameMap Feature) (entry : Int64 × Feature) : NameMap Feature :=
  match config.names[entry.1]? with
  | none => stored
  | some name => stored.insert name (encode name entry.2)

theorem getElem?_storeFeature {Feature : Type} {encode : String → Feature → Feature}
    {stored : NameMap Feature} {entry : Int64 × Feature} {found : Feature}
    (present : (config.storeFeature encode stored entry)[name]? = some found) :
    stored[name]? = some found ∨
      config.names[entry.1]? = some name ∧ found = encode name entry.2 := by
  unfold storeFeature at present
  cases named : config.names[entry.1]? with
  | none =>
      rw [named] at present
      exact .inl present
  | some written =>
      rw [named] at present
      simp only [Std.ExtTreeMap.getElem?_insert] at present
      by_cases same : written = name
      · subst same
        rw [if_pos Std.compare_self, Option.some.injEq] at present
        exact .inr ⟨rfl, present.symm⟩
      · rw [if_neg (fun equal => same (Std.compare_eq_iff_eq.mp equal))] at present
        exact .inl present

/-- What is found under a name after storing features was there before, or is a feature of
that name. -/
theorem getElem?_foldl_storeFeature {Feature : Type} {encode : String → Feature → Feature}
    {features : List (Int64 × Feature)} {stored : NameMap Feature} {found : Feature}
    (present : (features.foldl (config.storeFeature encode) stored)[name]? = some found) :
    stored[name]? = some found ∨ ∃ id feature, (id, feature) ∈ features ∧
      config.names[id]? = some name ∧ found = encode name feature := by
  induction features generalizing stored with
  | nil => exact .inl present
  | cons entry features ih =>
      obtain ⟨id, feature⟩ := entry
      rcases ih present with next | ⟨other, source, member, rest⟩
      · rcases getElem?_storeFeature next with before | here
        · exact .inl before
        · exact .inr ⟨id, feature, List.mem_cons_self .., here⟩
      · exact .inr ⟨other, source, List.mem_cons_of_mem _ member, rest⟩

def mapFeature (config : FeatureConfig) (name : String) (feature : IdListFeature) :
    IdListFeature :=
  { feature with ids := config.mapIds name feature.ids }

def mapScoredFeature (config : FeatureConfig) (name : String) (feature : IdScoreListFeature) :
    IdScoreListFeature :=
  { feature with ids := config.mapIds name feature.ids }

theorem encodeIds_eq_foldl (features : IdMap IdListFeature) :
    config.encodeIds features =
      features.toList.foldl (config.storeFeature config.mapFeature) ∅ := rfl

def storeScored (config : FeatureConfig) (stored : NameMap IdScoreListFeature)
    (entry : Int64 × IdScoreListFeature) : Except ShapeFault (NameMap IdScoreListFeature) :=
  if entry.2.ids.length ≠ entry.2.scores.length then
    .error (.scoreCount entry.1 entry.2.ids.length entry.2.scores.length)
  else .ok (config.storeFeature config.mapScoredFeature stored entry)

theorem encodeScores_eq_foldlM (features : IdMap IdScoreListFeature) :
    config.encodeScores features = features.toList.foldlM config.storeScored ∅ := by
  unfold encodeScores
  congr 1
  funext stored ⟨id, feature⟩
  unfold storeScored storeFeature
  dsimp only
  by_cases counted : feature.ids.length ≠ feature.scores.length
  · rw [if_pos counted, if_pos counted]
  · rw [if_neg counted, if_neg counted]
    cases config.names[id]? with
    | none => rfl
    | some name => rfl

theorem storeScored_eq_ok_iff {stored next : NameMap IdScoreListFeature}
    {entry : Int64 × IdScoreListFeature} :
    config.storeScored stored entry = .ok next ↔
      entry.2.ids.length = entry.2.scores.length ∧
        config.storeFeature config.mapScoredFeature stored entry = next := by
  unfold storeScored
  by_cases counted : entry.2.ids.length = entry.2.scores.length
  · rw [if_neg (not_not_intro counted), Except.ok.injEq, and_iff_right counted]
  · rw [if_pos counted]
    exact ⟨fun refused => (nomatch refused), fun both => absurd both.1 counted⟩

theorem foldlM_storeScored_eq_ok_iff {entries : List (Int64 × IdScoreListFeature)}
    {stored output : NameMap IdScoreListFeature} :
    entries.foldlM config.storeScored stored = .ok output ↔
      (∀ entry ∈ entries, entry.2.ids.length = entry.2.scores.length) ∧
        entries.foldl (config.storeFeature config.mapScoredFeature) stored = output := by
  induction entries generalizing stored with
  | nil =>
      rw [List.foldlM_nil, Outcome.pure_eq_ok_iff, List.foldl_nil,
        and_iff_right (List.forall_mem_nil _)]
  | cons entry entries ih =>
      rw [List.foldlM_cons, Outcome.bind_eq_ok_iff, List.foldl_cons, List.forall_mem_cons]
      simp only [storeScored_eq_ok_iff, ih]
      constructor
      · rintro ⟨next, ⟨here, same⟩, rest, whole⟩
        exact ⟨⟨here, rest⟩, same ▸ whole⟩
      · rintro ⟨⟨here, rest⟩, whole⟩
        exact ⟨_, ⟨here, rfl⟩, rest, whole⟩

theorem foldlM_storeScored_eq_ok {entries : List (Int64 × IdScoreListFeature)}
    {stored encoded : NameMap IdScoreListFeature}
    (succeeded : entries.foldlM config.storeScored stored = .ok encoded) :
    encoded = entries.foldl (config.storeFeature config.mapScoredFeature) stored :=
  (foldlM_storeScored_eq_ok_iff.mp succeeded).2.symm

/-! ### Known and unknown ids -/

/-- A known id is sent to a row that holds it, and an unknown one to the count of distinct
ids, which lies behind all rows when the vocabulary repeats no entry. -/
structure SendsTo (vocabulary : List Int64) (id row : Int64) : Prop where
  known : id ∈ vocabulary → ∃ place, vocabulary[place]? = some id ∧ row = Int64.ofNat place
  unknown : id ∉ vocabulary → row = Int64.ofNat vocabulary.dedup.length
  apart : vocabulary.Nodup → id ∉ vocabulary → row = Int64.ofNat vocabulary.length ∧
    ∀ place < vocabulary.length, row ≠ Int64.ofNat place

theorem sendsTo_vocabularyRow (vocabulary : List Int64) (id : Int64) :
    SendsTo vocabulary id (Int64.ofNat (vocabularyRow vocabulary id)) where
  known present := ⟨_, getElem?_vocabularyRow present, rfl⟩
  unknown absent := by rw [vocabularyRow_of_not_mem absent]
  apart distinct absent := by
    rw [vocabularyRow_of_not_mem absent, distinct.dedup]
    refine ⟨rfl, fun place inside same => ?_⟩
    -- Rows wrap as words, but a vocabulary that misses an id has fewer rows than words.
    have words := length_lt_modulus distinct absent
    exact Nat.ne_of_lt inside (ofNat_inj_of_lt (Nat.lt_trans inside words) words same.symm)

theorem sendsTo_mapIds (listed : config.vocabularies[name]? = some vocabulary)
    (ids : List Int64) : List.Forall₂ (SendsTo vocabulary) ids (config.mapIds name ids) := by
  rw [mapIds_eq_map listed, List.forall₂_map_right_iff, List.forall₂_same]
  exact fun id _member => sendsTo_vocabularyRow vocabulary id

/-- Under a name with a vocabulary every id is sent as `SendsTo` says: where ids are mapped,
and in every entry that either encoding makes for the name, in which the rest of the feature
is unchanged. -/
theorem ids_sent_by_vocabulary (listed : config.vocabularies[name]? = some vocabulary) :
    (∀ ids, List.Forall₂ (SendsTo vocabulary) ids (config.mapIds name ids)) ∧
    (∀ features encoded, (config.encodeIds features)[name]? = some encoded →
      ∃ (id : Int64) (feature : IdListFeature), features[id]? = some feature ∧
        config.names[id]? = some name ∧ encoded.offsets = feature.offsets ∧
        List.Forall₂ (SendsTo vocabulary) feature.ids encoded.ids) ∧
    (∀ features output encoded, config.encodeScores features = .ok output →
      output[name]? = some encoded →
      ∃ (id : Int64) (feature : IdScoreListFeature), features[id]? = some feature ∧
        config.names[id]? = some name ∧ encoded.offsets = feature.offsets ∧
        encoded.scores = feature.scores ∧
        List.Forall₂ (SendsTo vocabulary) feature.ids encoded.ids) := by
  refine ⟨sendsTo_mapIds listed, ?_, ?_⟩
  · intro features encoded present
    rw [encodeIds_eq_foldl] at present
    rcases getElem?_foldl_storeFeature present with before | ⟨id, feature, member, named, same⟩
    · rw [Std.ExtTreeMap.getElem?_empty] at before
      cases before
    · subst same
      exact ⟨id, feature, Std.ExtTreeMap.mem_toList_iff_getElem?_eq_some.mp member, named, rfl,
        sendsTo_mapIds listed feature.ids⟩
  · intro features output encoded succeeded present
    rw [encodeScores_eq_foldlM] at succeeded
    rw [foldlM_storeScored_eq_ok succeeded] at present
    rcases getElem?_foldl_storeFeature present with before | ⟨id, feature, member, named, same⟩
    · rw [Std.ExtTreeMap.getElem?_empty] at before
      cases before
    · subst same
      exact ⟨id, feature, Std.ExtTreeMap.mem_toList_iff_getElem?_eq_some.mp member, named, rfl,
        rfl, sendsTo_mapIds listed feature.ids⟩

/-- Beside two known ids an unknown one is sent to row 2, which neither of them can have. -/
theorem ids_sent_by_vocabulary_unknown :
    ∃ config : FeatureConfig, config.vocabularies["page"]? = some [20, 10] ∧
      (config.encodeIds ((∅ : IdMap IdListFeature).insert 1
        { offsets := [0], ids := [10, 30] }))["page"]? = some { offsets := [0], ids := [1, 2] } ∧
      List.Forall₂ (SendsTo [20, 10]) [10, 30] [1, 2] ∧
      ((2 : Int64) = Int64.ofNat [20, 10].length ∧
        ∀ place < [20, 10].length, (2 : Int64) ≠ Int64.ofNat place) := by
  have listed : ({
      names := (∅ : IdMap String).insert 1 "page"
      vocabularies := (∅ : NameMap (List Int64)).insert "page" [20, 10] } :
        FeatureConfig).vocabularies["page"]? = some [20, 10] :=
    Std.ExtTreeMap.getElem?_insert_self
  have sent : List.Forall₂ (SendsTo [20, 10]) [10, 30] [1, 2] :=
    (ids_sent_by_vocabulary listed).1 [10, 30]
  refine ⟨_, listed, rfl, sent, ?_⟩
  cases sent with
  | cons _known rest =>
      cases rest with
      | cons unknown _none => exact unknown.apart (by decide) (by decide)

/-- After a repeated entry the bucket of unknown ids is the row of a known one: of 5, 5 and 7
the last is sent to row 2, and so is every id that is none of them. -/
theorem repeated_entry_confuses_unknown :
    ∃ config : FeatureConfig, config.vocabularies["page"]? = some [5, 5, 7] ∧
      (9 : Int64) ∉ ([5, 5, 7] : List Int64) ∧ config.mapIds "page" [9, 7] = [2, 2] ∧
      Int64.ofNat ([5, 5, 7] : List Int64).length ≠ 2 := by
  refine ⟨{ vocabularies := (∅ : NameMap (List Int64)).insert "page" [5, 5, 7] },
    Std.ExtTreeMap.getElem?_insert_self, by decide, by rfl, by decide⟩

end FeatureConfig

end Featurize
