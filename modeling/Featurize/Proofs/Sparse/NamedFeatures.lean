import Featurize.Proofs.Collection
import Featurize.Proofs.Sparse.Vocabulary
import Mathlib.Data.List.Pairwise

/-!
Features under their names. An encoder stores the enabled features in the order of their ids, so of
several features with one name the one with the greatest id stays. The output has one entry for each
name among the enabled features: none of them is lost exactly if no two share a name. The scores of
a feature are carried along, and all else is as without them.
-/

namespace Featurize

def IdScoreListFeature.withoutScores (feature : IdScoreListFeature) : IdListFeature :=
  { offsets := feature.offsets, ids := feature.ids }

namespace FeatureConfig

variable {Feature : Type} {config : FeatureConfig} {encode : String → Feature → Feature}
  {features : IdMap Feature} {entries : List (Int64 × Feature)} {stored : NameMap Feature}
  {name : String} {id : Int64} {feature : Feature}

def storeAll (config : FeatureConfig) (encode : String → Feature → Feature)
    (features : IdMap Feature) : NameMap Feature :=
  features.toList.foldl (config.storeFeature encode) ∅

structure LastNamed (config : FeatureConfig) (features : IdMap Feature) (name : String)
    (id : Int64) (feature : Feature) : Prop where
  held : features[id]? = some feature
  named : config.names[id]? = some name
  last : ∀ later, id < later → later ∈ features → config.names[later]? ≠ some name

def NamesApart (config : FeatureConfig) (features : IdMap Feature) : Prop :=
  ∀ first ∈ features, ∀ second ∈ features, ∀ name, config.names[first]? = some name →
    config.names[second]? = some name → first = second

def enabledNames (config : FeatureConfig) (features : IdMap Feature) : List String :=
  features.keys.filterMap (fun id => config.names[id]?)

/-! ### One name -/

theorem getElem?_foldl_storeFeature_of_unnamed
    (unnamed : ∀ entry ∈ entries, config.names[entry.1]? ≠ some name) :
    (entries.foldl (config.storeFeature encode) stored)[name]? = stored[name]? := by
  induction entries generalizing stored with
  | nil => rfl
  | cons entry entries ih =>
      obtain ⟨head, tail⟩ := List.forall_mem_cons.mp unnamed
      rw [List.foldl_cons, ih tail]
      unfold storeFeature
      split
      · rfl
      · rename_i written named
        have different : written ≠ name := fun same => head (same ▸ named)
        rw [Collection.getElem?_insert_ite, if_neg different]

theorem getElem?_foldl_storeFeature_of_last {before after : List (Int64 × Feature)}
    (named : config.names[id]? = some name)
    (unnamed : ∀ entry ∈ after, config.names[entry.1]? ≠ some name) :
    ((before ++ (id, feature) :: after).foldl (config.storeFeature encode) stored)[name]? =
      some (encode name feature) := by
  rw [List.foldl_append, List.foldl_cons, getElem?_foldl_storeFeature_of_unnamed unnamed]
  unfold storeFeature
  rw [named]
  exact Std.ExtTreeMap.getElem?_insert_self

theorem exists_last_named (named : ∃ entry ∈ entries, config.names[entry.1]? = some name) :
    ∃ before id feature after, entries = before ++ (id, feature) :: after ∧
      config.names[id]? = some name ∧ ∀ entry ∈ after, config.names[entry.1]? ≠ some name := by
  induction entries with
  | nil =>
      obtain ⟨_entry, member, _named⟩ := named
      cases member
  | cons head entries ih =>
      by_cases later : ∃ entry ∈ entries, config.names[entry.1]? = some name
      · obtain ⟨before, id, feature, after, split, here, unnamed⟩ := ih later
        exact ⟨head :: before, id, feature, after, congrArg (head :: ·) split, here, unnamed⟩
      · have unnamed : ∀ entry ∈ entries, config.names[entry.1]? ≠ some name :=
          fun entry member same => later ⟨entry, member, same⟩
        obtain ⟨entry, member, here⟩ := named
        rcases List.mem_cons.mp member with same | behind
        · subst same
          exact ⟨[], entry.1, entry.2, entries, rfl, here, unnamed⟩
        · exact absurd here (unnamed entry behind)

theorem mem_after_iff {before after : List (Int64 × Feature)}
    (split : features.toList = before ++ (id, feature) :: after) {later : Int64} :
    (∃ entry ∈ after, entry.1 = later) ↔ id < later ∧ later ∈ features := by
  have ordered := features.ordered_keys_toList
  rw [split, List.pairwise_append, List.pairwise_cons] at ordered
  obtain ⟨_before, ⟨behind, _after⟩, across⟩ := ordered
  have listed {other : Int64 × Feature} (member : other ∈ features.toList) :
      other.1 ∈ features := by
    rw [Std.ExtTreeMap.mem_iff_isSome_getElem?,
      Std.ExtTreeMap.mem_toList_iff_getElem?_eq_some.mp member]
    rfl
  constructor
  · rintro ⟨entry, member, same⟩
    subst same
    refine ⟨Std.compare_eq_lt.mp (behind entry member), listed ?_⟩
    rw [split]
    exact List.mem_append_right _ (List.mem_cons_of_mem _ member)
  · rintro ⟨greater, present⟩
    obtain ⟨other, found⟩ := Option.isSome_iff_exists.mp
      (Std.ExtTreeMap.mem_iff_isSome_getElem?.mp present)
    have member := Std.ExtTreeMap.mem_toList_iff_getElem?_eq_some.mpr found
    rw [split] at member
    rcases List.mem_append.mp member with front | rest
    · have below : later < id :=
        Std.compare_eq_lt.mp (across (later, other) front (id, feature) (List.mem_cons_self ..))
      exact absurd greater (Int64.lt_asymm below)
    · rcases List.mem_cons.mp rest with same | after
      · cases same
        exact absurd greater (Int64.lt_irrefl)
      · exact ⟨(later, other), after, rfl⟩

theorem getElem?_storeAll_of_lastNamed (last : config.LastNamed features name id feature) :
    (config.storeAll encode features)[name]? = some (encode name feature) := by
  have member := Std.ExtTreeMap.mem_toList_iff_getElem?_eq_some.mpr last.held
  obtain ⟨before, after, split⟩ := List.append_of_mem member
  have unnamed : ∀ entry ∈ after, config.names[entry.1]? ≠ some name := by
    intro entry behind
    obtain ⟨greater, present⟩ := (mem_after_iff split).mp ⟨entry, behind, rfl⟩
    exact last.last entry.1 greater present
  unfold storeAll
  rw [split]
  exact getElem?_foldl_storeFeature_of_last last.named unnamed

theorem exists_lastNamed (present : id ∈ features) (named : config.names[id]? = some name) :
    ∃ id feature, config.LastNamed features name id feature := by
  obtain ⟨feature, found⟩ := Option.isSome_iff_exists.mp
    (Std.ExtTreeMap.mem_iff_isSome_getElem?.mp present)
  obtain ⟨before, greatest, kept, after, split, here, unnamed⟩ := exists_last_named
    ⟨(id, feature), Std.ExtTreeMap.mem_toList_iff_getElem?_eq_some.mpr found, named⟩
  refine ⟨greatest, kept, ?_, here, fun later greater isFeature => ?_⟩
  · apply Std.ExtTreeMap.mem_toList_iff_getElem?_eq_some.mp
    rw [split]
    exact List.mem_append_right _ (List.mem_cons_self ..)
  · obtain ⟨entry, behind, same⟩ := (mem_after_iff split).mpr ⟨greater, isFeature⟩
    exact same ▸ unnamed entry behind

/-- Under each name stands the feature with the greatest id of that name, and nothing stands
under any other name. -/
theorem getElem?_storeAll_eq_some_iff {found : Feature} :
    (config.storeAll encode features)[name]? = some found ↔
      ∃ id feature, config.LastNamed features name id feature ∧ found = encode name feature := by
  constructor
  · intro present
    rcases getElem?_foldl_storeFeature present with before | ⟨id, feature, member, named, _same⟩
    · rw [Std.ExtTreeMap.getElem?_empty] at before
      cases before
    · have held := Std.ExtTreeMap.mem_toList_iff_getElem?_eq_some.mp member
      have isFeature : id ∈ features := Std.ExtTreeMap.mem_iff_isSome_getElem?.mpr (held ▸ rfl)
      obtain ⟨greatest, kept, last⟩ := exists_lastNamed isFeature named
      refine ⟨greatest, kept, last, Option.some.inj (present.symm.trans ?_)⟩
      exact getElem?_storeAll_of_lastNamed last
  · rintro ⟨id, feature, last, same⟩
    rw [same]
    exact getElem?_storeAll_of_lastNamed last

/-! ### All names -/

theorem mem_enabledNames :
    name ∈ config.enabledNames features ↔ ∃ id ∈ features, config.names[id]? = some name := by
  simp only [enabledNames, List.mem_filterMap, Std.ExtTreeMap.mem_keys]

theorem mem_storeAll :
    name ∈ config.storeAll encode features ↔ name ∈ config.enabledNames features := by
  rw [mem_enabledNames, Std.ExtTreeMap.mem_iff_isSome_getElem?, Option.isSome_iff_exists]
  constructor
  · rintro ⟨found, present⟩
    obtain ⟨id, _feature, last, _same⟩ := getElem?_storeAll_eq_some_iff.mp present
    exact ⟨id, Std.ExtTreeMap.mem_iff_isSome_getElem?.mpr (last.held ▸ rfl), last.named⟩
  · rintro ⟨id, isFeature, named⟩
    obtain ⟨_greatest, _kept, last⟩ := exists_lastNamed isFeature named
    exact ⟨_, getElem?_storeAll_of_lastNamed last⟩

theorem size_storeAll :
    (config.storeAll encode features).size = (config.enabledNames features).dedup.length :=
  Collection.size_eq_length_dedup fun _name => mem_storeAll

theorem nodup_enabledNames_iff :
    (config.enabledNames features).Nodup ↔ config.NamesApart features := by
  unfold enabledNames List.Nodup
  rw [List.pairwise_filterMap]
  constructor
  · intro distinct first firstIn second secondIn name firstNamed secondNamed
    have symmetric : Std.Symm fun first second : Int64 => ∀ left,
        config.names[first]? = some left → ∀ right, config.names[second]? = some right → left ≠ right :=
      ⟨fun first second apart left leftNamed right rightNamed same =>
        apart right rightNamed left leftNamed same.symm⟩
    refine Decidable.byContradiction fun different => ?_
    exact distinct.forall (Std.ExtTreeMap.mem_keys.mpr firstIn)
      (Std.ExtTreeMap.mem_keys.mpr secondIn) different name firstNamed name secondNamed rfl
  · intro apart
    refine Std.ExtTreeMap.nodup_keys.pairwise_of_forall_ne
      fun first firstIn second secondIn different left leftNamed right rightNamed same => ?_
    exact different (apart first (Std.ExtTreeMap.mem_keys.mp firstIn) second
      (Std.ExtTreeMap.mem_keys.mp secondIn) left leftNamed (same ▸ rightNamed))

theorem size_storeAll_eq_iff :
    (config.storeAll encode features).size = (config.enabledNames features).length ↔
      config.NamesApart features := by
  rw [size_storeAll, ← nodup_enabledNames_iff, Collection.length_dedup_eq_iff]

/-- Under each name stands the enabled feature with the greatest id of that name, as it is
encoded. No feature is lost exactly if no two share a name, and then each has its own entry. -/
structure KeepsEnabled (config : FeatureConfig) (encode : String → Feature → Feature)
    (features : IdMap Feature) (output : NameMap Feature) : Prop where
  entry_iff : ∀ (name : String) (found : Feature), output[name]? = some found ↔
    ∃ id feature, config.LastNamed features name id feature ∧ found = encode name feature
  size_iff : output.size = (config.enabledNames features).length ↔ config.NamesApart features
  own : config.NamesApart features → ∀ (id : Int64) (feature : Feature) (name : String),
    features[id]? = some feature → config.names[id]? = some name →
      output[name]? = some (encode name feature)

theorem keepsEnabled_storeAll (config : FeatureConfig) (encode : String → Feature → Feature)
    (features : IdMap Feature) :
    config.KeepsEnabled encode features (config.storeAll encode features) where
  entry_iff _name _found := getElem?_storeAll_eq_some_iff
  size_iff := size_storeAll_eq_iff
  own apart id feature name held named := by
    refine getElem?_storeAll_of_lastNamed ⟨held, named, fun later greater isFeature same => ?_⟩
    have present : id ∈ features := Std.ExtTreeMap.mem_iff_isSome_getElem?.mpr (held ▸ rfl)
    have equal := apart id present later isFeature name named same
    exact Int64.lt_irrefl (equal ▸ greater)

/-! ### Scores -/

def ScoresCounted (features : IdMap IdScoreListFeature) : Prop :=
  ∀ (id : Int64) (feature : IdScoreListFeature), features[id]? = some feature →
    feature.ids.length = feature.scores.length

theorem encodeScores_eq_ok_iff {features : IdMap IdScoreListFeature}
    {output : NameMap IdScoreListFeature} :
    config.encodeScores features = .ok output ↔
      ScoresCounted features ∧ config.storeAll config.mapScoredFeature features = output := by
  rw [encodeScores_eq_foldlM, foldlM_storeScored_eq_ok_iff]
  have counted : (∀ entry ∈ features.toList, entry.2.ids.length = entry.2.scores.length) ↔
      ScoresCounted features := by
    constructor
    · intro each id feature held
      exact each (id, feature) (Std.ExtTreeMap.mem_toList_iff_getElem?_eq_some.mpr held)
    · intro each entry member
      exact each entry.1 entry.2 (Std.ExtTreeMap.mem_toList_iff_getElem?_eq_some.mp member)
  rw [counted]
  rfl

theorem length_mapIds (config : FeatureConfig) (name : String) (ids : List Int64) :
    (config.mapIds name ids).length = ids.length := by
  unfold mapIds
  split
  · rfl
  · exact List.length_map _

theorem map_storeAll {Other : Type} {encodeOther : String → Other → Other} (change : Feature → Other)
    (commutes : ∀ name feature, change (encode name feature) = encodeOther name (change feature))
    (features : IdMap Feature) :
    (config.storeAll encode features).map (fun _name feature => change feature) =
      config.storeAll encodeOther (features.map fun _id feature => change feature) := by
  have step (stored : NameMap Feature) (entry : Int64 × Feature) :
      config.storeFeature encodeOther (stored.map fun _name feature => change feature)
          (entry.1, change entry.2) =
        (config.storeFeature encode stored entry).map fun _name feature => change feature := by
    unfold storeFeature
    cases named : config.names[entry.1]? with
    | none => rfl
    | some written =>
        apply Std.ExtTreeMap.ext_getElem?
        intro name
        rw [Collection.getElem?_insert_ite, Std.ExtTreeMap.getElem?_map,
          Std.ExtTreeMap.getElem?_map, Collection.getElem?_insert_ite]
        by_cases same : written = name
        · rw [if_pos same, if_pos same, Option.map_some, commutes]
        · rw [if_neg same, if_neg same]
  unfold storeAll
  rw [Std.ExtTreeMap.toList_map, List.foldl_map]
  exact (List.foldl_hom (fun stored : NameMap Feature => stored.map fun _name => change) step).symm

/-- Both encodings keep every enabled feature under its name exactly if no two of them share one;
of those that do, the one with the greatest id stays. -/
theorem enabled_kept_iff_names_apart (config : FeatureConfig) :
    (∀ features : IdMap IdListFeature,
      config.KeepsEnabled config.mapFeature features (config.encodeIds features)) ∧
    ∀ features : IdMap IdScoreListFeature, ScoresCounted features →
      ∃ output, config.encodeScores features = .ok output ∧
        config.KeepsEnabled config.mapScoredFeature features output := by
  refine ⟨fun features => ?_, fun features counted => ?_⟩
  · rw [encodeIds_eq_foldl]
    exact config.keepsEnabled_storeAll config.mapFeature features
  · exact ⟨_, encodeScores_eq_ok_iff.mpr ⟨counted, rfl⟩,
      config.keepsEnabled_storeAll config.mapScoredFeature features⟩

/-- Two enabled features beside a disabled one. -/
theorem enabled_kept_iff_names_apart_two :
    ∃ (config : FeatureConfig) (features : IdMap IdListFeature), features.size = 3 ∧
      (config.enabledNames features).length = 2 ∧ config.NamesApart features ∧
      (config.encodeIds features)["page"]? = some { offsets := [0], ids := [1, 1] } ∧
      (config.encodeIds features)["query"]? = some { offsets := [0, 1], ids := [5, 9] } := by
  have kept := (enabled_kept_iff_names_apart
    { names := ((∅ : IdMap String).insert 4 "page").insert 2 "query"
      vocabularies := (∅ : NameMap (List Int64)).insert "page" [5] }).1
    ((((∅ : IdMap IdListFeature).insert 4 { offsets := [0], ids := [7, 9] }).insert 2
      { offsets := [0, 1], ids := [5, 9] }).insert 3 { offsets := [0], ids := [1] })
  have apart := kept.size_iff.mp rfl
  exact ⟨_, _, rfl, rfl, apart, kept.own apart 4 _ "page" rfl rfl,
    kept.own apart 2 _ "query" rfl rfl⟩

/-- Of two features with one name only the later is in the output. -/
theorem shared_name_loses_feature :
    ∃ (config : FeatureConfig) (features : IdMap IdListFeature),
      features[(1 : Int64)]? = some { offsets := [0], ids := [5] } ∧
      features[(2 : Int64)]? = some { offsets := [0], ids := [7] } ∧
      (config.enabledNames features).length = 2 ∧ (config.encodeIds features).size = 1 ∧
      (config.encodeIds features)["page"]? = some { offsets := [0], ids := [7] } :=
  ⟨{ names := ((∅ : IdMap String).insert 1 "page").insert 2 "page" },
    ((∅ : IdMap IdListFeature).insert 1 { offsets := [0], ids := [5] }).insert 2
      { offsets := [0], ids := [7] }, rfl, rfl, rfl, rfl, rfl⟩

/-- Features with scores are encoded exactly if every one of them, enabled or not, has as many
scores as ids. Without its scores the output is what the features without their scores are encoded
to, and with them every entry has the scores of a feature of its name, one for each id. -/
theorem encodings_agree (config : FeatureConfig) (features : IdMap IdScoreListFeature) :
    ((∃ output, config.encodeScores features = .ok output) ↔ ScoresCounted features) ∧
    ∀ output, config.encodeScores features = .ok output →
      output.map (fun _name feature => feature.withoutScores) =
        config.encodeIds (features.map fun _id feature => feature.withoutScores) ∧
      ∀ (name : String) (entry : IdScoreListFeature), output[name]? = some entry →
        entry.ids.length = entry.scores.length ∧
        ∃ (id : Int64) (feature : IdScoreListFeature), features[id]? = some feature ∧
          config.names[id]? = some name ∧ entry.scores = feature.scores := by
  refine ⟨?_, fun output encoded => ?_⟩
  · simp only [encodeScores_eq_ok_iff, exists_and_left, exists_eq', and_true]
  · obtain ⟨counted, same⟩ := encodeScores_eq_ok_iff.mp encoded
    subst same
    refine ⟨?_, fun name entry found => ?_⟩
    · rw [encodeIds_eq_foldl]
      exact map_storeAll IdScoreListFeature.withoutScores (fun _name _feature => rfl) features
    obtain ⟨id, feature, last, isEntry⟩ := getElem?_storeAll_eq_some_iff.mp found
    subst isEntry
    refine ⟨?_, id, feature, last.held, last.named, rfl⟩
    exact (config.length_mapIds name feature.ids).trans (counted id feature last.held)

/-- Two features of one name, and a disabled one. -/
theorem encodings_agree_shared :
    ∃ (config : FeatureConfig) (features : IdMap IdScoreListFeature)
      (output : NameMap IdScoreListFeature) (entry : IdScoreListFeature), features.size = 3 ∧
      config.encodeScores features = .ok output ∧ output["page"]? = some entry ∧
      entry.ids = [0, 1] ∧ entry.ids.length = entry.scores.length ∧
      output.map (fun _name feature => feature.withoutScores) =
        config.encodeIds (features.map fun _id feature => feature.withoutScores) := by
  have agree := (encodings_agree
    { names := ((∅ : IdMap String).insert 4 "page").insert 2 "page"
      vocabularies := (∅ : NameMap (List Int64)).insert "page" [5] }
    ((((∅ : IdMap IdScoreListFeature).insert 4
      { offsets := [0], ids := [5, 9], scores := [⟨1⟩, ⟨2⟩] }).insert 2
      { offsets := [0, 1], ids := [5], scores := [⟨3⟩] }).insert 3
      { offsets := [0], ids := [1], scores := [⟨4⟩] })).2
  obtain ⟨same, entries⟩ := agree _ rfl
  have page := entries "page" { offsets := [0], ids := [0, 1], scores := [⟨1⟩, ⟨2⟩] } rfl
  exact ⟨_, _, _, _, rfl, rfl, rfl, rfl, page.1, same⟩

end FeatureConfig

end Featurize
