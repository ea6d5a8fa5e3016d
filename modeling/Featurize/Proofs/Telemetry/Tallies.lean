import Featurize.Telemetry.Registry
import Mathlib.Data.List.Basic

/-!
What effects add up to in the registry. A counter rises by the amounts that are counted
under its key and a histogram by the samples that are timed under it, whatever else
happens before, between and after them. A counter with one label is kept apart from the
counters of the same name with any other labels, as long as the label and its value have
none of the characters that a key puts around them.
-/

namespace Featurize

namespace Effect

def amountUnder (key : String) : Effect → Int64
  | .counted name labels amount => if metricKey name labels = key then amount else 0
  | _ => 0

def samplesUnder (key : String) : Effect → Int64
  | .timed name labels => if metricKey name labels = key then 1 else 0
  | _ => 0

def total (measure : Effect → Int64) : List Effect → Int64
  | [] => 0
  | effect :: effects => measure effect + total measure effects

variable {measure : Effect → Int64}

theorem total_append (first later : List Effect) :
    total measure (first ++ later) = total measure first + total measure later := by
  induction first with
  | nil => exact (Int64.zero_add _).symm
  | cons effect effects ih => rw [List.cons_append, total, total, ih, Int64.add_assoc]

theorem total_filter {kept : Effect → Bool}
    (nothing : ∀ effect, kept effect = false → measure effect = 0) (effects : List Effect) :
    total measure (effects.filter kept) = total measure effects := by
  induction effects with
  | nil => rfl
  | cons effect effects ih =>
      cases counts : kept effect with
      | true => rw [List.filter_cons_of_pos counts, total, total, ih]
      | false =>
          rw [List.filter_cons_of_neg (Bool.eq_false_iff.mp counts), total, nothing effect counts,
            Int64.zero_add, ih]

theorem total_flatten_replicate (count : Nat) (effects : List Effect) :
    total measure (List.replicate count effects).flatten =
      Int64.ofNat count * total measure effects := by
  induction count with
  | zero => exact Int64.zero_mul.symm
  | succ count ih =>
      rw [List.replicate_succ, List.flatten_cons, total_append, ih, Int64.ofNat_add,
        Int64.add_mul, Int64.add_comm]
      congr 1
      exact (Int64.one_mul _).symm

end Effect

namespace Registry

variable {name : String} {labels : Labels}

def sampleCount (registry : Registry) (name : String) (labels : Labels) : Int64 :=
  ((registry.histograms[metricKey name labels]?).getD {}).count

/-- The registry after effects in their order; `elapsed` says for each place how long the work
behind the effect took. -/
def absorbAll (elapsed : Nat → Double) : List Effect → Registry → Registry
  | [], registry => registry
  | effect :: effects, registry =>
      absorbAll (fun place => elapsed (place + 1)) effects (registry.absorb (elapsed 0) effect)

theorem counterValue_absorb (elapsed : Double) (registry : Registry) (effect : Effect) :
    (registry.absorb elapsed effect).counterValue name labels =
      registry.counterValue name labels + effect.amountUnder (metricKey name labels) := by
  cases effect with
  | reported event => exact (Int64.add_zero _).symm
  | timed other others => exact (Int64.add_zero _).symm
  | counted other others amount =>
      simp only [absorb, increment, counterValue, Effect.amountUnder,
        Std.ExtTreeMap.getElem?_insert]
      by_cases same : metricKey other others = metricKey name labels
      · rw [if_pos (Std.compare_eq_iff_eq.mpr same), if_pos same, same]
        rfl
      · rw [if_neg (fun equal => same (Std.compare_eq_iff_eq.mp equal)), if_neg same,
          Int64.add_zero]

theorem sampleCount_absorb (elapsed : Double) (registry : Registry) (effect : Effect) :
    (registry.absorb elapsed effect).sampleCount name labels =
      registry.sampleCount name labels + effect.samplesUnder (metricKey name labels) := by
  cases effect with
  | reported event => exact (Int64.add_zero _).symm
  | counted other others amount => exact (Int64.add_zero _).symm
  | timed other others =>
      simp only [absorb, recordSample, sampleCount, Effect.samplesUnder,
        Std.ExtTreeMap.getElem?_insert]
      by_cases same : metricKey other others = metricKey name labels
      · rw [if_pos (Std.compare_eq_iff_eq.mpr same), if_pos same, same]
        rfl
      · rw [if_neg (fun equal => same (Std.compare_eq_iff_eq.mp equal)), if_neg same,
          Int64.add_zero]

theorem counterValue_absorbAll (elapsed : Nat → Double) (effects : List Effect)
    (registry : Registry) :
    (registry.absorbAll elapsed effects).counterValue name labels =
      registry.counterValue name labels +
        Effect.total (Effect.amountUnder (metricKey name labels)) effects := by
  induction effects generalizing registry elapsed with
  | nil => exact (Int64.add_zero _).symm
  | cons effect effects ih =>
      rw [absorbAll, ih, counterValue_absorb, Effect.total, Int64.add_assoc]

theorem sampleCount_absorbAll (elapsed : Nat → Double) (effects : List Effect)
    (registry : Registry) :
    (registry.absorbAll elapsed effects).sampleCount name labels =
      registry.sampleCount name labels +
        Effect.total (Effect.samplesUnder (metricKey name labels)) effects := by
  induction effects generalizing registry elapsed with
  | nil => exact (Int64.add_zero _).symm
  | cons effect effects ih =>
      rw [absorbAll, ih, sampleCount_absorb, Effect.total, Int64.add_assoc]

end Registry

/-! ### One label -/

def Labels.single (label value : String) : Labels := Std.ExtTreeMap.ofList [(label, value)] compare

theorem metricKey_empty (name : String) : metricKey name ∅ = name := rfl

theorem exists_metricKey_eq_append (name : String) (labels : Labels) :
    ∃ mark, metricKey name labels = name ++ mark := by
  unfold metricKey
  split
  · exact ⟨"", String.append_empty.symm⟩
  · exact ⟨_, by rw [String.append_assoc, String.append_assoc]⟩

def labelText (entries : List (String × String)) : String :=
  ",".intercalate (entries.map (fun (label, value) => label ++ "=\"" ++ value ++ "\""))

theorem metricKey_labelled {labels : Labels} (name : String) (labelled : labels.isEmpty = false) :
    metricKey name labels = name ++ "\x7b" ++ labelText labels.toList ++ "\x7d" := by
  unfold metricKey
  rw [labelled, if_neg Bool.false_ne_true]
  rfl

def behindQuote : List (String × String) → List Char
  | [] => []
  | entry :: rest => ',' :: (labelText (entry :: rest)).toList

theorem toList_labelText_cons (label value : String) (rest : List (String × String)) :
    (labelText ((label, value) :: rest)).toList =
      label.toList ++ '=' :: ('"' :: (value.toList ++ '"' :: behindQuote rest)) := by
  unfold labelText
  rw [String.toList_intercalate, List.map_cons, List.map_cons]
  have head : (label ++ "=\"" ++ value ++ "\"").toList =
      label.toList ++ '=' :: ('"' :: (value.toList ++ ['"'])) := by
    simp only [String.toList_append, List.append_assoc]
    rfl
  cases rest with
  | nil =>
      rw [List.map_nil, List.map_nil, List.intercalate_singleton]
      exact head
  | cons second rest =>
      rw [List.map_cons, List.map_cons, List.intercalate_cons_cons, behindQuote, labelText,
        String.toList_intercalate]
      refine (congrArg (fun text => text ++ ",".toList ++ _) head).trans ?_
      simp only [List.append_assoc, List.cons_append, List.nil_append]
      rfl

/-- Where neither the label nor its value holds a character that keys put around them, no
other labels give the same key. -/
theorem eq_single_of_metricKey_eq {name label value : String} {labels : Labels}
    (plainLabel : '=' ∉ label.toList) (plainValue : '=' ∉ value.toList ∧ '"' ∉ value.toList)
    (same : metricKey name labels = metricKey name (.single label value)) :
    labels = .single label value := by
  have single : metricKey name (.single label value) =
      name ++ "\x7b" ++ (label ++ "=\"" ++ value ++ "\"") ++ "\x7d" := rfl
  rw [single] at same
  unfold metricKey at same
  cases none : labels.isEmpty with
  | true =>
      rw [none, if_pos rfl] at same
      have lengths := congrArg String.length same
      simp only [String.length_append] at lengths
      have brace : ("\x7d" : String).length = 1 := rfl
      omega
  | false =>
      rw [none, if_neg Bool.false_ne_true, String.append_left_inj, String.append_right_inj] at same
      have listed : labels.toList ≠ [] := by
        intro empty
        rw [← Std.ExtTreeMap.isEmpty_toList, empty] at none
        cases none
      obtain ⟨⟨first, firstValue⟩, rest, entries⟩ := List.exists_cons_of_ne_nil listed
      have texts : (labelText labels.toList).toList = (labelText [(label, value)]).toList :=
        congrArg String.toList same
      rw [entries, toList_labelText_cons, toList_labelText_cons] at texts
      have plainRest : '=' ∉ '"' :: (value.toList ++ '"' :: behindQuote []) := by
        simp only [behindQuote, List.mem_cons, List.mem_append, List.not_mem_nil, or_false, not_or]
        exact ⟨by decide, plainValue.1, by decide⟩
      obtain ⟨sameLabel, _mark, values⟩ :=
        (List.append_cons_inj_of_notMem plainLabel plainRest).mp texts.symm
      obtain ⟨sameValue, _quote, ended⟩ :=
        (List.append_cons_inj_of_notMem plainValue.2 List.not_mem_nil).mp (List.cons.inj values).2
      have last : rest = [] := by
        cases rest with
        | nil => rfl
        | cons second rest => cases ended
      apply Std.ExtTreeMap.toList_inj.mp
      rw [entries, last, ← String.toList_inj.mp sameLabel, ← String.toList_inj.mp sameValue]
      rfl

end Featurize
