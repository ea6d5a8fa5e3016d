import Featurize.Proofs.Telemetry.Tallies

/-!
Counters apart from each other. A counter is kept under a key that is written from its name and
its labels, and nothing marks the characters of a name, a label or a value that the key itself
uses. Where the names have no opening brace, the labels no equality sign and the values no
quotation mark, a key can be read back, and every counter holds the sum of the amounts that were
counted under its own name and labels. Elsewhere two counters can share a key, and each of them
shows the amounts of both.
-/

namespace Featurize

def PlainLabel (label value : String) : Prop := '=' ∉ label.toList ∧ '"' ∉ value.toList

/-- A name with labels that can be read back from their key. -/
structure PlainSeries (name : String) (labels : Labels) : Prop where
  unbraced : '\x7b' ∉ name.toList
  plain : ∀ entry ∈ labels.toList, PlainLabel entry.1 entry.2

theorem PlainSeries.without_labels {name : String} (unbraced : '\x7b' ∉ name.toList) :
    PlainSeries name ∅ :=
  ⟨unbraced, fun _entry member => by cases member⟩

theorem PlainSeries.of_single {name label value : String} (unbraced : '\x7b' ∉ name.toList)
    (plain : PlainLabel label value) : PlainSeries name (.single label value) := by
  refine ⟨unbraced, fun entry member => ?_⟩
  cases List.mem_singleton.mp member
  exact plain

/-! ### Reading keys back -/

private theorem cut_at_first {mark : Char} {first second restFirst restSecond : List Char}
    (unmarkedFirst : mark ∉ first) (unmarkedSecond : mark ∉ second)
    (same : first ++ mark :: restFirst = second ++ mark :: restSecond) :
    first = second ∧ restFirst = restSecond := by
  induction first generalizing second with
  | nil =>
      cases second with
      | nil => exact ⟨rfl, (List.cons.inj same).2⟩
      | cons character second =>
          have marked := (List.cons.inj same).1
          exact absurd (marked ▸ List.mem_cons_self ..) unmarkedSecond
  | cons character first ih =>
      cases second with
      | nil =>
          have marked := (List.cons.inj same).1
          exact absurd (marked ▸ List.mem_cons_self ..) unmarkedFirst
      | cons other second =>
          obtain ⟨sameHead, sameTail⟩ := List.cons.inj same
          obtain ⟨sameFirst, sameRest⟩ :=
            ih (fun member => unmarkedFirst (List.mem_cons_of_mem _ member))
              (fun member => unmarkedSecond (List.mem_cons_of_mem _ member)) sameTail
          exact ⟨sameHead ▸ sameFirst ▸ rfl, sameRest⟩

theorem labelText_cons_ne (label value : String) (rest : List (String × String)) :
    labelText ((label, value) :: rest) ≠ labelText [] := by
  intro same
  have texts := congrArg String.toList same
  rw [toList_labelText_cons] at texts
  exact List.append_ne_nil_of_right_ne_nil _ (List.cons_ne_nil _ _) texts

private theorem labelText_eq_of_behindQuote {entries others : List (String × String)}
    (same : behindQuote entries = behindQuote others) : labelText entries = labelText others := by
  cases entries with
  | nil =>
      cases others with
      | nil => rfl
      | cons other others => cases same
  | cons entry entries =>
      cases others with
      | nil => cases same
      | cons other others => exact String.toList_inj.mp (List.cons.inj same).2

theorem brace_mem_metricKey {labels : Labels} (name : String) (labelled : labels.isEmpty = false) :
    '\x7b' ∈ (metricKey name labels).toList := by
  rw [metricKey_labelled name labelled]
  simp only [String.toList_append, List.mem_append]
  exact .inl (.inl (.inr (List.mem_singleton_self _)))

/-- Plain labels are read off their text. -/
theorem labelText_inj {entries others : List (String × String)}
    (plain : ∀ entry ∈ entries, PlainLabel entry.1 entry.2)
    (plainOthers : ∀ other ∈ others, PlainLabel other.1 other.2)
    (same : labelText entries = labelText others) : entries = others := by
  induction entries generalizing others with
  | nil =>
      cases others with
      | nil => rfl
      | cons other others => exact absurd same.symm (labelText_cons_ne other.1 other.2 others)
  | cons entry entries ih =>
      obtain ⟨label, value⟩ := entry
      cases others with
      | nil => exact absurd same (labelText_cons_ne label value entries)
      | cons other others =>
          obtain ⟨otherLabel, otherValue⟩ := other
          obtain ⟨⟨plainLabel, plainValue⟩, plainRest⟩ := List.forall_mem_cons.mp plain
          obtain ⟨⟨otherPlainLabel, otherPlainValue⟩, otherPlainRest⟩ :=
            List.forall_mem_cons.mp plainOthers
          have texts := congrArg String.toList same
          rw [toList_labelText_cons, toList_labelText_cons] at texts
          obtain ⟨sameLabel, quoted⟩ := cut_at_first plainLabel otherPlainLabel texts
          obtain ⟨sameValue, behind⟩ :=
            cut_at_first plainValue otherPlainValue (List.cons.inj quoted).2
          have rest := ih plainRest otherPlainRest (labelText_eq_of_behindQuote behind)
          have entry : (label, value) = (otherLabel, otherValue) :=
            Prod.ext (String.toList_inj.mp sameLabel) (String.toList_inj.mp sameValue)
          rw [entry, rest]

private theorem eq_of_metricKey_labelled {name otherName : String} {labels otherLabels : Labels}
    (plain : PlainSeries name labels) (plainOther : PlainSeries otherName otherLabels)
    (labelled : labels.isEmpty = false) (otherLabelled : otherLabels.isEmpty = false)
    (same : metricKey otherName otherLabels = metricKey name labels) :
    otherName = name ∧ otherLabels = labels := by
  rw [metricKey_labelled name labelled, metricKey_labelled otherName otherLabelled] at same
  have texts := congrArg String.toList same
  simp only [String.toList_append, List.append_assoc] at texts
  obtain ⟨sameName, braced⟩ := cut_at_first plainOther.unbraced plain.unbraced texts
  have sameText : labelText otherLabels.toList = labelText labels.toList :=
    String.toList_inj.mp (List.append_cancel_right braced)
  exact ⟨String.toList_inj.mp sameName, Std.ExtTreeMap.toList_inj.mp
    (labelText_inj plainOther.plain plain.plain sameText)⟩

/-- A plain name without labels shares its key with nothing else; with labels, only a name with
labels that are not plain can have its key. -/
theorem metricKey_eq_iff {name otherName : String} {labels otherLabels : Labels}
    (plain : PlainSeries name labels)
    (plainOther : labels = ∅ ∨ PlainSeries otherName otherLabels) :
    metricKey otherName otherLabels = metricKey name labels ↔
      otherName = name ∧ otherLabels = labels := by
  constructor
  · intro same
    cases unlabelled : labels.isEmpty with
    | true =>
        cases Std.ExtTreeMap.isEmpty_iff.mp unlabelled
        rw [metricKey_empty] at same
        cases otherUnlabelled : otherLabels.isEmpty with
        | true =>
            cases Std.ExtTreeMap.isEmpty_iff.mp otherUnlabelled
            exact ⟨same, rfl⟩
        | false =>
            exact absurd (same ▸ brace_mem_metricKey otherName otherUnlabelled) plain.unbraced
    | false =>
        have labelled : labels ≠ ∅ := fun empty => by
          rw [Std.ExtTreeMap.isEmpty_iff.mpr empty] at unlabelled
          cases unlabelled
        have plainOther := plainOther.resolve_left labelled
        cases otherUnlabelled : otherLabels.isEmpty with
        | true =>
            cases Std.ExtTreeMap.isEmpty_iff.mp otherUnlabelled
            rw [metricKey_empty] at same
            exact absurd (same ▸ brace_mem_metricKey name unlabelled) plainOther.unbraced
        | false => exact eq_of_metricKey_labelled plain plainOther unlabelled otherUnlabelled same
  · intro ⟨sameName, sameLabels⟩
    rw [sameName, sameLabels]

/-! ### Counters -/

namespace Effect

def amountOf (name : String) (labels : Labels) : Effect → Int64
  | .counted other others amount => if other = name ∧ others = labels then amount else 0
  | _ => 0

variable {measure other : Effect → Int64}

theorem total_congr {effects : List Effect}
    (same : ∀ effect ∈ effects, measure effect = other effect) :
    total measure effects = total other effects := by
  induction effects with
  | nil => rfl
  | cons effect effects ih =>
      obtain ⟨head, tail⟩ := List.forall_mem_cons.mp same
      rw [total, total, head, ih tail]

end Effect

namespace Registry

variable {name : String} {labels : Labels}

/-- A counter with a plain name and labels holds the sum of the amounts that were counted under
exactly these, in whatever order and whatever else was counted or timed, as long as only plain
names and labels were counted; without labels, whatever was counted. -/
theorem counterValue_of_plain (elapsed : Nat → Double) (effects : List Effect)
    (plain : PlainSeries name labels)
    (others : labels = ∅ ∨ ∀ otherName otherLabels amount,
      .counted otherName otherLabels amount ∈ effects → PlainSeries otherName otherLabels) :
    (absorbAll elapsed effects {}).counterValue name labels =
      Effect.total (Effect.amountOf name labels) effects := by
  have started : ({} : Registry).counterValue name labels = 0 := by
    unfold counterValue
    rw [Std.ExtTreeMap.getElem?_empty]
    rfl
  rw [counterValue_absorbAll, started, Int64.zero_add]
  refine Effect.total_congr (fun effect member => ?_)
  cases effect with
  | reported event => rfl
  | timed timedName timedLabels => rfl
  | counted otherName otherLabels amount =>
      exact if_congr (metricKey_eq_iff plain
        (others.imp_right (fun all => all otherName otherLabels amount member))) rfl rfl

/-- A comma and an equality sign in a value do no harm, nor do counters of the same name. -/
theorem counterValue_of_plain_apart :
    ∃ effects : List Effect,
      effects =
        [.counted "hits" (.single "page" "a,b=c") 3, .counted "hits" (.single "page" "a") 5,
          .timed "hits" (.single "page" "a,b=c"), .counted "hits" ∅ 7,
          .counted "hits" (.single "page" "a,b=c") (-1)] ∧
      PlainSeries "hits" (.single "page" "a,b=c") ∧
      (∀ name labels amount, .counted name labels amount ∈ effects → PlainSeries name labels) ∧
      (absorbAll (fun _place => 0.0) effects {}).counterValue "hits" (.single "page" "a,b=c") =
        2 := by
  have listed : PlainSeries "hits" (.single "page" "a,b=c") :=
    .of_single (by decide) ⟨by decide, by decide⟩
  have all : ∀ name labels amount, .counted name labels amount ∈
      [Effect.counted "hits" (.single "page" "a,b=c") 3, .counted "hits" (.single "page" "a") 5,
        .timed "hits" (.single "page" "a,b=c"), .counted "hits" ∅ 7,
        .counted "hits" (.single "page" "a,b=c") (-1)] → PlainSeries name labels := by
    intro name labels amount member
    simp only [List.mem_cons, List.not_mem_nil, or_false, Effect.counted.injEq, reduceCtorEq,
      false_or] at member
    rcases member with ⟨rfl, rfl, _⟩ | ⟨rfl, rfl, _⟩ | ⟨rfl, rfl, _⟩ | ⟨rfl, rfl, _⟩
    · exact listed
    · exact .of_single (by decide) ⟨by decide, by decide⟩
    · exact .without_labels (by decide)
    · exact listed
  exact ⟨_, rfl, listed, all,
    (counterValue_of_plain (fun _place => 0.0) _ listed (.inr all)).trans (by decide)⟩

/-- A quotation mark in a value ends it for the key: one increment of a page shows as an
increment of another page and its user, for which nothing was counted. -/
theorem quoted_value_shares_counter :
    ∃ labels : Labels,
      labels = Std.ExtTreeMap.ofList [("page", "x"), ("user", "y")] compare ∧
      (absorbAll (fun _place => 0.0)
          [.counted "hits" (.single "page" "x\",user=\"y") 1] {}).counterValue "hits" labels = 1 ∧
      Effect.total (Effect.amountOf "hits" labels)
          [.counted "hits" (.single "page" "x\",user=\"y") 1] = 0 :=
  ⟨_, rfl, by decide, by decide⟩

end Registry

end Featurize
