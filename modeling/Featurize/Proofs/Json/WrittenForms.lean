import Featurize.Json.Access
import Featurize.Proofs.Collection
import Mathlib.Data.List.TakeWhile

/-!
Written JSON reads back. Numbers are read as they were written where they fit their type,
lists item by item, and the decimal name of an id is that id again. So an object that was
written for a map of ids or of names is read as the same map, entry by entry, although its
members stand in the order of their names.
-/

namespace Featurize

/-! ### Integer keys -/

namespace IntegerKey

theorem ofSigned?_toDigits {negative : Bool} {count : Nat} {value : Int}
    (signed : (if negative then -(count : Int) else count) = value)
    (above : -Word.signedLimit ≤ value) (below : value < Word.signedLimit) :
    ofSigned? negative (Nat.toDigits 10 count) = some (Int64.ofInt value) := by
  have digits : (Nat.toDigits 10 count).takeWhile Char.isDigit = Nat.toDigits 10 count :=
    List.takeWhile_eq_self_iff.mpr (fun character member =>
      Nat.isDigit_of_mem_toDigits (by decide) (by decide) member)
  have read : Decimal.ofDigits (Nat.toDigits 10 count) = count := by
    unfold Decimal.ofDigits
    rw [← Nat.ofDigitChars_eq_foldl, Nat.ofDigitChars_ten_toDigits]
  have present : (Nat.toDigits 10 count).isEmpty = false :=
    List.isEmpty_eq_false_iff.mpr Nat.toDigits_ne_nil
  unfold ofSigned?
  simp only [digits, read, present, signed, Bool.false_eq_true, ↓reduceIte]
  exact if_pos ⟨above, below⟩

theorem plain_of_isDigit {character : Char} (digit : character.isDigit = true) :
    isBlank character = false ∧ character ≠ '-' ∧ character ≠ '+' := by
  have low : '0'.val ≤ character.val := by
    unfold Char.isDigit at digit
    simp only [Bool.and_eq_true, decide_eq_true_eq] at digit
    exact digit.1
  have above (other : Char) (smaller : other.val < '0'.val) : ¬ character ≤ other := by
    intro bounded
    exact absurd (UInt32.lt_of_le_of_lt (UInt32.le_trans low bounded) smaller)
      (UInt32.lt_irrefl _)
  refine ⟨?_, fun same => above '-' (by decide) (same ▸ Char.le_refl _),
    fun same => above '+' (by decide) (same ▸ Char.le_refl _)⟩
  unfold isBlank
  have notSpace : (character == ' ') = false :=
    beq_eq_false_iff_ne.mpr (fun same => above ' ' (by decide) (same ▸ Char.le_refl _))
  simp only [notSpace, above '\r' (by decide), decide_false, Bool.and_false, Bool.or_self]

private theorem ofChars?_toDigits (count : Nat) :
    ofChars? (Nat.toDigits 10 count) = ofSigned? false (Nat.toDigits 10 count) := by
  cases written : Nat.toDigits 10 count with
  | nil => exact absurd written Nat.toDigits_ne_nil
  | cons first rest =>
      have digit : first.isDigit = true :=
        Nat.isDigit_of_mem_toDigits (by decide) (by decide) (written ▸ List.mem_cons_self ..)
      obtain ⟨notBlank, notMinus, notPlus⟩ := plain_of_isDigit digit
      have kept : (first :: rest).dropWhile isBlank = first :: rest :=
        List.dropWhile_cons_of_neg (by rw [notBlank]; exact Bool.false_ne_true)
      unfold ofChars?
      rw [kept]
      split
      · rename_i minus
        exact absurd (List.cons.inj minus).1 notMinus
      · rename_i plus
        exact absurd (List.cons.inj plus).1 notPlus
      · rfl

/-- The decimal name of an id is read as that id. -/
theorem parse?_toString (id : Int64) : parse? (toString id.toInt) = some id := by
  have below : id.toInt < Word.signedLimit := id.toInt_lt
  have above : -Word.signedLimit ≤ id.toInt := id.le_toInt
  have back := Int64.ofInt_toInt id
  generalize id.toInt = value at below above back
  unfold parse?
  rw [← back]
  cases value with
  | ofNat count =>
      have text : (toString (Int.ofNat count)).toList = Nat.toDigits 10 count := by
        change (Nat.repr count).toList = _
        rw [Nat.repr_eq_ofList_toDigits, String.toList_ofList]
      rw [text, ofChars?_toDigits]
      exact ofSigned?_toDigits rfl above below
  | negSucc count =>
      have text : (toString (Int.negSucc count)).toList = '-' :: Nat.toDigits 10 (count + 1) := by
        change ("-" ++ Nat.repr (count + 1)).toList = _
        rw [Nat.repr_eq_ofList_toDigits, String.toList_append,
          @String.toList_ofList (Nat.toDigits 10 (count + 1))]
        rfl
      rw [text]
      exact ofSigned?_toDigits rfl above below

end IntegerKey

theorem toString_toInt_injective {left right : Int64}
    (same : toString left.toInt = toString right.toInt) : left = right :=
  Option.some.inj ((IntegerKey.parse?_toString left).symm.trans
    (same ▸ IntegerKey.parse?_toString right))

namespace Json

/-! ### Lists -/

theorem asList_map {Item : Type} {write : Item → Json} {read : Json → Except ReadFault Item}
    {items : List Item} (inverse : ∀ item ∈ items, read (write item) = .ok item) :
    (Json.arr (items.map write)).asList read = .ok items := by
  unfold asList
  induction items with
  | nil => rfl
  | cons item items ih =>
      have head := inverse item (List.mem_cons_self ..)
      have tail := ih (fun other member => inverse other (List.mem_cons_of_mem _ member))
      dsimp only at tail ⊢
      rw [List.map_cons, List.mapM_cons, head, tail]
      rfl

theorem asIds_ofIdList (ids : List Int64) : (ofIdList ids).asIds = .ok ids :=
  asList_map (fun id _member => congrArg Except.ok id.ofInt_toInt)

theorem asDoubles_ofDoubles (values : List Double) : (ofDoubles values).asDoubles = .ok values :=
  asList_map (fun _value _member => rfl)

theorem asSizes_ofNats {sizes : List Nat} (words : ∀ size ∈ sizes, size < Word.modulus) :
    (ofNats sizes).asSizes = .ok sizes :=
  asList_map (fun size member => congrArg Except.ok (Word.ofInt_natCast (words size member)))

/-! ### Maps -/

def idPart {Entry : Type} (read : Json → Except ReadFault Entry) (part : Option String × Json) :
    Except ReadFault (Int64 × Entry) := do
  let entry ← read part.2
  let id ← partId part.1
  return (id, entry)

def namePart {Entry : Type} (read : Json → Except ReadFault Entry) (part : Option String × Json) :
    Except ReadFault (String × Entry) := do
  let entry ← read part.2
  let name ← partName part.1
  return (name, entry)

theorem asIdMap_eq_collect {Entry : Type} (read : Json → Except ReadFault Entry) (json : Json) :
    json.asIdMap read =
      Collection.collect (fun (found : IdMap Entry) id entry => found.insert id entry)
        (idPart read) json.parts ∅ := by
  unfold asIdMap Collection.collect idPart
  simp only [bind_assoc, pure_bind]

theorem asNameMap_eq_collect {Entry : Type} (read : Json → Except ReadFault Entry)
    (json : Json) :
    json.asNameMap read =
      Collection.collect (fun (found : NameMap Entry) name entry => found.insert name entry)
        (namePart read) json.parts ∅ := by
  unfold asNameMap Collection.collect namePart
  simp only [bind_assoc, pure_bind]

theorem mem_object_iff {members : List (String × Json)}
    (distinct : members.Pairwise (fun earlier later => earlier.1 ≠ later.1)) {name : String}
    {value : Json} :
    (name, value) ∈ (Std.ExtTreeMap.ofList members compare : NameMap Json).toList ↔
      (name, value) ∈ members := by
  have apart : members.Pairwise (fun earlier later => ¬ compare earlier.1 later.1 = .eq) :=
    distinct.imp (fun differ equal => differ (Std.compare_eq_iff_eq.mp equal))
  have found {other : Json} (member : (name, other) ∈ members) :
      (Std.ExtTreeMap.ofList members compare : NameMap Json)[name]? = some other :=
    Std.ExtTreeMap.getElem?_ofList_of_mem Std.compare_self apart member
  rw [Std.ExtTreeMap.mem_toList_iff_getElem?_eq_some]
  constructor
  · intro present
    by_cases named : name ∈ members.map Prod.fst
    · obtain ⟨⟨_name, other⟩, member, same⟩ := List.mem_map.mp named
      dsimp only at same
      subst same
      cases (found member).symm.trans present
      exact member
    · have absent : (members.map Prod.fst).contains name = false := by
        rw [List.contains_eq_mem]
        exact decide_eq_false named
      rw [Std.ExtTreeMap.getElem?_ofList_of_contains_eq_false absent] at present
      cases present
  · exact found

theorem mem_parts_obj {members : List (String × Json)} {part : Option String × Json} :
    part ∈ (Json.obj members).parts ↔
      ∃ name value, (name, value) ∈ members ∧ (some name, value) = part := by
  unfold parts
  rw [List.mem_map, Prod.exists]

section Maps

variable {Entry : Type} {write : Entry → Json} {read : Json → Except ReadFault Entry}

theorem mem_parts_ofIds {entries : IdMap Entry} {part : Option String × Json} :
    part ∈ (ofIds write entries).parts ↔
      ∃ (id : Int64) (entry : Entry), entries[id]? = some entry ∧
        (some (toString id.toInt), write entry) = part := by
  have distinct : (entries.toList.map (fun member =>
      (toString member.1.toInt, write member.2))).Pairwise
        (fun earlier later => earlier.1 ≠ later.1) :=
    List.pairwise_map.mpr (Std.ExtTreeMap.distinct_keys_toList.imp
      (fun apart same => apart (Std.compare_eq_iff_eq.mpr (toString_toInt_injective same))))
  have members : ofIds write entries = object (entries.toList.map (fun member =>
      (toString member.1.toInt, write member.2))) := by
    refine congrArg object (List.map_congr_left fun member _present => ?_)
    cases member
    rfl
  rw [members, object]
  simp only [mem_parts_obj, mem_object_iff distinct, List.mem_map, Prod.exists, Prod.mk.injEq,
    Std.ExtTreeMap.mem_toList_iff_getElem?_eq_some]
  constructor
  · rintro ⟨_name, _value, ⟨id, entry, held, rfl, rfl⟩, same⟩
    exact ⟨id, entry, held, same⟩
  · rintro ⟨id, entry, held, same⟩
    exact ⟨_, _, ⟨id, entry, held, rfl, rfl⟩, same⟩

theorem mem_parts_ofNames {entries : NameMap Entry} {part : Option String × Json} :
    part ∈ (ofNames write entries).parts ↔
      ∃ name entry, entries[name]? = some entry ∧ (some name, write entry) = part := by
  unfold ofNames
  simp only [mem_parts_obj, List.mem_map, Prod.exists, Prod.mk.injEq,
    Std.ExtTreeMap.mem_toList_iff_getElem?_eq_some]
  constructor
  · rintro ⟨_name, _value, ⟨name, entry, held, rfl, rfl⟩, same⟩
    exact ⟨name, entry, held, same⟩
  · rintro ⟨name, entry, held, same⟩
    exact ⟨_, _, ⟨name, entry, held, rfl, rfl⟩, same⟩

theorem asIdMap_ofIds (inverse : ∀ entry, read (write entry) = .ok entry)
    (entries : IdMap Entry) : (ofIds write entries).asIdMap read = .ok entries := by
  have given (id : Int64) (entry : Entry) :
      idPart read (some (toString id.toInt), write entry) = .ok (id, entry) := by
    unfold idPart partId partName
    simp only [inverse, bind, Except.bind, IntegerKey.parse?_toString, pure, Except.pure]
  rw [asIdMap_eq_collect]
  exact Collection.collect_written given (fun _part => mem_parts_ofIds)

theorem asNameMap_ofNames (inverse : ∀ entry, read (write entry) = .ok entry)
    (entries : NameMap Entry) : (ofNames write entries).asNameMap read = .ok entries := by
  have given (name : String) (entry : Entry) :
      namePart read (some name, write entry) = .ok (name, entry) := by
    unfold namePart partName
    simp only [inverse, bind, Except.bind, pure, Except.pure]
  rw [asNameMap_eq_collect]
  exact Collection.collect_written given (fun _part => mem_parts_ofNames)

end Maps

end Json

end Featurize
