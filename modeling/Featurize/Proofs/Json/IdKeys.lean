import Featurize.Proofs.Json.WrittenForms
import Featurize.Record.Reader
import Featurize.Sparse.FeatureConfig

/-!
Names of members as ids. A name is read by what it begins with, so white space, a plus sign and
leading zeros are passed over, and text behind the digits is left aside. An object whose members
are kept by id is therefore accepted when each name begins with an integer. It keeps the last
member of each id, and has an entry for each member only where no two names lead to one id.
-/

namespace Featurize

/-! ### Names -/

namespace IntegerKey

variable {text blanks digits rest : List Char} {sign : Option Char} {negative : Bool} {id : Int64}

def signedValue (negative : Bool) (digits : List Char) : Int :=
  if negative then -(Decimal.ofDigits digits : Int) else Decimal.ofDigits digits

/-- How a text begins with an integer, and what is left aside behind the digits. -/
structure Begins (text blanks : List Char) (sign : Option Char) (digits rest : List Char)
    (id : Int64) : Prop where
  parts : text = blanks ++ (sign.toList ++ (digits ++ rest))
  blank : ∀ character ∈ blanks, isBlank character = true
  signed : sign = none ∨ sign = some '-' ∨ sign = some '+'
  some_digit : digits ≠ []
  digit : ∀ character ∈ digits, character.isDigit = true
  ends : ∀ character ∈ rest.head?, character.isDigit = false
  value : id.toInt = signedValue (sign == some '-') digits

/-- A name that begins with the integer of an id, whatever stands around it. -/
def Leads (name : String) (id : Int64) : Prop :=
  ∃ blanks sign digits rest, Begins name.toList blanks sign digits rest id

/-- A name that is the decimal spelling of an id: digits, and at most a minus sign before them. -/
def Spells (name : String) (id : Int64) : Prop :=
  ∃ sign digits, sign ≠ some '+' ∧ Begins name.toList [] sign digits [] id

theorem Spells.digit_or_minus {name : String} (spells : Spells name id) :
    ∀ character ∈ name.toList, character.isDigit = true ∨ character = '-' := by
  rcases spells with ⟨sign, digits, plain, begins⟩
  intro character member
  rw [begins.parts, List.nil_append, List.append_nil] at member
  rcases List.mem_append.mp member with first | later
  · rcases begins.signed with unsigned | minus | plus
    · rw [unsigned] at first
      cases first
    · rw [minus] at first
      exact .inr (List.mem_singleton.mp first)
    · exact absurd plus plain
  · exact .inl (begins.digit character later)

theorem takeWhile_digits (digit : ∀ character ∈ digits, character.isDigit = true)
    (ends : ∀ character ∈ rest.head?, character.isDigit = false) :
    (digits ++ rest).takeWhile Char.isDigit = digits := by
  rw [List.takeWhile_append_of_pos digit]
  cases rest with
  | nil => exact List.append_nil digits
  | cons next rest =>
      have other := ends next rfl
      rw [List.takeWhile_cons_of_neg (by rw [other]; exact Bool.false_ne_true), List.append_nil]

theorem ofSigned?_eq_some_iff :
    ofSigned? negative text = some id ↔
      ∃ digits rest, text = digits ++ rest ∧ digits ≠ [] ∧
        (∀ character ∈ digits, character.isDigit = true) ∧
        (∀ character ∈ rest.head?, character.isDigit = false) ∧
        id.toInt = signedValue negative digits := by
  have taken : ofSigned? negative text =
      if (text.takeWhile Char.isDigit).isEmpty then none
      else if -Word.signedLimit ≤ signedValue negative (text.takeWhile Char.isDigit) ∧
          signedValue negative (text.takeWhile Char.isDigit) < Word.signedLimit then
        some (Int64.ofInt (signedValue negative (text.takeWhile Char.isDigit)))
      else none := rfl
  rw [taken, Option.ite_none_left_eq_some, Option.ite_none_right_eq_some, Option.some.injEq]
  constructor
  · rintro ⟨present, within, same⟩
    have value : id.toInt = signedValue negative (text.takeWhile Char.isDigit) := by
      rw [← same]
      exact Int64.toInt_ofInt_of_le within.1 within.2
    have ends : ∀ character ∈ (text.dropWhile Char.isDigit).head?,
        character.isDigit = false := by
      intro character first
      have stopped := List.head?_dropWhile_not Char.isDigit text
      rw [Option.mem_def.mp first] at stopped
      exact stopped
    exact ⟨_, _, List.takeWhile_append_dropWhile.symm, mt List.isEmpty_iff.mpr present,
      fun character member => List.mem_takeWhile_imp member, ends, value⟩
  · rintro ⟨digits, rest, parts, some_digit, digit, ends, value⟩
    have below : id.toInt < Word.signedLimit := id.toInt_lt
    have above : -Word.signedLimit ≤ id.toInt := id.le_toInt
    rw [parts, takeWhile_digits digit ends, ← value]
    exact ⟨mt List.isEmpty_iff.mp some_digit, ⟨above, below⟩, Int64.ofInt_toInt id⟩

theorem dropWhile_blanks (blank : ∀ character ∈ blanks, isBlank character = true)
    (stops : ∀ character ∈ text.head?, isBlank character = false) :
    (blanks ++ text).dropWhile isBlank = text := by
  rw [List.dropWhile_append_of_pos blank]
  cases text with
  | nil => rfl
  | cons first text =>
      have other := stops first rfl
      exact List.dropWhile_cons_of_neg (by rw [other]; exact Bool.false_ne_true)

theorem Begins.skipped (begins : Begins text blanks sign digits rest id) :
    text.dropWhile isBlank = sign.toList ++ (digits ++ rest) := by
  rw [begins.parts]
  refine dropWhile_blanks begins.blank fun character head => ?_
  rcases begins.signed with rfl | rfl | rfl
  · rcases List.exists_cons_of_ne_nil begins.some_digit with ⟨first, later, split⟩
    rw [split] at head
    cases head
    exact (plain_of_isDigit (begins.digit _ (split ▸ List.mem_cons_self ..))).1
  · cases head
    rfl
  · cases head
    rfl

theorem Begins.ofChars? (begins : Begins text blanks sign digits rest id) :
    ofChars? text = some id := by
  have taken := ofSigned?_eq_some_iff.mpr
    ⟨digits, rest, rfl, begins.some_digit, begins.digit, begins.ends, begins.value⟩
  unfold IntegerKey.ofChars?
  rw [begins.skipped]
  rcases begins.signed with rfl | rfl | rfl
  · rcases List.exists_cons_of_ne_nil begins.some_digit with ⟨first, later, parts⟩
    have plain := plain_of_isDigit (begins.digit first (parts ▸ List.mem_cons_self ..))
    rw [parts] at taken ⊢
    split
    · rename_i minus
      exact absurd (List.cons.inj minus).1 plain.2.1
    · rename_i plus
      exact absurd (List.cons.inj plus).1 plain.2.2
    · exact taken
  · exact taken
  · exact taken

theorem exists_begins_of_signed {behind : List Char}
    (skipped : text.dropWhile isBlank = sign.toList ++ behind)
    (signed : sign = none ∨ sign = some '-' ∨ sign = some '+')
    (taken : ofSigned? (sign == some '-') behind = some id) :
    ∃ blanks sign digits rest, Begins text blanks sign digits rest id := by
  rcases ofSigned?_eq_some_iff.mp taken with
    ⟨digits, rest, parts, some_digit, digit, ends, value⟩
  have whole : text = text.takeWhile isBlank ++ (sign.toList ++ (digits ++ rest)) := by
    rw [← parts, ← skipped, List.takeWhile_append_dropWhile]
  exact ⟨text.takeWhile isBlank, sign, digits, rest, whole,
    fun character member => List.mem_takeWhile_imp member, signed, some_digit, digit, ends, value⟩

/-- The reader of names takes exactly the names that begin with an integer of 64 bits. -/
theorem parse?_eq_some_iff {name : String} : parse? name = some id ↔ Leads name id := by
  constructor
  · intro taken
    unfold parse? IntegerKey.ofChars? at taken
    split at taken
    · rename_i behind skipped
      exact @exists_begins_of_signed _ (some '-') _ _ skipped (.inr (.inl rfl)) taken
    · rename_i behind skipped
      exact @exists_begins_of_signed _ (some '+') _ _ skipped (.inr (.inr rfl)) taken
    · exact @exists_begins_of_signed _ none _ _ rfl (.inl rfl) taken
  · rintro ⟨blanks, sign, digits, rest, begins⟩
    exact begins.ofChars?

theorem Leads.unique {name : String} {other : Int64} (leads : Leads name id)
    (same : Leads name other) : id = other :=
  Option.some.inj ((parse?_eq_some_iff.mpr leads).symm.trans (parse?_eq_some_iff.mpr same))

end IntegerKey

/-! ### Objects -/

namespace Json

variable {Entry : Type} {read : Json → Except ReadFault Entry} {name : String} {value : Json}
  {members : List (String × Json)} {start entries : IdMap Entry} {id : Int64} {entry : Entry}

inductive LastLed (read : Json → Except ReadFault Entry) (id : Int64) (entry : Entry) :
    List (String × Json) → Prop where
  | here {name value later} (leads : IntegerKey.Leads name id) (given : read value = .ok entry)
      (last : ∀ member ∈ later, ¬ IntegerKey.Leads member.1 id) :
      LastLed read id entry ((name, value) :: later)
  | behind {first later} (led : LastLed read id entry later) :
      LastLed read id entry (first :: later)

def storeMembers (read : Json → Except ReadFault Entry) (members : List (String × Json))
    (start : IdMap Entry) : Except ReadFault (IdMap Entry) :=
  Collection.collect (fun found id entry => found.insert id entry)
    (fun member => idPart read (some member.1, member.2)) members start

theorem asIdMap_obj (read : Json → Except ReadFault Entry) (members : List (String × Json)) :
    (Json.obj members).asIdMap read = storeMembers read members ∅ := by
  rw [asIdMap_eq_collect, parts]
  exact List.foldlM_map

theorem idPart_eq_ok_iff :
    idPart read (some name, value) = .ok (id, entry) ↔
      IntegerKey.Leads name id ∧ read value = .ok entry := by
  unfold idPart partId partName
  rw [← IntegerKey.parse?_eq_some_iff]
  cases given : read value with
  | error fault => simp only [bind, Except.bind, reduceCtorEq, and_false]
  | ok held =>
      cases taken : IntegerKey.parse? name with
      | none =>
          simp only [bind, Except.bind, throw, throwThe, MonadExceptOf.throw, taken, reduceCtorEq,
            false_and]
      | some found =>
          simp only [bind, Except.bind, pure, Except.pure, taken, Except.ok.injEq, Prod.mk.injEq,
            Option.some.injEq]

theorem storeMembers_cons_eq_ok_iff {first : String × Json} :
    storeMembers read (first :: members) start = .ok entries ↔
      ∃ id entry, IntegerKey.Leads first.1 id ∧ read first.2 = .ok entry ∧
        storeMembers read members (start.insert id entry) = .ok entries := by
  unfold storeMembers
  simp only [Collection.collect_cons_eq_ok_iff, idPart_eq_ok_iff, and_assoc]

theorem exists_storeMembers_iff :
    (∃ entries, storeMembers read members start = .ok entries) ↔
      ∀ member ∈ members, (∃ id, IntegerKey.Leads member.1 id) ∧
        ∃ entry, read member.2 = .ok entry := by
  induction members generalizing start with
  | nil => exact ⟨fun _stored => List.forall_mem_nil _, fun _each => ⟨start, rfl⟩⟩
  | cons first members ih =>
      rw [List.forall_mem_cons]
      constructor
      · rintro ⟨entries, stored⟩
        rcases storeMembers_cons_eq_ok_iff.mp stored with ⟨id, entry, leads, given, rest⟩
        exact ⟨⟨⟨id, leads⟩, entry, given⟩, ih.mp ⟨entries, rest⟩⟩
      · rintro ⟨⟨⟨id, leads⟩, entry, given⟩, each⟩
        rcases ih.mpr each with ⟨entries, rest⟩
        exact ⟨entries, storeMembers_cons_eq_ok_iff.mpr ⟨id, entry, leads, given, rest⟩⟩

/-- An entry is that of the last member of its id, or was there before with no member of its id. -/
theorem getElem?_storeMembers (stored : storeMembers read members start = .ok entries) :
    entries[id]? = some entry ↔ LastLed read id entry members ∨
      start[id]? = some entry ∧ ∀ member ∈ members, ¬ IntegerKey.Leads member.1 id := by
  induction members generalizing start with
  | nil =>
      cases stored
      constructor
      · intro found
        exact .inr ⟨found, List.forall_mem_nil _⟩
      · rintro (led | ⟨before, _none⟩)
        · cases led
        · exact before
  | cons first members ih =>
      rcases first with ⟨name, value⟩
      rcases storeMembers_cons_eq_ok_iff.mp stored with ⟨led, held, leads, given, rest⟩
      rw [ih rest, Collection.getElem?_insert_ite, List.forall_mem_cons]
      by_cases same : led = id
      · subst same
        rw [if_pos rfl, Option.some.injEq]
        constructor
        · rintro (later | ⟨rfl, last⟩)
          · exact .inl (.behind later)
          · exact .inl (.here leads given last)
        · rintro (led | ⟨_before, none, _last⟩)
          · cases led with
            | here _leads givenToo last =>
                exact .inr ⟨Except.ok.inj (given.symm.trans givenToo), last⟩
            | behind later => exact .inl later
          · exact absurd leads none
      · rw [if_neg same]
        have apart : ¬ IntegerKey.Leads name id := fun leadsToo => same (leads.unique leadsToo)
        constructor
        · rintro (later | ⟨before, last⟩)
          · exact .inl (.behind later)
          · exact .inr ⟨before, apart, last⟩
        · rintro (led | ⟨before, _none, last⟩)
          · cases led with
            | here leadsToo _given _last => exact absurd leadsToo apart
            | behind later => exact .inl later
          · exact .inr ⟨before, last⟩

def ids (members : List (String × Json)) : List Int64 :=
  members.filterMap (fun member => IntegerKey.parse? member.1)

theorem mem_storeMembers (stored : storeMembers read members start = .ok entries) :
    id ∈ entries ↔ id ∈ start ∨ id ∈ ids members := by
  induction members generalizing start with
  | nil =>
      cases stored
      exact (or_iff_left List.not_mem_nil).symm
  | cons first members ih =>
      rcases storeMembers_cons_eq_ok_iff.mp stored with ⟨led, held, leads, _given, rest⟩
      have listed : ids (first :: members) = led :: ids members :=
        List.filterMap_cons_some (IntegerKey.parse?_eq_some_iff.mpr leads)
      rw [ih rest, Std.ExtTreeMap.mem_insert, Std.compare_eq_iff_eq, listed, List.mem_cons,
        @eq_comm _ id led, or_assoc, or_left_comm]

theorem size_storeMembers (stored : storeMembers read members ∅ = .ok entries) :
    entries.size = (ids members).dedup.length :=
  Collection.size_eq_length_dedup fun _id =>
    (mem_storeMembers stored).trans (or_iff_right Std.ExtTreeMap.not_mem_empty)

theorem nodup_ids_iff :
    (ids members).Nodup ↔ members.Pairwise fun earlier later =>
      ∀ id, IntegerKey.Leads earlier.1 id → ¬ IntegerKey.Leads later.1 id := by
  unfold ids List.Nodup
  rw [List.pairwise_filterMap]
  simp only [IntegerKey.parse?_eq_some_iff]
  constructor
  · intro distinct
    exact distinct.imp fun apart id leads leadsToo => apart id leads id leadsToo rfl
  · intro distinct
    refine distinct.imp fun {earlier later} apart id leads other leadsToo same => ?_
    exact apart id leads (same ▸ leadsToo)

/-- An object is kept by id: it is accepted with the rest where each name begins with an integer and
each value is read. Under an id stands the last member that leads to it, and as many entries as
members are there only where no two names lead to one id. -/
structure KeptById {Failure Whole : Type} (members : List (String × Json))
    (read : Json → Except ReadFault Entry) (outcome : Except Failure Whole)
    (holds : Whole → IdMap Entry → Prop) (rest : Prop) : Prop where
  accepted_iff : (∃ whole, outcome = .ok whole) ↔ rest ∧
    ∀ member ∈ members, (∃ id, IntegerKey.Leads member.1 id) ∧ ∃ entry, read member.2 = .ok entry
  held : ∀ whole, outcome = .ok whole → ∃ entries, holds whole entries ∧
    (∀ (id : Int64) (entry : Entry), entries[id]? = some entry ↔ LastLed read id entry members) ∧
    entries.size ≤ members.length ∧
    (entries.size = members.length ↔ members.Pairwise fun earlier later =>
      ∀ id, IntegerKey.Leads earlier.1 id → ¬ IntegerKey.Leads later.1 id)

theorem keptById_of_stored {Failure Whole : Type} {outcome : Except Failure Whole}
    {holds : Whole → IdMap Entry → Prop} {rest : Prop}
    (gives : ∀ entries, storeMembers read members ∅ = .ok entries → rest →
      ∃ whole, outcome = .ok whole)
    (takes : ∀ whole, outcome = .ok whole → rest ∧
      ∃ entries, storeMembers read members ∅ = .ok entries ∧ holds whole entries) :
    KeptById members read outcome holds rest where
  accepted_iff := by
    rw [← @exists_storeMembers_iff _ read members ∅]
    constructor
    · rintro ⟨whole, accepted⟩
      rcases takes whole accepted with ⟨met, entries, stored, _holds⟩
      exact ⟨met, entries, stored⟩
    · rintro ⟨met, entries, stored⟩
      exact gives entries stored met
  held whole accepted := by
    rcases takes whole accepted with ⟨_met, entries, stored, holds⟩
    have each := exists_storeMembers_iff.mp ⟨entries, stored⟩
    have counted : (ids members).length = members.length := by
      refine List.filterMap_length_eq_length.mpr fun member listed => ?_
      rcases (each member listed).1 with ⟨id, leads⟩
      rw [IntegerKey.parse?_eq_some_iff.mpr leads]
      rfl
    have size := size_storeMembers stored
    refine ⟨entries, holds, fun id entry => ?_, ?_, ?_⟩
    · rw [getElem?_storeMembers stored, Std.ExtTreeMap.getElem?_empty]
      exact or_iff_left fun before => absurd before.1 nofun
    · rw [size, ← counted]
      exact (List.dedup_sublist _).length_le
    · rw [size, ← counted, ← nodup_ids_iff, Collection.length_dedup_eq_iff]

/-! ### Places -/

structure Reaches (json : Json) (earlier : List String) : Prop where
  shapeless : json.contains "shape" = false
  unpaired : ¬ (json.contains "value" = true ∧ json.contains "presence" = true)
  missing : ∀ name ∈ earlier, json.member? name = none

/-- The places at which the members of an object are kept by id: three forms of a field, and the
names of a feature configuration. The rest is what else has to be read there. -/
inductive IdPlace (members : List (String × Json)) :
    {Entry Failure Whole : Type} → (Json → Except ReadFault Entry) → Except Failure Whole →
      (Whole → IdMap Entry → Prop) → Prop → Prop where
  | idList {key json} (reaches : Reaches json [])
      (body : json.member? "id_list" = some (.obj members)) :
      IdPlace members IdListFeature.ofJson (Field.ofJson key json)
        (fun field entries => field = .idList entries) True
  | idScoreList {key json} (reaches : Reaches json ["id_list"])
      (body : json.member? "id_score_list" = some (.obj members)) :
      IdPlace members IdScoreListFeature.ofJson (Field.ofJson key json)
        (fun field entries => field = .idScoreList entries) True
  | sequence {key json}
      (reaches : Reaches json
        ["id_list", "id_score_list", "encoded_id_list", "encoded_id_score_list"])
      (body : json.member? "sequence" = some (.obj members)) :
      IdPlace members SequenceFeature.ofJson (Field.ofJson key json)
        (fun field entries => field = .raggedSequence entries) True
  | names {json} (body : json.member? "id2name" = some (.obj members)) :
      IdPlace members asString (FeatureConfig.ofJson json)
        (fun config names => config.names = names)
        (∃ vocabularies,
          FeatureConfig.readMap json "id_mappings" ∅ (asNameMap asIds) = .ok vocabularies)

theorem exists_obj_of_member? {json : Json} (found : json.member? name = some value) :
    ∃ fields, json = .obj fields := by
  cases json with
  | obj fields => exact ⟨fields, rfl⟩
  | _ => cases found

theorem keptById_of_form {json : Json} {form : IdMap Entry → Field} (key : String)
    (found : json.member? name = some value)
    (known : Field.ofMembers? json = (some ∘ form) <$> (Json.obj members).asIdMap read) :
    KeptById members read (Field.ofJson key json) (fun field entries => field = form entries)
      True := by
  rcases exists_obj_of_member? found with ⟨fields, same⟩
  have tried : Field.read? json = (some ∘ form) <$> storeMembers read members ∅ := by
    rw [← asIdMap_obj, ← known, same]
    rfl
  refine keptById_of_stored (fun entries stored _met => ⟨form entries, ?_⟩)
    fun field accepted => ⟨trivial, ?_⟩
  · unfold Field.ofJson
    rw [tried, stored]
    rfl
  · unfold Field.ofJson at accepted
    rw [tried] at accepted
    cases stored : storeMembers read members ∅ with
    | ok entries =>
        rw [stored] at accepted
        cases accepted
        exact ⟨entries, rfl, rfl⟩
    | error fault =>
        rw [stored] at accepted
        cases fault <;> cases accepted

theorem keptById_names {json : Json} (body : json.member? "id2name" = some (.obj members)) :
    KeptById members asString (FeatureConfig.ofJson json)
      (fun config names => config.names = names)
      (∃ vocabularies,
        FeatureConfig.readMap json "id_mappings" ∅ (asNameMap asIds) = .ok vocabularies) := by
  rcases exists_obj_of_member? body with ⟨fields, same⟩
  have object : json.isObject = true := by
    rw [same]
    rfl
  have named {names : IdMap String} :
      FeatureConfig.readMap json "id2name" ∅ (asIdMap asString) = .ok names ↔
        storeMembers asString members ∅ = .ok names := by
    unfold FeatureConfig.readMap optional
    rw [body]
    simp only [asIdMap_obj]
    cases stored : storeMembers asString members ∅ with
    | ok entries =>
        simp only [Functor.map, Except.map, Option.getD_some, Except.ok.injEq]
    | error fault => cases fault <;> exact ⟨nofun, nofun⟩
  have read {config : FeatureConfig} : FeatureConfig.ofJson json = .ok config ↔
      storeMembers asString members ∅ = .ok config.names ∧
        FeatureConfig.readMap json "id_mappings" ∅ (asNameMap asIds) =
          .ok config.vocabularies := by
    unfold FeatureConfig.ofJson
    rw [if_pos object]
    simp only [Outcome.bind_eq_ok_iff, Outcome.pure_eq_ok_iff, named]
    constructor
    · rintro ⟨names, stored, vocabularies, listed, rfl⟩
      exact ⟨stored, listed⟩
    · rintro ⟨stored, listed⟩
      exact ⟨_, stored, _, listed, rfl⟩
  refine keptById_of_stored (fun names stored met => ?_) fun config accepted => ?_
  · rcases met with ⟨vocabularies, listed⟩
    exact ⟨{ names, vocabularies }, read.mpr ⟨stored, listed⟩⟩
  · rcases read.mp accepted with ⟨stored, listed⟩
    exact ⟨⟨_, listed⟩, _, stored, rfl⟩

/-- Integer keys are read by what they begin with. Wherever an object is kept by id, it is accepted
as soon as each name begins with an integer, and members of one id take each other's place. -/
theorem ids_led_by_integers {Failure Whole : Type} {outcome : Except Failure Whole}
    {holds : Whole → IdMap Entry → Prop} {rest : Prop}
    (place : IdPlace members read outcome holds rest) :
    KeptById members read outcome holds rest := by
  cases place with
  | @idList key json reaches body =>
      refine keptById_of_form key body ?_
      unfold Field.ofMembers?
      rw [if_neg (Bool.eq_false_iff.mp reaches.shapeless), if_neg reaches.unpaired, body]
  | @idScoreList key json reaches body =>
      have first := reaches.missing "id_list" (by decide)
      refine keptById_of_form key body ?_
      unfold Field.ofMembers?
      rw [if_neg (Bool.eq_false_iff.mp reaches.shapeless), if_neg reaches.unpaired, first, body]
  | @sequence key json reaches body =>
      have first := reaches.missing "id_list" (by decide)
      have second := reaches.missing "id_score_list" (by decide)
      have third := reaches.missing "encoded_id_list" (by decide)
      have fourth := reaches.missing "encoded_id_score_list" (by decide)
      refine keptById_of_form key body ?_
      unfold Field.ofMembers?
      rw [if_neg (Bool.eq_false_iff.mp reaches.shapeless), if_neg reaches.unpaired, first, second,
        third, fourth, body]
  | names body => exact keptById_names body

/-- Two spellings of one id in the names of a configuration: the second feature takes the place of
the first, so of two members one entry is left. -/
theorem ids_led_by_integers_leading_zero :
    IntegerKey.Leads "07" 7 ∧ IntegerKey.Leads "7" 7 ∧
      ∃ config, FeatureConfig.ofJson
        (.obj [("id2name", .obj [("07", .str "page"), ("7", .str "query")])]) = .ok config ∧
        config.names[(7 : Int64)]? = some "query" ∧ config.names.size ≠ 2 := by
  have kept := ids_led_by_integers (@IdPlace.names _ (.obj [("id2name",
    .obj [("07", .str "page"), ("7", .str "query")])]) rfl)
  have zero : IntegerKey.Leads "07" 7 := IntegerKey.parse?_eq_some_iff.mp (by decide)
  have plain : IntegerKey.Leads "7" 7 := IntegerKey.parse?_eq_some_iff.mp (by decide)
  have each : ∀ member ∈ [("07", Json.str "page"), ("7", Json.str "query")],
      (∃ id, IntegerKey.Leads member.1 id) ∧ ∃ entry, asString member.2 = .ok entry :=
    List.forall_mem_cons.mpr ⟨⟨⟨7, zero⟩, _, rfl⟩,
      List.forall_mem_singleton.mpr ⟨⟨7, plain⟩, _, rfl⟩⟩
  rcases kept.accepted_iff.mpr ⟨⟨∅, rfl⟩, each⟩ with ⟨config, accepted⟩
  rcases kept.held config accepted with ⟨names, same, entry_iff, _most, size_iff⟩
  refine ⟨zero, plain, config, accepted, ?_, fun full => ?_⟩
  · rw [same]
    exact (entry_iff 7 "query").mpr (.behind (.here plain rfl (List.forall_mem_nil _)))
  · have apart := size_iff.mp (same ▸ full)
    exact List.rel_of_pairwise_cons apart (List.mem_cons_self ..) 7 zero plain

/-- A name with text behind its digits is no spelling of an id, and both a configuration and a
field with that name are accepted. -/
theorem id_names_not_strict :
    (∀ id, ¬ IntegerKey.Spells "12abc" id) ∧
      (∃ config, FeatureConfig.ofJson
        (.obj [("id2name", .obj [("12abc", .str "page")])]) = .ok config) ∧
      ∃ field, Field.ofJson "k" (.obj [("id_list", .obj [("12abc",
        .obj [("ids", .arr []), ("offsets", .arr [])])])]) = .ok field := by
  refine ⟨fun id spells => ?_, ⟨_, rfl⟩, _, rfl⟩
  rcases spells.digit_or_minus 'a' (by decide) with digit | minus
  · exact absurd digit (by decide)
  · exact absurd minus (by decide)

end Json

end Featurize
