import Featurize.Proofs.Outcome
import Mathlib.Data.List.Dedup
import Mathlib.Data.List.Forall2

/-!
Collections: maps that are filled by reading one part after the other and putting what each
part gives under its key. Whatever the map is, a collection that succeeds holds only what was
there before and what some part gave, one that fails does so at some part, and one whose parts
give exactly the entries of a map ends with that map. A list that is made item by item succeeds
when every item does.
-/

namespace Featurize.Collection

variable {Map Part Key Entry Failure : Type} {put : Map → Key → Entry → Map}
  {read : Part → Except Failure (Key × Entry)} {parts : List Part} {start output : Map}

def collect (put : Map → Key → Entry → Map) (read : Part → Except Failure (Key × Entry))
    (parts : List Part) (start : Map) : Except Failure Map :=
  parts.foldlM
    (fun map part => do
      let (key, entry) ← read part
      return put map key entry)
    start

theorem collect_cons_eq_ok_iff {part : Part} :
    collect put read (part :: parts) start = .ok output ↔
      ∃ key entry, read part = .ok (key, entry) ∧
        collect put read parts (put start key entry) = .ok output := by
  unfold collect
  simp only [List.foldlM_cons, Outcome.bind_eq_ok_iff, Outcome.pure_eq_ok_iff]
  constructor
  · rintro ⟨next, ⟨⟨key, entry⟩, given, stored⟩, rest⟩
    exact ⟨key, entry, given, stored ▸ rest⟩
  · rintro ⟨key, entry, given, rest⟩
    exact ⟨put start key entry, ⟨(key, entry), given, rfl⟩, rest⟩

theorem exists_error_of_collect {failure : Failure}
    (failed : collect put read parts start = .error failure) :
    ∃ part ∈ parts, read part = .error failure := by
  induction parts generalizing start with
  | nil => cases failed
  | cons part parts ih =>
      cases given : read part with
      | error found =>
          unfold collect at failed
          rw [List.foldlM_cons, given] at failed
          cases failed
          exact ⟨part, List.mem_cons_self .., given⟩
      | ok entry =>
          unfold collect at failed
          rw [List.foldlM_cons, given] at failed
          obtain ⟨later, member, laterFailed⟩ := ih failed
          exact ⟨later, List.mem_cons_of_mem _ member, laterFailed⟩

variable [DecidableEq Key] (find : Map → Key → Option Entry)

theorem origin_of_collect
    (find_put : ∀ map key other entry,
      find (put map key entry) other = if key = other then some entry else find map other)
    (collected : collect put read parts start = .ok output) {key : Key} {entry : Entry}
    (found : find output key = some entry) :
    find start key = some entry ∨ ∃ part ∈ parts, read part = .ok (key, entry) := by
  induction parts generalizing start with
  | nil =>
      cases collected
      exact .inl found
  | cons part parts ih =>
      obtain ⟨written, value, given, rest⟩ := collect_cons_eq_ok_iff.mp collected
      rcases ih rest with before | ⟨later, member, source⟩
      · rw [find_put] at before
        by_cases same : written = key
        · rw [if_pos same, Option.some.injEq] at before
          subst same
          subst before
          exact .inr ⟨part, List.mem_cons_self .., given⟩
        · rw [if_neg same] at before
          exact .inl before
      · exact .inr ⟨later, List.mem_cons_of_mem _ member, source⟩

/-- Parts that give only entries of a map, and every entry that is not there yet, complete it. -/
theorem collect_completes
    (find_put : ∀ map key other entry,
      find (put map key entry) other = if key = other then some entry else find map other)
    {whole : Key → Option Entry}
    (sound : ∀ part ∈ parts, ∃ key entry, read part = .ok (key, entry) ∧ whole key = some entry)
    (started : ∀ key entry, find start key = some entry → whole key = some entry)
    (reached : ∀ key entry, whole key = some entry →
      find start key = some entry ∨ ∃ part ∈ parts, read part = .ok (key, entry)) :
    ∃ output, collect put read parts start = .ok output ∧ ∀ key, find output key = whole key := by
  induction parts generalizing start with
  | nil =>
      refine ⟨start, rfl, fun key => ?_⟩
      cases expected : whole key with
      | some entry =>
          rcases reached key entry expected with here | ⟨part, member, _given⟩
          · exact here
          · cases member
      | none =>
          cases found : find start key with
          | none => rfl
          | some entry => exact absurd (expected.symm.trans (started key entry found)) nofun
  | cons part parts ih =>
      obtain ⟨written, value, given, listed⟩ := sound part (List.mem_cons_self ..)
      have next : ∃ output, collect put read parts (put start written value) = .ok output ∧
          ∀ key, find output key = whole key := by
        refine ih (fun later member => sound later (List.mem_cons_of_mem _ member)) ?_ ?_
        · intro key entry found
          rw [find_put] at found
          by_cases same : written = key
          · rw [if_pos same] at found
            exact same ▸ listed.trans found
          · rw [if_neg same] at found
            exact started key entry found
        · intro key entry expected
          rw [find_put]
          by_cases same : written = key
          · rw [if_pos same]
            subst same
            exact .inl (listed.symm.trans expected)
          · rw [if_neg same]
            rcases reached key entry expected with before | ⟨source, member, from_source⟩
            · exact .inl before
            · rcases List.mem_cons.mp member with head | tail
              · subst head
                cases given.symm.trans from_source
                exact absurd rfl same
              · exact .inr ⟨source, tail, from_source⟩
      obtain ⟨output, collected, complete⟩ := next
      exact ⟨output, collect_cons_eq_ok_iff.mpr ⟨written, value, given, collected⟩, complete⟩

theorem getElem?_insert_ite [Ord Key] [Std.TransOrd Key] [Std.LawfulEqOrd Key]
    (map : Std.ExtTreeMap Key Entry compare) (key other : Key) (entry : Entry) :
    (map.insert key entry)[other]? = if key = other then some entry else map[other]? := by
  rw [Std.ExtTreeMap.getElem?_insert]
  by_cases same : key = other
  · rw [if_pos (Std.compare_eq_iff_eq.mpr same), if_pos same]
  · rw [if_neg (fun equal => same (Std.compare_eq_iff_eq.mp equal)), if_neg same]

theorem collect_written [Ord Key] [Std.TransOrd Key] [Std.LawfulEqOrd Key]
    {entries : Std.ExtTreeMap Key Entry compare} {write : Key → Entry → Part}
    (inverse : ∀ key entry, read (write key entry) = .ok (key, entry))
    (written : ∀ part, part ∈ parts ↔
      ∃ key entry, entries[key]? = some entry ∧ write key entry = part) :
    collect (fun (found : Std.ExtTreeMap Key Entry compare) key entry => found.insert key entry)
      read parts ∅ = .ok entries := by
  have sound : ∀ part ∈ parts, ∃ key entry, read part = .ok (key, entry) ∧
      entries[key]? = some entry := by
    intro part member
    obtain ⟨key, entry, held, same⟩ := (written part).mp member
    exact ⟨key, entry, same ▸ inverse key entry, held⟩
  have empty : ∀ (key : Key) (entry : Entry),
      (∅ : Std.ExtTreeMap Key Entry compare)[key]? = some entry → entries[key]? = some entry := by
    intro key entry found
    rw [Std.ExtTreeMap.getElem?_empty] at found
    cases found
  have reached : ∀ (key : Key) (entry : Entry), entries[key]? = some entry →
      (∅ : Std.ExtTreeMap Key Entry compare)[key]? = some entry ∨
        ∃ part ∈ parts, read part = .ok (key, entry) :=
    fun key entry held =>
      .inr ⟨write key entry, (written _).mpr ⟨key, entry, held, rfl⟩, inverse key entry⟩
  obtain ⟨output, collected, same⟩ :=
    collect_completes (fun (found : Std.ExtTreeMap Key Entry compare) key => found[key]?)
      getElem?_insert_ite sound empty reached
  rw [collected, Std.ExtTreeMap.ext_getElem? same]

theorem size_eq_length_dedup [Ord Key] [Std.TransOrd Key] [Std.LawfulEqOrd Key]
    {map : Std.ExtTreeMap Key Entry compare} {keys : List Key}
    (same : ∀ key, key ∈ map ↔ key ∈ keys) : map.size = keys.dedup.length := by
  have sameKeys : map.keys.Perm keys.dedup := by
    refine (List.perm_ext_iff_of_nodup Std.ExtTreeMap.nodup_keys (List.nodup_dedup keys)).mpr
      fun key => ?_
    rw [Std.ExtTreeMap.mem_keys, List.mem_dedup, same]
  rw [← Std.ExtTreeMap.length_keys, sameKeys.length_eq]

/-! ### Lists -/

theorem length_dedup_eq_iff {Item : Type} [DecidableEq Item] {items : List Item} :
    items.dedup.length = items.length ↔ items.Nodup := by
  constructor
  · intro counted
    exact List.dedup_eq_self.mp ((List.dedup_sublist items).eq_of_length counted)
  · intro distinct
    rw [distinct.dedup]

theorem mapM_eq_ok_iff {Item Result : Type} {make : Item → Except Failure Result}
    {items : List Item} {results : List Result} :
    items.mapM make = .ok results ↔
      List.Forall₂ (fun item result => make item = .ok result) items results := by
  induction items generalizing results with
  | nil =>
      rw [List.mapM_nil, Outcome.pure_eq_ok_iff, List.forall₂_nil_left_iff]
      exact eq_comm
  | cons item items ih =>
      simp only [List.mapM_cons, Outcome.bind_eq_ok_iff, Outcome.pure_eq_ok_iff,
        List.forall₂_cons_left_iff, ih]
      constructor
      · rintro ⟨result, made, rest, restMade, same⟩
        exact ⟨result, rest, made, restMade, same.symm⟩
      · rintro ⟨result, rest, made, restMade, same⟩
        exact ⟨result, made, rest, restMade, same.symm⟩

theorem forM_eq_ok_iff {Item : Type} {check : Item → Except Failure Unit} {items : List Item} :
    items.forM check = .ok () ↔ ∀ item ∈ items, check item = .ok () := by
  induction items with
  | nil => exact ⟨fun _passed => List.forall_mem_nil _, fun _each => rfl⟩
  | cons item items ih =>
      refine Outcome.bind_eq_ok_iff.trans ?_
      rw [List.forall_mem_cons, ← ih]
      exact ⟨fun ⟨_checked, first, rest⟩ => ⟨first, rest⟩, fun both => ⟨(), both⟩⟩

theorem exists_item_of_forall₂ {Item Result : Type} {Related : Item → Result → Prop}
    {items : List Item} {results : List Result} (related : List.Forall₂ Related items results)
    {result : Result} (member : result ∈ results) : ∃ item ∈ items, Related item result := by
  induction related with
  | nil => cases member
  | cons head _tail ih =>
      rcases List.mem_cons.mp member with same | later
      · exact ⟨_, List.mem_cons_self .., same ▸ head⟩
      · obtain ⟨item, listed, source⟩ := ih later
        exact ⟨item, List.mem_cons_of_mem _ listed, source⟩

theorem exists_item_of_mapM {Item Result : Type} {make : Item → Except Failure Result}
    {items : List Item} {results : List Result} (made : items.mapM make = .ok results)
    {result : Result} (member : result ∈ results) : ∃ item ∈ items, make item = .ok result :=
  exists_item_of_forall₂ (mapM_eq_ok_iff.mp made) member

theorem exists_error_of_mapM {Item Result : Type} {make : Item → Except Failure Result}
    {items : List Item} {failure : Failure} (failed : items.mapM make = .error failure) :
    ∃ item ∈ items, make item = .error failure := by
  induction items with
  | nil => cases failed
  | cons item items ih =>
      rw [List.mapM_cons] at failed
      cases made : make item with
      | error found =>
          rw [made] at failed
          cases failed
          exact ⟨item, List.mem_cons_self .., made⟩
      | ok result =>
          rw [made] at failed
          cases rest : items.mapM make with
          | error found =>
              have same : found = failure := by
                rw [rest] at failed
                cases failed
                rfl
              obtain ⟨later, member, laterFailed⟩ := ih (same ▸ rest)
              exact ⟨later, List.mem_cons_of_mem _ member, laterFailed⟩
          | ok results =>
              rw [rest] at failed
              cases failed

theorem forall₂_and_mem {Item Result : Type} {Related : Item → Result → Prop} {items : List Item}
    {results : List Result} (related : List.Forall₂ Related items results) :
    List.Forall₂ (fun item result => item ∈ items ∧ result ∈ results ∧ Related item result)
      items results := by
  induction related with
  | nil => exact .nil
  | cons head _tail ih =>
      refine .cons ⟨List.mem_cons_self .., List.mem_cons_self .., head⟩ (ih.imp ?_)
      intro _item _result both
      exact ⟨List.mem_cons_of_mem _ both.1, List.mem_cons_of_mem _ both.2.1, both.2.2⟩

theorem exists_forall₂ {Item Result : Type} {Related : Item → Result → Prop}
    {items : List Item} (each : ∀ item ∈ items, ∃ result, Related item result) :
    ∃ results, List.Forall₂ Related items results := by
  induction items with
  | nil => exact ⟨[], .nil⟩
  | cons item items ih =>
      obtain ⟨result, related⟩ := each item (List.mem_cons_self ..)
      obtain ⟨results, rest⟩ := ih fun other member => each other (List.mem_cons_of_mem _ member)
      exact ⟨result :: results, .cons related rest⟩

theorem exists_forall₂_iff {Item Result : Type} {Related : Item → Result → Prop}
    {items : List Item} :
    (∃ results, List.Forall₂ Related items results) ↔
      ∀ item ∈ items, ∃ result, Related item result := by
  constructor
  · intro ⟨results, related⟩ item member
    have turned : List.Forall₂ (flip Related) results items := List.Forall₂.flip related
    obtain ⟨result, _listed, found⟩ := exists_item_of_forall₂ turned member
    exact ⟨result, found⟩
  · exact exists_forall₂

end Featurize.Collection
