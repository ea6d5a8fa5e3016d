import Featurize.Proofs.Outcome
import Featurize.Stage.Operation

/-!
Renaming. Fields are moved to their new names one after the other. A field whose name is written
before it is read is lost, and the field that was written there is moved on in its place. So a
renaming is a parallel one exactly if no move writes the name that a later move reads, and it loses
one field for every move that does. A chain of names can be listed in such an order, a cycle cannot.
-/

namespace Featurize

namespace Record

variable {record output : Record} {old new name : String} {field : Field}
  {moves : List (String × String)}

/-! ### One move -/

theorem find?_move (record : Record) (old new name : String) (field : Field) :
    ((record.erase old).set new field).find? name =
      if new = name then some field else if old = name then none else record.find? name := by
  rw [find?_set, find?_erase]

theorem has_erase (record : Record) (old name : String) :
    (record.erase old).has name = true ↔ old ≠ name ∧ record.has name = true := by
  rw [has_iff, has_iff, find?_erase]
  by_cases same : old = name
  · rw [if_pos same]
    exact ⟨fun ⟨_field, found⟩ => (nomatch found), fun both => absurd same both.1⟩
  · rw [if_neg same, and_iff_right same]

theorem has_set (record : Record) (new name : String) (field : Field) :
    (record.set new field).has name = true ↔ new = name ∨ record.has name = true := by
  rw [has_iff, has_iff, find?_set]
  by_cases same : new = name
  · rw [if_pos same]
    exact ⟨fun _found => .inl same, fun _either => ⟨field, rfl⟩⟩
  · rw [if_neg same, or_iff_right same]

theorem has_move (record : Record) (old new name : String) (field : Field) :
    ((record.erase old).set new field).has name = true ↔
      new = name ∨ old ≠ name ∧ record.has name = true := by
  rw [has_set, has_erase]

theorem size_set (record : Record) (name : String) (field : Field) :
    (record.set name field).size = if record.has name = true then record.size else record.size + 1 :=
  Std.ExtTreeMap.size_insert

theorem size_erase_add_one (found : record.find? old = some field) :
    (record.erase old).size + 1 = record.size := by
  have restored : (record.erase old).set old field = record := by
    apply ext_find?
    intro name
    rw [find?_move]
    by_cases same : old = name
    · rw [if_pos same, ← same, found]
    · rw [if_neg same, if_neg same]
  have gone : ¬ (record.erase old).has old = true := fun present =>
    ((has_erase record old old).mp present).1 rfl
  have counted := size_set (record.erase old) old field
  rw [restored, if_neg gone] at counted
  exact counted.symm

theorem size_move (found : record.find? old = some field) (new : String) :
    ((record.erase old).set new field).size +
      (if old ≠ new ∧ record.has new = true then 1 else 0) = record.size := by
  rw [size_set, ← size_erase_add_one found]
  by_cases taken : (record.erase old).has new = true
  · rw [if_pos taken, if_pos ((has_erase record old new).mp taken)]
  · rw [if_neg taken, if_neg (fun other => taken ((has_erase record old new).mpr other))]

/-! ### All moves -/

theorem rename_cons_eq_ok_iff :
    record.rename ((old, new) :: moves) = .ok output ↔
      ∃ field, record.find? old = some field ∧
        ((record.erase old).set new field).rename moves = .ok output := by
  unfold rename take
  simp only [List.foldlM_cons, Outcome.bind_eq_ok_iff, Outcome.pure_eq_ok_iff, get_eq_ok_iff]
  constructor
  · rintro ⟨next, ⟨taken, ⟨field, found, same⟩, stored⟩, rest⟩
    subst same
    exact ⟨field, found, stored ▸ rest⟩
  · rintro ⟨field, found, rest⟩
    exact ⟨_, ⟨(field, record.erase old), ⟨field, found, rfl⟩, rfl⟩, rest⟩

/-- A record on which the moves can all be made at once: their old names are fields, all
different, and their new names are all different and are not the names of other fields. -/
structure Admits (record : Record) (moves : List (String × String)) : Prop where
  oldDistinct : (moves.map Prod.fst).Nodup
  newDistinct : (moves.map Prod.snd).Nodup
  present : ∀ name ∈ moves.map Prod.fst, record.has name = true
  free : ∀ name ∈ moves.map Prod.snd, record.has name = true → name ∈ moves.map Prod.fst

def InOrder (moves : List (String × String)) : Prop :=
  moves.Pairwise (fun earlier later => earlier.2 ≠ later.1)

instance : DecidablePred InOrder := fun moves =>
  inferInstanceAs (Decidable (moves.Pairwise fun earlier later => earlier.2 ≠ later.1))

def clashes : List (String × String) → Nat
  | [] => 0
  | (_, new) :: moves => (if new ∈ moves.map Prod.fst then 1 else 0) + clashes moves

/-- Every new name holds the field of its old name, and nothing else has changed. -/
structure RenamedInParallel (record output : Record) (moves : List (String × String)) : Prop where
  moved : ∀ move ∈ moves, output.find? move.2 = record.find? move.1
  kept : ∀ name, name ∉ moves.map Prod.fst → name ∉ moves.map Prod.snd →
    output.find? name = record.find? name
  size : output.size = record.size

theorem Admits.step (admits : record.Admits ((old, new) :: moves)) (field : Field) :
    ((record.erase old).set new field).Admits moves := by
  obtain ⟨oldHead, oldTail⟩ := List.nodup_cons.mp admits.oldDistinct
  obtain ⟨newHead, newTail⟩ := List.nodup_cons.mp admits.newDistinct
  refine ⟨oldTail, newTail, ?_, ?_⟩
  · intro name member
    have different : old ≠ name := fun same => oldHead (same ▸ member)
    exact (has_move record old new name field).mpr
      (.inr ⟨different, admits.present name (List.mem_cons_of_mem _ member)⟩)
  · intro name member present
    rcases (has_move record old new name field).mp present with written | ⟨different, before⟩
    · exact absurd member (written ▸ newHead)
    · have listed := admits.free name (List.mem_cons_of_mem _ member) before
      exact (List.mem_cons.mp listed).resolve_left (fun same => different same.symm)

theorem Admits.exists_rename (admits : record.Admits moves) :
    ∃ output, record.rename moves = .ok output := by
  induction moves generalizing record with
  | nil => exact ⟨record, rfl⟩
  | cons move moves ih =>
      obtain ⟨old, new⟩ := move
      obtain ⟨field, found⟩ :=
        (record.has_iff old).mp (admits.present old (List.mem_cons_self ..))
      obtain ⟨output, renamed⟩ := ih (admits.step field)
      exact ⟨output, rename_cons_eq_ok_iff.mpr ⟨field, found, renamed⟩⟩

theorem find?_rename_of_not_mem (renamed : record.rename moves = .ok output)
    (unread : name ∉ moves.map Prod.fst) (unwritten : name ∉ moves.map Prod.snd) :
    output.find? name = record.find? name := by
  induction moves generalizing record with
  | nil =>
      cases renamed
      rfl
  | cons move moves ih =>
      obtain ⟨old, new⟩ := move
      obtain ⟨field, _found, rest⟩ := rename_cons_eq_ok_iff.mp renamed
      rw [List.map_cons, List.mem_cons, not_or] at unread unwritten
      rw [ih rest unread.2 unwritten.2, find?_move, if_neg (Ne.symm unwritten.1),
        if_neg (Ne.symm unread.1)]

theorem find?_rename_of_not_new (renamed : record.rename moves = .ok output)
    (read : name ∈ moves.map Prod.fst) (unwritten : name ∉ moves.map Prod.snd) :
    output.find? name = none := by
  induction moves generalizing record with
  | nil => cases read
  | cons move moves ih =>
      obtain ⟨old, new⟩ := move
      obtain ⟨field, _found, rest⟩ := rename_cons_eq_ok_iff.mp renamed
      rw [List.map_cons, List.mem_cons, not_or] at unwritten
      by_cases later : name ∈ moves.map Prod.fst
      · exact ih rest later unwritten.2
      · have here : old = name := ((List.mem_cons.mp read).resolve_right later).symm
        rw [find?_rename_of_not_mem rest later unwritten.2, find?_move,
          if_neg (Ne.symm unwritten.1), if_pos here]

/-- Moves in order find every field where the record had it. -/
theorem find?_rename_of_inOrder (admits : record.Admits moves) (ordered : InOrder moves)
    (renamed : record.rename moves = .ok output) :
    ∀ move ∈ moves, output.find? move.2 = record.find? move.1 := by
  induction moves generalizing record with
  | nil => exact List.forall_mem_nil _
  | cons move moves ih =>
      obtain ⟨old, new⟩ := move
      obtain ⟨field, found, rest⟩ := rename_cons_eq_ok_iff.mp renamed
      obtain ⟨oldHead, _oldTail⟩ := List.nodup_cons.mp admits.oldDistinct
      obtain ⟨newHead, _newTail⟩ := List.nodup_cons.mp admits.newDistinct
      obtain ⟨before, orderedRest⟩ := List.pairwise_cons.mp ordered
      refine List.forall_mem_cons.mpr ⟨?_, fun move member => ?_⟩
      · have unread : new ∉ moves.map Prod.fst := by
          intro member
          obtain ⟨later, listed, same⟩ := List.mem_map.mp member
          exact before later listed same.symm
        rw [find?_rename_of_not_mem rest unread newHead, find?_move, if_pos rfl, found]
      · have unwritten : new ≠ move.1 := before move member
        have read : move.1 ∈ moves.map Prod.fst := List.mem_map_of_mem member
        have unread : old ≠ move.1 := fun same => oldHead (same ▸ read)
        rw [ih (admits.step field) orderedRest rest move member, find?_move, if_neg unwritten,
          if_neg unread]

/-- Every move that writes the name of a field still to be read loses that field. -/
theorem size_rename (admits : record.Admits moves) (renamed : record.rename moves = .ok output) :
    output.size + clashes moves = record.size := by
  induction moves generalizing record with
  | nil =>
      cases renamed
      rfl
  | cons move moves ih =>
      obtain ⟨old, new⟩ := move
      obtain ⟨field, found, rest⟩ := rename_cons_eq_ok_iff.mp renamed
      have later := ih (admits.step field) rest
      have here := size_move found new
      have taken : (old ≠ new ∧ record.has new = true) ↔ new ∈ moves.map Prod.fst := by
        constructor
        · rintro ⟨different, present⟩
          have listed := admits.free new (List.mem_cons_self ..) present
          exact (List.mem_cons.mp listed).resolve_left (fun same => different same.symm)
        · intro member
          have oldHead := (List.nodup_cons.mp admits.oldDistinct).1
          exact ⟨fun same => oldHead (same ▸ member),
            admits.present new (List.mem_cons_of_mem _ member)⟩
      simp only [taken] at here
      rw [clashes]
      omega

theorem clashes_eq_zero_iff : clashes moves = 0 ↔ InOrder moves := by
  induction moves with
  | nil => exact ⟨fun _none => .nil, fun _ordered => rfl⟩
  | cons move moves ih =>
      obtain ⟨old, new⟩ := move
      have unread : new ∉ moves.map Prod.fst ↔ ∀ later ∈ moves, new ≠ later.1 := by
        simp only [List.mem_map, not_exists, not_and, ne_eq, eq_comm]
      have ordered : InOrder ((old, new) :: moves) ↔
          new ∉ moves.map Prod.fst ∧ InOrder moves := by
        rw [unread]
        exact List.pairwise_cons
      rw [ordered, ← ih, clashes, Nat.add_eq_zero_iff]
      by_cases read : new ∈ moves.map Prod.fst
      · rw [if_pos read]
        exact ⟨fun both => absurd both.1 Nat.one_ne_zero, fun both => absurd read both.1⟩
      · rw [if_neg read, and_iff_right rfl, and_iff_right read]

theorem renamedInParallel_iff (admits : record.Admits moves)
    (renamed : record.rename moves = .ok output) :
    record.RenamedInParallel output moves ↔ InOrder moves := by
  have counted := size_rename admits renamed
  constructor
  · intro parallel
    have same := parallel.size
    exact clashes_eq_zero_iff.mp (by omega)
  · intro ordered
    have none := clashes_eq_zero_iff.mpr ordered
    exact ⟨find?_rename_of_inOrder admits ordered renamed,
      fun _name => find?_rename_of_not_mem renamed, by omega⟩

theorem admits_zip {old new : List String} (parallel : old.length = new.length)
    (oldDistinct : old.Nodup) (newDistinct : new.Nodup)
    (present : ∀ name ∈ old, record.has name = true)
    (free : ∀ name ∈ new, record.has name = true → name ∈ old) :
    record.Admits (old.zip new) := by
  have olds : (old.zip new).map Prod.fst = old := List.map_fst_zip (Nat.le_of_eq parallel)
  have news : (old.zip new).map Prod.snd = new := List.map_snd_zip (Nat.le_of_eq parallel.symm)
  exact ⟨olds.symm ▸ oldDistinct, news.symm ▸ newDistinct, olds.symm ▸ present,
    news.symm ▸ olds.symm ▸ free⟩

end Record

/-- Lists of distinct names, where every old one is a field and no new one is another field, are
always renamed. Fields with neither an old nor a new name are unchanged, old names that are not new
ones are gone, one field is lost for each move that writes the name that a later one reads, and the
renaming is a parallel one exactly if there is no such move. -/
theorem Operation.renaming_parallel_iff {record : Record} {old new : List String}
    (parallel : old.length = new.length) (oldDistinct : old.Nodup) (newDistinct : new.Nodup)
    (present : ∀ name ∈ old, record.has name = true)
    (free : ∀ name ∈ new, record.has name = true → name ∈ old) :
    ∃ output, Operation.run record (.rename old new) = .ok output ∧
      (∀ name, name ∉ old → name ∉ new → output.find? name = record.find? name) ∧
      (∀ name ∈ old, name ∉ new → output.find? name = none) ∧
      output.size + Record.clashes (old.zip new) = record.size ∧
      (record.RenamedInParallel output (old.zip new) ↔ Record.InOrder (old.zip new)) := by
  have admits := Record.admits_zip parallel oldDistinct newDistinct present free
  have olds : (old.zip new).map Prod.fst = old := List.map_fst_zip (Nat.le_of_eq parallel)
  have news : (old.zip new).map Prod.snd = new := List.map_snd_zip (Nat.le_of_eq parallel.symm)
  obtain ⟨output, renamed⟩ := admits.exists_rename
  refine ⟨output, renamed, ?_, ?_, Record.size_rename admits renamed,
    Record.renamedInParallel_iff admits renamed⟩
  · intro name unread unwritten
    exact Record.find?_rename_of_not_mem renamed (olds.symm ▸ unread) (news.symm ▸ unwritten)
  · intro name read unwritten
    exact Record.find?_rename_of_not_new renamed (olds.symm ▸ read) (news.symm ▸ unwritten)

def Record.lettered : Record :=
  ofFields [("a", .absent), ("b", .scalarList []), ("d", .valuePresenceList [])]

/-- A chain of names, listed from its end. -/
theorem Operation.renaming_parallel_iff_chain :
    ∃ output, Operation.run .lettered (.rename ["b", "a"] ["c", "b"]) = .ok output ∧
      output.find? "a" = none ∧ output.find? "b" = some .absent ∧
      output.find? "c" = some (.scalarList []) ∧
      output.find? "d" = some (.valuePresenceList []) ∧ output.size = 3 := by
  have present : ∀ name ∈ ["b", "a"], Record.lettered.has name = true :=
    List.forall_mem_cons.mpr ⟨rfl, List.forall_mem_singleton.mpr rfl⟩
  have free : ∀ name ∈ ["c", "b"], Record.lettered.has name = true → name ∈ ["b", "a"] :=
    List.forall_mem_cons.mpr ⟨fun other => (nomatch other),
      List.forall_mem_singleton.mpr fun _present => List.mem_cons_self ..⟩
  obtain ⟨output, ran, kept, gone, counted, parallel⟩ :=
    @Operation.renaming_parallel_iff .lettered ["b", "a"] ["c", "b"] rfl (by decide) (by decide)
      present free
  have renamed := parallel.mpr (by decide)
  exact ⟨output, ran, gone "a" (by decide) (by decide), renamed.moved ("a", "b") (by decide),
    renamed.moved ("b", "c") (by decide), kept "d" (by decide) (by decide), counted⟩

/-- Of two names that are exchanged the second is written before it is read: its field is lost,
and the field of the first is moved there and back. -/
theorem Operation.exchange_loses_field :
    (∀ name ∈ ["a", "b"], Record.lettered.has name = true) ∧
    ∃ output, Operation.run .lettered (.rename ["a", "b"] ["b", "a"]) = .ok output ∧
      Record.lettered.find? "b" = some (.scalarList []) ∧ output.find? "a" = some .absent ∧
      output.find? "b" = none ∧ Record.lettered.size = 3 ∧ output.size = 2 :=
  ⟨List.forall_mem_cons.mpr ⟨rfl, List.forall_mem_singleton.mpr rfl⟩,
    _, rfl, rfl, rfl, rfl, rfl, rfl⟩

end Featurize
