/-!
Groupings: members in an order, put into groups within groups to any depth. What is computed group
by group, from the inside out, is compared with what the members give in a row.
-/

namespace Featurize

inductive Grouping (Member : Type) where
  | single (member : Member)
  | group (parts : List (Grouping Member))

namespace Grouping

variable {Member : Type}

/-- Induction over groupings: of a group, the statement may be assumed for every part. -/
@[elab_as_elim, induction_eliminator]
theorem groupInduction {motive : Grouping Member → Prop}
    (single : ∀ member, motive (.single member))
    (group : ∀ parts, (∀ part ∈ parts, motive part) → motive (.group parts))
    (grouping : Grouping Member) : motive grouping := by
  refine @Grouping.rec Member motive (fun parts => ∀ part ∈ parts, motive part) single group
    ?_ ?_ grouping
  · intro part member
    cases member
  · intro head parts headHolds tailHolds part member
    rcases List.mem_cons.mp member with same | later
    · exact same ▸ headHolds
    · exact tailHolds part later

mutual

def members : Grouping Member → List Member
  | .single member => [member]
  | .group parts => membersAll parts

def membersAll : List (Grouping Member) → List Member
  | [] => []
  | part :: parts => members part ++ membersAll parts

end

theorem mem_membersAll_iff {parts : List (Grouping Member)} {member : Member} :
    member ∈ membersAll parts ↔ ∃ part ∈ parts, member ∈ part.members := by
  induction parts with
  | nil => exact iff_of_false List.not_mem_nil (fun ⟨_part, listed, _inside⟩ => nomatch listed)
  | cons part parts ih =>
      rw [membersAll, List.mem_append, ih]
      constructor
      · rintro (inside | ⟨later, listed, inside⟩)
        · exact ⟨part, List.mem_cons_self .., inside⟩
        · exact ⟨later, List.mem_cons_of_mem _ listed, inside⟩
      · rintro ⟨found, listed, inside⟩
        rcases List.mem_cons.mp listed with same | later
        · exact Or.inl (same ▸ inside)
        · exact Or.inr ⟨found, later, inside⟩

theorem membersAll_eq_flatMap (parts : List (Grouping Member)) :
    membersAll parts = parts.flatMap members := by
  induction parts with
  | nil => rfl
  | cons part parts ih => rw [membersAll, ih, List.flatMap_cons]

inductive Filled : Grouping Member → Prop where
  | single (member : Member) : Filled (.single member)
  | group {parts : List (Grouping Member)} (some : parts ≠ [])
      (each : ∀ part ∈ parts, Filled part) : Filled (.group parts)

mutual

def form : Grouping Member → Grouping Unit
  | .single _ => .single ()
  | .group parts => .group (formAll parts)

def formAll : List (Grouping Member) → List (Grouping Unit)
  | [] => []
  | part :: parts => form part :: formAll parts

end

end Grouping

end Featurize
