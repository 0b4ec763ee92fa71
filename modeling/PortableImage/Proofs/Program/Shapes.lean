import PortableImage.Program.Shape
import Mathlib.Logic.Relation
/-!
# Shapes of types

On its way down the shape of a type opens no type twice.  Where instantiations are not nested without
end there is nothing to stop for: the shape is that of the definition applied to those of the
arguments, whatever has been opened before.
-/

namespace PortableImage.Program

open Relation (ReflTransGen TransGen)

variable {program : Program} {entity part whole : Entity}

/-- How an instantiated type was instantiated. -/
def typeInstantiation? (program : Program) (type : Entity) : Option Instantiation :=
  (program.type? type).bind TypeDescription.instantiation

/-- A type is the definition or an argument of another. -/
def Part (program : Program) (part whole : Entity) : Prop :=
  ∃ instantiation, program.typeInstantiation? whole = some instantiation ∧
    part ∈ instantiation.definition :: instantiation.arguments

/-- A type is not part of itself, at no depth, where parts are nested finitely. -/
theorem not_transGen_part (h : Acc program.Part entity) : ¬ TransGen program.Part entity entity := by
  induction h with
  | intro entity _ ih =>
    intro hcycle
    obtain ⟨part, hchain, hpart⟩ := TransGen.tail'_iff.mp hcycle
    exact ih part hpart (TransGen.head' hpart hchain)

section Among

variable {unopened unopened' : Bindings Entity TypeDescription} {instantiation : Instantiation}

theorem shapeAmong_of_none
    (h : (unopened.find? entity).bind TypeDescription.instantiation = none) :
    shapeAmong unopened entity = .plain entity := by
  rw [shapeAmong]
  split
  · rfl
  · rename_i description hdescription
    rw [hdescription, Option.bind_some] at h
    rw [h]

theorem shapeAmong_of_some
    (h : (unopened.find? entity).bind TypeDescription.instantiation = some instantiation) :
    shapeAmong unopened entity =
      .instantiated entity (shapeAmong (unopened.erase entity) instantiation.definition)
        (instantiation.arguments.map (shapeAmong (unopened.erase entity))) := by
  rw [shapeAmong]
  split
  · rename_i hnone
    rw [hnone] at h
    cases h
  · rename_i description hdescription
    rw [hdescription, Option.bind_some] at h
    rw [h]

/-- A shape depends on the parts of the type only. -/
theorem shapeAmong_congr (h : Acc program.Part entity)
    (hparts : ∀ part, ReflTransGen program.Part part entity →
      unopened.find? part = program.type? part ∧ unopened'.find? part = program.type? part) :
    shapeAmong unopened entity = shapeAmong unopened' entity := by
  induction h generalizing unopened unopened' with
  | intro entity hfinite ih =>
    obtain ⟨hleft, hright⟩ := hparts entity .refl
    cases hinstantiation : program.typeInstantiation? entity with
    | none =>
      rw [shapeAmong_of_none (by rw [hleft]; exact hinstantiation),
        shapeAmong_of_none (by rw [hright]; exact hinstantiation)]
    | some instantiation =>
      -- Opening the type takes nothing away from its parts, for it is none of them.
      have hpart (part : Entity) (hmem : part ∈ instantiation.definition :: instantiation.arguments) :
          shapeAmong (unopened.erase entity) part = shapeAmong (unopened'.erase entity) part := by
        have hbelow : program.Part part entity := ⟨instantiation, hinstantiation, hmem⟩
        apply ih part hbelow
        intro other hother
        have hchain : TransGen program.Part other entity := TransGen.tail' hother hbelow
        have hne : other ≠ entity := by
          rintro rfl
          exact not_transGen_part (.intro _ hfinite) hchain
        rw [Bindings.find?_erase, Bindings.find?_erase, if_neg hne, if_neg hne]
        exact hparts other hchain.to_reflTransGen
      have hfirst : (unopened.find? entity).bind TypeDescription.instantiation =
          some instantiation := by rw [hleft]; exact hinstantiation
      have hsecond : (unopened'.find? entity).bind TypeDescription.instantiation =
          some instantiation := by rw [hright]; exact hinstantiation
      rw [shapeAmong_of_some hfirst, shapeAmong_of_some hsecond, hpart _ List.mem_cons_self]
      congr 1
      exact List.map_congr_left fun part hmem => hpart part (List.mem_cons_of_mem _ hmem)

end Among

theorem shape_of_none (h : program.typeInstantiation? entity = none) :
    program.shape entity = .plain entity :=
  shapeAmong_of_none h

/-- Where parts are nested finitely, nothing is left out of the shape of a type. -/
theorem shape_of_some {instantiation : Instantiation} (hfinite : Acc program.Part entity)
    (h : program.typeInstantiation? entity = some instantiation) :
    program.shape entity =
      .instantiated entity (program.shape instantiation.definition)
        (instantiation.arguments.map program.shape) := by
  have hpart (part : Entity) (hmem : part ∈ instantiation.definition :: instantiation.arguments) :
      shapeAmong (program.types.erase entity) part = program.shape part := by
    have hbelow : program.Part part entity := ⟨instantiation, h, hmem⟩
    apply shapeAmong_congr (hfinite.inv hbelow)
    intro other hother
    have hne : other ≠ entity := by
      rintro rfl
      exact not_transGen_part hfinite (TransGen.tail' hother hbelow)
    rw [Bindings.find?_erase, if_neg hne]
    exact ⟨rfl, rfl⟩
  rw [shape, shapeAmong_of_some h, hpart _ List.mem_cons_self]
  congr 1
  exact List.map_congr_left fun part hmem => hpart part (List.mem_cons_of_mem _ hmem)

/-- Parts are nested finitely where they come before the types they are parts of. -/
theorem acc_part_of_entries
    (h : ∀ entry ∈ program.types.entries, ∀ instantiation ∈ entry.2.instantiation,
      ∀ part ∈ instantiation.definition :: instantiation.arguments, part < entry.1)
    (entity : Entity) : Acc program.Part entity := by
  have hless : Subrelation program.Part fun a b => Ranked.rank a < Ranked.rank b := by
    rintro part whole ⟨instantiation, hinstantiation, hmem⟩
    obtain ⟨description, htype, hsome⟩ := Option.bind_eq_some_iff.mp hinstantiation
    exact h _ (Bindings.mem_entries_of_find? htype) instantiation hsome part hmem
  exact (hless.wf (measure Ranked.rank).wf).apply entity

end PortableImage.Program
