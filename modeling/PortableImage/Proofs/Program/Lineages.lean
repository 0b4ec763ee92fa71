import PortableImage.Proofs.Program.Admission
import PortableImage.Proofs.Program.Receivers
/-!
# Lineages of methods

Two walks go along the links of overriding in opposite directions: a family is gathered downwards
from a method, and the introducer of a slot is found upwards.  The first takes the links that were
registered, the second the descriptions, and both have to come to an end where the links run in a
circle.  Where every method is registered once the walks see the same links.  If there is no circle
among them, the methods of one introducer are exactly its family.
-/

namespace PortableImage.Program

open Relation (ReflTransGen TransGen)

/-- The chain of overridden methods leads from a method, over the methods that it passes, to a last
one. -/
inductive Climbs (program : Program) : Entity → List Entity → Entity → Prop
  | stay (method : Entity) : Climbs program method [] method
  | up {method next last : Entity} {passed : List Entity} (hfirst : program.Overrides method next)
      (hrest : Climbs program next passed last) : Climbs program method (method :: passed) last

/-- Where the chain of a method ends: at a method that overrides nothing or, if the chain runs into
a circle, at the first method that it comes to again. -/
def EndsAt (program : Program) (method last : Entity) : Prop :=
  ∃ passed, program.Climbs method passed last ∧ passed.Nodup ∧
    (last ∈ passed ∨ ∀ next, ¬ program.Overrides last next)

variable {program : Program} {method other last : Entity}

section Chains

theorem Overrides.unique {next next' : Entity} (h : program.Overrides method next)
    (h' : program.Overrides method next') : next = next' := by
  obtain ⟨description, hmethod, hnext⟩ := h
  obtain ⟨description', hmethod', hnext'⟩ := h'
  rw [hmethod] at hmethod'
  obtain rfl := Option.some.inj hmethod'
  rw [hnext] at hnext'
  exact Option.some.inj hnext'

theorem Climbs.reflTransGen {passed : List Entity} (h : program.Climbs method passed last) :
    ReflTransGen program.Overrides method last := by
  induction h with
  | stay method => exact .refl
  | up hfirst _ ih => exact .head hfirst ih

/-- From each method that it passes, a chain goes on to its end in one step at least. -/
theorem Climbs.transGen_of_mem {passed : List Entity} (h : program.Climbs method passed last)
    (hother : other ∈ passed) : TransGen program.Overrides other last := by
  induction h with
  | stay method => cases hother
  | up hfirst hrest ih =>
    rcases List.mem_cons.mp hother with rfl | hother
    · exact .head' hfirst hrest.reflTransGen
    · exact ih hother

/-- Of two chains that start at one method, one is the beginning of the other. -/
theorem Climbs.comparable {passed passed' : List Entity} (h : program.Climbs method passed last)
    (h' : program.Climbs method passed' other) :
    (∃ rest, passed' = passed ++ rest ∧ program.Climbs last rest other) ∨
      ∃ rest, passed = passed' ++ rest ∧ program.Climbs other rest last := by
  induction h generalizing passed' with
  | stay method => exact .inl ⟨passed', rfl, h'⟩
  | up hfirst hrest ih =>
    cases h' with
    | stay => exact .inr ⟨_, rfl, .up hfirst hrest⟩
    | up hfirst' hrest' =>
      obtain rfl := hfirst.unique hfirst'
      rcases ih hrest' with ⟨rest, rfl, hclimbs⟩ | ⟨rest, rfl, hclimbs⟩
      · exact .inl ⟨rest, rfl, hclimbs⟩
      · exact .inr ⟨rest, rfl, hclimbs⟩

/-- A chain that could end goes no further without passing its end twice. -/
theorem Climbs.eq_of_ended {passed rest : List Entity} (h : program.Climbs last rest other)
    (hended : last ∈ passed ∨ ∀ next, ¬ program.Overrides last next)
    (honce : (passed ++ rest).Nodup) : last = other := by
  cases h with
  | stay => rfl
  | up hfirst _ =>
    rcases hended with hpassed | hnone
    · exact absurd rfl ((List.nodup_append.mp honce).2.2 last hpassed last List.mem_cons_self)
    · exact absurd hfirst (hnone _)

theorem EndsAt.unique (h : program.EndsAt method last) (h' : program.EndsAt method other) :
    last = other := by
  obtain ⟨passed, hclimbs, honce, hended⟩ := h
  obtain ⟨passed', hclimbs', honce', hended'⟩ := h'
  rcases hclimbs.comparable hclimbs' with ⟨rest, rfl, hrest⟩ | ⟨rest, rfl, hrest⟩
  · exact hrest.eq_of_ended hended honce'
  · exact (hrest.eq_of_ended hended' honce).symm

/-- Without a circle a chain ends at a method that overrides nothing. -/
theorem EndsAt.not_overrides (h : program.EndsAt method last)
    (hacyclic : ∀ method, ¬ TransGen program.Overrides method method) (next : Entity) :
    ¬ program.Overrides last next := by
  obtain ⟨passed, hclimbs, _, hpassed | hnone⟩ := h
  · exact absurd (hclimbs.transGen_of_mem hpassed) (hacyclic last)
  · exact hnone next

theorem EndsAt.reflTransGen (h : program.EndsAt method last) :
    ReflTransGen program.Overrides method last := by
  obtain ⟨passed, hclimbs, _⟩ := h
  exact hclimbs.reflTransGen

end Chains

section Introducers

/-- Among the methods not yet met, the walk upwards passes no method twice, and it ends at a method
that was met or that overrides nothing. -/
theorem climbs_introducerAmong (method : Entity) {unmet : Bindings Entity MethodDescription}
    {met : List Entity} (hunmet : ∀ entity,
      unmet.find? entity = if entity ∈ met then none else program.method? entity) :
    ∃ passed, program.Climbs method passed (introducerAmong unmet method) ∧ passed.Nodup ∧
      (∀ entity ∈ passed, entity ∉ met) ∧
      (introducerAmong unmet method ∈ passed ++ met ∨
        ∀ next, ¬ program.Overrides (introducerAmong unmet method) next) := by
  fun_induction introducerAmong unmet method generalizing met with
  | case1 unmet method hfind =>
    refine ⟨[], .stay method, List.nodup_nil, by simp, ?_⟩
    by_cases hmet : method ∈ met
    · exact .inl hmet
    · rw [hunmet, if_neg hmet] at hfind
      refine .inr fun next hnext => ?_
      obtain ⟨description, hmethod, _⟩ := hnext
      rw [hfind] at hmethod
      cases hmethod
  | case2 unmet method description hfind hlast =>
    refine ⟨[], .stay method, List.nodup_nil, by simp, .inr fun next hnext => ?_⟩
    obtain ⟨description', hmethod, hoverrides⟩ := hnext
    rw [hunmet] at hfind
    split at hfind
    · cases hfind
    · rw [hfind] at hmethod
      obtain rfl := Option.some.inj hmethod
      rw [hlast] at hoverrides
      cases hoverrides
  | case3 unmet method description hfind next hnext ih =>
    have hmet : method ∉ met := by
      intro hmet
      rw [hunmet, if_pos hmet] at hfind
      cases hfind
    rw [hunmet, if_neg hmet] at hfind
    have hrest (entity : Entity) : (unmet.erase method).find? entity =
        if entity ∈ method :: met then none else program.method? entity := by
      rw [Bindings.find?_erase, hunmet]
      by_cases hentity : entity = method <;> simp [hentity]
    obtain ⟨passed, hclimbs, honce, hfresh, hended⟩ := ih hrest
    refine ⟨method :: passed, .up ⟨description, hfind, hnext⟩ hclimbs, ?_, ?_, ?_⟩
    · exact List.nodup_cons.mpr ⟨fun hmem => hfresh method hmem List.mem_cons_self, honce⟩
    · intro entity hentity
      rcases List.mem_cons.mp hentity with rfl | hentity
      · exact hmet
      · exact fun hmem => hfresh entity hentity (List.mem_cons_of_mem _ hmem)
    · refine hended.imp_left fun hmem => ?_
      simpa only [List.mem_append, List.mem_cons, List.cons_append, or_left_comm] using hmem

/-- The introducer of the slot of a method is where its chain ends. -/
theorem endsAt_introducer (program : Program) (method : Entity) :
    program.EndsAt method (program.introducer method) := by
  have hunmet (entity : Entity) : program.methods.find? entity =
      if entity ∈ ([] : List Entity) then none else program.method? entity := rfl
  obtain ⟨passed, hclimbs, honce, _, hended⟩ := climbs_introducerAmong method hunmet
  rw [List.append_nil] at hended
  exact ⟨passed, hclimbs, honce, hended⟩

theorem introducer_eq_iff : program.introducer method = last ↔ program.EndsAt method last := by
  constructor
  · rintro rfl
    exact endsAt_introducer program method
  · exact (endsAt_introducer program method).unique

/-- Without a circle, methods that lead to one end have one introducer, and no others lead there. -/
theorem introducer_eq_introducer_iff
    (hacyclic : ∀ method, ¬ TransGen program.Overrides method method) :
    program.introducer other = program.introducer method ↔
      ReflTransGen program.Overrides other (program.introducer method) := by
  have hlast (method next : Entity) : ¬ program.Overrides (program.introducer method) next :=
    (endsAt_introducer program method).not_overrides hacyclic next
  have hstays {start target : Entity}
      (h : ReflTransGen program.Overrides (program.introducer start) target) :
      program.introducer start = target := by
    rcases ReflTransGen.cases_head h with heq | ⟨next, hnext, _⟩
    · exact heq
    · exact absurd hnext (hlast start next)
  constructor
  · intro heq
    rw [← heq]
    exact (endsAt_introducer program other).reflTransGen
  · intro hleads
    rcases ReflTransGen.total_of_right_unique (fun _ _ _ h h' => h.unique h')
      (endsAt_introducer program other).reflTransGen hleads with h | h
    · exact hstays h
    · exact (hstays h).symm

end Introducers

section Families

theorem pairwise_family (program : Program) (method : Entity) :
    (program.family method).Pairwise (· < ·) := by
  have honce : (program.family method).Nodup := by
    rw [family, (ascending_perm _).nodup_iff]
    exact nodup_familyFrom List.nodup_nil
  exact (pairwise_ascending _).imp₂ (fun _ _ => Ranked.lt_of_le_of_ne) honce

/-- Where no method was accepted twice, links and descriptions agree. -/
theorem coherent_registerAll {registrations : List Registration}
    (honce : (((({} : Program).accepted registrations).filterMap
      Registration.methodBinding?).map Prod.fst).Nodup) :
    (({} : Program).registerAll registrations).Coherent := by
  have hmethod (entity : Entity) (description : MethodDescription) :
      (({} : Program).registerAll registrations).method? entity = some description ↔
        (entity, description) ∈
          (({} : Program).accepted registrations).filterMap Registration.methodBinding? := by
    rw [method?, methods_registerAll]
    exact Bindings.find?_putEach_eq_some_iff.trans
      ⟨Bindings.LastOf.mem, Bindings.lastOf_of_nodup honce⟩
  have hlinks (source? : MethodDescription → Option Entity) (source entity : Entity) :
      (source, entity) ∈ (({} : Links).addEach source?
        ((({} : Program).accepted registrations).filterMap Registration.methodBinding?)).pairs ↔
        ∃ description,
          (({} : Program).registerAll registrations).method? entity = some description ∧
            source? description = some source := by
    simp only [hmethod, Links.mem_addEach]
    exact or_iff_left List.not_mem_nil
  constructor
  · intro owner entity
    rw [ownedMethods_registerAll]
    simpa only [Option.some.injEq] using
      hlinks (fun description => some description.owner) owner entity
  · intro slot entity
    rw [overriders_registerAll]
    exact hlinks MethodDescription.overrides slot entity

end Families

/-- Families and introducers describe the same lineages of methods. -/
structure Lineages (program : Program) : Prop where
  /-- A family is the method with all from which following the overridden methods leads to it. -/
  members : ∀ method other,
    other ∈ program.family method ↔ ReflTransGen program.Overrides other method
  ascending : ∀ method, (program.family method).Pairwise (· < ·)
  introducer : ∀ method last, program.introducer method = last ↔ program.EndsAt method last
  agree : (∀ method, ¬ TransGen program.Overrides method method) → ∀ method other,
    other ∈ program.family (program.introducer method) ↔
      program.introducer other = program.introducer method

/-- After any registrations, accepted or refused, of which none has been accepted twice for one
method, families and introducers are what the chains of overridden methods say, also where these run
in circles. -/
theorem lineages_registerAll {registrations : List Registration}
    (honce : (((({} : Program).accepted registrations).filterMap
      Registration.methodBinding?).map Prod.fst).Nodup) :
    (({} : Program).registerAll registrations).Lineages := by
  have hmembers (method other : Entity) :
      other ∈ (({} : Program).registerAll registrations).family method ↔
        ReflTransGen (({} : Program).registerAll registrations).Overrides other method :=
    mem_family (coherent_registerAll honce)
  refine ⟨hmembers, pairwise_family _, fun _ _ => introducer_eq_iff, fun hacyclic => ?_⟩
  intro method other
  rw [hmembers, introducer_eq_introducer_iff hacyclic]

section Circle

def describedAs (name : String) (method slot : Entity) : MethodDescription :=
  MethodDescription.overriding { id := method, owner := typeA, name } slot

/-- Two methods override each other, and a third one overrides the second. -/
def circleRegistrations : List Registration :=
  [.module "App" "/App.dll", .type { id := typeA, name := "A" },
    .method (describedAs "First" runA runB), .method (describedAs "Second" runB runA),
    .method (describedAs "Third" runC runB)]

def circle : Program := ({} : Program).registerAll circleRegistrations

def registeredRow : Program := ({} : Program).registerAll rowRegistrations

theorem acyclic_registeredRow (method : Entity) :
    ¬ TransGen registeredRow.Overrides method method :=
  wellFormed_row.overrides_acyclic method

/-- The chain of the third method comes to the second one again, whose family has all three.  In a
row without a circle the last method belongs to the family of what introduced the slot of the
second. -/
theorem lineages_circle :
    (((({} : Program).accepted circleRegistrations).filterMap
      Registration.methodBinding?).map Prod.fst).Nodup ∧
      circle.EndsAt runC runB ∧
      (∀ method ∈ [runA, runB, runC], method ∈ circle.family runB) ∧
      (((({} : Program).accepted rowRegistrations).filterMap
        Registration.methodBinding?).map Prod.fst).Nodup ∧
      runC ∈ registeredRow.family (registeredRow.introducer runB) := by
  have honce : (((({} : Program).accepted circleRegistrations).filterMap
      Registration.methodBinding?).map Prod.fst).Nodup := by decide +kernel
  have honce' : (((({} : Program).accepted rowRegistrations).filterMap
      Registration.methodBinding?).map Prod.fst).Nodup := by decide +kernel
  have hcircle : circle.Lineages := lineages_registerAll honce
  have hrow : registeredRow.Lineages := lineages_registerAll honce'
  have hfamily (method : Entity) (h : method ∈ [runA, runB, runC]) :
      method ∈ circle.family runB := by
    rw [hcircle.members]
    simp only [List.mem_cons, List.not_mem_nil, or_false] at h
    rcases h with rfl | rfl | rfl
    · exact .single ⟨describedAs "First" runA runB, by decide +kernel, rfl⟩
    · exact .refl
    · exact .single ⟨describedAs "Third" runC runB, by decide +kernel, rfl⟩
  exact ⟨honce, (hcircle.introducer _ _).mp (by decide +kernel), hfamily, honce',
    (hrow.agree acyclic_registeredRow runB runC).mpr (by decide +kernel)⟩

end Circle

end PortableImage.Program
