import PortableImage.Program.Overrides
import PortableImage.Proofs.Program.Assembly
import Mathlib.Logic.Relation
/-!
# Families of methods

The family of a method is closed under the links to overriders: it is what the links reach.  In a
coherent program these are the methods that override it, directly or not.
-/

namespace PortableImage.Program

open Relation (ReflTransGen)

def Leads (pairs : List (Entity × Entity)) (source target : Entity) : Prop :=
  (source, target) ∈ pairs

variable {pairs : List (Entity × Entity)} {method target : Entity}

theorem mem_leaving : target ∈ Links.leaving method pairs ↔ Leads pairs method target := by
  rw [Links.leaving, List.mem_map, Leads]
  constructor
  · rintro ⟨⟨first, second⟩, hmem, rfl⟩
    rw [List.mem_filter, decide_eq_true_iff] at hmem
    obtain ⟨hmem, rfl⟩ := hmem
    exact hmem
  · intro hmem
    exact ⟨_, List.mem_filter.mpr ⟨hmem, decide_eq_true rfl⟩, rfl⟩

theorem leads_elsewhere {source : Entity} :
    Leads (Links.elsewhere method pairs) source target ↔
      Leads pairs source target ∧ source ≠ method := by
  rw [Leads, Links.elsewhere, List.mem_filter, decide_eq_true_iff]
  rfl

/-- A path either avoids the pairs that leave a method, or it can be taken up again after them. -/
theorem reaches_elsewhere (method : Entity) {source : Entity}
    (h : ReflTransGen (Leads pairs) source target) :
    target = method ∨ ReflTransGen (Leads (Links.elsewhere method pairs)) source target ∨
      ∃ next ∈ Links.leaving method pairs,
        ReflTransGen (Leads (Links.elsewhere method pairs)) next target := by
  induction h using ReflTransGen.head_induction_on with
  | refl => exact .inr (.inl .refl)
  | @head source next hfirst _ ih =>
    rcases ih with htarget | hnext | hlater
    · exact .inl htarget
    · right
      by_cases hsource : source = method
      · exact .inr ⟨next, mem_leaving.mpr (hsource ▸ hfirst), hnext⟩
      · exact .inl (.head (leads_elsewhere.mpr ⟨hfirst, hsource⟩) hnext)
    · exact .inr (.inr hlater)

/-- What unused links reach from the waiting methods is exactly what they lead to, step by step. -/
theorem mem_familyFrom {unused : List (Entity × Entity)} {waiting met : List Entity} :
    target ∈ familyFrom unused waiting met ↔
      target ∈ met ∨ ∃ method ∈ waiting, ReflTransGen (Leads unused) method target := by
  fun_induction familyFrom unused waiting met with
  | case1 unused met => simp
  | case2 unused met method rest ih =>
    rw [ih, List.mem_insert_iff]
    have hmono {source : Entity}
        (h : ReflTransGen (Leads (Links.elsewhere method unused)) source target) :
        ReflTransGen (Leads unused) source target := by
      refine ReflTransGen.mono ?_ _ _ h
      exact fun _ _ hstep => (leads_elsewhere.mp hstep).1
    constructor
    · rintro ((rfl | hmet) | ⟨next, hnext, hreaches⟩)
      · exact .inr ⟨target, List.mem_cons_self, .refl⟩
      · exact .inl hmet
      · right
        rcases List.mem_append.mp hnext with hleaving | hrest
        · exact ⟨method, List.mem_cons_self, .head (mem_leaving.mp hleaving) (hmono hreaches)⟩
        · exact ⟨next, List.mem_cons_of_mem _ hrest, hmono hreaches⟩
    · rintro (hmet | ⟨source, hsource, hreaches⟩)
      · exact .inl (.inr hmet)
      · rcases reaches_elsewhere method hreaches with htarget | hlater | hlater
        · exact .inl (.inl htarget)
        · rcases List.mem_cons.mp hsource with rfl | hrest
          · -- A path that avoids what leaves its own source has no step.
            left
            left
            cases hlater using ReflTransGen.head_induction_on with
            | refl => rfl
            | head hfirst _ => exact absurd rfl (leads_elsewhere.mp hfirst).2
          · exact .inr ⟨source, List.mem_append_right _ hrest, hlater⟩
        · obtain ⟨next, hnext, hreaches⟩ := hlater
          exact .inr ⟨next, List.mem_append_left _ hnext, hreaches⟩

theorem nodup_familyFrom {unused : List (Entity × Entity)} {waiting met : List Entity}
    (h : met.Nodup) : (familyFrom unused waiting met).Nodup := by
  fun_induction familyFrom unused waiting met with
  | case1 unused met => exact h
  | case2 unused met method rest ih => exact ih h.insert

def Overrides (program : Program) (method slot : Entity) : Prop :=
  ∃ description, program.method? method = some description ∧ description.overrides = some slot

/-- The family of a method is the method with all that override it, directly or not. -/
theorem mem_family {program : Program} (hcoherent : program.Coherent) :
    target ∈ program.family method ↔ ReflTransGen program.Overrides target method := by
  rw [family, mem_ascending, mem_familyFrom]
  have hlinks : Leads program.overriders.pairs = Function.swap program.Overrides := by
    funext slot overrider
    exact propext (hcoherent.overriders slot overrider)
  rw [hlinks, Relation.reflTransGen_swap]
  simp

end PortableImage.Program
