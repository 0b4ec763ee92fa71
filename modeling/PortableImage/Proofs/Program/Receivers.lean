import PortableImage.Dispatch
import PortableImage.Proofs.Program.Family
/-!
# Receivers of virtual calls

At run time a virtual call walks from the type of the receiver along its bases and takes the first
method that fills the slot.  A ruling is made from the family of the callee instead.  The two agree
for a receiver exactly if the method it dispatches to belongs to the family and to the bubble.  An
override that names the method which introduced the slot, past an override in between, is dispatched
to without belonging to the family of the latter.
-/

namespace PortableImage

open Relation (ReflTransGen TransGen)

namespace Program

def Base (program : Program) (type base : Entity) : Prop :=
  ∃ description, program.type? type = some description ∧ description.base = some base

/-- A type has a virtual method of its own that fills a slot. -/
structure Declares (program : Program) (slot type method : Entity) : Prop where
  declared : method ∈ program.declaredMethods type
  isVirtual : program.isVirtual method
  fills : program.introducer method = slot

/-- What a call through a slot comes to at run time, for each type of the receiver. -/
inductive Dispatches (program : Program) (slot : Entity) : Entity → Entity → Prop
  | own {type method} (h : program.Declares slot type method) : Dispatches program slot type method
  | inherited {type base method} (hnone : ∀ own, ¬ program.Declares slot type own)
      (hbase : program.Base type base) (h : Dispatches program slot base method) :
      Dispatches program slot type method

/-- What a class hierarchy is expected to be like. -/
structure WellFormed (program : Program) : Prop where
  bases_acyclic : ∀ type, ¬ TransGen program.Base type type
  overrides_acyclic : ∀ method, ¬ TransGen program.Overrides method method
  slot_once : ∀ {slot type a b}, program.Declares slot type a → program.Declares slot type b → a = b
  sealed_last : ∀ {type base}, program.Base type base → program.isSealed base = false
  final_last : ∀ {method description type other}, program.method? method = some description →
    description.isFinal → TransGen program.Base type description.owner →
    ¬ program.Declares (program.introducer method) type other

variable {program : Program} {bubble : Bubble} {slot type base method target receiver reached : Entity}
  {description : MethodDescription}

theorem Base.unique {other : Entity} (h : program.Base type base) (h' : program.Base type other) :
    base = other := by
  obtain ⟨description, htype, hbase⟩ := h
  obtain ⟨_, htype', hbase'⟩ := h'
  rw [htype] at htype'
  cases htype'
  rw [hbase] at hbase'
  exact Option.some.inj hbase'

theorem Coherent.declares (hcoherent : program.Coherent)
    (hmethod : program.method? method = some description) (hvirtual : program.isVirtual method) :
    program.Declares (program.introducer method) description.owner method where
  declared := Links.mem_targets.mpr
    ((hcoherent.owned _ _).mpr ⟨description, hmethod, rfl⟩)
  isVirtual := hvirtual
  fills := rfl

/-- A type that fills a slot itself is dispatched to its own method. -/
theorem Dispatches.eq_of_declares (hwell : program.WellFormed)
    (h : program.Dispatches slot type reached) (hown : program.Declares slot type method) :
    reached = method := by
  cases h with
  | own hreached => exact hwell.slot_once hreached hown
  | inherited hnone _ _ => exact absurd hown (hnone method)

/-- Below the last type that fills a slot, every receiver is dispatched to its method. -/
theorem Dispatches.eq_of_last (hwell : program.WellFormed)
    (hown : program.Declares slot base method)
    (hlast : ∀ type other, TransGen program.Base type base → ¬ program.Declares slot type other)
    (hderives : ReflTransGen program.Base receiver base)
    (h : program.Dispatches slot receiver reached) : reached = method := by
  induction hderives using ReflTransGen.head_induction_on with
  | refl => exact h.eq_of_declares hwell hown
  | @head type next hfirst hrest ih =>
    cases h with
    | own hreached => exact absurd hreached (hlast _ _ (TransGen.head' hfirst hrest))
    | inherited _ hbase hnext =>
      rw [hbase.unique hfirst] at hnext
      exact ih hnext

theorem Dispatches.isVirtual (h : program.Dispatches slot type reached) :
    program.isVirtual reached := by
  induction h with
  | own h => exact h.isVirtual
  | inherited _ _ _ ih => exact ih

theorem rule_eq_monomorphic (hmethod : program.method? method = some description)
    (hvirtual : program.isVirtual method) (hrule : program.rule bubble method = .monomorphic target) :
    bubble.contains method ∧
      ((description.isFinal ∨ program.isSealed description.owner) ∧ target = method ∨
        program.candidates bubble method = [target]) := by
  have hdescription : description.isVirtual := by
    rw [Program.isVirtual, hmethod] at hvirtual
    exact hvirtual
  rw [rule] at hrule
  by_cases hbubble : bubble.closed && bubble.contains method
  · rw [if_pos hbubble, hmethod] at hrule
    refine ⟨(Bool.and_eq_true_iff.mp hbubble).2, ?_⟩
    by_cases hlast : description.isFinal ∨ program.isSealed description.owner
    · left
      refine ⟨hlast, ?_⟩
      simp only [hdescription, Bool.not_true, Bool.false_or, Bool.or_eq_true, if_pos hlast,
        Ruling.monomorphic.injEq] at hrule
      exact hrule.symm
    · right
      simp only [hdescription, Bool.not_true, Bool.false_or, Bool.or_eq_true, if_neg hlast]
        at hrule
      split at hrule
      · rename_i single hsingle
        rw [hsingle, Ruling.monomorphic.inj hrule]
      · cases hrule
  · rw [if_neg hbubble] at hrule
    cases hrule

theorem mem_candidates (hcoherent : program.Coherent) :
    target ∈ program.candidates bubble method ↔
      ReflTransGen program.Overrides target method ∧ bubble.contains target ∧
        ∃ description, program.method? target = some description ∧
          description.isAbstract = false := by
  rw [candidates, List.mem_filter, mem_family hcoherent, Bool.and_eq_true, Option.any_eq_true]
  simp

end Program

namespace Rulings

/-- The rulings made when methods have been asked about, one after another. -/
def made (program : Program) (bubble : Bubble) (asked : List Entity) : Rulings :=
  asked.foldl (fun rulings method => (rulings.consult program bubble method).2) ∅

variable {program : Program} {bubble : Bubble}

theorem find?_consult {rulings : Rulings}
    (h : ∀ method ruling, rulings.find? method = some ruling → ruling = program.rule bubble method)
    (asked : Entity) :
    (rulings.consult program bubble asked).1 = program.rule bubble asked ∧
      ∀ method ruling, (rulings.consult program bubble asked).2.find? method = some ruling →
        ruling = program.rule bubble method := by
  rw [consult]
  cases hfind : rulings.find? asked with
  | some ruling => exact ⟨h asked ruling hfind, h⟩
  | none =>
    refine ⟨rfl, fun method ruling hruling => ?_⟩
    rw [Bindings.find?_put] at hruling
    split at hruling
    · rename_i heq
      rw [heq, ← Option.some.inj hruling]
    · exact h method ruling hruling

/-- Rulings do not depend on what was asked before. -/
theorem consult_made (asked : List Entity) (method : Entity) :
    ((made program bubble asked).consult program bubble method).1 =
      program.rule bubble method := by
  have hmade (rulings : Rulings)
      (h : ∀ method ruling, rulings.find? method = some ruling →
        ruling = program.rule bubble method) :
      ∀ method ruling, (asked.foldl
        (fun rulings method => (rulings.consult program bubble method).2) rulings).find? method =
          some ruling → ruling = program.rule bubble method := by
    induction asked generalizing rulings with
    | nil => exact h
    | cons first asked ih => exact ih _ (find?_consult h first).2
  exact (find?_consult (hmade ∅ fun _ _ hfind => by cases hfind) method).1

end Rulings

namespace Program

variable {program : Program} {bubble : Bubble} {slot base method target receiver reached : Entity}
  {description : MethodDescription}

theorem WellFormed.last (hwell : program.WellFormed)
    (hmethod : program.method? method = some description)
    (hlast : description.isFinal ∨ program.isSealed description.owner) (type other : Entity)
    (hbelow : TransGen program.Base type description.owner) :
    ¬ program.Declares (program.introducer method) type other := by
  rcases hlast with hfinal | hsealed
  · exact hwell.final_last hmethod hfinal hbelow
  · obtain ⟨_, _, hbase⟩ := TransGen.tail'_iff.mp hbelow
    rw [hwell.sealed_last hbase] at hsealed
    cases hsealed

/-- Where a virtual call was ruled on, a receiver is dispatched to the target of the ruling if and
only if the method it is dispatched to belongs to the bubble and overrides the callee. -/
theorem eq_target_iff (hcoherent : program.Coherent) (hwell : program.WellFormed)
    (hmethod : program.method? method = some description) (hvirtual : program.isVirtual method)
    (hrule : program.rule bubble method = .monomorphic target)
    (hderives : ReflTransGen program.Base receiver description.owner)
    (hdispatch : program.Dispatches (program.introducer method) receiver reached)
    (hconcrete : (program.method? reached).any MethodDescription.isAbstract = false) :
    reached = target ↔
      bubble.contains reached ∧ ReflTransGen program.Overrides reached method := by
  obtain ⟨hbubble, ⟨hlast, rfl⟩ | hcandidates⟩ := rule_eq_monomorphic hmethod hvirtual hrule
  · have hreached : reached = target :=
      hdispatch.eq_of_last hwell (hcoherent.declares hmethod hvirtual)
        (hwell.last hmethod hlast) hderives
    rw [hreached]
    exact iff_of_true rfl ⟨hbubble, .refl⟩
  · have hdescribed : ∃ description, program.method? reached = some description ∧
        description.isAbstract = false := by
      have hreached := hdispatch.isVirtual
      rw [Program.isVirtual] at hreached
      cases hfind : program.method? reached with
      | none => rw [hfind] at hreached; cases hreached
      | some found =>
        rw [hfind] at hconcrete
        exact ⟨found, rfl, hconcrete⟩
    rw [← List.mem_singleton, ← hcandidates, mem_candidates hcoherent]
    constructor
    · rintro ⟨hoverrides, hcontains, _⟩
      exact ⟨hcontains, hoverrides⟩
    · rintro ⟨hcontains, hoverrides⟩
      exact ⟨hoverrides, hcontains, hdescribed⟩

/-- Below a type that fills a slot, every receiver is dispatched to some method. -/
theorem exists_dispatches (hown : program.Declares slot base method)
    (hderives : ReflTransGen program.Base receiver base) :
    ∃ reached, program.Dispatches slot receiver reached := by
  induction hderives using ReflTransGen.head_induction_on with
  | refl => exact ⟨method, .own hown⟩
  | @head type next hfirst _ ih =>
    obtain ⟨reached, hreached⟩ := ih
    by_cases hdeclares : ∃ other, program.Declares slot type other
    · obtain ⟨other, hother⟩ := hdeclares
      exact ⟨other, .own hother⟩
    · exact ⟨reached, .inherited (not_exists.mp hdeclares) hfirst hreached⟩

/-- Every override names the method that the base of its owner is dispatched to. -/
def NamesNearest (program : Program) : Prop :=
  ∀ {slot type base method target}, program.Base type base → program.Declares slot type method →
    program.Dispatches slot base target → program.Overrides method target

/-- If overrides name the nearest method, what a receiver is dispatched to overrides the callee. -/
theorem overrides_of_namesNearest (hwell : program.WellFormed) (hnearest : program.NamesNearest)
    (hown : program.Declares slot base method)
    (hderives : ReflTransGen program.Base receiver base)
    (hdispatch : program.Dispatches slot receiver reached) :
    ReflTransGen program.Overrides reached method := by
  induction hderives using ReflTransGen.head_induction_on generalizing reached with
  | refl =>
    rw [hdispatch.eq_of_declares hwell hown]
  | @head type next hfirst hrest ih =>
    cases hdispatch with
    | own hreached =>
      obtain ⟨inherited, hinherited⟩ := exists_dispatches hown hrest
      exact .head (hnearest hfirst hreached hinherited) (ih hinherited)
    | inherited _ hbase hnext =>
      rw [hbase.unique hfirst] at hnext
      exact ih hnext

/-- If overrides name the nearest method, a ruling holds for every receiver that is dispatched to a
method of the bubble. -/
theorem eq_target_of_namesNearest (hcoherent : program.Coherent) (hwell : program.WellFormed)
    (hnearest : program.NamesNearest) (hmethod : program.method? method = some description)
    (hvirtual : program.isVirtual method)
    (hrule : program.rule bubble method = .monomorphic target)
    (hderives : ReflTransGen program.Base receiver description.owner)
    (hdispatch : program.Dispatches (program.introducer method) receiver reached)
    (hconcrete : (program.method? reached).any MethodDescription.isAbstract = false)
    (hcontains : bubble.contains reached) : reached = target := by
  rw [eq_target_iff hcoherent hwell hmethod hvirtual hrule hderives hdispatch hconcrete]
  exact ⟨hcontains, overrides_of_namesNearest hwell hnearest
    (hcoherent.declares hmethod hvirtual) hderives hdispatch⟩

/-- A ruling answered at any time is right for a receiver exactly if the method that the receiver is
dispatched to belongs to the bubble and overrides the callee. -/
theorem reached_eq_target_iff {registrations : List Registration}
    (hassemble : assemble registrations = .ok program)
    (honce : (registrations.filterMap Registration.method?).Nodup) (hwell : program.WellFormed)
    (hmethod : program.method? method = some description) (hvirtual : program.isVirtual method)
    (asked : List Entity)
    (hrule : ((Rulings.made program bubble asked).consult program bubble method).1 =
      .monomorphic target)
    (hderives : ReflTransGen program.Base receiver description.owner)
    (hdispatch : program.Dispatches (program.introducer method) receiver reached)
    (hconcrete : (program.method? reached).any MethodDescription.isAbstract = false) :
    reached = target ↔
      bubble.contains reached ∧ ReflTransGen program.Overrides reached method := by
  rw [Rulings.consult_made] at hrule
  exact eq_target_iff (coherent_of_assemble hassemble honce) hwell hmethod hvirtual hrule hderives
    hdispatch hconcrete

theorem not_transGen_self {steps : Entity → Entity → Prop}
    (h : ∀ a b, steps a b → b < a) (entity : Entity) : ¬ TransGen steps entity entity := by
  have hdown {a b : Entity} (hsteps : TransGen steps a b) : b < a := by
    induction hsteps with
    | single hstep => exact h _ _ hstep
    | tail _ hstep ih => exact Nat.lt_trans (h _ _ hstep) ih
  exact fun hsteps => Nat.lt_irrefl _ (hdown hsteps)

/-- A program is well-formed if bases and overridden methods have lesser tokens, no type has two
methods, and nothing is sealed or final. -/
theorem WellFormed.of_entries
    (hbases : ∀ entry ∈ program.types.entries, ∀ base ∈ entry.2.base, base < entry.1)
    (hoverrides : ∀ entry ∈ program.methods.entries, ∀ slot ∈ entry.2.overrides, slot < entry.1)
    (honce : ∀ first ∈ program.ownedMethods.pairs, ∀ second ∈ program.ownedMethods.pairs,
      first.1 = second.1 → first.2 = second.2)
    (hsealed : ∀ entry ∈ program.types.entries, entry.2.isSealed = false)
    (hfinal : ∀ entry ∈ program.methods.entries, entry.2.isFinal = false) :
    program.WellFormed where
  bases_acyclic := by
    apply not_transGen_self
    rintro type base ⟨description, htype, hbase⟩
    exact hbases _ (Bindings.mem_entries_of_find? htype) base hbase
  overrides_acyclic := by
    apply not_transGen_self
    rintro method slot ⟨description, hmethod, hslot⟩
    exact hoverrides _ (Bindings.mem_entries_of_find? hmethod) slot hslot
  slot_once ha hb :=
    honce _ (Links.mem_targets.mp ha.declared) _ (Links.mem_targets.mp hb.declared) rfl
  sealed_last := by
    intro type base _
    rw [isSealed]
    cases hbase : program.type? base with
    | none => rfl
    | some description => exact hsealed _ (Bindings.mem_entries_of_find? hbase)
  final_last := by
    intro method description type other hmethod hdescription
    rw [hfinal _ (Bindings.mem_entries_of_find? hmethod)] at hdescription
    cases hdescription

section Row

def typeA : Entity := ⟨⟨0⟩, ⟨0x02000001⟩⟩
def typeB : Entity := ⟨⟨0⟩, ⟨0x02000002⟩⟩
def typeC : Entity := ⟨⟨0⟩, ⟨0x02000003⟩⟩
def runA : Entity := ⟨⟨0⟩, ⟨0x06000001⟩⟩
def runB : Entity := ⟨⟨0⟩, ⟨0x06000002⟩⟩
def runC : Entity := ⟨⟨0⟩, ⟨0x06000003⟩⟩

def describedB : MethodDescription :=
  MethodDescription.overriding { id := runB, owner := typeB, name := "Run" } runA

/-- Three types in a row, each with a method for one slot.  Both overrides name the method that
introduced the slot. -/
def rowRegistrations : List Registration :=
  [.module "App" "/App.dll",
    .type { id := typeA, name := "A" },
    .type { id := typeB, name := "B", base := some typeA },
    .type { id := typeC, name := "C", base := some typeB },
    .method { id := runA, owner := typeA, name := "Run", flags := MethodFlags.dispatched },
    .method describedB,
    .method (MethodDescription.overriding { id := runC, owner := typeC, name := "Run" } runA)]

def row : Program := (assemble rowRegistrations).toOption.getD {}

def rowBubble : Bubble := ⟨[⟨0⟩], true⟩

theorem assemble_row : assemble rowRegistrations = .ok row := rfl

theorem wellFormed_row : row.WellFormed :=
  .of_entries (by decide +kernel) (by decide +kernel) (by decide +kernel) (by decide +kernel)
    (by decide +kernel)

theorem method?_row : row.method? runB = some describedB := rfl

theorem derives_row : ReflTransGen row.Base typeC typeB :=
  .single ⟨{ id := typeC, name := "C", base := some typeB }, by decide +kernel, rfl⟩

theorem dispatches_row : row.Dispatches (row.introducer runB) typeC runC :=
  .own ⟨by decide +kernel, by decide +kernel, by decide +kernel⟩

theorem reached_eq_target_iff_row :
    runC = runB ↔ rowBubble.contains runC ∧ ReflTransGen row.Overrides runC runB :=
  reached_eq_target_iff assemble_row (by decide +kernel) wellFormed_row method?_row
    (by decide +kernel) [runA, runB] (by decide +kernel) derives_row dispatches_row
    (by decide +kernel)

/-- A ruling can be wrong for a receiver in the bubble: the second override is not in the family of
the first, and yet it takes the place of the first for the receivers of its own type. -/
theorem not_forall_reached_eq_target :
    ¬ ∀ (registrations : List Registration) (program : Program) (bubble : Bubble)
      (method target receiver reached : Entity) (description : MethodDescription)
      (asked : List Entity),
      assemble registrations = .ok program →
      (registrations.filterMap Registration.method?).Nodup → program.WellFormed →
      bubble.closed → program.method? method = some description → program.isVirtual method →
      ((Rulings.made program bubble asked).consult program bubble method).1 =
        .monomorphic target →
      bubble.contains receiver → ReflTransGen program.Base receiver description.owner →
      program.Dispatches (program.introducer method) receiver reached →
      (program.method? reached).any MethodDescription.isAbstract = false → reached = target := by
  intro h
  have hreached := h rowRegistrations row rowBubble runB runB typeC runC _ [] assemble_row
    (by decide +kernel) wellFormed_row rfl method?_row (by decide +kernel) (by decide +kernel)
    (by decide +kernel) derives_row dispatches_row (by decide +kernel)
  revert hreached
  decide +kernel

end Row

end Program

end PortableImage
