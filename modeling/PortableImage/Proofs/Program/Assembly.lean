import PortableImage.Program.Registration
import Mathlib.Data.List.Nodup
/-!
# Assembled programs

A program is assembled from a list of registrations.  Descriptions may be replaced while links stay,
so in general the links say more than the descriptions.  Where every method is registered once, the
two say the same.
-/

namespace PortableImage

/-- One step of a host that builds up a program. -/
inductive Registration
  | module (name path : String)
  | type (description : TypeDescription)
  | method (description : MethodDescription)
  | field (description : FieldDescription)
  | signature (entity : Entity) (data : Bytes)
  | reference (module : ModuleIndex) (reference : Token) (target : Entity)

namespace Registration

def method? : Registration → Option Entity
  | method description => some description.id
  | _ => none

end Registration

namespace Program

def enter (program : Program) : Registration → Except Fault Program
  | .module name path => .ok (program.registerModule name path).2
  | .type description => program.registerType description
  | .method description => program.registerMethod description
  | .field description => program.registerField description
  | .signature entity data => program.registerSignature entity data
  | .reference module reference target => program.registerReference module reference target

/-- The program after some registrations, all of which have to be accepted. -/
def assemble (registrations : List Registration) : Except Fault Program :=
  registrations.foldlM enter {}

/-- The links of methods say what the descriptions say. -/
structure Coherent (program : Program) : Prop where
  owned : ∀ owner method, (owner, method) ∈ program.ownedMethods.pairs ↔
    ∃ description, program.method? method = some description ∧ description.owner = owner
  overriders : ∀ slot method, (slot, method) ∈ program.overriders.pairs ↔
    ∃ description, program.method? method = some description ∧ description.overrides = some slot

theorem Coherent.empty : Coherent {} := by
  constructor <;> intro a b <;> exact iff_of_false List.not_mem_nil (fun h => by cases h.choose_spec.1)

theorem eq_of_check {check : Except Fault Unit} {value after : Program}
    (h : (do check; return value) = .ok after) : after = value := by
  cases check with
  | error fault => cases h
  | ok _ => exact (Except.ok.inj h).symm

theorem enter_cases {program after : Program} {registration : Registration}
    (h : program.enter registration = .ok after) :
    (registration.method? = none ∧ after.methods = program.methods ∧
      after.ownedMethods = program.ownedMethods ∧ after.overriders = program.overriders) ∨
    ∃ description, registration = .method description ∧
      after.methods = program.methods.put description.id description ∧
      after.ownedMethods = program.ownedMethods.add description.owner description.id ∧
      after.overriders = match description.overrides with
        | some slot => program.overriders.add slot description.id
        | none => program.overriders := by
  cases registration with
  | module name path =>
    cases h
    exact .inl ⟨rfl, rfl, rfl, rfl⟩
  | method description =>
    rw [eq_of_check h]
    exact .inr ⟨description, rfl, rfl, rfl, rfl⟩
  | type description =>
    rw [eq_of_check h]
    exact .inl ⟨rfl, rfl, rfl, rfl⟩
  | field description =>
    rw [eq_of_check h]
    exact .inl ⟨rfl, rfl, rfl, rfl⟩
  | signature entity data =>
    rw [eq_of_check h]
    exact .inl ⟨rfl, rfl, rfl, rfl⟩
  | reference module reference target =>
    rw [enter, registerReference] at h
    cases hrequire : program.requireModule module with
    | error fault => rw [hrequire] at h; cases h
    | ok _ =>
      rw [hrequire] at h
      by_cases hadmits : reference.table?.any admitsReference
      · rw [if_pos hadmits] at h
        cases h
        exact .inl ⟨rfl, rfl, rfl, rfl⟩
      · rw [if_neg hadmits] at h
        cases h

theorem mem_add {links : Links} {source target : Entity} {pair : Entity × Entity} :
    pair ∈ (links.add source target).pairs ↔ pair = (source, target) ∨ pair ∈ links.pairs := by
  rw [Links.add, List.mem_insert_iff]

/-- A method that is registered for the first time keeps the links true. -/
theorem Coherent.enter {program after : Program} {registration : Registration}
    (hcoherent : program.Coherent) (h : program.enter registration = .ok after)
    (hnew : ∀ method, registration.method? = some method → program.method? method = none) :
    after.Coherent := by
  rcases enter_cases h with ⟨_, hmethods, howned, hoverriders⟩ |
    ⟨description, rfl, hmethods, howned, hoverriders⟩
  · constructor
    · intro owner method
      rw [howned, Program.method?, hmethods]
      exact hcoherent.owned owner method
    · intro slot method
      rw [hoverriders, Program.method?, hmethods]
      exact hcoherent.overriders slot method
  · have hnone : program.method? description.id = none := hnew _ rfl
    have hlookup (method : Entity) : after.method? method =
        if method = description.id then some description else program.method? method := by
      rw [Program.method?, hmethods, Bindings.find?_put, Program.method?]
    constructor
    · intro owner method
      rw [howned, mem_add, hcoherent.owned, hlookup, Prod.mk.injEq]
      by_cases hmethod : method = description.id
      · rw [if_pos hmethod, hmethod, hnone]
        simp [eq_comm]
      · rw [if_neg hmethod]
        simp [hmethod]
    · intro slot method
      have hpairs : (slot, method) ∈ after.overriders.pairs ↔
          (description.overrides = some slot ∧ method = description.id) ∨
            (slot, method) ∈ program.overriders.pairs := by
        rw [hoverriders]
        cases description.overrides with
        | none => simp
        | some target => rw [mem_add]; simp [eq_comm]
      rw [hpairs, hcoherent.overriders, hlookup]
      by_cases hmethod : method = description.id
      · rw [if_pos hmethod, hmethod, hnone]
        simp
      · rw [if_neg hmethod]
        simp [hmethod]

theorem method?_of_enter {program after : Program} {registration : Registration} {method : Entity}
    (h : program.enter registration = .ok after) (hnone : program.method? method = none)
    (hother : registration.method? ≠ some method) : after.method? method = none := by
  rw [Program.method?] at hnone ⊢
  rcases enter_cases h with ⟨_, hmethods, _⟩ | ⟨description, rfl, hmethods, _⟩
  · rwa [hmethods]
  · rw [hmethods, Bindings.find?_put, if_neg]
    · exact hnone
    · rintro rfl
      exact hother rfl

/-- What holds as long as nothing is registered twice holds of a program for which that is so.  What
may be registered once is read off a registration, and `F` says that it has not been yet. -/
theorem of_foldlM_once {α : Type} {subject? : Registration → Option α} {F : Program → α → Prop}
    {P : Program → Prop}
    (hstep : ∀ program after registration, P program → program.enter registration = .ok after →
      (∀ subject, subject? registration = some subject → F program subject) → P after)
    (hfresh : ∀ program after registration subject, program.enter registration = .ok after →
      F program subject → subject? registration ≠ some subject → F after subject)
    {registrations : List Registration} {program after : Program} (hprogram : P program)
    (h : registrations.foldlM Program.enter program = .ok after)
    (honce : (registrations.filterMap subject?).Nodup)
    (hnew : ∀ subject ∈ registrations.filterMap subject?, F program subject) : P after := by
  induction registrations generalizing program with
  | nil =>
    cases h
    exact hprogram
  | cons registration registrations ih =>
    rw [List.foldlM_cons] at h
    cases hfirst : program.enter registration with
    | error fault => rw [hfirst] at h; cases h
    | ok middle =>
      rw [hfirst] at h
      have hmiddle : P middle := by
        apply hstep program middle registration hprogram hfirst
        intro subject hsubject
        apply hnew
        rw [List.filterMap_cons_some hsubject]
        exact List.mem_cons_self
      cases hsubject : subject? registration with
      | none =>
        rw [List.filterMap_cons_none hsubject] at honce hnew
        apply ih hmiddle h honce
        intro subject hmem
        apply hfresh program middle registration subject hfirst (hnew subject hmem)
        rw [hsubject]
        simp
      | some first =>
        rw [List.filterMap_cons_some hsubject] at honce hnew
        obtain ⟨hother, honce⟩ := List.nodup_cons.mp honce
        apply ih hmiddle h honce
        intro subject hmem
        apply hfresh program middle registration subject hfirst
          (hnew subject (List.mem_cons_of_mem _ hmem))
        rw [hsubject]
        rintro heq
        exact hother (Option.some.inj heq ▸ hmem)

/-- Where every method is registered once, links and descriptions agree. -/
theorem coherent_of_assemble {registrations : List Registration} {program : Program}
    (h : assemble registrations = .ok program)
    (honce : (registrations.filterMap Registration.method?).Nodup) : program.Coherent :=
  of_foldlM_once (F := fun program method => program.method? method = none)
    (fun _ _ _ hcoherent h hnew => hcoherent.enter h hnew)
    (fun _ _ _ _ h hnone hother => method?_of_enter h hnone hother) Coherent.empty h honce
    fun _ _ => rfl

end Program

end PortableImage
