import PortableImage.Proofs.Program.Assembly
/-!
# Admission

A host registers one thing after another and goes on when a registration is refused.  Whether it is
refused depends on the modules alone, and what is refused changes nothing.  So a program is put
together from the registrations that were *accepted*, each part of it from those that say something
about it.
-/

namespace PortableImage

namespace Bindings

variable {κ α : Type} [DecidableEq κ]

/-- The map with some more pairs, of which the last one of a key wins. -/
def putEach (map : Bindings κ α) (pairs : List (κ × α)) : Bindings κ α :=
  pairs.foldl (fun map pair => map.put pair.1 pair.2) map

theorem find?_putEach (map : Bindings κ α) (pairs : List (κ × α)) (key : κ) :
    (map.putEach pairs).find? key = (pairs.reverse.lookup key).or (map.find? key) := by
  induction pairs generalizing map with
  | nil => rfl
  | cons pair pairs ih =>
    have hfirst : (map.put pair.1 pair.2).find? key =
        (List.lookup key [pair]).or (map.find? key) := by
      rw [find?_put, List.lookup_cons]
      by_cases h : key = pair.1
      · simp [h]
      · have hne : (key == pair.1) = false := by simpa using h
        simp [h, hne]
    rw [putEach, List.foldl_cons, List.reverse_cons, List.lookup_append, Option.or_assoc, ← hfirst]
    exact ih _

/-- The last pair of a key, and so the one that counts. -/
def LastOf (pairs : List (κ × α)) (key : κ) (value : α) : Prop :=
  ∃ earlier later, pairs = earlier ++ (key, value) :: later ∧ ∀ pair ∈ later, pair.1 ≠ key

omit [DecidableEq κ] in
theorem LastOf.mem {pairs : List (κ × α)} {key : κ} {value : α} (h : LastOf pairs key value) :
    (key, value) ∈ pairs := by
  obtain ⟨earlier, later, rfl, _⟩ := h
  exact List.mem_append_right _ List.mem_cons_self

omit [DecidableEq κ] in
theorem lastOf_of_nodup {pairs : List (κ × α)} {key : κ} {value : α}
    (honce : (pairs.map Prod.fst).Nodup) (hmem : (key, value) ∈ pairs) :
    LastOf pairs key value := by
  obtain ⟨earlier, later, rfl⟩ := List.append_of_mem hmem
  rw [List.map_append, List.map_cons] at honce
  have hlater : key ∉ later.map Prod.fst := (List.nodup_cons.mp (List.nodup_append.mp honce).2.1).1
  exact ⟨earlier, later, rfl, fun pair hpair heq => hlater (heq ▸ List.mem_map_of_mem hpair)⟩

theorem find?_putEach_eq_some_iff {pairs : List (κ × α)} {key : κ} {value : α} :
    ((∅ : Bindings κ α).putEach pairs).find? key = some value ↔ LastOf pairs key value := by
  have hnone : (∅ : Bindings κ α).find? key = none := rfl
  rw [find?_putEach, hnone, Option.or_none, List.lookup_eq_some_iff]
  constructor
  · rintro ⟨later, earlier, hpairs, hlater⟩
    refine ⟨earlier.reverse, later.reverse, ?_, fun pair hpair => ?_⟩
    · rw [List.reverse_eq_iff] at hpairs
      simp [hpairs]
    · exact (bne_iff_ne.mp (hlater pair (List.mem_reverse.mp hpair))).symm
  · rintro ⟨earlier, later, rfl, hlater⟩
    refine ⟨later.reverse, earlier.reverse, by simp, fun pair hpair => ?_⟩
    exact bne_iff_ne.mpr (hlater pair (List.mem_reverse.mp hpair)).symm

end Bindings

namespace Links

/-- The links with those of some members, each to what its description names as its source. -/
def addEach {δ : Type} (source? : δ → Option Entity) (links : Links)
    (members : List (Entity × δ)) : Links :=
  members.foldl (fun links member =>
    match source? member.2 with
    | some source => links.add source member.1
    | none => links) links

variable {δ : Type} {source? : δ → Option Entity} {links : Links} {source member : Entity}

theorem mem_addEach {members : List (Entity × δ)} :
    (source, member) ∈ (links.addEach source? members).pairs ↔
      (∃ description, (member, description) ∈ members ∧ source? description = some source) ∨
        (source, member) ∈ links.pairs := by
  induction members generalizing links with
  | nil => simp [addEach]
  | cons first members ih =>
    obtain ⟨id, description⟩ := first
    rw [addEach, List.foldl_cons]
    refine ih.trans ?_
    cases hsource : source? description with
    | none =>
      simp only [List.mem_cons, Prod.mk.injEq]
      grind
    | some other =>
      simp only [List.mem_cons, Prod.mk.injEq, add, List.mem_insert_iff]
      grind

theorem nodup_addEach (h : links.pairs.Nodup) (members : List (Entity × δ)) :
    (links.addEach source? members).pairs.Nodup := by
  induction members generalizing links with
  | nil => exact h
  | cons first members ih =>
    rw [addEach, List.foldl_cons]
    apply ih
    cases source? first.2 with
    | none => exact h
    | some source => exact h.insert

theorem pairwise_targets (h : links.pairs.Nodup) (source : Entity) :
    (links.targets source).Pairwise (· < ·) := by
  have hnodup : (links.targets source).Nodup := by
    rw [targets, (ascending_perm _).nodup_iff, leaving]
    refine (h.filter _).map_on fun a ha b hb heq => ?_
    have hfirst := of_decide_eq_true (List.mem_filter.mp ha).2
    have hsecond := of_decide_eq_true (List.mem_filter.mp hb).2
    exact Prod.ext (hfirst.trans hsecond.symm) heq
  exact (pairwise_ascending _).imp₂ (fun _ _ => Ranked.lt_of_le_of_ne) hnodup

end Links

namespace Registration

def isModule : Registration → Bool
  | module .. => true
  | _ => false

/-- The entity a registration describes. -/
def entity? : Registration → Option Entity
  | type description => some description.id
  | method description => some description.id
  | field description => some description.id
  | signature entity _ => some entity
  | module .. | reference .. => none

def typeBinding? : Registration → Option (Entity × TypeDescription)
  | type description => some (description.id, description)
  | _ => none

def methodBinding? : Registration → Option (Entity × MethodDescription)
  | method description => some (description.id, description)
  | _ => none

def fieldBinding? : Registration → Option (Entity × FieldDescription)
  | field description => some (description.id, description)
  | _ => none

def signatureBinding? : Registration → Option (Entity × Bytes)
  | signature entity data => some (entity, data)
  | _ => none

/-- A row of a module with what it is registered to stand for. -/
def referenceBinding? : Registration → Option ((ModuleIndex × Token) × Entity)
  | reference origin row target => some ((origin, row), target)
  | _ => none

end Registration

namespace Program

/-- The program with a registration, whether or not that would be accepted. -/
def extend (program : Program) : Registration → Program
  | .module name path => (program.registerModule name path).2
  | .type description => { program with types := program.types.put description.id description }
  | .method description => { program with
      methods := program.methods.put description.id description
      ownedMethods := program.ownedMethods.add description.owner description.id
      overriders := match description.overrides with
        | some slot => program.overriders.add slot description.id
        | none => program.overriders }
  | .field description => { program with
      fields := program.fields.put description.id description
      ownedFields := program.ownedFields.add description.owner description.id }
  | .signature entity data => { program with signatures := program.signatures.put entity data }
  | .reference module row target => { program with
      references := program.references.put (module, row) target
      leastReferences := program.leastReferences.put (module, target)
        (leastRow (program.rowFor? module target) row) }

def faultOf? {α : Type} : Except Fault α → Option Fault
  | .ok _ => none
  | .error fault => some fault

/-- Why a registration is refused, if it is. -/
def refusal? (program : Program) (registration : Registration) : Option Fault :=
  faultOf? (program.enter registration)

/-- The program after a registration; one that is refused leaves it as it is. -/
def register (program : Program) (registration : Registration) : Program :=
  match program.enter registration with
  | .ok after => after
  | .error _ => program

def registerAll (program : Program) (registrations : List Registration) : Program :=
  registrations.foldl register program

/-- What a host is told about its registrations, one after another. -/
def refusals : Program → List Registration → List (Option Fault)
  | _, [] => []
  | program, registration :: registrations =>
    program.refusal? registration :: (program.register registration).refusals registrations

/-- The registrations that are not refused, in their order. -/
def accepted : Program → List Registration → List Registration
  | _, [] => []
  | program, registration :: registrations =>
    if program.refusal? registration = none then
      registration :: (program.register registration).accepted registrations
    else (program.register registration).accepted registrations

theorem eq_extend_of_enter {program after : Program} {registration : Registration}
    (h : program.enter registration = .ok after) : after = program.extend registration := by
  cases registration with
  | module name path => exact (Except.ok.inj h).symm
  | type description | method description | field description | signature entity data =>
    exact eq_of_check h
  | reference module row target =>
    rw [enter, registerReference] at h
    cases hrequire : program.requireModule module with
    | error fault => rw [hrequire] at h; cases h
    | ok _ =>
      rw [hrequire] at h
      by_cases hadmits : row.table?.any admitsReference
      · rw [if_pos hadmits] at h
        exact (Except.ok.inj h).symm
      · rw [if_neg hadmits] at h
        cases h

variable {program : Program} {registration : Registration} {registrations : List Registration}

theorem register_of_accepted (h : program.refusal? registration = none) :
    program.register registration = program.extend registration := by
  rw [refusal?] at h
  unfold register
  cases henter : program.enter registration with
  | error fault => rw [henter] at h; cases h
  | ok after => exact eq_extend_of_enter henter

theorem register_of_refused (h : program.refusal? registration ≠ none) :
    program.register registration = program := by
  unfold refusal? at h
  unfold register
  cases henter : program.enter registration with
  | error fault => rfl
  | ok after => rw [henter] at h; exact absurd rfl h

/-- A program is what the accepted registrations make of it. -/
theorem registerAll_eq (program : Program) (registrations : List Registration) :
    program.registerAll registrations = (program.accepted registrations).foldl extend program := by
  induction registrations generalizing program with
  | nil => rfl
  | cons registration registrations ih =>
    rw [accepted, registerAll, List.foldl_cons]
    by_cases h : program.refusal? registration = none
    · rw [if_pos h, List.foldl_cons, ← register_of_accepted h]
      exact ih _
    · rw [if_neg h]
      have hsame := register_of_refused h
      rw [hsame]
      exact ih program

/-- Whatever is accepted was not refused when it came. -/
theorem exists_of_mem_accepted (h : registration ∈ program.accepted registrations) :
    ∃ before : Program, before.refusal? registration = none := by
  induction registrations generalizing program with
  | nil => cases h
  | cons first registrations ih =>
    rw [accepted] at h
    by_cases hfirst : program.refusal? first = none
    · rw [if_pos hfirst] at h
      rcases List.mem_cons.mp h with rfl | hlater
      · exact ⟨program, hfirst⟩
      · exact ih hlater
    · rw [if_neg hfirst] at h
      exact ih h

section Parts

variable {α β : Type} {binding? : Registration → Option α} {add : β → α → β}

/-- A part of a program that some registrations add to is what all their additions make of it. -/
theorem foldl_extend (part : Program → β)
    (h : ∀ program registration, part (program.extend registration) =
      match binding? registration with
      | some item => add (part program) item
      | none => part program)
    (registrations : List Registration) (program : Program) :
    part (registrations.foldl extend program) =
      (registrations.filterMap binding?).foldl add (part program) := by
  induction registrations generalizing program with
  | nil => rfl
  | cons registration registrations ih =>
    rw [List.foldl_cons, ih, h]
    cases hbinding : binding? registration with
    | some item => rw [List.filterMap_cons_some hbinding, List.foldl_cons]
    | none => rw [List.filterMap_cons_none hbinding]

end Parts

section Parts

variable (program : Program) (registrations : List Registration)

theorem types_registerAll : (program.registerAll registrations).types =
    program.types.putEach
      ((program.accepted registrations).filterMap Registration.typeBinding?) := by
  rw [registerAll_eq]
  exact foldl_extend types (fun _ registration => by cases registration <;> rfl) _ _

theorem methods_registerAll : (program.registerAll registrations).methods =
    program.methods.putEach
      ((program.accepted registrations).filterMap Registration.methodBinding?) := by
  rw [registerAll_eq]
  exact foldl_extend methods (fun _ registration => by cases registration <;> rfl) _ _

theorem fields_registerAll : (program.registerAll registrations).fields =
    program.fields.putEach
      ((program.accepted registrations).filterMap Registration.fieldBinding?) := by
  rw [registerAll_eq]
  exact foldl_extend fields (fun _ registration => by cases registration <;> rfl) _ _

theorem signatures_registerAll : (program.registerAll registrations).signatures =
    program.signatures.putEach
      ((program.accepted registrations).filterMap Registration.signatureBinding?) := by
  rw [registerAll_eq]
  exact foldl_extend signatures (fun _ registration => by cases registration <;> rfl) _ _

theorem references_registerAll : (program.registerAll registrations).references =
    program.references.putEach
      ((program.accepted registrations).filterMap Registration.referenceBinding?) := by
  rw [registerAll_eq]
  exact foldl_extend references (fun _ registration => by cases registration <;> rfl) _ _

theorem ownedMethods_registerAll : (program.registerAll registrations).ownedMethods =
    program.ownedMethods.addEach (fun description => some description.owner)
      ((program.accepted registrations).filterMap Registration.methodBinding?) := by
  rw [registerAll_eq]
  exact foldl_extend ownedMethods (fun _ registration => by cases registration <;> rfl) _ _

theorem ownedFields_registerAll : (program.registerAll registrations).ownedFields =
    program.ownedFields.addEach (fun description => some description.owner)
      ((program.accepted registrations).filterMap Registration.fieldBinding?) := by
  rw [registerAll_eq]
  exact foldl_extend ownedFields (fun _ registration => by cases registration <;> rfl) _ _

theorem overriders_registerAll : (program.registerAll registrations).overriders =
    program.overriders.addEach MethodDescription.overrides
      ((program.accepted registrations).filterMap Registration.methodBinding?) := by
  rw [registerAll_eq]
  exact foldl_extend overriders (fun _ registration => by cases registration <;> rfl) _ _

end Parts

theorem faultOf?_check {α β : Type} (check : Except Fault α) (value : β) :
    faultOf? (do let _ ← check; return value) = faultOf? check := by
  cases check <;> rfl

/-- Whether a registration is refused depends on the modules alone. -/
theorem refusal?_congr {other : Program} (h : other.modules = program.modules)
    (registration : Registration) :
    other.refusal? registration = program.refusal? registration := by
  have hmodule (module : ModuleIndex) :
      other.requireModule module = program.requireModule module := by
    rw [requireModule, requireModule, module?, module?, h]
  have hdefinition (entity : Entity) (kind : DefinitionKind) :
      other.requireDefinition entity kind = program.requireDefinition entity kind := by
    rw [requireDefinition, requireDefinition, hmodule]
  cases registration with
  | module name path => rfl
  | type description | method description | field description | signature entity data =>
    exact (faultOf?_check _ _).trans (hdefinition _ _ ▸ (faultOf?_check _ _).symm)
  | reference module row target =>
    rw [refusal?, refusal?, enter, enter, registerReference, registerReference, hmodule]
    cases program.requireModule module with
    | error fault => rfl
    | ok _ => by_cases hadmits : row.table?.any admitsReference <;> simp [hadmits] <;> rfl

end Program

end PortableImage
