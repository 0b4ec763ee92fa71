import PortableImage.Bindings
import PortableImage.Program.Description
import PortableImage.Program.Path
/-!
# Programs

A program is what has been registered: modules in order, descriptions by entity, the links between
owners and members and between slots and overriders, and the references of each module to entities
of others.

Links are relations.  They are read in ascending order and each pair counts once, whatever the order
of registration.
-/

namespace PortableImage

/-- A relation between entities, as the list of its pairs. -/
structure Links where
  pairs : List (Entity × Entity) := []

namespace Links

def add (links : Links) (source target : Entity) : Links :=
  ⟨links.pairs.insert (source, target)⟩

/-- Where the pairs that leave an entity lead. -/
def leaving (source : Entity) (pairs : List (Entity × Entity)) : List Entity :=
  (pairs.filter fun pair => pair.1 = source).map Prod.snd

/-- The pairs that do not leave an entity. -/
def elsewhere (source : Entity) (pairs : List (Entity × Entity)) :
    List (Entity × Entity) :=
  pairs.filter fun pair => ¬ pair.1 = source

/-- What an entity is related to, in ascending order. -/
def targets (links : Links) (source : Entity) : List Entity :=
  ascending (leaving source links.pairs)

theorem mem_targets {links : Links} {source target : Entity} :
    target ∈ links.targets source ↔ (source, target) ∈ links.pairs := by
  simp only [targets, leaving, mem_ascending, List.mem_map, List.mem_filter, decide_eq_true_eq]
  constructor
  · rintro ⟨⟨first, second⟩, ⟨hmem, rfl⟩, rfl⟩
    exact hmem
  · intro hmem
    exact ⟨(source, target), ⟨hmem, rfl⟩, rfl⟩

theorem mem_targets_add {links : Links} {a b source target : Entity} :
    target ∈ (links.add a b).targets source ↔
      (source = a ∧ target = b) ∨ target ∈ links.targets source := by
  simp only [mem_targets, add, List.mem_insert_iff, Prod.mk.injEq]

theorem length_leaving_add_elsewhere (source : Entity) (pairs : List (Entity × Entity)) :
    (leaving source pairs).length + (elsewhere source pairs).length = pairs.length := by
  induction pairs with
  | nil => rfl
  | cons pair rest ih =>
    simp only [leaving, elsewhere, List.length_map, List.filter_cons] at ih ⊢
    by_cases h : pair.1 = source <;> simp [h] <;> simp at ih <;> omega

end Links

/-- Everything registered so far. -/
structure Program where
  modules : List ModuleDescription := []
  types : Bindings Entity TypeDescription := ∅
  methods : Bindings Entity MethodDescription := ∅
  fields : Bindings Entity FieldDescription := ∅
  signatures : Bindings Entity Bytes := ∅
  /-- From a type to the methods registered as its own. -/
  ownedMethods : Links := {}
  /-- From a type to the fields registered as its own. -/
  ownedFields : Links := {}
  /-- From a method to the methods registered as overriding it. -/
  overriders : Links := {}
  /-- What the references of a module stand for. -/
  references : Bindings (ModuleIndex × Token) Entity := ∅
  /-- The least reference by which a module has named an entity. -/
  leastReferences : Bindings (ModuleIndex × Entity) Token := ∅

namespace Program

def module? (program : Program) (module : ModuleIndex) : Option ModuleDescription :=
  program.modules[module.value.toNat]?

/-- The first module that satisfies a condition. -/
def findModule? (program : Program) (condition : ModuleDescription → Bool) :
    Option ModuleIndex :=
  (program.modules.findIdx? condition).map fun position => ⟨UInt32.ofNat position⟩

/-- The first module at a path, in any spelling of the path. -/
def moduleAt? (program : Program) (path : String) : Option ModuleIndex :=
  program.findModule? fun module => ModulePath.ofString module.path = ModulePath.ofString path

def moduleNamed? (program : Program) (name : String) : Option ModuleIndex :=
  program.findModule? fun module => module.name = name

def type? (program : Program) (entity : Entity) : Option TypeDescription :=
  program.types.find? entity

def method? (program : Program) (entity : Entity) : Option MethodDescription :=
  program.methods.find? entity

def field? (program : Program) (entity : Entity) : Option FieldDescription :=
  program.fields.find? entity

/-- The written form of a stand-alone signature. -/
def signature? (program : Program) (entity : Entity) : Option Bytes :=
  program.signatures.find? entity

/-- Whether an entity is registered, as what its token says it is. -/
def contains (program : Program) (entity : Entity) : Bool :=
  match entity.kind? with
  | some .type => program.types.contains entity
  | some .method => program.methods.contains entity
  | some .field => program.fields.contains entity
  | some .signature => program.signatures.contains entity
  | none => false

/-- The methods registered as a type's own, in ascending order. -/
def declaredMethods (program : Program) (owner : Entity) : List Entity :=
  program.ownedMethods.targets owner

/-- The fields registered as a type's own, in ascending order. -/
def declaredFields (program : Program) (owner : Entity) : List Entity :=
  program.ownedFields.targets owner

/-- The methods registered as overriding a method, in ascending order. -/
def directOverriders (program : Program) (slot : Entity) : List Entity :=
  program.overriders.targets slot

/-- The registered methods of a module, in ascending order. -/
def methodsIn (program : Program) (module : ModuleIndex) : List Entity :=
  ascending (program.methods.keys.filter fun entity => entity.module = module)

/-- The least reference by which a module has named an entity. -/
def rowFor? (program : Program) (module : ModuleIndex) (entity : Entity) :
    Option Token :=
  program.leastReferences.find? (module, entity)

def isVirtual (program : Program) (method : Entity) : Bool :=
  (program.method? method).any MethodDescription.isVirtual

/-- The instantiation of a type or method, if it is one. -/
def instantiation? (program : Program) (entity : Entity) : Option Instantiation :=
  match entity.kind? with
  | some .type => (program.type? entity).bind TypeDescription.instantiation
  | some .method => (program.method? entity).bind MethodDescription.instantiation
  | _ => none

end Program

end PortableImage
