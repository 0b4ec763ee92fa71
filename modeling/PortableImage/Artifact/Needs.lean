import PortableImage.Artifact.Draft
import PortableImage.Program.Overrides
/-!
# What artifacts need

The dependencies an artifact has by its kind.  The code of a method has more of them, which only its
compilation finds out.  The slots of a table of virtual methods are needed once something calls
through them.
-/

namespace PortableImage.Drafting

open PortableImage.Graph (Dependency GuardedDependency Expansion)

def need (key : ArtifactKey) (reason : String) : Drafting Dependency := do
  return ⟨← node key, reason⟩

def needAnchor (setting : Setting) (requester : ArtifactKey) (entity : Entity)
    (origin : ModuleIndex) (reason : String) : Drafting Dependency := do
  return ⟨← anchor setting requester entity origin, reason⟩

def needArguments (setting : Setting) (requester : ArtifactKey) (instantiation : Instantiation)
    (origin : ModuleIndex) : Drafting (List Dependency) :=
  instantiation.arguments.mapM fun argument =>
    needAnchor setting requester argument origin "instantiation argument"

/-- The code of a method needs its owner, and a dictionary if the method is instantiated. -/
def methodCodeNeeds (setting : Setting) (method : Entity) : Drafting Expansion := do
  let key := ArtifactKey.methodCode method
  let description ← described method (setting.program.method? method)
  let owner ← needAnchor setting key description.owner method.module "owning type"
  if description.instantiation.isSome then
    let dictionary ← need (.genericDictionary method) "instantiation dictionary"
    return { always := [owner, dictionary] }
  else return { always := [owner] }

/-- The layout of a type needs its base, and its definition and arguments if it is instantiated. -/
def typeLayoutNeeds (setting : Setting) (type : Entity) : Drafting Expansion := do
  let key := ArtifactKey.typeLayout type
  let description ← described type (setting.program.type? type)
  let base ← description.base.toList.mapM fun base =>
    needAnchor setting key base type.module "base type"
  match description.instantiation with
  | none => return { always := base }
  | some instantiation =>
    let definition ←
      needAnchor setting key instantiation.definition type.module "generic definition"
    let arguments ← needArguments setting key instantiation type.module
    return { always := base ++ definition :: arguments }

/-- The methods of a type that fill a slot with code. -/
def slotMethods (setting : Setting) (type : Entity) : List Entity :=
  (setting.program.declaredMethods type).filter fun method =>
    setting.program.isVirtual method && setting.hasBody method

/-- The code of a method is needed once its slot is used. -/
def needSlot (setting : Setting) (method : Entity) : Drafting GuardedDependency := do
  let guard ← node (.virtualMethodUse (setting.program.introducer method))
  let target ← node (.methodCode method)
  return ⟨target, guard, .marked, "virtual slot implementation"⟩

/-- A table of virtual methods needs the layout of its type, the table of the base inside the
bubble, and the code of each method whose slot is used. -/
def vtableNeeds (setting : Setting) (type : Entity) : Drafting Expansion := do
  let description ← described type (setting.program.type? type)
  let owner ← need (.typeLayout type) "vtable owner"
  let base ← (description.base.toList.filter setting.bubble.contains).mapM fun base =>
    need (.vtable base) "base vtable"
  let guarded ← (slotMethods setting type).mapM (needSlot setting)
  return { always := owner :: base, guarded }

/-- A dictionary needs its arguments and the signature of what is instantiated. -/
def genericDictionaryNeeds (setting : Setting) (entity : Entity) : Drafting Expansion := do
  let key := ArtifactKey.genericDictionary entity
  let instantiation ← described entity (setting.program.instantiation? entity)
  let arguments ← needArguments setting key instantiation entity.module
  let signature ← need (.signature entity) "dictionary signature"
  return { always := arguments ++ [signature] }

/-- The use of a slot needs the layout of the type that introduced it, inside the bubble. -/
def virtualMethodUseNeeds (setting : Setting) (slot : Entity) : Drafting Expansion := do
  match setting.program.method? slot with
  | none => return {}
  | some description =>
    if setting.bubble.contains description.owner then
      return { always := [← need (.typeLayout description.owner) "slot owner"] }
    else return {}

def needs (setting : Setting) : ArtifactKey → Drafting Expansion
  | .methodCode method => methodCodeNeeds setting method
  | .typeLayout type => typeLayoutNeeds setting type
  | .vtable type => vtableNeeds setting type
  | .genericDictionary entity => genericDictionaryNeeds setting entity
  | .virtualMethodUse slot => virtualMethodUseNeeds setting slot
  | .signature _ | .importCell _ | .helperCell _ => pure {}

end PortableImage.Drafting
