import PortableImage.Artifact.Draft
import PortableImage.Portable.Signature
/-!
# Emission

The bytes of each kind of artifact, and the places in them that the loader fills in.  All numbers
are words, all places in artifacts other than code are pointers of eight bytes.

* A layout: flags, number of fields, of methods and of generic arguments, then the base.
* A table of virtual methods: number of slots, zero, the base's table, then the slots.  A slot whose
  method is not compiled is bound by token.
* A dictionary: number of arguments, zero, then the arguments.
* An import cell is one pointer, a helper cell the number of the helper and zero.
-/

namespace PortableImage.Drafting

open PortableImage.Graph (Handle)

/-- The node of an artifact, if it is marked. -/
def markedNode? (key : ArtifactKey) : Drafting (Option Handle) := do
  let arena := (← get).arena
  return (arena.find? key).filter fun node => (arena.progress node).isMarked

def layoutOfType (setting : Setting) (type : Entity) : Drafting Layout := do
  let description ← described type (setting.program.type? type)
  let arguments := match description.instantiation with
    | some instantiation => instantiation.arguments.length
    | none => description.genericParameters.toNat
  let fields ← (Layout.word {} description.flags).count
    (setting.program.declaredFields type).length
  let methods ← fields.count (setting.program.declaredMethods type).length
  let head ← methods.count arguments
  let base ← description.base.mapM fun base =>
    anchor setting (.typeLayout type) base type.module
  head.slot (base.map .node)

/-- What the slot of a method is bound to: its code if it is compiled, else its token. -/
def slotTarget (setting : Setting) (type method : Entity) : Drafting Relocation.Target := do
  match ← markedNode? (.methodCode method) with
  | some node => return .node node
  | none => return .token (← issue setting method type.module)

def appendSlot (setting : Setting) (type : Entity) (layout : Layout) (method : Entity) :
    Drafting Layout := do
  layout.slot (some (← slotTarget setting type method))

/-- The table of the base, if there is a base and its table is marked. -/
def baseTable? : Option Entity → Drafting (Option Handle)
  | some base => markedNode? (.vtable base)
  | none => pure none

def layoutOfVTable (setting : Setting) (type : Entity) : Drafting Layout := do
  let description ← described type (setting.program.type? type)
  let methods := (setting.program.declaredMethods type).filter setting.program.isVirtual
  let head ← Layout.count {} methods.length
  let base ← baseTable? description.base
  methods.foldlM (appendSlot setting type) (← (head.word 0).slot (base.map .node))

def appendArgument (setting : Setting) (entity : Entity) (layout : Layout) (argument : Entity) :
    Drafting Layout := do
  let target ← anchor setting (.genericDictionary entity) argument entity.module
  layout.slot (some (.node target))

def layoutOfDictionary (setting : Setting) (entity : Entity) : Drafting Layout := do
  let instantiation ← described entity (setting.program.instantiation? entity)
  let head ← Layout.count {} instantiation.arguments.length
  instantiation.arguments.foldlM (appendArgument setting entity) (head.word 0)

/-- The data a signature comes to when it is written on an empty sheet. -/
def written (writing : Signature.Writing Unit) : Drafting Bytes :=
  fun draft =>
    let (answer, sheet) := writing ⟨draft.ledger, []⟩
    (answer.map fun _ => sheet.data, { draft with ledger := sheet.ledger })

/-- The portable signature of an entity, as its own module refers to it. -/
def signatureOf (setting : Setting) (entity : Entity) : Drafting Bytes :=
  let context : Signature.Context := ⟨setting.program, setting.bubble, entity.module⟩
  match entity.kind? with
  | some .type => written (Signature.writeType context entity)
  | some .method => written (Signature.writeMethod context entity)
  | some .field => written (Signature.writeField context entity)
  | some .signature => described entity (setting.program.signature? entity)
  | none => throw (.invalidToken entity.token)

/-- The data of an artifact, with places that still point to nodes.  The code of a method has to be
compiled before. -/
def layoutOf (setting : Setting) (compiled : Option Layout) : ArtifactKey → Drafting Layout
  | .methodCode method =>
    match compiled with
    | some layout => pure layout
    | none => throw (.graph (.neverCompiled (.methodCode method)))
  | .typeLayout type => layoutOfType setting type
  | .vtable type => layoutOfVTable setting type
  | .genericDictionary entity => layoutOfDictionary setting entity
  | .signature entity => do return { data := ← signatureOf setting entity }
  | .importCell token => Layout.slot {} (some (.token token))
  | .helperCell helper => pure ((Layout.word {} (UInt32.ofNat helper.number)).word 0)
  | .virtualMethodUse _ => pure {}

/-- A place in the finished image.  It has to lie inside the data, and what it points to has to be
in the image. -/
def placed (key : ArtifactKey) (size : Nat) (relocation : Relocation) :
    Drafting PlacedRelocation := do
  if size < relocation.stop then
    throw (.graph (.relocationOutside key relocation.offset size))
  match relocation.target with
  | .token token => return ⟨relocation.offset, relocation.kind, .token token⟩
  | .node node =>
    if ((← get).arena.progress node).isMarked then
      return ⟨relocation.offset, relocation.kind, .artifact (← keyOf node)⟩
    else throw (.graph (.relocationToUnmarked key relocation.offset node))

/-- The finished form of the artifact of a node. -/
def emit (setting : Setting) (node : Handle) (compiled : Option Layout) :
    Drafting EmittedArtifact := do
  let key ← keyOf node
  let layout ← layoutOf setting compiled key
  let relocations ← layout.relocations.mapM (placed key layout.data.length)
  return ⟨key, layout.data, relocations⟩

end PortableImage.Drafting
