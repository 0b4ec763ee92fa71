import PortableImage.Artifact.Relocation
import PortableImage.Portable.Ledger
import PortableImage.Program.Body
/-!
# Drafts of an image

While an image is planned, two things grow: the ledger of portable tokens and the arena of
artifacts.  The main question put to a draft is which artifact makes a reference valid.

* A type of the bubble is made valid by its layout.
* A method of the bubble is made valid by its code if it has a body, by its signature otherwise.
* A field of the bubble is made valid by what makes its owner valid.
* A stand-alone signature of the bubble is its own artifact.
* All else is bound at load time, through a cell for the token the module knows it by.

Every entity on the way gets a portable token.
-/

namespace PortableImage

open PortableImage.Graph (Arena Handle)

/-- What an image is made from. -/
structure Setting where
  program : Program
  bubble : Bubble
  bodies : BodySource

namespace Setting

def body? (setting : Setting) (method : Entity) : Option MethodBody :=
  setting.bodies.body? setting.program method

def hasBody (setting : Setting) (method : Entity) : Bool := (setting.body? method).isSome

end Setting

/-- What grows while an image is planned. -/
structure Draft where
  ledger : Ledger := {}
  arena : Arena ArtifactKey := ∅

/-- Work on a draft may fail; what it did before stays done. -/
abbrev Drafting := ExceptT Fault (StateM Draft)

namespace Drafting

def node (key : ArtifactKey) : Drafting Handle :=
  modifyGet fun draft =>
    let interned := draft.arena.intern key
    (interned.1, { draft with arena := interned.2 })

def keyOf (node : Handle) : Drafting ArtifactKey := do
  match (← get).arena.key? node with
  | some key => return key
  | none => throw (.graph (.unknownNode node))

/-- A description that has to be there. -/
def described {α : Type} (entity : Entity) : Option α → Drafting α
  | some description => pure description
  | none => throw (.entityNotFound entity)

def issue (setting : Setting) (entity : Entity) (origin : ModuleIndex) :
    Drafting PortableToken :=
  fun draft =>
    let (answer, ledger) := draft.ledger.issue setting.program setting.bubble entity origin
    (answer, { draft with ledger })

/-- The portable token of an entity, on behalf of an artifact. -/
def issueFor (setting : Setting) (requester : ArtifactKey) (entity : Entity)
    (origin : ModuleIndex) : Drafting PortableToken :=
  tryCatch (issue setting entity origin) fun fault => throw (fault.requestedBy requester)

/-- The artifact that makes a reference valid, where only fields not yet met have owners. -/
def anchorAmong (unmet : Bindings Entity FieldDescription) (setting : Setting)
    (requester : ArtifactKey) (entity : Entity) (origin : ModuleIndex) : Drafting Handle := do
  let token ← issueFor setting requester entity origin
  if setting.bubble.contains entity then
    match entity.kind? with
    | some .type => node (.typeLayout entity)
    | some .method =>
      if setting.hasBody entity then node (.methodCode entity) else node (.signature entity)
    | some .signature => node (.signature entity)
    | some .field =>
      match _h : unmet.find? entity with
      | some field =>
        anchorAmong (unmet.erase entity) setting requester field.owner origin
      | none => throw (.entityNotFound entity)
    | none => throw (.invalidToken entity.token)
  else node (.importCell token)
termination_by unmet.size
decreasing_by exact Bindings.size_erase_lt _h

/-- The artifact that makes a reference of a module to an entity valid. -/
def anchor (setting : Setting) (requester : ArtifactKey) (entity : Entity)
    (origin : ModuleIndex) : Drafting Handle :=
  anchorAmong setting.program.fields setting requester entity origin

end Drafting

end PortableImage
