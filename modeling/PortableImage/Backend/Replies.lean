import PortableImage.Backend.Dialogue
import PortableImage.Workspace
/-!
# Replies to a backend

Every question of a backend is answered with something to point a relocation at, and what the answer
relies on is noted as a dependency of the method under compilation.  A virtual call that is not
ruled on notes the use of its slot, so that all methods that fill the slot get compiled.
-/

namespace PortableImage

open PortableImage.Graph (Dependency Handle)

/-- A workspace with what has been noted for the method under compilation. -/
structure Desk where
  workspace : Workspace
  noted : List Dependency := []

/-- Answering may fail; what was noted before stays noted. -/
abbrev Answering := ExceptT Fault (StateM Desk)

namespace Answering

def work {α : Type} (working : Working α) : Answering α :=
  fun desk =>
    let (answer, workspace) := working desk.workspace
    (answer, { desk with workspace })

def plan {α : Type} (drafting : Drafting α) : Answering α := work (Workspace.plan drafting)

/-- Notes a dependency and answers with its target. -/
def note (node : Handle) (reason : String) : Answering Relocation.Target := do
  modify fun desk => { desk with noted := desk.noted ++ [⟨node, reason⟩] }
  return .node node

variable (setting : Setting) (method : Entity)

/-- What a token of the method's module stands for, if it is of the kind asked for. -/
def entity (token : Token) (kind : DefinitionKind) : Answering Entity := do
  let entity ← liftM (setting.program.meaning method.module token)
  if entity.kind? = some kind then return entity else throw (.invalidToken token)

/-- The node that makes a reference of the method valid. -/
def anchor (entity : Entity) : Answering Handle :=
  plan (Drafting.anchor setting (.methodCode method) entity method.module)

/-- Answers with the node that makes a reference of the method valid. -/
def reference (entity : Entity) (reason : String) : Answering Relocation.Target := do
  note (← anchor setting method entity) reason

def artifact (key : ArtifactKey) (reason : String) : Answering Relocation.Target := do
  note (← plan (Drafting.node key)) reason

/-- The token that names an entity at load time. -/
def portable (token : Token) : Answering Relocation.Target := do
  let entity ← liftM (setting.program.meaning method.module token)
  let _ ← reference setting method entity "token reference"
  let resolved ← plan (Drafting.issueFor setting (.methodCode method) entity method.module)
  return .token resolved

/-- Notes that the slot of a virtual method is used. -/
def noteUse (callee : Entity) : Answering Unit :=
  if setting.program.isVirtual callee then do
    let _ ← artifact (.virtualMethodUse (setting.program.introducer callee)) "virtual call"
  else pure ()

/-- The node that tells the stub what is called. -/
def stubTarget (callee : Entity) : Answering Handle :=
  if setting.bubble.contains callee then plan (Drafting.node (.signature callee))
  else anchor setting method callee

/-- The target of a call through a slot: the callee's signature, for the stub to dispatch on. -/
def dispatchedCall (callee : Entity) : Answering Relocation.Target := do
  noteUse setting callee
  let target ← stubTarget setting method callee
  let _ ← artifact (.helperCell .delayLoadVirtualCall) "virtual dispatch stub"
  note target "virtual call target"

def call (token : Token) (mode : CallMode) : Answering Relocation.Target := do
  let callee ← entity setting method token .method
  match mode with
  | .direct => reference setting method callee "direct call"
  | .dispatched =>
    match ← work (Workspace.rule setting callee) with
    | .monomorphic target => reference setting method target "devirtualized call"
    | .unknown => dispatchedCall setting method callee

def describe (token : Token) : Answering Relocation.Target := do
  reference setting method (← entity setting method token .type) "type handle"

/-- The table of virtual methods of the type a constructor belongs to, or what stands for that type
outside the bubble. -/
def allocate (token : Token) : Answering Relocation.Target := do
  let constructor ← entity setting method token .method
  let description ← plan (Drafting.described constructor (setting.program.method? constructor))
  let _ ← artifact (.helperCell .newObject) "allocation helper"
  let _ ← reference setting method constructor "constructor"
  if setting.bubble.contains description.owner then
    artifact (.vtable description.owner) "allocated type"
  else reference setting method description.owner "allocated type"

def locate (token : Token) : Answering Relocation.Target := do
  reference setting method (← entity setting method token .field) "field access"

def ruling (token : Token) : Answering Ruling := do
  work (Workspace.rule setting (← entity setting method token .method))

def helper (helper : RuntimeHelper) : StateM Desk Relocation.Target :=
  fun desk =>
    let (node, arena) := desk.workspace.arena.intern (.helperCell helper)
    (.node node, { desk with
      workspace := { desk.workspace with arena }
      noted := desk.noted ++ [⟨node, "helper call"⟩] })

def cancel : StateM Desk Unit :=
  modify fun desk => { desk with workspace := { desk.workspace with cancelled := true } }

def reply : (question : Question) → StateM Desk question.Reply
  | .portable token => (portable setting method token).run
  | .call token mode => (call setting method token mode).run
  | .describe token => (describe setting method token).run
  | .allocate token => (allocate setting method token).run
  | .locate token => (locate setting method token).run
  | .helper name => helper name
  | .ruling token => (ruling setting method token).run
  | .cancel => cancel

end Answering

end PortableImage
