import PortableImage.Artifact.Emission
import PortableImage.Artifact.Needs
import PortableImage.Graph.Dot
import PortableImage.Graph.FixedPoint
import PortableImage.Session.Bound
import PortableImage.Session.Image
import PortableImage.Session.Order
/-!
# Making an image

A session marks its roots, analyses what they need, and then emits every marked artifact in the
order of keys.  It can be asked for its image once.  A fault ends the work where it occurs:
artifacts emitted before it stay emitted, and the graph can be shown once the analysis came to an
end.
-/

namespace PortableImage

open PortableImage.Graph (Analysis Arena Expansion Handle Progress Verdict Expander)

namespace Setting

/-- Whether a method can be compiled on its own: it has a body and nothing is left to be filled in,
neither in it nor in its owner. -/
def standsAlone (setting : Setting) (method : Entity) : Bool :=
  match setting.program.method? method with
  | none => false
  | some description =>
    let openOwner := description.instantiation.isNone &&
      (setting.program.type? description.owner).any TypeDescription.isOpen
    description.genericParameters = 0 && !openOwner && setting.hasBody method

/-- The artifacts a root asks for. -/
def rootKeys (setting : Setting) : Root → List ArtifactKey
  | .method entity => [.methodCode entity]
  | .type entity => [.typeLayout entity, .vtable entity]
  | .allMethods module =>
    ((setting.program.methodsIn module).filter setting.standsAlone).map .methodCode

end Setting

namespace Session

/-- What the image is made from. -/
def setting (session : Session) (program : Program) : Setting :=
  ⟨program, session.bubble, session.bodies⟩

/-- Finds out what an artifact needs; a method is compiled for that, and its code kept. -/
def expand (compiler : Compiler) (setting : Setting) : Expander ArtifactKey Shelf Fault :=
  fun node => do
    let key ← Workspace.plan (Drafting.keyOf node)
    let expansion ← Workspace.plan (Drafting.needs setting key)
    match key with
    | .methodCode _ =>
      let compiled ← compiler.compile setting node
      modify fun workspace =>
        { workspace with store := { workspace.store with
            compiled := workspace.store.compiled.put node compiled } }
      return { expansion with always := expansion.always ++ compiled.dependencies }
    | _ => return expansion

/-- Marks the artifacts of a root, after all of them have a node. -/
def enlist (setting : Setting) (analysis : Analysis ArtifactKey Shelf) (root : Root) :
    Analysis ArtifactKey Shelf :=
  let created := analysis.arena.internEach (setting.rootKeys root)
  { analysis with arena := created.2 }.markEach created.1

/-- The analysis of a workspace before its first round. -/
def start (setting : Setting) (roots : List Root) (workspace : Workspace) :
    Analysis ArtifactKey Shelf :=
  roots.foldl (enlist setting) { toSite := workspace }

/-- The marked nodes in the order of their keys. -/
def emissionOrder (workspace : Workspace) : List Handle :=
  workspace.arena.marked.mergeSort (Graph.keyLE workspace.arena)

def emitNode (setting : Setting) (node : Handle) : Working EmittedArtifact := do
  let compiled := (← get).store.compiled.find? node
  let artifact ← Workspace.plan
    (Drafting.emit setting node (compiled.map CompiledMethod.toLayout))
  modify fun workspace =>
    { workspace with arena := workspace.arena.raise node .emitted }
  return artifact

def emitMarked (setting : Setting) : Working (List EmittedArtifact) := do
  (emissionOrder (← get)).mapM (emitNode setting)

/-- What comes of the work of a session, and the session after it. -/
def run (session : Session) (program : Program) : Except Fault Emission × Session :=
  let setting := session.setting program
  let (verdict, analysis) := (start setting session.roots session.workspace).saturate
    (expand session.compiler setting) program.rounds
  let analysed := { session with
    consumed := true
    workspace := analysis.toSite
    edges := some analysis.edges }
  match verdict with
  | .failed fault => (.error fault, { analysed with edges := none })
  | .cancelled => (.ok .cancelled, analysed)
  | .exhausted => (.ok .exhausted, analysed)
  | .completed =>
    let (answer, workspace) := emitMarked setting analysed.workspace
    (answer.map fun artifacts => .completed
        ⟨artifacts, workspace.store.ledger.table, analysis.toAgenda.counts⟩,
      { analysed with workspace })

/-- The image of a session, which can be asked for once. -/
def emit (session : Session) (program : Program) : Except Fault Emission × Session :=
  if session.consumed then (.error .sessionConsumed, session) else session.run program

def cancel (session : Session) : Session :=
  { session with workspace := { session.workspace with cancelled := true } }

def picture? (session : Session) : Option String :=
  session.edges.map fun edges =>
    Graph.Dot.render "compilation" ArtifactKey.render session.workspace.arena edges

end Session

end PortableImage
