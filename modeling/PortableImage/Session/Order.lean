import PortableImage.Backend.Compiler
import PortableImage.Options
/-!
# Orders

A host orders an image: the bubble, the input module, what the backend is told, and the roots.  An
order is checked before anything is compiled; of several faults the first in this sequence counts:
the input module exists, it belongs to the bubble, there is a backend, there are workers, and every
root names something in the bubble.  Without roots all methods of the input module are roots.
-/

namespace PortableImage

open PortableImage.Graph (Edge)

structure Order where
  bubble : Bubble
  input : String
  options : List HostOption := []
  mode : Optimization := .blended
  bodies : BodySource := .declared
  backend : Option Backend := none
  /-- How many workers there are to be, unless that is left open. -/
  workers : Option Nat := none
  roots : List Root := []

/-- An order that has been accepted, and the work done on it. -/
structure Session where
  bubble : Bubble
  bodies : BodySource
  compiler : Compiler
  roots : List Root
  workspace : Workspace := .empty
  /-- Whether the image has been asked for. -/
  consumed : Bool := false
  /-- The edges of the graph, once it has been analysed. -/
  edges : Option (List Edge) := none

namespace Root

/-- Whether an entity of the bubble is registered as something of the given kind. -/
def names (program : Program) (bubble : Bubble) (entity : Entity) (kind : DefinitionKind) : Bool :=
  entity.kind? = some kind && bubble.contains entity && program.contains entity

/-- Whether a root names something in the bubble. -/
def isKnown (program : Program) (bubble : Bubble) : Root → Bool
  | method entity => names program bubble entity .method
  | type entity => names program bubble entity .type
  | allMethods module => bubble.hasModule module

end Root

namespace Order

/-- The roots of an order over an input module. -/
def effectiveRoots (order : Order) (input : ModuleIndex) : List Root :=
  if order.roots.isEmpty then [.allMethods input] else order.roots

def build (order : Order) (program : Program) : Except Fault Session := do
  let some input := program.moduleAt? order.input
    | throw (.moduleNotFound order.input)
  unless order.bubble.hasModule input do
    throw (.configuration (.inputOutsideBubble order.input))
  let some backend := order.backend
    | throw (.configuration .noBackend)
  if order.workers = some 0 then throw (.configuration .noWorkers)
  let roots := order.effectiveRoots input
  match roots.find? fun root => !root.isKnown program order.bubble with
  | some root => throw (.configuration (.unknownRoot root))
  | none =>
    return {
      bubble := order.bubble
      bodies := order.bodies
      compiler := ⟨backend, .ofParts order.mode order.options⟩
      roots }

end Order

end PortableImage
