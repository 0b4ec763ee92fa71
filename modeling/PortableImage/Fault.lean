import PortableImage.Artifact.Key
import PortableImage.Graph.Progress
import PortableImage.Root
/-!
# Faults

Everything that can go wrong, by cause.  The wording of a fault is `Fault.message`; no other part of
the library puts such a text together.  `Fault.requestedBy` adds to a reference that could not be
resolved the artifact that needed it, once.
-/

namespace PortableImage

open PortableImage.Graph (Handle)

/-- What is wrong with the order for a session. -/
inductive ConfigurationFault
  | unknownMode (name : String)
  | inputOutsideBubble (path : String)
  | noBackend
  | noWorkers
  | unknownRoot (root : Root)
  | reported (text : String)
  deriving DecidableEq

namespace ConfigurationFault

def message : ConfigurationFault → String
  | unknownMode name => "unknown optimization mode '" ++ name ++ "'"
  | inputOutsideBubble path =>
    "Input module " ++ path ++ " is not part of the compilation group"
  | noBackend => "No code generation backend was supplied"
  | noWorkers => "Parallelism must be at least 1"
  | unknownRoot root =>
    "Root " ++ root.detail ++ " does not name a known entity of the compilation group"
  | reported text => text

end ConfigurationFault

/-- Why a method has no code. -/
inductive CodeFault
  | noBody
  | relocationOutside (offset : UInt32) (size : Nat)
  | reported (text : String)
  deriving DecidableEq

namespace CodeFault

def message : CodeFault → String
  | noBody => "no method body available"
  | relocationOutside offset size =>
    "relocation at offset " ++ toString offset.toNat ++ " exceeds code size " ++ toString size
  | reported text => text

end CodeFault

/-- What does not fit in the graph of artifacts. -/
inductive GraphFault
  | unknownNode (node : Handle)
  | notMethodCode (node : Handle)
  | neverCompiled (key : ArtifactKey)
  | relocationOutside (key : ArtifactKey) (offset : UInt32) (size : Nat)
  | relocationToUnmarked (key : ArtifactKey) (offset : UInt32) (node : Handle)
  | reported (text : String)
  deriving DecidableEq

namespace GraphFault

def message : GraphFault → String
  | unknownNode node => "Unknown node " ++ node.render
  | notMethodCode node => node.render ++ " is not a method code node"
  | neverCompiled key => key.render ++ " was marked but never compiled"
  | relocationOutside key offset size =>
    "Relocation in " ++ key.render ++ " at offset " ++ toString offset.toNat ++
      " exceeds data size " ++ toString size
  | relocationToUnmarked key offset node =>
    "Relocation in " ++ key.render ++ " at offset " ++ toString offset.toNat ++
      " targets unmarked node " ++ node.render
  | reported text => text

end GraphFault

/-- What has no written form. -/
inductive EncodingFault
  | tooLarge (value : UInt32)
  | noTypeIndex (token : PortableToken)
  | noMethodIndex (token : PortableToken)
  | noField (token : PortableToken)
  | tooMany (count : Nat)
  | tooManyArguments (entity : Entity)
  | tableTooLarge (entries : Nat)
  | dataTooLong
  | reported (text : String)
  deriving DecidableEq

namespace EncodingFault

def message : EncodingFault → String
  | tooLarge value =>
    "Value 0x" ++ Hex.upper 8 value.toNat ++ " exceeds the compressed integer range"
  | noTypeIndex token => "Token " ++ token.render ++ " cannot be encoded as TypeDefOrRef"
  | noMethodIndex token => "Token " ++ token.render ++ " cannot be encoded as MethodDefOrRef"
  | noField token => "Token " ++ token.render ++ " does not name a field"
  | tooMany count => "Count " ++ toString count ++ " exceeds 32 bits"
  | tooManyArguments entity => "Too many generic arguments for " ++ entity.render
  | tableTooLarge entries => "Token table too large - " ++ toString entries ++ " entries"
  | dataTooLong => "Node data exceeds 4 GiB"
  | reported text => text

end EncodingFault

/-- Everything that can go wrong. -/
inductive Fault
  /-- The order for a session makes no sense. -/
  | configuration (cause : ConfigurationFault)
  /-- No registered module goes by this name. -/
  | moduleNotFound (module : String)
  /-- A module outside the bubble's definitions has no row for an entity it needs. -/
  | unresolvableReference (entity : Entity) (origin : ModuleIndex)
      (requester : Option ArtifactKey)
  | codegen (method : Entity) (cause : CodeFault)
  | backendFailure (text : String)
  | entityNotFound (entity : Entity)
  /-- A token does not name what was asked for. -/
  | invalidToken (token : Token)
  /-- The graph does not hold what an artifact needs. -/
  | graph (cause : GraphFault)
  /-- A session was asked for its image twice. -/
  | sessionConsumed
  | malformed (cause : EncodingFault)
  deriving DecidableEq

namespace Fault

def message : Fault → String
  | configuration cause => "Invalid configuration - " ++ cause.message
  | moduleNotFound module => "Module not found - " ++ module
  | unresolvableReference entity origin none =>
    "Unresolvable reference to " ++ entity.render ++ " from module " ++ origin.render
  | unresolvableReference entity origin (some requester) =>
    "Unresolvable reference to " ++ entity.render ++ " from module " ++ origin.render ++
      " (requested by " ++ requester.render ++ ")"
  | codegen method cause =>
    "Code generation failed for " ++ method.render ++ " - " ++ cause.message
  | backendFailure text => "Backend failure - " ++ text
  | entityNotFound entity => "Entity not found - " ++ entity.render
  | invalidToken token => "Invalid token - " ++ token.render
  | graph cause => cause.message
  | sessionConsumed => "Compilation session has already been emitted"
  | malformed cause => cause.message

/-- The fault with the artifact that needed an unresolvable reference, unless one is named. -/
def requestedBy (key : ArtifactKey) : Fault → Fault
  | unresolvableReference entity origin none => unresolvableReference entity origin (some key)
  | fault => fault

/-- The first requester stays. -/
@[simp] theorem requestedBy_requestedBy (first second : ArtifactKey) (fault : Fault) :
    (fault.requestedBy first).requestedBy second = fault.requestedBy first := by
  unfold requestedBy
  split <;> split <;> simp_all

end Fault

end PortableImage
