import PortableImage.Graph.Arena
/-!
# Expansions

To expand a node is to find out what it needs: some targets always, others only once a guard node
has come far enough.  Expanding may create nodes, move the work on them forward and raise the
cancellation flag; all it can reach is its `Site`.
-/

namespace PortableImage.Graph

/-- A target that is always needed. -/
structure Dependency where
  target : Handle
  reason : String
  deriving DecidableEq

/-- A target that is needed once the work on the guard has come far enough. -/
structure GuardedDependency where
  target : Handle
  guard : Handle
  threshold : Progress
  reason : String
  deriving DecidableEq

structure Expansion where
  always : List Dependency := []
  guarded : List GuardedDependency := []
  deriving DecidableEq

namespace Expansion

def isEmpty (expansion : Expansion) : Bool :=
  expansion.always.isEmpty && expansion.guarded.isEmpty

end Expansion

/-- What expanding a node may read and change. -/
structure Site (κ σ : Type) where
  arena : Arena κ
  cancelled : Bool := false
  store : σ

abbrev Expander (κ σ ε : Type) := Handle → ExceptT ε (StateM (Site κ σ)) Expansion

end PortableImage.Graph
